import Blockwork.Number.Shortest
import Mathlib

/-!
Rounding to doubles. A number is held as a mantissa with two bits that tell where behind the
mantissa it lies; shifting keeps this true, and rounding then finds the nearest double. The main
result is that every number in the interval of a double is rounded to it.
-/

namespace Blockwork

open Float.Model Float.Model.UnpackedFloat

/-- The numbers of an interval. -/
def Shortest.Interval.Contains (i : Interval) (v : ℚ) : Prop :=
  ((i.centre - i.below : ℚ) * 2 ^ i.place ≤ v ∧ v ≤ (i.centre + i.above : ℚ) * 2 ^ i.place) ∧
    (i.closed = false →
      (i.centre - i.below : ℚ) * 2 ^ i.place < v ∧ v < (i.centre + i.above : ℚ) * 2 ^ i.place)

namespace Rounding

/-! ### Mantissas with what follows them -/

/-- The number `v` lies behind the mantissa where the two bits say. -/
def Tells (em : ExtendedMantissa) (v : ℚ) : Prop :=
  match em.roundBit, em.stickyBit with
  | false, false => v = em.mantissa
  | false, true => em.mantissa < v ∧ v < em.mantissa + 1 / 2
  | true, false => v = em.mantissa + 1 / 2
  | true, true => em.mantissa + 1 / 2 < v ∧ v < em.mantissa + 1

variable {em : ExtendedMantissa} {v : ℚ}

lemma tells_exact (m : Nat) : Tells (.ofMantissaAndAccuracy m .exact) m := rfl

lemma mantissa_ofMantissaAndAccuracy (m : Nat) (acc : Accuracy) :
    (ExtendedMantissa.ofMantissaAndAccuracy m acc).mantissa = m := by
  rcases acc with _ | (_ | _ | _) <;> rfl

lemma Tells.bounds (h : Tells em v) : em.mantissa ≤ v ∧ v < em.mantissa + 1 := by
  obtain ⟨m, r, s⟩ := em
  cases r <;> cases s <;> simp only [Tells] at h ⊢ <;> constructor <;> linarith

lemma Tells.shiftRightOne (h : Tells em v) : Tells em.shiftRightOne (v / 2) := by
  obtain ⟨m, r, s⟩ := em
  obtain ⟨k, rfl | rfl⟩ := Nat.even_or_odd' m
  · have hk : 2 * k / 2 = k := by omega
    cases r <;> cases s <;>
      simp only [Tells, ExtendedMantissa.shiftRightOne, hk] at h ⊢ <;> push_cast at h <;>
      simp <;> (try constructor) <;> linarith
  · have hk : (2 * k + 1) / 2 = k := by omega
    have hodd : (2 * k + 1) % 2 = 1 := by omega
    cases r <;> cases s <;>
      simp only [Tells, ExtendedMantissa.shiftRightOne, hk, hodd] at h ⊢ <;> push_cast at h <;>
      simp <;> (try constructor) <;> linarith

lemma Tells.shiftRight (h : Tells em v) (n : Nat) : Tells (em >>> n) (v / 2 ^ n) := by
  change Tells (n.repeat ExtendedMantissa.shiftRightOne em) _
  induction n with
  | zero => simpa [Nat.repeat] using h
  | succ n ih =>
    rw [Nat.repeat, pow_succ, ← div_div]
    exact ih.shiftRightOne

/-- The natural `m` is the nearest to `v`; at a half the even one is. -/
def Nearest (v : ℚ) (m : Nat) : Prop :=
  (m - 1 / 2 ≤ v ∧ v ≤ m + 1 / 2) ∧ (m % 2 = 1 → m - 1 / 2 < v ∧ v < m + 1 / 2)

lemma le_of_cast_lt {a b : Nat} (h : (a : ℚ) < b + 1) : a ≤ b := by
  have hlt : a < b + 1 := by exact_mod_cast h
  omega

lemma Tells.roundedMantissa_eq (h : Tells em v) {m : Nat} (hm : Nearest v m) :
    em.roundedMantissa = m := by
  obtain ⟨k, r, s⟩ := em
  obtain ⟨⟨hlo, hhi⟩, hodd⟩ := hm
  cases r <;> cases s <;> simp only [Tells] at h <;>
    simp only [ExtendedMantissa.roundedMantissa, ExtendedMantissa.accuracy,
      Accuracy.roundToNearestEven]
  · exact le_antisymm (le_of_cast_lt (by linarith)) (le_of_cast_lt (by linarith))
  · exact le_antisymm (le_of_cast_lt (by linarith)) (le_of_cast_lt (by linarith))
  · -- halfway: the nearest is one of two, and an odd one is ruled out
    have hk : k ≤ m := le_of_cast_lt (by linarith)
    have hm : m ≤ k + 1 := le_of_cast_lt (by push_cast; linarith)
    have heven : m % 2 ≠ 1 := by
      intro hm1
      obtain ⟨hlo, hhi⟩ := hodd hm1
      obtain rfl | rfl : m = k ∨ m = k + 1 := by omega
      · linarith
      · push_cast at hlo
        linarith
    omega
  · exact le_antisymm (le_of_cast_lt (by push_cast; linarith))
      (le_of_cast_lt (by push_cast; linarith))

/-! ### Doubles -/

/-- A double other than zero, by its mantissa and exponent. -/
structure Canonical (m : Nat) (e : Int) : Prop where
  pos : 0 < m
  lt : m < 2 ^ 53
  ge : -1074 ≤ e
  le : e ≤ 971
  /-- Only the smallest doubles have a shorter mantissa. -/
  normal : 2 ^ 52 ≤ m ∨ e = -1074

lemma targetExponent_eq (t : Int) : Format.binary64.targetExponent t = max (t - 53) (-1074) := rfl

lemma Canonical.targetExponent_eq {m : Nat} {e : Int} (h : Canonical m e) :
    Format.binary64.targetExponent (totalExponent m e) = e := by
  rw [Rounding.targetExponent_eq, totalExponent]
  have hge := h.ge
  have hlt : m.log2 < 53 := (Nat.log2_lt h.pos.ne').2 h.lt
  rcases h.normal with hm | rfl
  · have hlog : 52 ≤ m.log2 := (Nat.le_log2 h.pos.ne').2 hm
    omega
  · omega

lemma shiftToExponent_of_le {m : Nat} {e t : Int} (h : e ≤ t) (acc : Accuracy) :
    shiftToExponent m e acc t =
      (ExtendedMantissa.ofMantissaAndAccuracy m acc >>> (t - e).toNat, t) := by
  simp only [shiftToExponent, Prod.mk.injEq, true_and]
  omega

/-- What rounding does once the mantissa is rounded: a carry is taken back. -/
def settle (s : Sign) (k : Nat) (t : Int) : UnpackedFloat :=
  let x := shiftToTargetExponent Format.binary64 k t .exact
  if h : x.1.mantissa = 0 then .zero s else .finite s x.1.mantissa x.2 (Nat.pos_of_ne_zero h)

lemma roundWithAccuracy_eq_settle (s : Sign) (k : Nat) (t : Int) (acc : Accuracy) :
    roundWithAccuracy Format.binary64 s k t acc =
      settle s (shiftToTargetExponent Format.binary64 k t acc).1.roundedMantissa
        (shiftToTargetExponent Format.binary64 k t acc).2 := rfl

lemma settle_of_shift {s : Sign} {k m : Nat} {t e : Int} (hc : Canonical m e)
    (h : (shiftToTargetExponent Format.binary64 k t .exact).1.mantissa = m ∧
      (shiftToTargetExponent Format.binary64 k t .exact).2 = e) :
    settle s k t = .finite s m e hc.pos := by
  obtain ⟨rfl, rfl⟩ := h
  exact dif_neg hc.pos.ne'

lemma settle_self {s : Sign} {m : Nat} {e : Int} (hc : Canonical m e) :
    settle s m e = .finite s m e hc.pos := by
  refine settle_of_shift hc ?_
  rw [shiftToTargetExponent, hc.targetExponent_eq, shiftToExponent_of_le le_rfl, Int.sub_self]
  exact ⟨rfl, rfl⟩

lemma settle_carry {s : Sign} {e : Int} (hc : Canonical (2 ^ 52) e) :
    settle s (2 ^ 53) (e - 1) = .finite s (2 ^ 52) e hc.pos := by
  refine settle_of_shift hc ?_
  have htarget : Format.binary64.targetExponent (totalExponent (2 ^ 53) (e - 1)) = e := by
    have hge := hc.ge
    rw [Rounding.targetExponent_eq, totalExponent, Nat.log2_two_pow]
    omega
  rw [shiftToTargetExponent, htarget, shiftToExponent_of_le (by omega),
    show (e - (e - 1)).toNat = 1 by omega]
  exact ⟨rfl, rfl⟩

/-! ### Intervals -/

/-- A power as a fraction of whole powers. -/
lemma zpow_eq_toNat {a : ℚ} (ha : a ≠ 0) (n : Int) : a ^ n = a ^ n.toNat / a ^ (-n).toNat := by
  rw [← zpow_natCast, ← zpow_natCast, ← zpow_sub₀ ha]
  congr 1
  omega

/-- How far an interval goes down, in quarters of the last place. -/
def below (m : Nat) (e : Int) : ℚ := if m = 2 ^ 52 ∧ -1074 < e then 1 else 2

lemma below_le (m : Nat) (e : Int) : below m e ≤ 2 := by
  unfold below
  split <;> norm_num

variable {m : Nat} {e : Int}

/-- The numbers of the interval of a double; its sign does not matter. -/
def Within (m : Nat) (e : Int) (v : ℚ) : Prop := (Shortest.interval ⟨false, m, e⟩).Contains v

lemma within_iff :
    Within m e v ↔
      ((4 * m - below m e) * 2 ^ (e - 2) ≤ v ∧ v ≤ (4 * m + 2) * 2 ^ (e - 2)) ∧
        (m % 2 = 1 → (4 * m - below m e) * 2 ^ (e - 2) < v ∧ v < (4 * m + 2) * 2 ^ (e - 2)) := by
  have hbelow : ((Shortest.interval ⟨false, m, e⟩).below : ℚ) = below m e := by
    simp only [Shortest.interval, below, Nat.pow_eq, Bool.and_eq_true, beq_iff_eq,
      decide_eq_true_eq, gt_iff_lt]
    split <;> norm_num
  have hclosed : (Shortest.interval ⟨false, m, e⟩).closed = false ↔ m % 2 = 1 := by
    simp [Shortest.interval]
  rw [Within, Shortest.Interval.Contains, hbelow, hclosed]
  simp [Shortest.interval]

/-- A power of two in quarters of the last place. -/
lemma two_zpow_eq {a e : Int} (n : Nat) (h : a = e - 2 + n) :
    (2 : ℚ) ^ a = 2 ^ n * 2 ^ (e - 2) := by
  rw [h, zpow_add₀ two_ne_zero, zpow_natCast, mul_comm]

lemma nearest_of_within (h : Within m e v) :
    Nearest (v / 2 ^ e) m := by
  obtain ⟨⟨hlo, hhi⟩, hodd⟩ := within_iff.1 h
  have hq : (0 : ℚ) < 2 ^ (e - 2) := by positivity
  have he : (2 : ℚ) ^ e = 2 ^ 2 * 2 ^ (e - 2) := two_zpow_eq 2 (by omega)
  have hb := below_le m e
  refine ⟨⟨?_, ?_⟩, fun hm => ⟨?_, ?_⟩⟩
  · rw [le_div_iff₀ (by positivity), he]
    nlinarith
  · rw [div_le_iff₀ (by positivity), he]
    nlinarith
  · rw [lt_div_iff₀ (by positivity), he]
    nlinarith [hodd hm]
  · rw [div_lt_iff₀ (by positivity), he]
    nlinarith [hodd hm]

/-- Below a power of two the last place is half as large. -/
lemma nearest_carry (he : -1074 < e) (h : Within (2 ^ 52) e v)
    (hv : v < 2 ^ (e + 52)) : Nearest (v / 2 ^ (e - 1)) (2 ^ 53) := by
  obtain ⟨⟨hlo, -⟩, -⟩ := within_iff.1 h
  have hq : (0 : ℚ) < 2 ^ (e - 2) := by positivity
  have he1 : (2 : ℚ) ^ (e - 1) = 2 ^ 1 * 2 ^ (e - 2) := two_zpow_eq 1 (by omega)
  have he52 : (2 : ℚ) ^ (e + 52) = 2 ^ 54 * 2 ^ (e - 2) := two_zpow_eq 54 (by omega)
  rw [below, if_pos ⟨rfl, he⟩] at hlo
  push_cast at hlo
  refine ⟨⟨?_, ?_⟩, fun hm => absurd hm (by decide)⟩
  · rw [le_div_iff₀ (by positivity), he1]
    push_cast
    linarith
  · rw [div_le_iff₀ (by positivity), he1]
    push_cast
    linarith

/-- The exponent that a number in the interval is shifted to: that of the double, or one less where
the double is a power of two and the number lies below it. -/
lemma target_cases (hc : Canonical m e) (h : Within m e v)
    {l T : Int} (hT : T = max (l - 52) (-1074)) (hlt : v < 2 ^ (l + 1))
    (hle : -1074 < T → 2 ^ l ≤ v) :
    T = e ∨ (T = e - 1 ∧ m = 2 ^ 52 ∧ v < 2 ^ (e + 52)) := by
  obtain ⟨⟨hlo, hhi⟩, -⟩ := within_iff.1 h
  have hq : (0 : ℚ) < 2 ^ (e - 2) := by positivity
  have hge := hc.ge
  have hm : (m : ℚ) + 1 ≤ 2 ^ 53 := by exact_mod_cast hc.lt
  rcases lt_trichotomy T e with hTe | rfl | hTe
  · -- the number lies below the power of two that the double starts at
    have hnormal : 2 ^ 52 ≤ m := by
      rcases hc.normal with h | rfl
      · exact h
      · omega
    have he52 : (2 : ℚ) ^ (e + 52) = 2 ^ 54 * 2 ^ (e - 2) := two_zpow_eq 54 (by omega)
    have hv : v < 2 ^ (e + 52) := by
      refine hlt.trans_le (zpow_le_zpow_right₀ (by norm_num) ?_)
      omega
    obtain rfl : m = 2 ^ 52 := by
      refine le_antisymm (le_of_cast_lt ?_) hnormal
      by_contra hge
      have hb := below_le m e
      push_cast at hge
      nlinarith
    refine .inr ⟨?_, rfl, hv⟩
    rw [below, if_pos ⟨rfl, by omega⟩] at hlo
    have he51 : (2 : ℚ) ^ (e + 51) = 2 ^ 53 * 2 ^ (e - 2) := two_zpow_eq 53 (by omega)
    have hl : (2 : ℚ) ^ (e + 51) < 2 ^ (l + 1) := by
      push_cast at hlo
      linarith
    have := (zpow_lt_zpow_iff_right₀ (by norm_num)).1 hl
    omega
  · exact .inl rfl
  · -- the number would lie above every double with this exponent
    exfalso
    have hl : (2 : ℚ) ^ (e + 53) ≤ 2 ^ l := zpow_le_zpow_right₀ (by norm_num) (by omega)
    have he53 : (2 : ℚ) ^ (e + 53) = 2 ^ 55 * 2 ^ (e - 2) := two_zpow_eq 55 (by omega)
    have hv := hle (by omega)
    nlinarith

/-- **Rounding finds the double**: every number in the interval of a double is rounded to it,
whatever mantissa and exponent it comes with, unless the exponent is too large to begin with. -/
lemma roundWithAccuracy_eq {s : Sign} {k : Nat} {t : Int} {acc : Accuracy} {w : ℚ}
    (hc : Canonical m e) (htell : Tells (.ofMantissaAndAccuracy k acc) w)
    (ht : t ≤ Format.binary64.targetExponent (totalExponent k t))
    (hin : Within m e (w * 2 ^ t)) :
    roundWithAccuracy Format.binary64 s k t acc = .finite s m e hc.pos := by
  generalize htarget : Format.binary64.targetExponent (totalExponent k t) = T at ht
  rw [roundWithAccuracy_eq_settle, shiftToTargetExponent, htarget, shiftToExponent_of_le ht]
  have hT : T = max ((k.log2 + t : Int) - 52) (-1074) := by
    rw [← htarget, targetExponent_eq, totalExponent]
    omega
  have hscale : w / 2 ^ (T - t).toNat = w * 2 ^ t / 2 ^ T := by
    have hsplit : (2 : ℚ) ^ T = 2 ^ t * 2 ^ (T - t).toNat := by
      rw [← zpow_natCast, ← zpow_add₀ two_ne_zero]
      congr 1
      omega
    rw [hsplit, mul_comm w, mul_div_mul_left _ _ (zpow_ne_zero _ two_ne_zero)]
  have hshift := htell.shiftRight (T - t).toNat
  rw [hscale] at hshift
  obtain ⟨hwlo, hwhi⟩ := htell.bounds
  rw [mantissa_ofMantissaAndAccuracy] at hwlo hwhi
  have hlt : w * 2 ^ t < 2 ^ ((k.log2 + t : Int) + 1) := by
    have hk : (k : ℚ) + 1 ≤ 2 ^ (k.log2 + 1) := by exact_mod_cast Nat.lt_log2_self
    rw [show ((k.log2 + t : Int) + 1) = t + (k.log2 + 1 : Nat) by omega,
      zpow_add₀ two_ne_zero, zpow_natCast, mul_comm]
    have hpos : (0 : ℚ) < 2 ^ t := by positivity
    nlinarith
  have hle : -1074 < T → 2 ^ (k.log2 + t : Int) ≤ w * 2 ^ t := by
    intro hT'
    have hk : (2 : ℚ) ^ k.log2 ≤ k := by
      have hk0 : k ≠ 0 := by
        rintro rfl
        simp at hT
        omega
      exact_mod_cast Nat.log2_self_le hk0
    rw [add_comm, zpow_add₀ two_ne_zero, zpow_natCast, mul_comm]
    have hpos : (0 : ℚ) < 2 ^ t := by positivity
    nlinarith
  rcases target_cases hc hin hT hlt hle with rfl | ⟨rfl, rfl, hv⟩
  · rw [hshift.roundedMantissa_eq (nearest_of_within hin), settle_self hc]
  · rw [hshift.roundedMantissa_eq (nearest_carry (by omega) hin hv), settle_carry hc]

end Rounding

end Blockwork
