import Blockwork.Proofs.Number.Layout
import Blockwork.Proofs.Value.Order

/-!
Doubles and the numbers they stand for. Every finite double is a rational; it is less than another
one exactly if its rational is, and its floor is a double too, the one that stands for the floor of
the rational. So a bound on a floor may be checked on integers.
-/

namespace Blockwork

open Float.Model Float.Model.UnpackedFloat Rounding

namespace Doubles

variable {x y : Float} {u v : UnpackedFloat} {m n : Nat} {e f : Int}

/-! ### The rational of a double -/

/-- The number that an unpacked double stands for; infinities and NaN stand for none. -/
def number : UnpackedFloat → ℚ
  | .finite .positive m e _ => m * 2 ^ e
  | .finite .negative m e _ => -(m * 2 ^ e)
  | _ => 0

/-- The unpacked finite doubles. -/
inductive Shape : UnpackedFloat → Prop
  | zero {s} : Shape (.zero s)
  | finite {s m e} (hc : Canonical m e) : Shape (.finite s m e hc.pos)

lemma shape_unpack (hx : x.isFinite = true) : Shape x.toModel.unpack := by
  rcases unpack_of_isFinite hx with ⟨-, hu⟩ | ⟨hc, hu⟩
  · exact hu ▸ .zero
  · exact hu ▸ .finite hc

lemma value_eq_number (hx : x.isFinite = true) :
    (Binary.ofFloat x).value = number x.toModel.unpack := by
  rcases unpack_of_isFinite hx with ⟨hm, hu⟩ | ⟨hc, hu⟩
  · rw [hu, Binary.value, hm]
    simp [number]
  · rw [hu, Binary.value, Binary.sign]
    cases (Binary.ofFloat x).negative <;> simp [number]

lemma Shape.isFinite (h : Shape u) : u.isFinite = true := by
  cases h <;> rfl

lemma isFinite_of_shape (h : Shape x.toModel.unpack) : x.isFinite = true := h.isFinite

lemma isNaN_of_shape (h : Shape u) : u.isNaN = false := by
  cases h <;> rfl

/-! ### Order -/

/-- Of two canonical mantissas the one with the greater exponent is the greater number. -/
lemma scaled_lt (hc : Canonical m e) (hd : Canonical n f) (h : e < f) :
    (m : ℚ) * 2 ^ e < n * 2 ^ f := by
  have hge := hc.ge
  -- only the smallest exponent has short mantissas
  have hn : 2 ^ 52 ≤ n := hd.normal.resolve_right (by omega)
  calc (m : ℚ) * 2 ^ e < 2 ^ 53 * 2 ^ e := by
        gcongr
        exact_mod_cast hc.lt
    _ = 2 ^ 52 * 2 ^ (e + 1) := by
        rw [zpow_add_one₀ two_ne_zero]
        ring
    _ ≤ n * 2 ^ f := by
        gcongr
        · exact_mod_cast hn
        · norm_num
        · omega

lemma compare_scaled (hc : Canonical m e) (hd : Canonical n f) :
    compare ((m : ℚ) * 2 ^ e) (n * 2 ^ f) = (compare e f).then (compare m n) := by
  rcases lt_trichotomy e f with h | rfl | h
  · rw [compare_lt_iff_lt.2 h, compare_lt_iff_lt.2 (scaled_lt hc hd h)]
    rfl
  · have hmono : StrictMono fun k : Nat => (k : ℚ) * 2 ^ e := fun a b hab => by
      have hlt : (a : ℚ) < b := by exact_mod_cast hab
      exact mul_lt_mul_of_pos_right hlt (by positivity)
    rw [compare_eq_iff_eq.2 (rfl : e = e), ← cmp_eq_compare, ← cmp_eq_compare]
    exact hmono.cmp_map_eq m n
  · rw [compare_gt_iff_gt.2 h, compare_gt_iff_gt.2 (scaled_lt hd hc h)]
    rfl

lemma compare_neg_rat (a b : ℚ) : compare (-a) (-b) = (compare a b).swap := by
  have hanti : StrictAnti fun a : ℚ => -a := fun _ _ h => neg_lt_neg h
  rw [← Std.OrientedOrd.eq_swap, ← cmp_eq_compare, ← cmp_eq_compare]
  exact hanti.cmp_map_eq a b

lemma compareRanks_eq (hu : Shape u) (hv : Shape v) :
    compareRanks (rank u) (rank v) = compare (number u) (number v) := by
  have hpos : ∀ {m e}, Canonical m e → (0 : ℚ) < m * 2 ^ e := fun hc => by
    have := hc.pos
    positivity
  cases hu with
  | zero =>
    cases hv with
    | zero => rfl
    | @finite s n f hd =>
      cases s with
      | positive => exact (compare_lt_iff_lt.2 (hpos hd)).symm
      | negative => exact (compare_gt_iff_gt.2 (neg_neg_of_pos (hpos hd))).symm
  | @finite s m e hc =>
    cases hv with
    | zero =>
      cases s with
      | positive => exact (compare_gt_iff_gt.2 (hpos hc)).symm
      | negative => exact (compare_lt_iff_lt.2 (neg_neg_of_pos (hpos hc))).symm
    | @finite t n f hd =>
      cases s with
      | positive =>
        cases t with
        | positive =>
          have h := compare_finite e f hc.pos hd.pos .positive
          exact (Option.some.inj h).symm.trans (compare_scaled hc hd).symm
        | negative =>
          exact (compare_gt_iff_gt.2 ((neg_neg_of_pos (hpos hd)).trans (hpos hc))).symm
      | negative =>
        cases t with
        | positive =>
          exact (compare_lt_iff_lt.2 ((neg_neg_of_pos (hpos hc)).trans (hpos hd))).symm
        | negative =>
          have h := compare_finite e f hc.pos hd.pos .negative
          change _ = compare (-((m : ℚ) * 2 ^ e)) (-(n * 2 ^ f))
          rw [compare_neg_rat, compare_scaled hc hd]
          exact (Option.some.inj h).symm

lemma lt_iff_compareRanks (hx : x.isNaN = false) (hy : y.isNaN = false) :
    x < y ↔ compareRanks (rank x.toModel.unpack) (rank y.toModel.unpack) = .lt := by
  have hcompare : x.toModel.unpack.compare y.toModel.unpack = _ := compare_eq_compareRanks hx hy
  have hlt : x < y ↔ (x.toModel.unpack.compare y.toModel.unpack == some .lt) = true :=
    decide_eq_true_iff
  rw [hlt, hcompare]
  simp

lemma le_iff_not_lt (hx : x.isNaN = false) (hy : y.isNaN = false) : x ≤ y ↔ ¬ y < x := by
  have hcompare : x.toModel.unpack.compare y.toModel.unpack = _ := compare_eq_compareRanks hx hy
  have hle : x ≤ y ↔ (x.toModel.unpack.compare y.toModel.unpack).any (·.isLE) = true :=
    decide_eq_true_iff
  rw [hle, hcompare, lt_iff_compareRanks hy hx, transCmp_ranks.eq_swap]
  cases compareRanks (rank y.toModel.unpack) (rank x.toModel.unpack) <;> simp

lemma lt_asymm (hx : x.isNaN = false) (hy : y.isNaN = false) (h : x < y) : ¬ y < x := by
  rw [lt_iff_compareRanks hx hy] at h
  rw [lt_iff_compareRanks hy hx, transCmp_ranks.eq_swap, h]
  simp

/-- **Finite doubles are ordered as their numbers.** -/
lemma lt_iff_value_lt (hx : x.isFinite = true) (hy : y.isFinite = true) :
    x < y ↔ (Binary.ofFloat x).value < (Binary.ofFloat y).value := by
  have hu := shape_unpack hx
  have hv := shape_unpack hy
  rw [lt_iff_compareRanks (isNaN_of_shape hu) (isNaN_of_shape hv), compareRanks_eq hu hv,
    compare_lt_iff_lt, value_eq_number hx, value_eq_number hy]

/-! ### Whole numbers with a sign -/

/-- A word with the fields of a canonical double is unpacked into it. -/
lemma unpack_ofBits (hc : Canonical m e) (negative : Bool) :
    (Float.ofBits (UInt64.ofNat ((if negative then 2 ^ 63 else 0) + field m e * 2 ^ 52 +
      m % 2 ^ 52))).toModel.unpack =
      .finite (if negative then .negative else .positive) m e hc.pos := by
  generalize hw : (if negative then 2 ^ 63 else 0) + field m e * 2 ^ 52 + m % 2 ^ 52 = w
  have hfield := field_lt hc
  have hlt : w < 2 ^ 64 := by
    split at hw <;> omega
  let b : BitVec Format.binary64.numBits := (UInt64.ofNat w).toBitVec
  have hword : b.toNat = w := UInt64.toNat_ofNat_of_lt hlt
  have hsign : unpackSign b = (if negative then Sign.negative else .positive).toBitVec := by
    refine BitVec.eq_of_toNat_eq ?_
    rw [toNat_sign, hword]
    cases negative
    · change _ = 0
      simp only [Bool.false_eq_true, if_false] at hw
      omega
    · change _ = 1
      simp only [if_true] at hw
      omega
  have hexponent : unpackExponent b = BitVec.ofNat 11 (field m e) := by
    refine BitVec.eq_of_toNat_eq ?_
    rw [toNat_exponent, hword]
    change _ = field m e % 2 ^ 11
    split at hw <;> omega
  have hmantissa : unpackMantissa b = BitVec.ofNat 52 m := by
    refine BitVec.eq_of_toNat_eq ?_
    rw [toNat_mantissa, hword]
    change _ = m % 2 ^ 52
    split at hw <;> omega
  change (Float.Model.pack (UnpackedFloat.unpack Format.binary64 b)).unpack = _
  rw [unpack_eq_compose, hsign, hexponent, hmantissa, ofBitVec_toBitVec, compose_finite hc,
    unpack_pack hc]

lemma toFloat_eq_ofBits (h0 : 0 < n) (h : n < 2 ^ 53) (negative : Bool) :
    Number.signed negative n =
      Float.ofBits (UInt64.ofNat ((if negative then 2 ^ 63 else 0) +
        field (n * 2 ^ (52 - n.log2)) (n.log2 - 52) * 2 ^ 52 + n * 2 ^ (52 - n.log2) % 2 ^ 52)) := by
  have hlog : n.log2 < 53 := (Nat.log2_lt h0.ne').2 h
  have hne : (n == 0) = false := beq_false_of_ne h0.ne'
  have hplace : max ((0 : Int) + n.log2 - 52) (-1074) = n.log2 - 52 := by omega
  have hle : ((n.log2 : Int) - 52) ≤ 0 := by omega
  have hshift : ((0 : Int) - (n.log2 - 52)).toNat = 52 - n.log2 := by omega
  simp only [Number.signed, Binary.toFloat, hne, hplace, if_pos hle, hshift, Nat.pow_eq, field,
    Bool.false_eq_true, if_false]

lemma signed_spec (h : n < 2 ^ 53) (negative : Bool) :
    (Number.signed negative n).isFinite = true ∧
      (Binary.ofFloat (Number.signed negative n)).value = (if negative then -1 else 1) * n := by
  rcases Nat.eq_zero_or_pos n with rfl | h0
  · have hu : (Number.signed negative 0).toModel.unpack =
        .zero (if negative then .negative else .positive) := by
      cases negative <;> rfl
    have hfin : (Number.signed negative 0).isFinite = true := isFinite_of_shape (hu ▸ .zero)
    exact ⟨hfin, by rw [value_eq_number hfin, hu]; simp [number]⟩
  · have hc := canonical_whole h0 h
    have hu := unpack_ofBits hc negative
    rw [← toFloat_eq_ofBits h0 h] at hu
    have hfin : (Number.signed negative n).isFinite = true :=
      isFinite_of_shape (hu ▸ .finite hc)
    refine ⟨hfin, ?_⟩
    rw [value_eq_number hfin, hu, ← value_whole h0 h]
    cases negative <;> simp [number]

lemma ofNat_spec (h : n ≤ 2 ^ 53) :
    (Float.ofNat n).isFinite = true ∧ (Binary.ofFloat (Float.ofNat n)).value = n := by
  rcases h.lt_or_eq with h | rfl
  · exact (isWhole_ofNat h).value h
  · have hc : Canonical (2 ^ 52) 1 := ⟨by norm_num, by norm_num, by norm_num, by norm_num, by norm_num⟩
    have hu : (Float.ofNat (2 ^ 53)).toModel.unpack =
        .finite .positive (2 ^ 52) 1 (by norm_num) := by
      rfl
    have hfin : (Float.ofNat (2 ^ 53)).isFinite = true := isFinite_of_shape (hu ▸ .finite hc)
    refine ⟨hfin, ?_⟩
    rw [value_eq_number hfin, hu]
    norm_num [number]

lemma zero_spec : (0 : Float).isFinite = true ∧ (Binary.ofFloat 0).value = 0 :=
  ofNat_spec (n := 0) (by decide)

lemma one_spec : (1 : Float).isFinite = true ∧ (Binary.ofFloat 1).value = 1 := by
  exact_mod_cast ofNat_spec (n := 1) (by decide)

end Doubles

namespace Number

variable {x : Float}

/-! ### Floors -/

lemma quotient_eq (b : Binary) : (b.numerator : ℚ) / b.denominator = b.mantissa * 2 ^ b.exponent := by
  rw [Binary.numerator, Binary.denominator, zpow_eq_toNat two_ne_zero b.exponent]
  push_cast [Nat.pow_eq]
  ring

lemma denominator_pos (b : Binary) : 0 < b.denominator := Nat.pow_pos two_pos

/-- The floor of a quotient with a sign, by quotient and remainder. -/
lemma floor_quotient (negative : Bool) (k : Nat) {d : Nat} (hd : 0 < d) :
    ⌊(if negative then -1 else 1) * ((k : ℚ) / d)⌋ =
      (if negative then -1 else 1) *
        ((if negative && k % d != 0 then k / d + 1 else k / d : Nat) : Int) := by
  have hd' : (0 : ℚ) < d := by exact_mod_cast hd
  have hk : (k : ℚ) = d * (k / d : Nat) + (k % d : Nat) := by
    exact_mod_cast (Nat.div_add_mod k d).symm
  have hlt : ((k % d : Nat) : ℚ) < d := by exact_mod_cast Nat.mod_lt k hd
  generalize k / d = q at *
  generalize k % d = r at *
  have hr : (0 : ℚ) ≤ r := r.cast_nonneg
  cases negative with
  | false =>
    simp only [Bool.false_and, Bool.false_eq_true, if_false, one_mul]
    rw [Int.floor_eq_iff, le_div_iff₀ hd', div_lt_iff₀ hd']
    constructor <;> push_cast <;> linarith
  | true =>
    simp only [Bool.true_and, if_true, neg_one_mul]
    rw [Int.floor_eq_iff, ← neg_div, le_div_iff₀ hd', div_lt_iff₀ hd']
    rcases Nat.eq_zero_or_pos r with rfl | hpos
    · simp only [bne_self_eq_false, Bool.false_eq_true, if_false]
      push_cast at hk ⊢
      constructor <;> linarith
    · have hpos' : (0 : ℚ) < r := by exact_mod_cast hpos
      simp only [bne_iff_ne.2 hpos.ne', if_true]
      push_cast
      constructor <;> linarith

/-- The mantissa of a double fits, so does a floor that has lost at least one place. -/
lemma floor_magnitude_lt (hx : x.isFinite = true) (he : (Binary.ofFloat x).exponent < 0) :
    (Binary.ofFloat x).wholePart + 1 < 2 ^ 53 := by
  have hm : (Binary.ofFloat x).mantissa < 2 ^ 53 := by
    rcases Doubles.unpack_of_isFinite hx with ⟨hm, -⟩ | ⟨hc, -⟩
    · omega
    · exact hc.lt
  have hd : 2 ≤ (Binary.ofFloat x).denominator := by
    rw [Binary.denominator, Nat.pow_eq]
    calc 2 = 2 ^ 1 := rfl
      _ ≤ 2 ^ (-(Binary.ofFloat x).exponent).toNat := Nat.pow_le_pow_right two_pos (by omega)
  have hn : (Binary.ofFloat x).numerator = (Binary.ofFloat x).mantissa := by
    rw [Binary.numerator, Int.toNat_of_nonpos he.le]
    exact Nat.mul_one _
  have hle : (Binary.ofFloat x).wholePart ≤ (Binary.ofFloat x).mantissa / 2 := by
    rw [Binary.wholePart, hn]
    exact Nat.div_le_div_left hd two_pos
  omega

/-- **The floor of a double is the floor of its number.** -/
lemma floor_spec (hx : x.isFinite = true) :
    (floor x).isFinite = true ∧
      (Binary.ofFloat (floor x)).value = ⌊(Binary.ofFloat x).value⌋ := by
  unfold floor onFraction
  rw [if_pos hx]
  by_cases he : (Binary.ofFloat x).exponent < 0
  · have hlt := floor_magnitude_lt hx he
    have hvalue : (Binary.ofFloat x).value = (if (Binary.ofFloat x).negative then -1 else 1) *
        ((Binary.ofFloat x).numerator / (Binary.ofFloat x).denominator) := by
      rw [Binary.value, quotient_eq]
    rw [hvalue, floor_quotient _ _ (denominator_pos _)]
    simp only [if_pos he, Binary.wholePart] at hlt ⊢
    generalize hk : (if (Binary.ofFloat x).negative && (Binary.ofFloat x).numerator %
      (Binary.ofFloat x).denominator != 0 then (Binary.ofFloat x).numerator /
      (Binary.ofFloat x).denominator + 1 else (Binary.ofFloat x).numerator /
      (Binary.ofFloat x).denominator) = k
    obtain ⟨hfin, hspec⟩ := Doubles.signed_spec (n := k) (by split at hk <;> omega)
      (Binary.ofFloat x).negative
    refine ⟨hfin, hspec.trans ?_⟩
    push_cast
    rfl
  · -- without a fraction the number is its own floor
    have hwhole : (2 : ℚ) ^ (Binary.ofFloat x).exponent =
        (2 ^ (Binary.ofFloat x).exponent.toNat : Int) := by
      rw [zpow_eq_toNat two_ne_zero, Int.toNat_of_nonpos (by omega : -(Binary.ofFloat x).exponent ≤ 0)]
      push_cast
      ring
    have hvalue : (Binary.ofFloat x).value =
        (((if (Binary.ofFloat x).negative then -1 else 1) *
          ((Binary.ofFloat x).mantissa * 2 ^ (Binary.ofFloat x).exponent.toNat) : Int) : ℚ) := by
      rw [Binary.value, hwhole]
      cases (Binary.ofFloat x).negative <;> push_cast <;> ring
    simp only [if_neg he]
    refine ⟨hx, ?_⟩
    rw [hvalue, Int.floor_intCast]

/-- A double that is a whole number becomes this number. -/
lemma toNat_eq {k : Nat} (hx : x.isFinite = true) (h : (Binary.ofFloat x).value = k) :
    toNat x = k := by
  have hd : ((Binary.ofFloat x).denominator : ℚ) ≠ 0 := by
    exact_mod_cast (denominator_pos (Binary.ofFloat x)).ne'
  rw [toNat, if_pos hx, Binary.truncate, Binary.wholePart]
  rw [Binary.value, ← quotient_eq] at h
  cases hneg : (Binary.ofFloat x).negative with
  | false =>
    rw [hneg] at h
    simp only [Bool.false_eq_true, if_false, one_mul] at h ⊢
    rw [div_eq_iff hd] at h
    have h' : (Binary.ofFloat x).numerator = k * (Binary.ofFloat x).denominator := by exact_mod_cast h
    rw [h', Nat.mul_div_cancel _ (denominator_pos _), Int.toNat_natCast]
  | true =>
    -- only the zero has a sign and is a natural number
    rw [hneg] at h
    simp only [if_true, neg_one_mul] at h ⊢
    have hk : (0 : ℚ) ≤ k := by positivity
    have hnonneg : (0 : ℚ) ≤ (Binary.ofFloat x).numerator / (Binary.ofFloat x).denominator := by
      positivity
    have hk0 : (k : ℚ) = 0 := by linarith
    have hk0' : k = 0 := by exact_mod_cast hk0
    rw [hk0', Int.toNat_of_nonpos (neg_nonpos.2 (Int.natCast_nonneg _))]

/-! ### What is not finite -/

variable {y : Float}

lemma rank_infinity_lt (hy : y.isFinite = true) :
    Doubles.compareRanks (Doubles.rank (.infinity .negative)) (Doubles.rank y.toModel.unpack) = .lt ∧
      Doubles.compareRanks (Doubles.rank y.toModel.unpack) (Doubles.rank (.infinity .positive)) =
        .lt := by
  have hv := Doubles.shape_unpack hy
  revert hv
  generalize y.toModel.unpack = v
  intro hv
  cases hv with
  | zero => exact ⟨rfl, rfl⟩
  | @finite s => cases s <;> exact ⟨rfl, rfl⟩

/-- A double that is neither NaN nor finite lies beyond all finite ones and is its own floor. -/
lemma bounds_of_not_isFinite (hnan : x.isNaN = false) (hfin : x.isFinite = false) :
    floor x = x ∧ ((∀ y : Float, y.isFinite = true → x < y) ∨
      ∀ y : Float, y.isFinite = true → y < x) := by
  refine ⟨by rw [floor, onFraction, hfin]; rfl, ?_⟩
  have hlt : ∀ {a b : Float}, a.isNaN = false → b.isNaN = false → _ := @Doubles.lt_iff_compareRanks
  have hfinite : x.toModel.unpack.isFinite = false := hfin
  have hnumber : x.toModel.unpack.isNaN = false := hnan
  cases hu : x.toModel.unpack with
  | notANumber => exact absurd (hu ▸ hnumber) (by decide)
  | zero | finite =>
    rw [hu] at hfinite
    cases hfinite
  | infinity s =>
    cases s with
    | negative =>
      refine .inl fun y hy => ?_
      rw [hlt hnan (isNaN_eq_false_of_isFinite hy).1, hu]
      exact (rank_infinity_lt hy).1
    | positive =>
      refine .inr fun y hy => ?_
      rw [hlt (isNaN_eq_false_of_isFinite hy).1 hnan, hu]
      exact (rank_infinity_lt hy).2

/-! ### Counting -/

lemma compare_of_isNaN (hx : x.isNaN = true) (u : UnpackedFloat) : u.compare x.toModel.unpack = none := by
  have hunpack : x.toModel.unpack = .notANumber := by
    have h : x.toModel.unpack.isNaN = true := hx
    cases hu : x.toModel.unpack <;> rw [hu] at h <;> first | rfl | cases h
  rw [hunpack]
  cases u <;> rfl

lemma not_le_of_isNaN (hx : x.isNaN = true) (y : Float) : ¬ y ≤ x := by
  have hle : y ≤ x ↔ (y.toModel.unpack.compare x.toModel.unpack).any (·.isLE) = true :=
    decide_eq_true_iff
  rw [hle, compare_of_isNaN hx]
  simp

lemma not_lt_of_isNaN (hx : x.isNaN = true) (y : Float) : ¬ y < x := by
  have hlt : y < x ↔ (y.toModel.unpack.compare x.toModel.unpack == some .lt) = true :=
    decide_eq_true_iff
  rw [hlt, compare_of_isNaN hx]
  simp

/-- A double below zero becomes zero. -/
lemma toNat_of_neg (hx : x.isFinite = true) (h : (Binary.ofFloat x).value < 0) : toNat x = 0 := by
  have hneg : (Binary.ofFloat x).negative = true := by
    by_contra hpos
    rw [Binary.value, if_neg hpos] at h
    have hnonneg : (0 : ℚ) ≤ 1 * (Binary.ofFloat x).mantissa * 2 ^ (Binary.ofFloat x).exponent := by
      positivity
    linarith
  rw [toNat, if_pos hx, Binary.truncate, if_pos hneg,
    Int.toNat_of_nonpos (neg_nonpos.2 (Int.natCast_nonneg _))]

/-- A double counts like the natural number that it becomes: it is one at least if this is, and then it is
reached by the naturals that are not below this. -/
def Counts (x : Float) : Prop :=
  (1 ≤ x ↔ 1 ≤ toNat x) ∧ (1 ≤ x → ∀ k ≤ 2 ^ 53, x ≤ Float.ofNat k ↔ toNat x ≤ k)

lemma counts_of_not_le (h : ¬ 1 ≤ x) (hnat : toNat x = 0) : Counts x := by
  refine ⟨?_, fun hone => absurd hone h⟩
  simp [h, hnat]

/-- A finite double without a fraction is compared by its value. -/
lemma counts_of_isFinite {z : ℤ} (hx : x.isFinite = true) (hz : (Binary.ofFloat x).value = z) :
    Counts x := by
  have hle : ∀ {a b : Float}, a.isFinite = true → b.isFinite = true →
      (a ≤ b ↔ (Binary.ofFloat a).value ≤ (Binary.ofFloat b).value) := by
    intro a b ha hb
    rw [Doubles.le_iff_not_lt (isNaN_eq_false_of_isFinite ha).1 (isNaN_eq_false_of_isFinite hb).1,
      Doubles.lt_iff_value_lt hb ha, not_lt]
  have hnat : toNat x = z.toNat := by
    rcases lt_or_ge z 0 with hneg | hpos
    · rw [Int.toNat_of_nonpos hneg.le]
      exact toNat_of_neg hx (by rw [hz]; exact_mod_cast hneg)
    · refine toNat_eq hx ?_
      rw [hz]
      exact_mod_cast (Int.toNat_of_nonneg hpos).symm
  unfold Counts
  rw [hnat, hle Doubles.one_spec.1 hx, Doubles.one_spec.2, hz]
  refine ⟨by norm_cast; omega, fun _ k hk => ?_⟩
  obtain ⟨hkfin, hkvalue⟩ := Doubles.ofNat_spec hk
  rw [hle hx hkfin, hz, hkvalue]
  norm_cast
  omega

/-- The infinity below all numbers counts like zero. -/
lemma counts_of_below (hnan : x.isNaN = false) (hfin : x.isFinite = false)
    (hbelow : ∀ y : Float, y.isFinite = true → x < y) : Counts x := by
  have hzero : ¬ 0 < x :=
    Doubles.lt_asymm hnan (isNaN_eq_false_of_isFinite Doubles.zero_spec.1).1 (hbelow 0 Doubles.zero_spec.1)
  refine counts_of_not_le ?_ (by simp [toNat, hfin, hzero])
  rw [Doubles.le_iff_not_lt (isNaN_eq_false_of_isFinite Doubles.one_spec.1).1 hnan, not_not]
  exact hbelow 1 Doubles.one_spec.1

/-- The infinity above all numbers is reached by none. -/
lemma counts_of_above (hnan : x.isNaN = false) (hfin : x.isFinite = false)
    (habove : ∀ y : Float, y.isFinite = true → y < x) : Counts x := by
  have hnat : toNat x = 2 ^ 64 - 1 := by simp [toNat, hfin, habove 0 Doubles.zero_spec.1]
  have hone : 1 ≤ x := by
    rw [Doubles.le_iff_not_lt (isNaN_eq_false_of_isFinite Doubles.one_spec.1).1 hnan]
    exact Doubles.lt_asymm (isNaN_eq_false_of_isFinite Doubles.one_spec.1).1 hnan (habove 1 Doubles.one_spec.1)
  unfold Counts
  rw [hnat]
  refine ⟨by simp [hone], fun _ k hk => ?_⟩
  have hkfin := (Doubles.ofNat_spec hk).1
  rw [Doubles.le_iff_not_lt hnan (isNaN_eq_false_of_isFinite hkfin).1]
  exact ⟨fun h => absurd (habove _ hkfin) h, fun h => by omega⟩

/-- **Floors count like natural numbers**, those that are no numbers included. -/
lemma counts_floor (x : Float) : Counts (floor x) := by
  cases hfin : x.isFinite with
  | true =>
    obtain ⟨hfloor, hz⟩ := floor_spec hfin
    exact counts_of_isFinite hfloor hz
  | false =>
    have hsame : floor x = x := by
      rw [floor, onFraction, hfin]
      rfl
    rw [hsame]
    cases hnan : x.isNaN with
    | true =>
      refine counts_of_not_le (not_le_of_isNaN hnan 1) ?_
      simp [toNat, hfin, not_lt_of_isNaN hnan]
    | false =>
      rcases (bounds_of_not_isFinite hnan hfin).2 with hbelow | habove
      · exact counts_of_below hnan hfin hbelow
      · exact counts_of_above hnan hfin habove

end Number

end Blockwork
