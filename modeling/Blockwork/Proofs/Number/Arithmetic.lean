import Blockwork.Proofs.Number.Doubles

/-!
Arithmetic on doubles. A result is the double whose interval the exact result lies in; so products,
sums and quotients of whole numbers are exact where they are doubles, and a decimal is read as the
double whose interval it lies in.
-/

namespace Blockwork

open Float.Model Float.Model.UnpackedFloat Rounding

namespace Rounding

variable {m : Nat} {e : Int} {s s₁ s₂ : Sign}

/-! ### Operations -/

lemma within_self (m : Nat) (e : Int) :
    Within m e (m * 2 ^ e) := by
  have hq : (0 : ℚ) < 2 ^ (e - 2) := by positivity
  have he : (2 : ℚ) ^ e = 2 ^ 2 * 2 ^ (e - 2) := two_zpow_eq 2 (by omega)
  have hb : 0 < below m e := by
    unfold below
    split <;> norm_num
  rw [within_iff, he]
  exact ⟨⟨by nlinarith, by nlinarith⟩, fun _ => ⟨by nlinarith, by nlinarith⟩⟩

lemma log2_shiftLeft {k : Nat} (hk : 0 < k) (n : Nat) : (k <<< n).log2 = k.log2 + n := by
  have hlo := Nat.log2_self_le hk.ne'
  have hhi := @Nat.lt_log2_self k
  rw [Nat.shiftLeft_eq, Nat.log2_eq_iff (by positivity)]
  constructor
  · rw [pow_add]
    gcongr
  · rw [show k.log2 + n + 1 = k.log2 + 1 + n by omega, pow_add _ (k.log2 + 1)]
    gcongr

/-- Shifting the mantissa one way and the exponent the other keeps the value. -/
lemma value_shiftLeft (k n : Nat) (t : Int) :
    ((k <<< n : Nat) : ℚ) * 2 ^ (t - n) = k * 2 ^ t := by
  rw [Nat.shiftLeft_eq, zpow_sub₀ two_ne_zero, zpow_natCast]
  push_cast
  field_simp

/-- Rounding brings the exponent down first where that is needed. -/
lemma round_eq (hc : Canonical m e) {k : Nat} {t : Int} (hk : 0 < k)
    (hin : Within m e (k * 2 ^ t)) :
    UnpackedFloat.round Format.binary64 s k t = .finite s m e hc.pos := by
  generalize htarget : Format.binary64.targetExponent (totalExponent k t) = T
  generalize hn : (t - T).toNat = n
  have hround : UnpackedFloat.round Format.binary64 s k t =
      roundWithAccuracy Format.binary64 s (k <<< n) (t - n) .exact := by
    simp only [UnpackedFloat.round, decreaseExponent, htarget, hn]
  rw [← value_shiftLeft k n] at hin
  rw [hround]
  refine roundWithAccuracy_eq hc (tells_exact _) ?_ hin
  rw [targetExponent_eq, totalExponent] at htarget ⊢
  rw [log2_shiftLeft hk]
  push_cast
  omega

lemma mul_eq (hc : Canonical m e) {m₁ m₂ : Nat} {e₁ e₂ : Int} {h₁ : 0 < m₁} {h₂ : 0 < m₂}
    (hbig : 2 ^ 52 ≤ m₁ * m₂)
    (hin : Within m e (m₁ * 2 ^ e₁ * (m₂ * 2 ^ e₂))) :
    UnpackedFloat.mul Format.binary64 (.finite s₁ m₁ e₁ h₁) (.finite s₂ m₂ e₂ h₂) =
      .finite (s₁ * s₂) m e hc.pos := by
  have hvalue : (m₁ * 2 ^ e₁ * (m₂ * 2 ^ e₂) : ℚ) = ((m₁ * m₂ : Nat) : ℚ) * 2 ^ (e₁ + e₂) := by
    rw [zpow_add₀ two_ne_zero]
    push_cast
    ring
  rw [hvalue] at hin
  refine roundWithAccuracy_eq hc (tells_exact _) ?_ hin
  have hlog : 52 ≤ (m₁ * m₂).log2 := (Nat.le_log2 (by positivity)).2 hbig
  rw [targetExponent_eq, totalExponent]
  omega

/-- The accuracy of a quotient that was rounded down. -/
lemma tells_div (k : Nat) {d : Nat} (hd : 0 < d) :
    Tells (.ofMantissaAndAccuracy (k / d) (accuracyOfFraction (k % d) d)) ((k : ℚ) / d) := by
  have hd' : (0 : ℚ) < d := by exact_mod_cast hd
  have hlt := Nat.mod_lt k hd
  have hkd : (k : ℚ) / d = (k / d : Nat) + (k % d : Nat) / d := by
    rw [div_eq_iff hd'.ne', add_mul, div_mul_cancel₀ _ hd'.ne']
    exact_mod_cast (Nat.div_add_mod' k d).symm
  rw [hkd]
  unfold accuracyOfFraction
  split
  · next h => simp [Tells, ExtendedMantissa.ofMantissaAndAccuracy, h]
  · next h =>
    have hpos : (0 : ℚ) < (k % d : Nat) / d :=
      div_pos (by exact_mod_cast Nat.pos_of_ne_zero h) hd'
    have hlt' : ((k % d : Nat) : ℚ) / d < 1 := (div_lt_one hd').2 (by exact_mod_cast hlt)
    rcases lt_trichotomy (2 * (k % d)) d with hcmp | hcmp | hcmp
    · have hhalf : ((k % d : Nat) : ℚ) / d < 1 / 2 := by
        rw [div_lt_div_iff₀ hd' two_pos]
        exact_mod_cast (by omega : k % d * 2 < 1 * d)
      rw [Nat.compare_eq_lt.2 hcmp]
      simp only [Tells, ExtendedMantissa.ofMantissaAndAccuracy]
      exact ⟨by linarith, by linarith⟩
    · have hhalf : ((k % d : Nat) : ℚ) / d = 1 / 2 := by
        rw [div_eq_div_iff hd'.ne' two_ne_zero]
        exact_mod_cast (by omega : k % d * 2 = 1 * d)
      rw [Nat.compare_eq_eq.2 hcmp, hhalf]
      rfl
    · have hhalf : 1 / 2 < ((k % d : Nat) : ℚ) / d := by
        rw [div_lt_div_iff₀ two_pos hd']
        exact_mod_cast (by omega : 1 * d < k % d * 2)
      rw [Nat.compare_eq_gt.2 hcmp]
      simp only [Tells, ExtendedMantissa.ofMantissaAndAccuracy]
      exact ⟨by linarith, by linarith⟩

/-- A quotient has at most one bit less than the lengths let expect. -/
lemma log2_div_ge {k d : Nat} (hk : 0 < k) (hd : 0 < d) :
    k.log2 ≤ (k / d).log2 + d.log2 + 1 := by
  have hlt : 2 ^ k.log2 < 2 ^ ((k / d).log2 + 1 + (d.log2 + 1)) := by
    calc 2 ^ k.log2 ≤ k := Nat.log2_self_le hk.ne'
      _ < (k / d + 1) * d := by
        have := Nat.div_add_mod' k d
        have := Nat.mod_lt k hd
        nlinarith
      _ ≤ 2 ^ ((k / d).log2 + 1) * 2 ^ (d.log2 + 1) :=
        Nat.mul_le_mul Nat.lt_log2_self Nat.lt_log2_self.le
      _ = _ := (pow_add _ _ _).symm
  have := (Nat.pow_lt_pow_iff_right (by decide)).1 hlt
  omega

lemma div_eq (hc : Canonical m e) {m₁ m₂ : Nat} {e₁ e₂ : Int} {h₁ : 0 < m₁} {h₂ : 0 < m₂}
    (hin : Within m e (m₁ * 2 ^ e₁ / (m₂ * 2 ^ e₂))) :
    UnpackedFloat.div Format.binary64 (.finite s₁ m₁ e₁ h₁) (.finite s₂ m₂ e₂ h₂) =
      .finite (s₁ / s₂) m e hc.pos := by
  generalize htarget : min (e₁ - e₂) (Format.binary64.targetExponent
    (totalExponent m₁ e₁ - totalExponent m₂ e₂)) = T
  generalize hn : (e₁ - e₂ - T).toNat = n
  have hdiv : UnpackedFloat.div Format.binary64 (.finite s₁ m₁ e₁ h₁) (.finite s₂ m₂ e₂ h₂) =
      roundWithAccuracy Format.binary64 (s₁ / s₂) ((m₁ <<< n) / m₂) T
        (accuracyOfFraction ((m₁ <<< n) % m₂) m₂) := by
    simp only [UnpackedFloat.div, divCore, htarget, hn]
  have hn' : T + n = e₁ - e₂ := by omega
  have hvalue : (m₁ * 2 ^ e₁ / (m₂ * 2 ^ e₂) : ℚ) = ((m₁ <<< n : Nat) : ℚ) / m₂ * 2 ^ T := by
    have hpow : (2 : ℚ) ^ T * 2 ^ n = 2 ^ e₁ / 2 ^ e₂ := by
      rw [← zpow_natCast, ← zpow_add₀ two_ne_zero, hn', zpow_sub₀ two_ne_zero]
    rw [Nat.shiftLeft_eq, Nat.cast_mul, Nat.cast_pow, Nat.cast_ofNat, mul_div_mul_comm, ← hpow]
    ring
  rw [hdiv]
  rw [hvalue] at hin
  refine roundWithAccuracy_eq hc (tells_div _ h₂) ?_ hin
  have hlog := log2_div_ge (k := m₁ <<< n) (by rw [Nat.shiftLeft_eq]; positivity) h₂
  rw [log2_shiftLeft h₁] at hlog
  simp only [targetExponent_eq, totalExponent] at htarget ⊢
  omega

/-! ### Whole numbers -/

/-- A whole number as arithmetic sees it. -/
def whole (n : Nat) : UnpackedFloat :=
  if h : n = 0 then .zero .positive
  else .finite .positive (n * 2 ^ (52 - n.log2)) (n.log2 - 52) (by positivity)

lemma whole_of_pos {n : Nat} (h : 0 < n) :
    whole n = .finite .positive (n * 2 ^ (52 - n.log2)) (n.log2 - 52) (by positivity) :=
  dif_neg h.ne'

variable {n : Nat}

lemma canonical_whole (h0 : 0 < n) (h : n < 2 ^ 53) :
    Canonical (n * 2 ^ (52 - n.log2)) (n.log2 - 52) := by
  have hlog : n.log2 < 53 := (Nat.log2_lt h0.ne').2 h
  have hsplit : 2 ^ n.log2 * 2 ^ (52 - n.log2) = 2 ^ 52 := by
    rw [← pow_add]
    congr 1
    omega
  have hlo := Nat.log2_self_le h0.ne'
  have hhi := @Nat.lt_log2_self n
  refine ⟨by positivity, ?_, by omega, by omega, .inl ?_⟩
  · calc n * 2 ^ (52 - n.log2) < 2 ^ (n.log2 + 1) * 2 ^ (52 - n.log2) := by gcongr
      _ = 2 ^ 53 := by rw [pow_succ, mul_right_comm, hsplit]; rfl
  · calc 2 ^ 52 = 2 ^ n.log2 * 2 ^ (52 - n.log2) := hsplit.symm
      _ ≤ n * 2 ^ (52 - n.log2) := by gcongr

lemma value_whole (h0 : 0 < n) (h : n < 2 ^ 53) :
    ((n * 2 ^ (52 - n.log2) : Nat) : ℚ) * 2 ^ (n.log2 - 52 : Int) = n := by
  have hlog : n.log2 < 53 := (Nat.log2_lt h0.ne').2 h
  push_cast
  rw [mul_assoc, ← zpow_natCast, ← zpow_add₀ two_ne_zero,
    show ((52 - n.log2 : Nat) : Int) + (n.log2 - 52) = 0 by omega, zpow_zero, mul_one]

/-- A whole number below `2 ^ 53` needs no rounding. -/
lemma normalize_whole (h : n < 2 ^ 53) {k : Nat} {t : Int} (hv : (k : ℚ) * 2 ^ t = n) :
    normalize Format.binary64 k t .positive = whole n := by
  rcases Nat.eq_zero_or_pos k with rfl | hk
  · have : n = 0 := by exact_mod_cast (by simpa using hv.symm : (n : ℚ) = 0)
    subst this
    rfl
  · have hn : 0 < n := by
      have : (0 : ℚ) < n := by rw [← hv]; positivity
      exact_mod_cast this
    have hin := within_self (n * 2 ^ (52 - n.log2)) (n.log2 - 52)
    rw [value_whole hn h, ← hv] at hin
    rw [whole_of_pos hn, UnpackedFloat.normalize, Int.compare_eq_gt.2 (by omega), Int.toNat_natCast]
    exact round_eq (canonical_whole hn h) hk hin

lemma unpack_pack_whole (h : n < 2 ^ 53) : (Float.Model.pack (whole n)).unpack = whole n := by
  rcases Nat.eq_zero_or_pos n with rfl | hn
  · exact Doubles.unpack_packComponents .positive 0 0
  · rw [whole_of_pos hn]
    exact Doubles.unpack_pack (canonical_whole hn h) _

/-- The double is the whole number `n`. -/
def IsWhole (x : Float) (n : Nat) : Prop := x.toModel.unpack = whole n

lemma IsWhole.eq {x y : Float} (hx : IsWhole x n) (hy : IsWhole y n) : x = y :=
  Doubles.eq_of_unpack (hx.trans hy.symm)

lemma isWhole_toFloat (h : n < 2 ^ 53) : IsWhole n.toUInt64.toFloat n := by
  have hn : n.toUInt64.toNat = n := UInt64.toNat_ofNat_of_lt (h.trans (by decide))
  change (Float.Model.pack
    (normalize Format.binary64 (n.toUInt64.toNat : Int) 0 .positive)).unpack = _
  rw [hn, normalize_whole h (by simp), unpack_pack_whole h]

lemma mul_whole {a b : Nat} (ha : a < 2 ^ 53) (hb : b < 2 ^ 53) (h : a * b < 2 ^ 53) :
    UnpackedFloat.mul Format.binary64 (whole a) (whole b) = whole (a * b) := by
  rcases Nat.eq_zero_or_pos a with rfl | ha0
  · rw [Nat.zero_mul]
    rcases Nat.eq_zero_or_pos b with rfl | hb0
    · rfl
    · rw [whole_of_pos hb0]
      rfl
  rcases Nat.eq_zero_or_pos b with rfl | hb0
  · rw [whole_of_pos ha0]
    rfl
  have hab : 0 < a * b := Nat.mul_pos ha0 hb0
  have hca := canonical_whole ha0 ha
  have hcb := canonical_whole hb0 hb
  have hin := within_self (a * b * 2 ^ (52 - (a * b).log2)) ((a * b).log2 - 52)
  rw [value_whole hab h, Nat.cast_mul, ← value_whole ha0 ha, ← value_whole hb0 hb] at hin
  rw [whole_of_pos ha0, whole_of_pos hb0, whole_of_pos hab]
  refine mul_eq (canonical_whole hab h) ?_ hin
  have hbig : 2 ^ 52 ≤ a * 2 ^ (52 - a.log2) := hca.normal.resolve_right (by omega)
  have hone : 1 ≤ b * 2 ^ (52 - b.log2) := hcb.pos
  calc 2 ^ 52 ≤ a * 2 ^ (52 - a.log2) * 1 := by rwa [mul_one]
    _ ≤ _ := Nat.mul_le_mul_left _ hone

lemma IsWhole.mul {x y : Float} {a b : Nat} (hx : IsWhole x a) (hy : IsWhole y b)
    (ha : a < 2 ^ 53) (hb : b < 2 ^ 53) (h : a * b < 2 ^ 53) : IsWhole (x * y) (a * b) := by
  change (Float.Model.pack (UnpackedFloat.mul _ x.toModel.unpack y.toModel.unpack)).unpack = _
  rw [hx, hy, mul_whole ha hb h, unpack_pack_whole h]

lemma value_decreaseExponent (k : Nat) (t t' : Int) (h : t' ≤ t) :
    ((decreaseExponent k t t').1 : ℚ) * 2 ^ t' = k * 2 ^ t := by
  rw [← value_shiftLeft k (t - t').toNat, show t - ((t - t').toNat : Int) = t' by omega]
  rfl

lemma add_whole {a b : Nat} (h : a + b < 2 ^ 53) :
    UnpackedFloat.add Format.binary64 (whole a) (whole b) = whole (a + b) := by
  rcases Nat.eq_zero_or_pos a with rfl | ha0
  · rw [Nat.zero_add]
    rcases Nat.eq_zero_or_pos b with rfl | hb0
    · rfl
    · rw [whole_of_pos hb0]
      rfl
  rcases Nat.eq_zero_or_pos b with rfl | hb0
  · rw [Nat.add_zero, whole_of_pos ha0]
    rfl
  rw [whole_of_pos ha0, whole_of_pos hb0]
  generalize ht : min (a.log2 - 52 : Int) (b.log2 - 52) = t
  have ha := value_decreaseExponent (a * 2 ^ (52 - a.log2)) (a.log2 - 52) t (by omega)
  have hb := value_decreaseExponent (b * 2 ^ (52 - b.log2)) (b.log2 - 52) t (by omega)
  rw [value_whole ha0 (by omega)] at ha
  rw [value_whole hb0 (by omega)] at hb
  simp only [UnpackedFloat.add, Sign.apply, ht, ← Nat.cast_add]
  refine normalize_whole h ?_
  push_cast
  linarith

lemma IsWhole.add {x y : Float} {a b : Nat} (hx : IsWhole x a) (hy : IsWhole y b)
    (h : a + b < 2 ^ 53) : IsWhole (x + y) (a + b) := by
  change (Float.Model.pack (UnpackedFloat.add _ x.toModel.unpack y.toModel.unpack)).unpack = _
  rw [hx, hy, add_whole h, unpack_pack_whole h]

lemma isWhole_ofNat (h : n < 2 ^ 53) : IsWhole (Float.ofNat n) n := by
  have hone : IsWhole Float.exactlyRepresentablePowersOfTen[0] 1 := rfl
  have hmul := (isWhole_toFloat h).mul hone h (by decide) (by rwa [mul_one])
  rw [mul_one] at hmul
  change IsWhole (Float.ofScientific n false 0) n
  rwa [Float.ofScientific, dif_pos ⟨h, Nat.zero_le _⟩]

/-! ### Decimals -/

lemma powers_exact : ∀ i : Fin Float.exactlyRepresentablePowersOfTen.size,
    let x := Float.exactlyRepresentablePowersOfTen[i]
    let b := Binary.ofFloat x
    x.isFinite = true ∧ b.negative = false ∧
      b.mantissa * 2 ^ b.exponent.toNat = 10 ^ i.val * 2 ^ (-b.exponent).toNat := by
  decide +kernel

/-- The powers of ten that are doubles. -/
lemma unpack_power {i : Nat} (hi : i < Float.exactlyRepresentablePowersOfTen.size) :
    ∃ (m : Nat) (e : Int) (hc : Canonical m e),
    (Float.exactlyRepresentablePowersOfTen[i]).toModel.unpack = .finite .positive m e hc.pos ∧
      (m : ℚ) * 2 ^ e = 10 ^ i := by
  obtain ⟨hfin, hneg, hval⟩ := powers_exact ⟨i, hi⟩
  simp only [Fin.getElem_fin] at hfin hneg hval
  rcases Doubles.unpack_of_isFinite hfin with ⟨hzero, -⟩ | ⟨hc, hu⟩
  · rw [hzero, zero_mul] at hval
    exact absurd hval.symm (by positivity)
  · refine ⟨_, _, hc, by rw [hu, Binary.sign, hneg]; rfl, ?_⟩
    rw [zpow_eq_toNat two_ne_zero, mul_div_assoc', div_eq_iff (by positivity)]
    exact_mod_cast hval

/-- A whole number times a power of ten, when no faster way is open. -/
lemma scientific_up (hc : Canonical m e) {c k : Nat} (h0 : 0 < c) (hk : k ≤ 2048)
    (hin : Within m e (c * 10 ^ k)) :
    UnpackedFloat.ofScientific Format.binary64 c k = .finite .positive m e hc.pos := by
  have hsmall : ¬ (k : Int) > 2 ^ 11 := by omega
  have hlarge : ¬ (k : Int) < -((2 ^ 11 : Int) + c.log2) := by omega
  rw [UnpackedFloat.ofScientific, dif_neg h0.ne', if_neg hsmall, if_neg hlarge,
    if_pos (Int.natCast_nonneg k)]
  refine mul_eq hc ?_ ?_
  · rw [Nat.shiftLeft_eq]
    calc 2 ^ 52 ≤ 1 * 2 ^ 53 * 1 := by decide
      _ ≤ c * 2 ^ 53 * 10 ^ k := by
        gcongr
        · exact h0
        · exact Nat.one_le_pow _ _ (by decide)
  · rw [← zero_sub, value_shiftLeft, zpow_zero, mul_one, mul_one, Int.toNat_natCast]
    exact_mod_cast hin

/-- A whole number over a power of ten, when no faster way is open. -/
lemma scientific_down (hc : Canonical m e) {c k : Nat} (h0 : 0 < c) (hk : k ≤ 2048 + c.log2)
    (hin : Within m e (c / 10 ^ k)) :
    UnpackedFloat.ofScientific Format.binary64 c (-k : Int) = .finite .positive m e hc.pos := by
  rcases Nat.eq_zero_or_pos k with rfl | hk0
  · exact scientific_up hc h0 (Nat.zero_le _) (by simpa using hin)
  have hsmall : ¬ (-k : Int) > 2 ^ 11 := by omega
  have hlarge : ¬ (-k : Int) < -((2 ^ 11 : Int) + c.log2) := by omega
  rw [UnpackedFloat.ofScientific, dif_neg h0.ne', if_neg hsmall, if_neg hlarge,
    if_neg (by omega)]
  refine div_eq hc ?_
  rw [neg_neg, Int.toNat_natCast, zpow_zero, mul_one, mul_one]
  exact_mod_cast hin

/-- Reading a whole number times a power of ten. -/
lemma ofScientific_up (hc : Canonical m e) {c k : Nat} (h0 : 0 < c) (hk : k ≤ 2048)
    (hin : Within m e (c * 10 ^ k)) :
    (Float.ofScientific c false k).toModel.unpack = .finite .positive m e hc.pos := by
  unfold Float.ofScientific
  split
  · next h =>
    have hi : k < Float.exactlyRepresentablePowersOfTen.size := Nat.lt_succ_of_le h.2
    obtain ⟨m', e', hc', hu, hval⟩ := unpack_power hi
    have hwhole := canonical_whole h0 h.1
    rw [← hval, ← value_whole h0 h.1] at hin
    have hmul : UnpackedFloat.mul Format.binary64 (whole c) (.finite .positive m' e' hc'.pos) =
        .finite .positive m e hc.pos := by
      rw [whole_of_pos h0]
      refine mul_eq hc ?_ hin
      calc 2 ^ 52 ≤ c * 2 ^ (52 - c.log2) * 1 := by
            rw [mul_one]
            exact hwhole.normal.resolve_right (by omega)
        _ ≤ _ := Nat.mul_le_mul_left _ hc'.pos
    change (Float.Model.pack (UnpackedFloat.mul _ c.toUInt64.toFloat.toModel.unpack
      (Float.exactlyRepresentablePowersOfTen[k]).toModel.unpack)).unpack = _
    rw [isWhole_toFloat h.1, hu, hmul, Doubles.unpack_pack hc]
  · change (Float.Model.pack (UnpackedFloat.ofScientific _ c (k : Int))).unpack = _
    rw [scientific_up hc h0 hk hin, Doubles.unpack_pack hc]

/-- Reading a whole number over a power of ten. -/
lemma ofScientific_down (hc : Canonical m e) {c k : Nat} (h0 : 0 < c) (hk : k ≤ 2048 + c.log2)
    (hin : Within m e (c / 10 ^ k)) :
    (Float.ofScientific c true k).toModel.unpack = .finite .positive m e hc.pos := by
  unfold Float.ofScientific
  split
  · next h =>
    have hi : k < Float.exactlyRepresentablePowersOfTen.size := Nat.lt_succ_of_le h.2
    obtain ⟨m', e', hc', hu, hval⟩ := unpack_power hi
    rw [← hval, ← value_whole h0 h.1] at hin
    have hdiv : UnpackedFloat.div Format.binary64 (whole c) (.finite .positive m' e' hc'.pos) =
        .finite .positive m e hc.pos := by
      rw [whole_of_pos h0]
      exact div_eq hc hin
    change (Float.Model.pack (UnpackedFloat.div _ c.toUInt64.toFloat.toModel.unpack
      (Float.exactlyRepresentablePowersOfTen[k]).toModel.unpack)).unpack = _
    rw [isWhole_toFloat h.1, hu, hdiv, Doubles.unpack_pack hc]
  · change (Float.Model.pack (UnpackedFloat.ofScientific _ c (Int.negOfNat k))).unpack = _
    rw [Int.negOfNat_eq, Int.ofNat_eq_natCast, scientific_down hc h0 hk hin,
      Doubles.unpack_pack hc]

end Rounding

end Blockwork
