import Blockwork.Proofs.Number.Arithmetic
import Blockwork.Proofs.Number.Scientific

/-!
Reading numbers. A text is a number exactly if it is a numeral with blanks around it; digits in
another base give the whole number that they stand for, as long as it is small enough to be a
double, and a decimal gives the double whose interval it lies in.
-/

namespace Blockwork

open Float.Model Float.Model.UnpackedFloat Rounding

/-- The number that the parts stand for. -/
def Binary.value (b : Binary) : ℚ := (if b.negative then -1 else 1) * (b.mantissa * 2 ^ b.exponent)

/-- The number that a decimal stands for. -/
def Decimal.value (d : Decimal) : ℚ :=
  (if d.negative then -1 else 1) * (digitsValue d.digits * 10 ^ d.exponent)

namespace Rounding

lemma IsWhole.value {x : Float} {n : Nat} (h : IsWhole x n) (hn : n < 2 ^ 53) :
    x.isFinite = true ∧ (Binary.ofFloat x).value = n := by
  have hfin : x.isFinite = true := by
    change x.toModel.unpack.isFinite = true
    rw [h, whole]
    split <;> rfl
  refine ⟨hfin, ?_⟩
  rcases Nat.eq_zero_or_pos n with rfl | h0
  · rcases Doubles.unpack_of_isFinite hfin with ⟨hzero, -⟩ | ⟨hc, hu⟩
    · simp [Binary.value, hzero]
    · cases h.symm.trans hu
  · rcases Doubles.unpack_of_isFinite hfin with ⟨-, hu⟩ | ⟨hc, hu⟩
    · rw [IsWhole, whole_of_pos h0, hu] at h
      cases h
    · rw [IsWhole, whole_of_pos h0, hu] at h
      injection h with hs hm he
      have hneg : (Binary.ofFloat x).negative = false := by
        cases hb : (Binary.ofFloat x).negative with
        | false => rfl
        | true =>
          rw [Binary.sign, hb] at hs
          cases hs
      rw [Binary.value, hneg, hm, he, value_whole h0 hn]
      simp

lemma le_foldl {base : Nat} (h : 1 ≤ base) (ds : List Nat) (n : Nat) :
    n ≤ ds.foldl (fun n d => n * base + d) n := by
  induction ds generalizing n with
  | nil => exact le_rfl
  | cons d ds ih =>
    calc n ≤ n * base + d := (Nat.le_mul_of_pos_right n h).trans (Nat.le_add_right _ _)
      _ ≤ _ := ih _

/-- Digits are gathered without rounding as long as the result is a double. -/
lemma isWhole_foldl {base : Nat} (hbase : 1 ≤ base) (hbase' : base ≤ 16) {ds : List Nat} {x : Float}
    {n : Nat} (hx : IsWhole x n) (h : ds.foldl (fun n d => n * base + d) n < 2 ^ 53) :
    IsWhole (ds.foldl (fun x d => x * Float.ofNat base + Float.ofNat d) x)
      (ds.foldl (fun n d => n * base + d) n) := by
  induction ds generalizing x n with
  | nil => exact hx
  | cons d ds ih =>
    have hstep : n * base + d < 2 ^ 53 := (le_foldl hbase ds _).trans_lt h
    have hn : n ≤ n * base := Nat.le_mul_of_pos_right n hbase
    have hmul := hx.mul (isWhole_ofNat (n := base) (by omega)) (by omega) (by omega) (by omega)
    exact ih (hmul.add (isWhole_ofNat (by omega)) hstep) h

end Rounding

namespace Numeral

lemma foldl_eq_ofDigits (base : Nat) (ds : List Nat) :
    ds.foldl (fun n d => n * base + d) 0 = Nat.ofDigits base ds.reverse := by
  rw [Nat.ofDigits_eq_foldr, List.foldr_reverse]
  simp [Nat.add_comm, Nat.mul_comm]

lemma read_eq_some_iff {cs : List Char} {n : Numeral} :
    read cs = some n ↔ Spells (Text.trimBlanks cs) n := readTrimmed_eq_some_iff

lemma Spells.base_bounds {cs : List Char} {base : Nat} {ds : List Nat}
    (h : Spells cs (.radix base ds)) : 1 ≤ base ∧ base ≤ 16 := by
  cases h with
  | radix hmark => exact bounds_of_mem_marks hmark

/-- **The numerals are what is read**: a text is a number exactly if what is left of it without the
blanks around it is one of the grammar's texts, and digits in another base give the number that they
stand for while it is below `2 ^ 53`. -/
theorem parse?_isSome_iff_spells (s : String) :
    (∀ t, Text.Trims s.toList t ↔ t = Text.trimBlanks s.toList) ∧
      ((Number.parse? s).isSome = true ↔ ∃ n, Spells (Text.trimBlanks s.toList) n) ∧
      ∀ base ds, Spells (Text.trimBlanks s.toList) (.radix base ds) →
        Nat.ofDigits base ds.reverse < 2 ^ 53 →
        ∃ x, Number.parse? s = some x ∧ x = Float.ofNat (Nat.ofDigits base ds.reverse) ∧
          x.isFinite = true ∧ (Binary.ofFloat x).value = Nat.ofDigits base ds.reverse := by
  refine ⟨fun t => Text.trims_iff, ?_, fun base ds h hlt => ?_⟩
  · rw [Number.parse?, Option.isSome_map, Option.isSome_iff_exists]
    simp only [read_eq_some_iff]
  · have hread := read_eq_some_iff.2 h
    obtain ⟨h1, h16⟩ := h.base_bounds
    rw [← foldl_eq_ofDigits] at hlt ⊢
    have hwhole := isWhole_foldl h1 h16 (isWhole_ofNat (n := 0) (by decide)) hlt
    refine ⟨_, by rw [Number.parse?, hread]; rfl, ?_, ?_⟩
    · exact hwhole.eq (isWhole_ofNat hlt)
    · exact_mod_cast hwhole.value hlt

/-- A byte order mark and blanks around digits of base sixteen in both cases. -/
theorem parse?_hexadecimal :
    let s := "\uFEFF 0XaF\n"
    Text.trimBlanks s.toList = "0XaF".toList ∧ Spells "0XaF".toList (.radix 16 [10, 15]) ∧
      (Number.parse? s).isSome = true ∧ Number.parse? s = some (Float.ofNat 175) := by
  intro s
  have htrim : Text.trimBlanks s.toList = "0XaF".toList := by decide
  have hspells : Spells "0XaF".toList (.radix 16 [10, 15]) :=
    .radix (by decide) (by decide)
      (.cons ⟨by decide, .inl rfl⟩ (.cons ⟨by decide, .inr rfl⟩ .nil))
  obtain ⟨-, hsome, hradix⟩ := parse?_isSome_iff_spells s
  rw [htrim] at hsome hradix
  obtain ⟨x, hx, hvalue, -⟩ := hradix 16 [10, 15] hspells (by decide)
  exact ⟨htrim, hspells, hsome.2 ⟨_, hspells⟩, hx.trans (congrArg some hvalue)⟩

end Numeral

/-! ### Decimals -/

namespace Rounding

variable {m : Nat} {e : Int} {v : ℚ}

lemma Within.bounds (h : Within m e v) (hc : Canonical m e) :
    (2 ^ 1076)⁻¹ < v ∧ v < 2 ^ 1024 := by
  obtain ⟨⟨hlo, hhi⟩, -⟩ := within_iff.1 h
  have hb := below_le m e
  have hpos : (1 : ℚ) ≤ m := by exact_mod_cast hc.pos
  have hm : (m : ℚ) + 1 ≤ 2 ^ 53 := by exact_mod_cast hc.lt
  have hq : (0 : ℚ) < 2 ^ (e - 2) := by positivity
  have hge := hc.ge
  have hle := hc.le
  constructor
  · calc ((2 : ℚ) ^ 1076)⁻¹ = 2 ^ (-1076 : Int) := by rw [zpow_neg, zpow_ofNat]
      _ ≤ 2 ^ (e - 2) := zpow_le_zpow_right₀ (by norm_num) (by omega)
      _ < (4 * m - below m e) * 2 ^ (e - 2) := by nlinarith
      _ ≤ v := hlo
  · calc v ≤ (4 * m + 2) * 2 ^ (e - 2) := hhi
      _ < 2 ^ 55 * 2 ^ (e - 2) := by nlinarith
      _ = 2 ^ (e + 53) := (two_zpow_eq 55 (by omega)).symm
      _ ≤ 2 ^ (1024 : Int) := zpow_le_zpow_right₀ (by norm_num) (by omega)
      _ = 2 ^ 1024 := zpow_ofNat 2 1024

end Rounding

namespace Decimal

lemma two_pow_le_ten_pow {a b : Nat} (h : a ≤ 3 * b) : (2 : ℚ) ^ a ≤ 10 ^ b := by
  calc (2 : ℚ) ^ a ≤ 2 ^ (3 * b) := pow_le_pow_right₀ (by norm_num) h
    _ = 8 ^ b := by rw [pow_mul]; norm_num
    _ ≤ 10 ^ b := pow_le_pow_left₀ (by norm_num) (by norm_num) b

/-- A number in the range of doubles is not settled by its size. -/
lemma size_bounds {c : Nat} (h : 0 < c) {t : Int} (hlo : ((2 : ℚ) ^ 1076)⁻¹ < c * 10 ^ t)
    (hhi : (c : ℚ) * 10 ^ t < 2 ^ 1024) :
    -400 ≤ (Nat.toDigits 10 c).length + t ∧ (Nat.toDigits 10 c).length + t ≤ 400 := by
  obtain ⟨hge, hlt⟩ := Numeral.pow_length_toDigits h
  have hpos : 0 < (Nat.toDigits 10 c).length := Nat.length_toDigits_pos
  generalize (Nat.toDigits 10 c).length = len at hge hlt hpos
  have ht : (0 : ℚ) < 10 ^ t := by positivity
  have hten : (10 : ℚ) ≠ 0 := by norm_num
  constructor
  · by_contra hsize
    refine lt_irrefl ((2 : ℚ) ^ 1076)⁻¹ ?_
    calc ((2 : ℚ) ^ 1076)⁻¹ < c * 10 ^ t := hlo
      _ < 10 ^ len * 10 ^ t := by
        gcongr
        exact_mod_cast hlt
      _ = 10 ^ (len + t : Int) := by rw [zpow_add₀ hten, zpow_natCast]
      _ ≤ 10 ^ (-401 : Int) := zpow_le_zpow_right₀ (by norm_num) (by omega)
      _ = (10 ^ 401)⁻¹ := by rw [zpow_neg, zpow_ofNat]
      _ ≤ (2 ^ 1076)⁻¹ := inv_anti₀ (by positivity) (two_pow_le_ten_pow (by decide))
  · by_contra hsize
    refine lt_irrefl ((2 : ℚ) ^ 1024) ?_
    calc (2 : ℚ) ^ 1024 ≤ 10 ^ 400 := two_pow_le_ten_pow (by decide)
      _ = 10 ^ (400 : Int) := (zpow_ofNat 10 400).symm
      _ ≤ 10 ^ ((len - 1 : Nat) + t : Int) := zpow_le_zpow_right₀ (by norm_num) (by omega)
      _ = 10 ^ (len - 1) * 10 ^ t := by rw [zpow_add₀ hten, zpow_natCast]
      _ ≤ c * 10 ^ t := by
        gcongr
        exact_mod_cast hge
      _ < 2 ^ 1024 := hhi

/-- **Reading rounds to the nearest**: a decimal is read as the double whose interval it lies in. -/
lemma toFloat_eq {d : Decimal} {x : Float} (hx : x.isFinite = true)
    (hzero : (Binary.ofFloat x).mantissa ≠ 0) (hneg : d.negative = (Binary.ofFloat x).negative)
    (hin : (Shortest.interval (Binary.ofFloat x)).Contains
      (digitsValue d.digits * 10 ^ d.exponent)) : d.toFloat = x := by
  obtain ⟨hc, hu⟩ := (Doubles.unpack_of_isFinite hx).resolve_left fun h => hzero h.1
  have hwithin : Within (Binary.ofFloat x).mantissa (Binary.ofFloat x).exponent
      (digitsValue d.digits * 10 ^ d.exponent) := hin
  obtain ⟨hlo, hhi⟩ := hwithin.bounds hc
  have hcoefficient : 0 < digitsValue d.digits := by
    refine Nat.pos_of_ne_zero fun h => ?_
    rw [h, Nat.cast_zero, zero_mul] at hlo
    exact absurd hlo (not_lt_of_ge (by positivity))
  obtain ⟨hsmall, hlarge⟩ := size_bounds hcoefficient hlo hhi
  have hlength : (Nat.toDigits 10 (digitsValue d.digits)).length ≤
      (digitsValue d.digits).log2 + 1 :=
    (Nat.length_toDigits_le_iff (by decide) (Nat.succ_pos _)).2
      (Nat.lt_log2_self.trans_le (Nat.pow_le_pow_left (by decide) _))
  generalize hy : Float.ofScientific (digitsValue d.digits) (decide (d.exponent < 0))
    d.exponent.natAbs = y
  have hfloat : d.toFloat = if d.negative then -y else y := by
    have hne : (digitsValue d.digits == 0) = false := beq_false_of_ne hcoefficient.ne'
    rw [← hy]
    simp only [Decimal.toFloat, hne, Bool.false_eq_true, if_false, gt_iff_lt, not_lt.2 hlarge,
      not_lt.2 hsmall]
    by_cases hd : d.exponent < 0 <;> simp only [hd, decide_true, decide_false, if_true, if_false]
  -- the magnitude is the double without its sign
  have hyu : y.toModel.unpack =
      .finite .positive (Binary.ofFloat x).mantissa (Binary.ofFloat x).exponent hc.pos := by
    rw [← hy]
    by_cases hd : d.exponent < 0
    · have hpow : (10 : ℚ) ^ d.exponent = (10 ^ d.exponent.natAbs)⁻¹ := by
        rw [← zpow_natCast, ← zpow_neg]
        congr 1
        omega
      rw [hpow, ← div_eq_mul_inv] at hwithin
      rw [decide_eq_true hd]
      exact ofScientific_down hc hcoefficient (by omega) hwithin
    · have hpow : (10 : ℚ) ^ d.exponent = 10 ^ d.exponent.natAbs := by
        rw [← zpow_natCast]
        congr 1
        omega
      rw [hpow] at hwithin
      rw [decide_eq_false hd]
      exact ofScientific_up hc hcoefficient (by omega) hwithin
  refine Doubles.eq_of_unpack ?_
  rw [hfloat, hu, hneg, Binary.sign]
  split
  · change (Float.Model.pack y.toModel.unpack.neg).unpack = _
    rw [hyu]
    exact Doubles.unpack_pack hc .negative
  · exact hyu

end Decimal

end Blockwork
