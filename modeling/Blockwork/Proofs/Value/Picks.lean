import Blockwork.Number.Between
import Blockwork.Proofs.Number.Floor

/-!
Picking between two bounds in exact arithmetic. Bounds that do not both count as integers give a
point of the segment between them. Two that do give the lower one and a whole number on top of it, at
most the distance of the bounds and less than one more. So the pick may lie above both of them, and
it does for some fraction just when their distance is not a whole number. Numbers and truth values
that count as integers are integers; a text is judged by its letters, and one with an exponent may be
a fraction without a point.
-/

namespace Blockwork

namespace Doubles

variable {x y : Float}

/-- Finite doubles are compared as their numbers are. -/
lemma compare_eq_compare_value (hx : x.isFinite = true) (hy : y.isFinite = true) :
    x.toModel.unpack.compare y.toModel.unpack =
      some (compare (Binary.ofFloat x).value (Binary.ofFloat y).value) := by
  have hu := shape_unpack hx
  have hv := shape_unpack hy
  rw [compare_eq_compareRanks (isNaN_of_shape hu) (isNaN_of_shape hv), compareRanks_eq hu hv,
    value_eq_number hx, value_eq_number hy]

lemma le_iff_value_le (hx : x.isFinite = true) (hy : y.isFinite = true) :
    x ≤ y ↔ (Binary.ofFloat x).value ≤ (Binary.ofFloat y).value := by
  have hle : x ≤ y ↔ (x.toModel.unpack.compare y.toModel.unpack).any (·.isLE) = true :=
    decide_eq_true_iff
  rw [hle, compare_eq_compare_value hx hy, Option.any_some, Ordering.isLE_iff_ne_gt]
  exact compare_le_iff_le

lemma beq_iff_value_eq (hx : x.isFinite = true) (hy : y.isFinite = true) :
    (x == y) = true ↔ (Binary.ofFloat x).value = (Binary.ofFloat y).value := by
  have heq : (x == y) = (x.toModel.unpack.compare y.toModel.unpack == some .eq) := rfl
  rw [heq, compare_eq_compare_value hx hy, beq_iff_eq, Option.some_inj, compare_eq_iff_eq]

end Doubles

/-! ### Exact picks -/

namespace Number

variable {a b r : ℚ}

/-- Picks in exact arithmetic. -/
def pick (whole : Bool) (a b r : ℚ) : ℚ := between (fun x => (⌊x⌋ : ℚ)) whole a b r

lemma between_eq (f : ℚ → ℚ) (whole : Bool) (a b r : ℚ) :
    between f whole a b r =
      if a = b then a
      else if whole then min a b + f (r * (max a b + 1 - min a b))
      else r * (max a b - min a b) + min a b := by
  unfold between
  rcases lt_trichotomy a b with h | rfl | h
  · simp [h.le, h.ne]
  · simp
  · simp [h.not_ge, h.ne, h.ne', h.le]

/-- The distance of the bounds is what counts. -/
lemma pick_eq (h0 : 0 ≤ r) (h1 : r < 1) (whole : Bool) :
    pick whole a b r =
      min a b + if whole then (⌊r * (|b - a| + 1)⌋ : ℚ) else r * |b - a| := by
  rw [pick, between_eq, ← max_sub_min_eq_abs]
  split
  · next h =>
    subst h
    have hfloor : ⌊r⌋ = 0 := Int.floor_eq_zero_iff.2 ⟨h0, h1⟩
    cases whole <;> simp [hfloor]
  · have hdist : max a b + 1 - min a b = max a b - min a b + 1 := by ring
    cases whole
    · simp [add_comm]
    · simp [hdist]

lemma pick_comm (h0 : 0 ≤ r) (h1 : r < 1) (whole : Bool) : pick whole a b r = pick whole b a r := by
  rw [pick_eq h0 h1, pick_eq h0 h1, min_comm, abs_sub_comm]

lemma max_eq_min_add_abs (a b : ℚ) : max a b = min a b + |b - a| := by
  rw [← max_sub_min_eq_abs]
  ring

/-- What is added to the lower bound. -/
lemma floor_bounds (h0 : 0 ≤ r) (h1 : r < 1) {d : ℚ} (hd : 0 ≤ d) :
    0 ≤ ⌊r * (d + 1)⌋ ∧ (⌊r * (d + 1)⌋ : ℚ) < d + 1 := by
  have hd1 : 0 < d + 1 := by linarith
  refine ⟨Int.floor_nonneg.2 (by positivity), ?_⟩
  calc (⌊r * (d + 1)⌋ : ℚ) ≤ r * (d + 1) := Int.floor_le _
    _ < 1 * (d + 1) := mul_lt_mul_of_pos_right h1 hd1
    _ = d + 1 := one_mul _

/-- A pick is never below the bounds, and less than one above them. -/
lemma pick_bounds (h0 : 0 ≤ r) (h1 : r < 1) (whole : Bool) :
    min a b ≤ pick whole a b r ∧ pick whole a b r < max a b + 1 := by
  have hd : 0 ≤ |b - a| := abs_nonneg _
  rw [pick_eq h0 h1, max_eq_min_add_abs]
  cases whole with
  | false =>
    have hle : r * |b - a| ≤ |b - a| := mul_le_of_le_one_left hd h1.le
    have hnonneg : 0 ≤ r * |b - a| := mul_nonneg h0 hd
    simp only [Bool.false_eq_true, if_false]
    constructor <;> linarith
  | true =>
    obtain ⟨hlow, hhigh⟩ := floor_bounds h0 h1 hd
    have hlow' : (0 : ℚ) ≤ ⌊r * (|b - a| + 1)⌋ := by exact_mod_cast hlow
    simp only [if_true]
    constructor <;> linarith

lemma whole_of_abs {d : ℚ} (h : ∃ k : ℤ, |d| = k) : ∃ k : ℤ, d = k := by
  obtain ⟨k, hk⟩ := h
  rcases abs_choice d with hd | hd
  · exact ⟨k, hd ▸ hk⟩
  · exact ⟨-k, by rw [Int.cast_neg, ← hk, hd, neg_neg]⟩

/-- A distance that is not whole is passed by the fraction that leads to the next whole number. -/
lemma exists_lt_pick (h : ¬ ∃ k : ℤ, b - a = k) :
    ∃ r : ℚ, 0 ≤ r ∧ r < 1 ∧ max a b < pick true a b r := by
  have hd : 0 ≤ |b - a| := abs_nonneg _
  have hd1 : 0 < |b - a| + 1 := by linarith
  have hlt : (⌊|b - a| + 1⌋ : ℚ) < |b - a| + 1 := by
    refine lt_of_le_of_ne (Int.floor_le _) fun heq => h (whole_of_abs ⟨⌊|b - a| + 1⌋ - 1, ?_⟩)
    push_cast
    linarith
  have hfloor : (0 : ℚ) ≤ ⌊|b - a| + 1⌋ := by exact_mod_cast Int.floor_nonneg.2 hd1.le
  have h0 : (0 : ℚ) ≤ ⌊|b - a| + 1⌋ / (|b - a| + 1) := div_nonneg hfloor hd1.le
  have h1 : (⌊|b - a| + 1⌋ / (|b - a| + 1) : ℚ) < 1 := (div_lt_one hd1).2 hlt
  refine ⟨_, h0, h1, ?_⟩
  have hnext := Int.lt_floor_add_one |b - a|
  rw [pick_eq h0 h1, max_eq_min_add_abs, if_pos rfl, div_mul_cancel₀ _ hd1.ne', Int.floor_intCast,
    Int.floor_add_one, Int.cast_add, Int.cast_one]
  linarith

/-- A pick stays between the bounds just when a whole step from one leads to the other. -/
lemma pick_le_iff {whole : Bool} :
    (∀ r : ℚ, 0 ≤ r → r < 1 → pick whole a b r ≤ max a b) ↔
      (whole = true → ∃ k : ℤ, b - a = k) := by
  constructor
  · rintro h rfl
    by_contra hnot
    obtain ⟨r, h0, h1, hlt⟩ := exists_lt_pick hnot
    exact absurd (h r h0 h1) (not_le.2 hlt)
  · intro h r h0 h1
    have hd : 0 ≤ |b - a| := abs_nonneg _
    rw [pick_eq h0 h1, max_eq_min_add_abs]
    refine add_le_add_right ?_ _
    cases whole with
    | false =>
      simp only [Bool.false_eq_true, if_false]
      exact mul_le_of_le_one_left hd h1.le
    | true =>
      obtain ⟨k, hk⟩ := h rfl
      have hcast : |b - a| = (|k| : ℤ) := by rw [hk, Int.cast_abs]
      have hhigh := (floor_bounds h0 h1 hd).2
      rw [hcast] at hhigh ⊢
      have hle : ⌊r * (((|k| : ℤ) : ℚ) + 1)⌋ < |k| + 1 := by exact_mod_cast hhigh
      simp only [if_true]
      exact_mod_cast Int.lt_add_one_iff.1 hle

/-- Integers give an integer. -/
lemma whole_pick (h0 : 0 ≤ r) (h1 : r < 1) {m n : ℤ} (ha : a = m) (hb : b = n) :
    ∃ k : ℤ, pick true a b r = k := by
  refine ⟨min m n + ⌊r * (|b - a| + 1)⌋, ?_⟩
  rw [pick_eq h0 h1, ha, hb]
  push_cast
  rfl

end Number

/-! ### Values as bounds -/

namespace Value

/-- The number of a value. -/
def exact (v : Value) : ℚ := (Binary.ofFloat v.toNumber).value

/-- Only a text may count as an integer without being one. -/
lemma exact_of_isInt {v : Value} (hv : ∀ s, v ≠ .text s) (h : v.isInt = true) :
    ∃ k : ℤ, v.exact = k := by
  cases v with
  | number x =>
    simp only [isInt, Number.isWhole, Bool.and_eq_true] at h
    obtain ⟨hfin, hwhole⟩ := h
    have hnumber : (Value.number x).toNumber = x := by
      simp only [toNumber, toDouble, (Number.isNaN_eq_false_of_isFinite hfin).1, Bool.false_eq_true,
        if_false]
    have hd : ((Binary.ofFloat x).denominator : ℚ) ≠ 0 := by
      exact_mod_cast (Number.denominator_pos _).ne'
    obtain ⟨q, hq⟩ := Nat.dvd_of_mod_eq_zero (beq_iff_eq.1 hwhole)
    refine ⟨(if (Binary.ofFloat x).negative then -1 else 1) * q, ?_⟩
    rw [exact, hnumber, Binary.value, ← Number.quotient_eq, hq]
    push_cast
    rw [mul_div_cancel_left₀ _ hd]
  | bool b =>
    cases b
    · exact ⟨0, by decide +kernel⟩
    · exact ⟨1, by decide +kernel⟩
  | text s => exact absurd rfl (hv s)
  | pointer => cases h

variable {a b : Value}

/-- A pick between the numbers of two values, as `Value.between` makes it, in exact arithmetic. -/
def pick (a b : Value) (r : ℚ) : ℚ := Number.pick (a.isInt && b.isInt) a.exact b.exact r

/-- **Picks and their bounds**, for values with finite numbers, which doubles put in the same order.
Whichever comes first, a pick is not below them and less than one above them. It stays between them
for every fraction just when they do not both count as integers or are a whole number apart; that is
so if neither is a text. Integers that count as integers give an integer. -/
theorem pick_stays_iff (ha : a.toNumber.isFinite = true) (hb : b.toNumber.isFinite = true) :
    ((a.toNumber ≤ b.toNumber ↔ a.exact ≤ b.exact) ∧
      ((a.toNumber == b.toNumber) = true ↔ a.exact = b.exact)) ∧
    (∀ r : ℚ, 0 ≤ r → r < 1 → a.pick b r = b.pick a r ∧
      min a.exact b.exact ≤ a.pick b r ∧ a.pick b r < max a.exact b.exact + 1) ∧
    ((∀ r : ℚ, 0 ≤ r → r < 1 → a.pick b r ≤ max a.exact b.exact) ↔
      (a.isInt = true → b.isInt = true → ∃ k : ℤ, b.exact - a.exact = k)) ∧
    ((∀ s, a ≠ .text s) → (∀ s, b ≠ .text s) →
      ∀ r : ℚ, 0 ≤ r → r < 1 → a.pick b r ≤ max a.exact b.exact) ∧
    (a.isInt = true → b.isInt = true → ∀ m n : ℤ, a.exact = m → b.exact = n →
      ∀ r : ℚ, 0 ≤ r → r < 1 → ∃ k : ℤ, a.pick b r = k) := by
  have hstays : (∀ r : ℚ, 0 ≤ r → r < 1 → a.pick b r ≤ max a.exact b.exact) ↔
      (a.isInt = true → b.isInt = true → ∃ k : ℤ, b.exact - a.exact = k) := by
    refine Number.pick_le_iff.trans ?_
    rw [Bool.and_eq_true, and_imp]
  refine ⟨⟨Doubles.le_iff_value_le ha hb, Doubles.beq_iff_value_eq ha hb⟩, ?within, hstays, ?numbers,
    ?whole⟩
  case within =>
    intro r h0 h1
    refine ⟨?_, Number.pick_bounds h0 h1 _⟩
    rw [pick, pick, Number.pick_comm h0 h1, Bool.and_comm]
  case numbers =>
    intro hna hnb
    refine hstays.2 fun hia hib => ?_
    obtain ⟨m, hm⟩ := exact_of_isInt hna hia
    obtain ⟨n, hn⟩ := exact_of_isInt hnb hib
    exact ⟨n - m, by rw [hm, hn, Int.cast_sub]⟩
  case whole =>
    intro hia hib m n hm hn r h0 h1
    rw [pick, hia, hib]
    exact Number.whole_pick h0 h1 hm hn

/-- An exponent and another base: the pick from 31 down to 10 reaches 31. -/
theorem pick_stays_radix :
    let a : Value := .text "0x1F"
    let b : Value := .text "1e1"
    a.exact = 31 ∧ b.exact = 10 ∧ a.pick b (99 / 100 : ℚ) = 31 ∧
      ∀ r : ℚ, 0 ≤ r → r < 1 → a.pick b r ≤ 31 ∧ ∃ k : ℤ, a.pick b r = k := by
  intro a b
  have ha : a.exact = 31 := by decide +kernel
  have hb : b.exact = 10 := by decide +kernel
  obtain ⟨-, -, hstays, -, hwhole⟩ :=
    pick_stays_iff (a := a) (b := b) (by decide +kernel) (by decide +kernel)
  refine ⟨ha, hb, by decide +kernel, fun r h0 h1 => ⟨?_, ?_⟩⟩
  · have hle := hstays.2 (fun _ _ => ⟨-21, by rw [ha, hb]; norm_num⟩) r h0 h1
    rwa [ha, hb, max_eq_left (by norm_num)] at hle
  · exact hwhole (by decide +kernel) (by decide +kernel) 31 10 (by simpa using ha) (by simpa using hb)
      r h0 h1

/-- A fraction that is written with an exponent: a pick between a half and one is one and a half. -/
theorem pick_above_bounds :
    let a : Value := .text "5e-1"
    let b : Value := .text "1"
    a.toNumber.isFinite = true ∧ b.toNumber.isFinite = true ∧ a.exact = 1 / 2 ∧ b.exact = 1 ∧
      a.pick b (3 / 4 : ℚ) = 3 / 2 ∧ (a.between b 0.75).identical (.number 1.5) = true := by
  decide +kernel

end Value

end Blockwork
