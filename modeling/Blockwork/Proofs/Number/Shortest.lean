import Blockwork.Proofs.Number.Rounding
import Blockwork.Proofs.Number.Scientific

/-!
The decimal that is found for a double lies in the double's interval. The grids that are tried start
at the leading digit; the seventeenth is finer than the interval is wide, so a point of it is found
there at the latest.
-/

namespace Blockwork

namespace Shortest

open Rounding

/-! ### Points of a grid -/

section

variable (i : Interval) (grid : Int)

/-- The double and the grid in one measure. -/
lemma scale_eq : ((scale i grid).1 : ℚ) * 10 ^ grid = (scale i grid).2 * 2 ^ i.place := by
  have h2 : (2 : ℚ) ^ i.place = _ := zpow_eq_toNat two_ne_zero i.place
  have h10 : (10 : ℚ) ^ grid = _ := zpow_eq_toNat (by norm_num) grid
  simp only [scale, Nat.pow_eq, h2, h10]
  push_cast
  field_simp

lemma scale_up_pos : 0 < (scale i grid).1 := by
  simp only [scale, Nat.pow_eq]
  positivity

lemma scale_down_pos : 0 < (scale i grid).2 := by
  simp only [scale, Nat.pow_eq]
  positivity

variable {i grid}

/-- A distance in quarters, as a number, against a distance on the grid. -/
lemma quarters_eq (c : Nat) :
    (c : ℚ) * 2 ^ i.place = c * (scale i grid).1 / (scale i grid).2 * 10 ^ grid := by
  have hdown : ((scale i grid).2 : ℚ) ≠ 0 := by exact_mod_cast (scale_down_pos i grid).ne'
  rw [div_mul_eq_mul_div, mul_assoc (c : ℚ), scale_eq, eq_div_iff hdown]
  ring

lemma le_grid_iff {c d : Nat} : (c : ℚ) * 2 ^ i.place ≤ d * 10 ^ grid ↔
    c * (scale i grid).1 ≤ d * (scale i grid).2 := by
  have hdown : (0 : ℚ) < (scale i grid).2 := by exact_mod_cast scale_down_pos i grid
  rw [quarters_eq, mul_le_mul_iff_left₀ (by positivity), div_le_iff₀ hdown]
  exact_mod_cast Iff.rfl

lemma grid_le_iff {c d : Nat} : (d : ℚ) * 10 ^ grid ≤ c * 2 ^ i.place ↔
    d * (scale i grid).2 ≤ c * (scale i grid).1 := by
  have hdown : (0 : ℚ) < (scale i grid).2 := by exact_mod_cast scale_down_pos i grid
  rw [quarters_eq, mul_le_mul_iff_left₀ (by positivity), le_div_iff₀ hdown]
  exact_mod_cast Iff.rfl

lemma lt_grid_iff {c d : Nat} : (c : ℚ) * 2 ^ i.place < d * 10 ^ grid ↔
    c * (scale i grid).1 < d * (scale i grid).2 := by
  rw [← not_le, grid_le_iff, not_le]

lemma grid_lt_iff {c d : Nat} : (d : ℚ) * 10 ^ grid < c * 2 ^ i.place ↔
    d * (scale i grid).2 < c * (scale i grid).1 := by
  rw [← not_le, le_grid_iff, not_le]

end

/-- An interval with room on both sides of its number. -/
structure Interval.Proper (i : Interval) : Prop where
  below : 0 < i.below
  above : 0 < i.above
  room : i.below < i.centre

variable {tie : Tie} {i : Interval} {grid : Int}

/-- What puts a point of the grid inside an interval. -/
lemma contains_of_grid (hi : i.Proper) {d : Nat}
    (hlo : (i.centre - i.below) * (scale i grid).1 < d * (scale i grid).2 ∨
      i.closed = true ∧ (i.centre - i.below) * (scale i grid).1 ≤ d * (scale i grid).2)
    (hhi : d * (scale i grid).2 < (i.centre + i.above) * (scale i grid).1 ∨
      i.closed = true ∧ d * (scale i grid).2 ≤ (i.centre + i.above) * (scale i grid).1) :
    i.Contains (d * 10 ^ grid) := by
  rw [← lt_grid_iff, ← le_grid_iff, Nat.cast_sub hi.room.le] at hlo
  rw [← grid_lt_iff, ← grid_le_iff, Nat.cast_add] at hhi
  refine ⟨⟨?_, ?_⟩, fun hopen => ⟨?_, ?_⟩⟩
  · exact hlo.elim le_of_lt And.right
  · exact hhi.elim le_of_lt And.right
  · exact hlo.resolve_right fun h => by rw [hopen] at h; cases h.1
  · exact hhi.resolve_right fun h => by rw [hopen] at h; cases h.1

/-- Which end of an interval still belongs to it. -/
lemma closed_or_open {a b : Nat} {closed : Bool} (h : if closed then a ≤ b else a < b) :
    a < b ∨ closed = true ∧ a ≤ b := by
  cases closed with
  | false => exact .inl h
  | true => exact .inr ⟨rfl, h⟩

lemma le_of_not_closed_or_open {a b : Nat} {closed : Bool}
    (h : ¬ if closed then a ≤ b else a < b) : b ≤ a := by
  cases closed with
  | false => exact Nat.not_lt.1 h
  | true => exact (Nat.not_le.1 h).le

section

variable (i grid)

/-- The point of the grid at or before the double. -/
def before (i : Interval) (grid : Int) : Nat :=
  i.centre * (scale i grid).1 / (scale i grid).2

lemma before_le : before i grid * (scale i grid).2 ≤ i.centre * (scale i grid).1 :=
  Nat.div_mul_le_self _ _

lemma lt_before : i.centre * (scale i grid).1 < (before i grid + 1) * (scale i grid).2 :=
  Nat.lt_mul_of_div_lt (Nat.lt_succ_self _) (scale_down_pos i grid)

end

section

variable (hi : i.Proper)
include hi

lemma contains_before
    (h : if i.closed then (i.centre - i.below) * (scale i grid).1 ≤ before i grid * (scale i grid).2
      else (i.centre - i.below) * (scale i grid).1 < before i grid * (scale i grid).2) :
    i.Contains (before i grid * 10 ^ grid) := by
  refine contains_of_grid hi (closed_or_open h) (.inl ?_)
  refine (before_le i grid).trans_lt (Nat.mul_lt_mul_of_pos_right ?_ (scale_up_pos i grid))
  have := hi.above
  omega

lemma contains_after
    (h : if i.closed then
        (before i grid + 1) * (scale i grid).2 ≤ (i.centre + i.above) * (scale i grid).1
      else (before i grid + 1) * (scale i grid).2 < (i.centre + i.above) * (scale i grid).1) :
    i.Contains ((before i grid + 1 : Nat) * 10 ^ grid) := by
  refine contains_of_grid hi (.inl ?_) (closed_or_open h)
  refine lt_of_le_of_lt (Nat.mul_le_mul_right _ ?_) (lt_before i grid)
  exact Nat.sub_le _ _

/-- Points that are found lie in the interval. -/
lemma contains_of_onGrid? {d : Nat} (h : onGrid? tie i grid = some d) :
    i.Contains (d * 10 ^ grid) := by
  unfold onGrid? at h
  simp only at h
  split at h
  · next hlower hupper =>
    split at h <;> obtain rfl := Option.some.inj h
    · exact contains_before hi (of_decide_eq_true hlower)
    · exact contains_after hi (of_decide_eq_true hupper)
  · next hlower _ =>
    obtain rfl := Option.some.inj h
    exact contains_before hi (of_decide_eq_true hlower)
  · next _ hupper =>
    obtain rfl := Option.some.inj h
    exact contains_after hi (of_decide_eq_true hupper)
  · cases h

/-- A grid that is finer than the interval is wide has a point in it. -/
lemma isSome_onGrid? (hfine : (10 : ℚ) ^ grid < (i.below + i.above : Nat) * 2 ^ i.place) :
    (onGrid? tie i grid).isSome = true := by
  have hstep : (scale i grid).2 < (i.below + i.above) * (scale i grid).1 := by
    simpa using grid_lt_iff.1 (show ((1 : Nat) : ℚ) * 10 ^ grid < _ by simpa using hfine)
  unfold onGrid?
  simp only
  split
  · split <;> rfl
  · rfl
  · rfl
  · next hlower hupper =>
    -- the two ends would lie one step of the grid apart
    have hlow : before i grid * (scale i grid).2 ≤ (i.centre - i.below) * (scale i grid).1 :=
      le_of_not_closed_or_open (of_decide_eq_false hlower)
    have hhigh : (i.centre + i.above) * (scale i grid).1 ≤ (before i grid + 1) * (scale i grid).2 :=
      le_of_not_closed_or_open (of_decide_eq_false hupper)
    refine absurd hstep (not_lt_of_ge ?_)
    have hwidth : i.centre + i.above = (i.centre - i.below) + (i.below + i.above) := by
      have := hi.room
      omega
    rw [hwidth, Nat.add_mul, Nat.add_mul _ 1, Nat.one_mul] at hhigh
    omega

end

/-- A point is found if there is one on the last grid that is tried. -/
lemma contains_search (hi : i.Proper) (top : Int) (n k : Nat)
    (hlast : (onGrid? tie i (top + 1 - (k + n : Nat))).isSome = true) :
    i.Contains ((search tie i top (n + 1) k).1 * 10 ^ (search tie i top (n + 1) k).2) := by
  induction n generalizing k with
  | zero =>
    obtain ⟨d, hd⟩ := Option.isSome_iff_exists.1 hlast
    rw [Nat.add_zero] at hd
    simp only [search, hd]
    exact contains_of_onGrid? hi hd
  | succ n ih =>
    rw [search]
    split
    · next d hd => exact contains_of_onGrid? hi hd
    · exact ih (k + 1) (by rwa [Nat.add_right_comm, Nat.add_assoc k n 1])

/-! ### The first grid and the last -/

lemma ten_pow_guess_le : ∀ n < 1024, 10 ^ (n * 30103 / 100000) ≤ 2 ^ n := by decide +kernel

lemma le_ten_pow_guess : ∀ n < 1075, 2 ^ n ≤ 10 ^ ((n * 30103 + 99999) / 100000) := by
  decide +kernel

/-- The guess is never too large: the fraction is above the logarithm of two, but by too little to
matter in the range of doubles. -/
lemma guess_le {l : Int} (hlo : -1074 ≤ l) (hhi : l ≤ 1023) :
    (10 : ℚ) ^ (l * 30103).fdiv 100000 ≤ 2 ^ l := by
  rw [Int.fdiv_eq_ediv_of_nonneg _ (by decide)]
  obtain ⟨n, rfl | rfl⟩ := l.eq_nat_or_neg
  · have hguess : (n : Int) * 30103 / 100000 = (n * 30103 / 100000 : Nat) := by omega
    rw [hguess, zpow_natCast, zpow_natCast]
    exact_mod_cast ten_pow_guess_le n (by omega)
  · have hguess : -(n : Int) * 30103 / 100000 = -((n * 30103 + 99999) / 100000 : Nat) := by omega
    rw [hguess, zpow_neg, zpow_neg, zpow_natCast, zpow_natCast]
    refine inv_anti₀ (by positivity) ?_
    exact_mod_cast le_ten_pow_guess n (by omega)

variable {b : Binary}

lemma leading_le (hc : Canonical b.mantissa b.exponent) :
    (10 : ℚ) ^ leading b ≤ b.mantissa * 2 ^ b.exponent := by
  unfold leading
  simp only
  split
  · next h =>
    -- one more than the guess was tested in whole numbers
    generalize ((b.exponent + b.mantissa.log2) * 30103).fdiv 100000 + 1 = next at h
    rw [zpow_eq_toNat (by norm_num) next, zpow_eq_toNat two_ne_zero b.exponent, ← mul_div_assoc,
      div_le_div_iff₀ (by positivity) (by positivity)]
    exact_mod_cast h
  · have hlog : b.mantissa.log2 < 53 := (Nat.log2_lt hc.pos.ne').2 hc.lt
    have hge := hc.ge
    have hle := hc.le
    calc (10 : ℚ) ^ ((b.exponent + b.mantissa.log2) * 30103).fdiv 100000
      _ ≤ 2 ^ (b.exponent + b.mantissa.log2) := guess_le (by omega) (by omega)
      _ = 2 ^ b.mantissa.log2 * 2 ^ b.exponent := by
        rw [zpow_add₀ two_ne_zero, zpow_natCast, mul_comm]
      _ ≤ b.mantissa * 2 ^ b.exponent := by
        gcongr
        exact_mod_cast Nat.log2_self_le hc.pos.ne'

lemma proper_interval (h : 0 < b.mantissa) : (interval b).Proper := by
  refine ⟨?_, Nat.two_pos, ?_⟩ <;> simp only [interval] <;> split <;> omega

/-- An interval is wider than a step in the seventeenth digit, below a power of two as well. -/
lemma finest_lt (hc : Canonical b.mantissa b.exponent) :
    (10 : ℚ) ^ (leading b - 16) <
      ((interval b).below + (interval b).above : Nat) * 2 ^ (interval b).place := by
  have hwidth : 4 * b.mantissa < ((interval b).below + (interval b).above) * 10 ^ 16 := by
    have hlt := hc.lt
    simp only [interval, Nat.pow_eq]
    split
    · next h =>
      simp only [Bool.and_eq_true, beq_iff_eq] at h
      omega
    · omega
  have hplace : (2 : ℚ) ^ b.exponent = 2 ^ 2 * 2 ^ (interval b).place := two_zpow_eq 2 (by omega)
  have hten : (10 : ℚ) ^ (16 : Int) = (10 ^ 16 : Nat) := by norm_num
  rw [zpow_sub₀ (by norm_num), div_lt_iff₀ (by positivity)]
  calc (10 : ℚ) ^ leading b ≤ b.mantissa * 2 ^ b.exponent := leading_le hc
    _ = (4 * b.mantissa : Nat) * 2 ^ (interval b).place := by
      rw [hplace]
      push_cast
      ring
    _ < (((interval b).below + (interval b).above) * 10 ^ 16 : Nat) * 2 ^ (interval b).place := by
      gcongr
    _ = _ := by
      rw [hten, Nat.cast_mul]
      ring

/-! ### The digits -/

lemma Interval.Proper.pos_of_contains (hi : i.Proper) {v : ℚ} (h : i.Contains v) : 0 < v := by
  have hroom : (0 : ℚ) < i.centre - i.below := sub_pos.2 (by exact_mod_cast hi.room)
  exact lt_of_lt_of_le (by positivity) h.1.1

lemma exists_dropZeros (cs : List Char) : ∃ n, cs = dropZeros cs ++ List.replicate n '0' := by
  refine ⟨(cs.reverse.takeWhile (· == '0')).length, ?_⟩
  have hzeros : (cs.reverse.takeWhile (· == '0')).reverse =
      List.replicate (cs.reverse.takeWhile (· == '0')).length '0' := by
    refine List.eq_replicate_iff.2 ⟨List.length_reverse, fun c hc => ?_⟩
    exact eq_of_beq (List.mem_takeWhile_imp (List.mem_reverse.1 hc) :)
  rw [← hzeros, dropZeros, ← List.reverse_append, List.takeWhile_append_dropWhile,
    List.reverse_reverse]

lemma getLast?_dropZeros (cs : List Char) : (dropZeros cs).getLast? ≠ some '0' := by
  rw [dropZeros, List.getLast?_reverse]
  intro h
  have := Text.head?_dropWhile h
  simp at this

open Numeral in
/-- A number's digits up to the last that is no zero. -/
lemma wellFormed_dropZeros {n : Nat} (h : 0 < n) (e : Int) :
    Scientific.WellFormed ⟨dropZeros (Nat.toDigits 10 n), e⟩ := by
  obtain ⟨j, hj⟩ := exists_dropZeros (Nat.toDigits 10 n)
  have hne : dropZeros (Nat.toDigits 10 n) ≠ [] := by
    intro hnil
    rw [hnil] at hj
    have := digitsValue_toDigits n
    rw [hj, List.nil_append, digitsValue_zeros] at this
    omega
  refine ⟨fun c hc => ?_, hne, ?_, .inr (getLast?_dropZeros _)⟩
  · exact digits_toDigits n c (hj ▸ List.mem_append_left _ hc)
  · have hhead := head?_toDigits h
    rwa [hj, List.head?_append_of_ne_nil _ hne] at hhead

open Numeral in
lemma value_dropZeros (n : Nat) (g : Int) :
    Scientific.value ⟨dropZeros (Nat.toDigits 10 n), g + (Nat.toDigits 10 n).length - 1⟩ =
      n * 10 ^ g := by
  obtain ⟨j, hj⟩ := exists_dropZeros (Nat.toDigits 10 n)
  have hvalue : n = 10 ^ j * digitsValue (dropZeros (Nat.toDigits 10 n)) := by
    conv_lhs => rw [← digitsValue_toDigits n, hj, digitsValue_append, digitsValue_zeros,
      List.length_replicate, Nat.add_zero]
  have hlength : (Nat.toDigits 10 n).length = (dropZeros (Nat.toDigits 10 n)).length + j := by
    conv_lhs => rw [hj, List.length_append, List.length_replicate]
  have hplace : g + (Nat.toDigits 10 n).length - 1 + 1 - (dropZeros (Nat.toDigits 10 n)).length =
      j + g := by omega
  rw [Scientific.value, hplace, zpow_add₀ (by norm_num), zpow_natCast]
  conv_rhs => rw [hvalue]
  push_cast
  ring

/-- **The decimal of a double**: digits with none to spare, and the number lies in the double's
interval. -/
lemma ofBinary_spec (tie : Tie) (hc : Canonical b.mantissa b.exponent) :
    (ofBinary tie b).WellFormed ∧ (interval b).Contains (ofBinary tie b).value := by
  have hproper := proper_interval hc.pos
  have hgrid : leading b + 1 - (1 + 16 : Nat) = leading b - 16 := by omega
  have hlast : (onGrid? tie (interval b) (leading b + 1 - (1 + 16 : Nat))).isSome = true :=
    isSome_onGrid? hproper (hgrid ▸ finest_lt hc)
  have hin := contains_search hproper (leading b) 16 1 hlast
  unfold ofBinary
  generalize search tie (interval b) (leading b) 17 1 = found at hin ⊢
  obtain ⟨d, grid⟩ := found
  simp only at hin ⊢
  have hpos : 0 < d := by
    refine Nat.pos_of_ne_zero ?_
    rintro rfl
    have := hproper.pos_of_contains hin
    simp at this
  exact ⟨wellFormed_dropZeros hpos _, by rwa [value_dropZeros]⟩

end Shortest

end Blockwork
