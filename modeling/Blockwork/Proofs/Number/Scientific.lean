import Blockwork.Number.Shortest
import Blockwork.Proofs.Number.Grammar
import Mathlib.Algebra.Order.Field.Power
import Mathlib.Data.List.Induction
import Mathlib.Data.Rat.Cast.Order
import Mathlib.Tactic.FieldSimp
import Mathlib.Tactic.Linarith
import Mathlib.Tactic.Ring

/-!
Digit strings and what they stand for. Without zeros in front, a string is what its number is
written as; without zeros at either end, a number has only one scientific form.
-/

namespace Blockwork

namespace Numeral

variable {c : Char} {cs ds : List Char}

lemma digitsValue_append (cs ds : List Char) :
    digitsValue (cs ++ ds) = 10 ^ ds.length * digitsValue cs + digitsValue ds := by
  change Nat.ofDigitChars 10 (cs ++ ds) 0 = _
  rw [Nat.ofDigitChars_append, Nat.ofDigitChars_eq_ofDigitChars_zero]
  rfl

lemma digitsValue_concat (cs : List Char) (c : Char) :
    digitsValue (cs ++ [c]) = 10 * digitsValue cs + (c.toNat - 48) := by
  rw [digitsValue, List.foldl_append]
  rfl

lemma digitsValue_toDigits (n : Nat) : digitsValue (Nat.toDigits 10 n) = n :=
  Nat.ofDigitChars_ten_toDigits

lemma digitsValue_zeros (n : Nat) : digitsValue (List.replicate n '0') = 0 := by
  change Nat.ofDigitChars 10 (List.replicate n '0') 0 = 0
  rw [Nat.ofDigitChars_replicate_zero, Nat.mul_zero]

lemma digitsValue_zeros_append (n : Nat) (cs : List Char) :
    digitsValue (List.replicate n '0' ++ cs) = digitsValue cs := by
  rw [digitsValue_append, digitsValue_zeros, Nat.mul_zero, Nat.zero_add]

lemma digits_toDigits (n : Nat) : Digits (Nat.toDigits 10 n) := fun _ hc =>
  Nat.isDigit_of_mem_toDigits (by decide) (by decide) hc

lemma digits_append : Digits (cs ++ ds) ↔ Digits cs ∧ Digits ds := List.forall_mem_append

lemma digits_zeros (n : Nat) : Digits (List.replicate n '0') := fun c hc => by
  rw [List.eq_of_mem_replicate hc]
  rfl

lemma digitValue_lt (h : c.isDigit = true) : c.toNat - 48 < 10 := by
  have := isDigit_iff_toNat.1 h
  omega

lemma digitValue_pos (h : c.isDigit = true) (hc : c ≠ '0') : 0 < c.toNat - 48 := by
  have hcode := isDigit_iff_toNat.1 h
  have hne : c.toNat ≠ 48 := fun h48 => hc (eq_ofNat h48)
  omega

lemma digitChar_digitValue (h : c.isDigit = true) : Nat.digitChar (c.toNat - 48) = c := by
  have hlt := digitValue_lt h
  refine Char.toNat_inj.1 ?_
  rw [Nat.toNat_digitChar_of_lt_ten hlt]
  have := isDigit_iff_toNat.1 h
  omega

lemma Digits.value_lt (h : Digits cs) : digitsValue cs < 10 ^ cs.length := by
  induction cs using List.reverseRecOn with
  | nil => decide
  | append_singleton cs c ih =>
    have hcs := ih (digits_append.1 h).1
    have hc := digitValue_lt (h c (by simp))
    rw [digitsValue_concat, List.length_append, List.length_singleton, Nat.pow_succ]
    omega

/-- The first digit decides how large a number is. -/
lemma Digits.le_value (h : Digits (c :: cs)) (hc : c ≠ '0') :
    10 ^ cs.length ≤ digitsValue (c :: cs) := by
  have hpos := digitValue_pos (h c List.mem_cons_self) hc
  rw [← List.singleton_append, digitsValue_append]
  refine (Nat.le_mul_of_pos_right _ ?_).trans (Nat.le_add_right _ _)
  change 0 < 0 + (c.toNat - 48)
  omega

/-- Digits without a zero in front are those of their number. -/
lemma toDigits_digitsValue (h : Digits (c :: cs)) (hc : c ≠ '0') :
    Nat.toDigits 10 (digitsValue (c :: cs)) = c :: cs := by
  -- the last digit is taken off, so that the first one stays in front
  induction cs using List.reverseRecOn with
  | nil =>
    have hd := h c List.mem_cons_self
    change Nat.toDigits 10 (0 + (c.toNat - 48)) = [c]
    rw [Nat.zero_add, Nat.toDigits_of_lt_base (digitValue_lt hd), digitChar_digitValue hd]
  | append_singleton cs d ih =>
    have hcs : Digits (c :: cs) := (digits_append.1 h).1
    have hd : d.isDigit = true := h d (by simp)
    have hpos : 0 < digitsValue (c :: cs) := (Nat.pow_pos (by decide)).trans_le (hcs.le_value hc)
    calc Nat.toDigits 10 (digitsValue (c :: cs ++ [d]))
      _ = Nat.toDigits 10 (10 * digitsValue (c :: cs) + (d.toNat - 48)) := by
        rw [digitsValue_concat]
      _ = Nat.toDigits 10 (digitsValue (c :: cs)) ++ Nat.toDigits 10 (d.toNat - 48) :=
        (Nat.toDigits_append_toDigits (by decide) hpos (digitValue_lt hd)).symm
      _ = c :: cs ++ [d] := by
        rw [ih hcs, Nat.toDigits_of_lt_base (digitValue_lt hd), digitChar_digitValue hd]

lemma pow_length_toDigits {n : Nat} (h : 0 < n) :
    10 ^ ((Nat.toDigits 10 n).length - 1) ≤ n ∧ n < 10 ^ (Nat.toDigits 10 n).length := by
  have hpos : 0 < (Nat.toDigits 10 n).length := Nat.length_toDigits_pos
  refine ⟨?_, (Nat.length_toDigits_le_iff (by decide) hpos).1 le_rfl⟩
  generalize hk : (Nat.toDigits 10 n).length - 1 = k
  rcases Nat.eq_zero_or_pos k with rfl | hk0
  · exact h
  · by_contra hlt
    have := (Nat.length_toDigits_le_iff (by decide) hk0).2 (Nat.not_le.1 hlt)
    omega

lemma head?_toDigits {n : Nat} (h : 0 < n) : (Nat.toDigits 10 n).head? ≠ some '0' := by
  intro hzero
  obtain ⟨cs, hcs⟩ := List.head?_eq_some_iff.1 hzero
  have hle := (pow_length_toDigits h).1
  have hlt := Digits.value_lt (fun c hc => digits_toDigits n c (hcs ▸ List.mem_cons_of_mem _ hc))
  have hvalue : digitsValue cs = n := by
    rw [← digitsValue_zeros_append 1 cs, ← digitsValue_toDigits n, hcs]
    rfl
  rw [hvalue] at hlt
  rw [hcs, List.length_cons, Nat.add_sub_cancel] at hle
  omega

/-- A number whose last digit is no zero is no multiple of ten. -/
lemma Digits.mod_ten_ne_zero (h : Digits cs) (hne : cs ≠ []) (hlast : cs.getLast? ≠ some '0') :
    digitsValue cs % 10 ≠ 0 := by
  obtain ⟨xs, c, rfl⟩ := cs.eq_nil_or_concat'.resolve_left hne
  rw [List.getLast?_concat, ne_eq, Option.some.injEq] at hlast
  have hd : c.isDigit = true := h c (by simp)
  have hlt := digitValue_lt hd
  have hpos := digitValue_pos hd hlast
  rw [digitsValue_concat]
  omega

end Numeral

namespace Scientific

open Numeral

/-- Digits with none to spare. -/
structure WellFormed (s : Scientific) : Prop where
  digits : Digits s.digits
  nonempty : s.digits ≠ []
  first : s.digits.head? ≠ some '0'
  last : s.digits.length = 1 ∨ s.digits.getLast? ≠ some '0'

instance (s : Scientific) : Decidable s.WellFormed :=
  decidable_of_iff
    (Digits s.digits ∧ s.digits ≠ [] ∧ s.digits.head? ≠ some '0' ∧
      (s.digits.length = 1 ∨ s.digits.getLast? ≠ some '0'))
    ⟨fun h => ⟨h.1, h.2.1, h.2.2.1, h.2.2.2⟩, fun h => ⟨h.digits, h.nonempty, h.first, h.last⟩⟩

/-- The number `d₁.d₂…dₖ * 10 ^ exponent`. -/
def value (s : Scientific) : ℚ :=
  digitsValue s.digits * 10 ^ (s.exponent + 1 - s.digits.length)

variable {s t : Scientific}

lemma WellFormed.getLast?_ne (h : s.WellFormed) : s.digits.getLast? ≠ some '0' := by
  refine h.last.elim (fun hone => ?_) id
  obtain ⟨c, hc⟩ := List.length_eq_one_iff.1 hone
  have hfirst := h.first
  rw [hc] at hfirst ⊢
  exact hfirst

lemma WellFormed.exists_cons (h : s.WellFormed) : ∃ c cs, s.digits = c :: cs ∧ c ≠ '0' := by
  obtain ⟨c, cs, hcs⟩ := List.exists_cons_of_ne_nil h.nonempty
  have hfirst := h.first
  rw [hcs, List.head?_cons, ne_eq, Option.some.injEq] at hfirst
  exact ⟨c, cs, hcs, hfirst⟩

lemma WellFormed.toDigits (h : s.WellFormed) :
    Nat.toDigits 10 (digitsValue s.digits) = s.digits := by
  obtain ⟨c, cs, hcs, hc⟩ := h.exists_cons
  rw [hcs]
  exact toDigits_digitsValue (hcs ▸ h.digits) hc

/-- The exponent says how large a number is. -/
lemma WellFormed.value_bounds (h : s.WellFormed) :
    10 ^ s.exponent ≤ s.value ∧ s.value < 10 ^ (s.exponent + 1) := by
  obtain ⟨c, cs, hcs, hc⟩ := h.exists_cons
  have hten : (10 : ℚ) ≠ 0 := by norm_num
  have hdigits : Digits (c :: cs) := hcs ▸ h.digits
  have hle : (10 : ℚ) ^ cs.length ≤ digitsValue (c :: cs) := by exact_mod_cast hdigits.le_value hc
  have hlt : (digitsValue (c :: cs) : ℚ) < 10 ^ (c :: cs).length := by
    exact_mod_cast hdigits.value_lt
  have hplace : (0 : ℚ) < 10 ^ (s.exponent + 1 - (c :: cs).length) := by positivity
  rw [value, hcs]
  constructor
  · calc (10 : ℚ) ^ s.exponent = 10 ^ cs.length * 10 ^ (s.exponent + 1 - (c :: cs).length) := by
          rw [← zpow_natCast, ← zpow_add₀ hten]
          congr 1
          push_cast [List.length_cons]
          ring
      _ ≤ _ := by gcongr
  · calc digitsValue (c :: cs) * (10 : ℚ) ^ (s.exponent + 1 - (c :: cs).length)
      _ < 10 ^ (c :: cs).length * 10 ^ (s.exponent + 1 - (c :: cs).length) := by gcongr
      _ = 10 ^ (s.exponent + 1) := by
          rw [← zpow_natCast, ← zpow_add₀ hten]
          congr 1
          ring

lemma WellFormed.value_lt_iff (h : s.WellFormed) {k : Int} : s.value < 10 ^ k ↔ s.exponent < k := by
  have hten : (1 : ℚ) < 10 := by norm_num
  obtain ⟨hlo, hhi⟩ := h.value_bounds
  refine ⟨fun hlt => (zpow_lt_zpow_iff_right₀ hten).1 (hlo.trans_lt hlt), fun hlt => ?_⟩
  exact hhi.trans_le (zpow_le_zpow_right₀ hten.le hlt)

/-- Of two forms of one number, the longer one would end in a zero. -/
lemma length_le_of_value_eq (ht : t.WellFormed) (he : s.exponent = t.exponent)
    (hv : s.value = t.value) : t.digits.length ≤ s.digits.length := by
  by_contra hlt
  obtain ⟨j, hj⟩ : ∃ j, t.digits.length = s.digits.length + (j + 1) :=
    ⟨t.digits.length - s.digits.length - 1, by omega⟩
  have hten : (10 : ℚ) ≠ 0 := by norm_num
  have hvalue : digitsValue t.digits = digitsValue s.digits * 10 ^ (j + 1) := by
    have hplace : (10 : ℚ) ^ (t.exponent + 1 - s.digits.length) =
        10 ^ (j + 1) * 10 ^ (t.exponent + 1 - t.digits.length) := by
      rw [← zpow_natCast, ← zpow_add₀ hten]
      congr 1
      omega
    rw [value, value, he, hplace, ← mul_assoc] at hv
    exact_mod_cast (mul_right_cancel₀ (zpow_ne_zero _ hten) hv).symm
  refine ht.digits.mod_ten_ne_zero ht.nonempty ht.getLast?_ne ?_
  rw [hvalue, Nat.pow_succ, ← Nat.mul_assoc, Nat.mul_mod_left]

/-- **One form for each number.** -/
lemma eq_of_value_eq (hs : s.WellFormed) (ht : t.WellFormed) (hv : s.value = t.value) : s = t := by
  have hexponent : s.exponent = t.exponent := by
    have hle := hs.value_lt_iff.1 (hv ▸ ht.value_bounds.2)
    have hge := ht.value_lt_iff.1 (hv ▸ hs.value_bounds.2)
    omega
  have hlength : s.digits.length = t.digits.length :=
    le_antisymm (length_le_of_value_eq hs hexponent.symm hv.symm)
      (length_le_of_value_eq ht hexponent hv)
  have hdigits : digitsValue s.digits = digitsValue t.digits := by
    rw [value, value, hexponent, hlength] at hv
    exact_mod_cast mul_right_cancel₀ (zpow_ne_zero _ (by norm_num)) hv
  obtain ⟨ds, e⟩ := s
  obtain ⟨ds', e'⟩ := t
  have hds := hs.toDigits
  rw [hdigits, ht.toDigits] at hds
  exact congrArg₂ _ hds.symm hexponent

end Scientific

end Blockwork
