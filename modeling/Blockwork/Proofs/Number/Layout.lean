import Blockwork.Number.Layout
import Blockwork.Proofs.Number.Reading
import Blockwork.Proofs.Number.Shortest
import Blockwork.Value

/-!
Texts of numbers. A number in scientific form is laid out in one of four ways; the text is a decimal
of the grammar, stands for exactly this number and tells it from every other. So a number that is
written and read again is the same number, and compares equal to its own text.
-/

namespace Blockwork

open Numeral

namespace Number

/-! ### The four ways to lay out a number -/

/-- How a number in scientific form is laid out. -/
inductive Laid : Scientific → List Char → Prop
  | whole {ds : List Char} {n : Nat} {e : Int} (hplace : e + 1 = ds.length + n) (hsmall : e < 21) :
      Laid ⟨ds, e⟩ (ds ++ List.replicate n '0')
  | inside {xs ys : List Char} {e : Int} (hplace : e + 1 = xs.length) (hxs : xs ≠ [])
      (hys : ys ≠ []) (hsmall : e < 21) : Laid ⟨xs ++ ys, e⟩ (xs ++ '.' :: ys)
  | before {ds : List Char} {n : Nat} {e : Int} (hplace : e + 1 = -n) (hlarge : -6 ≤ e) :
      Laid ⟨ds, e⟩ ('0' :: '.' :: (List.replicate n '0' ++ ds))
  | exponent {c : Char} {cs : List Char} {e : Int} (hfar : e < -6 ∨ 21 ≤ e) :
      Laid ⟨c :: cs, e⟩
        (c :: ((if cs = [] then [] else '.' :: cs) ++ Layout.exponentPart e))

variable {s t : Scientific} {cs : List Char}

lemma laid_body (h : s.digits ≠ []) : Laid s (layout.body s) := by
  obtain ⟨ds, e⟩ := s
  have hwhole : layout.wholeDigits = 21 := rfl
  have hzeros : layout.leadingZeros = 6 := rfl
  have hend : layout.wholeEnd = [] := rfl
  simp only [Layout.body, hwhole, hzeros, hend, Bool.and_eq_true, decide_eq_true_eq, Layout.zeros,
    List.append_nil]
  split
  · next hcase => exact .whole (by omega) (by omega)
  split
  · next hnot hcase =>
    have hlength : (ds.take (e + 1).toNat).length = (e + 1).toNat := by
      rw [List.length_take]
      omega
    have hlaid : Laid ⟨ds.take (e + 1).toNat ++ ds.drop (e + 1).toNat, e⟩ _ :=
      .inside (by omega) (List.ne_nil_of_length_pos (by omega))
        (List.ne_nil_of_length_pos (by rw [List.length_drop]; omega)) (by omega)
    rwa [List.take_append_drop] at hlaid
  split
  · next hcase => exact .before (by omega) (by omega)
  · next hnone hinside hbefore =>
    have hfar : e < -6 ∨ 21 ≤ e := by
      have : 0 < ds.length := List.length_pos_of_ne_nil h
      omega
    match ds, h with
    | [c], _ => exact .exponent hfar
    | c :: d :: cs, _ => exact .exponent hfar

/-! ### The text as a decimal -/

lemma sign_signPart (negative : Bool) : Sign (Layout.signPart negative) negative := by
  cases negative with
  | false => exact .none
  | true => exact .minus

lemma exponent_exponentPart (e : Int) : Exponent (Layout.exponentPart e) e := by
  have hds := digits_toDigits e.natAbs
  have hne : Nat.toDigits 10 e.natAbs ≠ [] := Nat.toDigits_ne_nil
  unfold Layout.exponentPart
  split
  · have h := Exponent.some (.inl rfl) .minus hds hne
    rwa [if_pos rfl, digitsValue_toDigits, show -(e.natAbs : Int) = e by omega] at h
  · have h := Exponent.some (.inl rfl) .plus hds hne
    rwa [if_neg Bool.false_ne_true, digitsValue_toDigits,
      show (e.natAbs : Int) = e by omega] at h

lemma value_eq_whole {ds : List Char} {n : Nat} {e : Int} (h : e + 1 = ds.length + n) :
    Scientific.value ⟨ds, e⟩ = digitsValue (ds ++ List.replicate n '0') := by
  have hexp : e + 1 - ds.length = n := by omega
  rw [Scientific.value, hexp, digitsValue_append, digitsValue_zeros, List.length_replicate,
    zpow_natCast]
  push_cast
  ring

lemma value_eq_fraction {ds : List Char} {n : Nat} {e : Int} (h : e + 1 + n = ds.length) :
    Scientific.value ⟨ds, e⟩ = digitsValue ds / 10 ^ n := by
  have hexp : e + 1 - ds.length = -n := by omega
  rw [Scientific.value, hexp, zpow_neg, zpow_natCast, div_eq_mul_inv]

/-- The text is a decimal that stands for the number itself, with no rounding. -/
lemma Laid.spells (h : Laid s cs) (hs : s.WellFormed) (negative : Bool) :
    ∃ d, SpellsDecimal (Layout.signPart negative ++ cs) d ∧ d.negative = negative ∧
      digitsValue d.digits * (10 : ℚ) ^ d.exponent = s.value := by
  have hsign := sign_signPart negative
  have hdigits := hs.digits
  cases h with
  | @whole ds n e hplace hsmall =>
    have hspells := SpellsDecimal.whole hsign (digits_append.2 ⟨hdigits, digits_zeros n⟩)
      (List.append_ne_nil_of_left_ne_nil hs.nonempty _) .none
    rw [List.append_nil] at hspells
    refine ⟨_, hspells, rfl, ?_⟩
    rw [value_eq_whole hplace, zpow_zero, mul_one]
  | @inside xs ys e hplace hxs hys hsmall =>
    obtain ⟨hfront, hback⟩ := digits_append.1 hdigits
    have hspells := SpellsDecimal.point hsign hfront hback (.inl hxs) .none
    rw [List.append_nil] at hspells
    refine ⟨_, hspells, rfl, ?_⟩
    have hexp : e + 1 - (xs ++ ys).length = 0 - ys.length := by
      rw [List.length_append]
      omega
    rw [Scientific.value, hexp]
  | @before ds n e hplace hlarge =>
    have hspells := SpellsDecimal.point hsign (digits_zeros 1)
      (digits_append.2 ⟨digits_zeros n, hdigits⟩) (.inl (List.cons_ne_nil _ _)) .none
    rw [List.append_nil] at hspells
    refine ⟨_, hspells, rfl, ?_⟩
    have hexp : e + 1 - ds.length = 0 - (List.replicate n '0' ++ ds).length := by
      rw [List.length_append, List.length_replicate]
      omega
    rw [Scientific.value, hexp, digitsValue_zeros_append, digitsValue_zeros_append]
  | @exponent c cs e hfar =>
    have hex := exponent_exponentPart e
    have hc : Digits [c] := fun d hd => hdigits d (List.mem_cons.2 (.inl (List.mem_singleton.1 hd)))
    by_cases hcs : cs = []
    · subst hcs
      refine ⟨_, .whole hsign hc (List.cons_ne_nil _ _) hex, rfl, ?_⟩
      rw [Scientific.value, List.length_singleton, Nat.cast_one, add_sub_cancel_right]
    · rw [if_neg hcs]
      refine ⟨_, .point hsign hc (fun d hd => hdigits d (List.mem_cons_of_mem _ hd))
        (.inl (List.cons_ne_nil _ _)) hex, rfl, ?_⟩
      have hexp : e + 1 - (c :: cs).length = e - cs.length := by
        rw [List.length_cons]
        omega
      rw [Scientific.value, hexp]
      rfl

lemma spells_text (hs : s.WellFormed) (negative : Bool) :
    ∃ d, SpellsDecimal (Layout.signPart negative ++ layout.body s) d ∧ d.negative = negative ∧
      digitsValue d.digits * (10 : ℚ) ^ d.exponent = s.value :=
  (laid_body hs.nonempty).spells hs negative

/-- Distinct numbers have distinct texts. -/
lemma text_injective {n n' : Bool} (hs : s.WellFormed) (ht : t.WellFormed)
    (h : Layout.signPart n ++ layout.body s = Layout.signPart n' ++ layout.body t) :
    n = n' ∧ s = t := by
  obtain ⟨d, hd, hn, hv⟩ := spells_text hs n
  obtain ⟨d', hd', hn', hv'⟩ := spells_text ht n'
  -- one text is read as one decimal only
  rw [← h] at hd'
  obtain rfl : d = d' := Option.some.inj
    ((decimal?_eq_some_iff.2 hd).symm.trans (decimal?_eq_some_iff.2 hd'))
  exact ⟨hn.symm.trans hn', Scientific.eq_of_value_eq hs ht (hv.symm.trans hv')⟩

/-! ### The text by the number's size -/

/-- The text of a number: its digits if it is whole and has at most 21 of them, a point among them
if it has a fraction and is not below a millionth, and else one digit in front of the point and the
power of ten behind, with its sign. No zeros are written at the end of a fraction. -/
inductive Written (v : ℚ) : List Char → Prop
  | whole {n : Nat} (hv : v = n) (hsmall : v < 10 ^ (21 : Int)) : Written v (Nat.toDigits 10 n)
  | fraction {n : Nat} {fs : List Char} (hfs : Digits fs) (hne : fs ≠ [])
      (hlast : fs.getLast? ≠ some '0') (hv : v = n + digitsValue fs / 10 ^ fs.length)
      (hlarge : 10 ^ (-6 : Int) ≤ v) (hsmall : v < 10 ^ (21 : Int)) :
      Written v (Nat.toDigits 10 n ++ '.' :: fs)
  | power {c : Char} {fs : List Char} {e : Int} (hds : Digits (c :: fs)) (hfirst : c ≠ '0')
      (hlast : fs.getLast? ≠ some '0')
      (hv : v = digitsValue (c :: fs) / 10 ^ fs.length * 10 ^ e)
      (hfar : v < 10 ^ (-6 : Int) ∨ 10 ^ (21 : Int) ≤ v) :
      Written v (c :: ((if fs = [] then [] else '.' :: fs) ++
        'e' :: (if e < 0 then '-' else '+') :: Nat.toDigits 10 e.natAbs))

lemma Laid.written (h : Laid s cs) (hs : s.WellFormed) : Written s.value cs := by
  obtain ⟨c, rest, hcons, hc⟩ := hs.exists_cons
  have hlt : ∀ {k : Int}, s.exponent < k → s.value < 10 ^ k := hs.value_lt_iff.2
  have hle : ∀ {k : Int}, k ≤ s.exponent → 10 ^ k ≤ s.value := fun hk =>
    not_lt.1 fun h => not_lt.2 hk (hs.value_lt_iff.1 h)
  have hlast := hs.getLast?_ne
  cases h with
  | @whole ds n e hplace hsmall =>
    obtain rfl : ds = c :: rest := hcons
    have hwritten := Written.whole (value_eq_whole hplace) (hlt hsmall)
    have hdigits : Digits (c :: (rest ++ List.replicate n '0')) :=
      digits_append.2 ⟨hs.digits, digits_zeros n⟩
    rwa [List.cons_append, toDigits_digitsValue hdigits hc] at hwritten
  | @inside xs ys e hplace hxs hys hsmall =>
    obtain ⟨d, xs, rfl⟩ := List.exists_cons_of_ne_nil hxs
    obtain rfl : d = c := (List.cons.inj hcons).1
    obtain ⟨hfront, hback⟩ := digits_append.1 hs.digits
    rw [List.getLast?_append_of_ne_nil _ hys] at hlast
    have hvalue : Scientific.value ⟨d :: xs ++ ys, e⟩ =
        digitsValue (d :: xs) + digitsValue ys / 10 ^ ys.length := by
      rw [value_eq_fraction (n := ys.length) (by rw [hplace, List.length_append, Nat.cast_add]),
        digitsValue_append]
      push_cast
      field_simp
    have hwritten := Written.fraction hback hys hlast hvalue
      (hle (by simp only [List.length_cons] at hplace ⊢; omega)) (hlt hsmall)
    rwa [toDigits_digitsValue hfront hc] at hwritten
  | @before ds n e hplace hlarge =>
    rw [← List.getLast?_append_of_ne_nil (List.replicate n '0') hs.nonempty] at hlast
    -- the whole part is zero, and zero is written as one digit
    have hvalue : Scientific.value ⟨ds, e⟩ = (0 : Nat) +
        digitsValue (List.replicate n '0' ++ ds) / 10 ^ (List.replicate n '0' ++ ds).length := by
      rw [value_eq_fraction (n := (List.replicate n '0' ++ ds).length)
        (by rw [List.length_append, List.length_replicate]; omega), digitsValue_zeros_append,
        Nat.cast_zero, zero_add]
    exact .fraction (digits_append.2 ⟨digits_zeros n, hs.digits⟩)
      (List.append_ne_nil_of_right_ne_nil _ hs.nonempty) hlast hvalue (hle hlarge)
      (hlt (by simp only; omega))
  | @exponent d fs e hfar =>
    obtain ⟨rfl, rfl⟩ := List.cons.inj hcons
    refine .power hs.digits hc ?_ ?_ (hfar.imp hlt hle)
    · intro hzero
      refine hlast ?_
      simp only [List.getLast?_cons, hzero, Option.getD_some]
    · have hexp : e + 1 - (d :: fs).length = -fs.length + e := by
        rw [List.length_cons]
        omega
      rw [Scientific.value, hexp, zpow_add₀ (by norm_num), zpow_neg, zpow_natCast, ← mul_assoc,
        div_eq_mul_inv]

/-! ### Numbers written and read again -/

lemma isBlank_of_inDecimal {c : Char} (h : inDecimal c = true) : Text.isBlank c = false := by
  rw [inDecimal, Bool.or_eq_true, isDigit_iff_toNat, List.contains_iff_mem] at h
  rcases h with h | h
  · simp only [Text.isBlank, Text.isSpace, Bool.or_eq_false_iff, Bool.and_eq_false_iff,
      decide_eq_false_iff_not, beq_eq_false_iff_ne]
    omega
  · simp only [List.mem_cons, List.not_mem_nil, or_false] at h
    rcases h with rfl | rfl | rfl | rfl | rfl <;> rfl

lemma read_eq_of_spells {d : Decimal} (h : SpellsDecimal cs d) : read cs = some (.decimal d) := by
  have hblank : ∀ c ∈ cs, Text.isBlank c = false := fun c hc =>
    isBlank_of_inDecimal (List.all_eq_true.1 h.inDecimal c hc)
  have htrim : Text.Trims cs cs := ⟨⟨[], [], by simp, by simp⟩,
    fun c hc => hblank c (List.mem_of_mem_head? hc), fun c hc => hblank c (List.mem_of_getLast? hc)⟩
  rw [Numeral.read, ← Text.trims_iff.1 htrim, readTrimmed_eq_some_iff.2 (.decimal h)]

section

open Float.Model Float.Model.UnpackedFloat

variable {x : Float}

lemma isNaN_eq_false_of_isFinite (h : x.isFinite = true) : x.isNaN = false ∧ x.isInf = false := by
  change x.toModel.unpack.isFinite = true at h
  change x.toModel.unpack.isNaN = false ∧ x.toModel.unpack.isInf = false
  cases hu : x.toModel.unpack with
  | infinity | notANumber =>
    rw [hu] at h
    cases h
  | zero | finite => exact ⟨rfl, rfl⟩

lemma text_of_isFinite (h : x.isFinite = true) (hm : (Binary.ofFloat x).mantissa ≠ 0) :
    text x = String.ofList (Layout.signPart (Binary.ofFloat x).negative ++
      layout.body (Shortest.ofBinary .upper (Binary.ofFloat x))) := by
  obtain ⟨hnan, hinf⟩ := isNaN_eq_false_of_isFinite h
  have hne : ((Binary.ofFloat x).mantissa == 0) = false := beq_false_of_ne hm
  simp only [text, Layout.write, hnan, hinf, hne, Bool.false_eq_true, if_false]
  rfl

lemma text_of_zero (h : x.isFinite = true) (hm : (Binary.ofFloat x).mantissa = 0) :
    text x = "0" := by
  obtain ⟨hnan, hinf⟩ := isNaN_eq_false_of_isFinite h
  simp only [text, Layout.write, hnan, hinf, hm, Bool.false_eq_true, if_false, beq_self_eq_true,
    if_true]
  rw [show layout.signedZero = false from rfl, Bool.and_false]
  rfl

lemma text_of_infinity {sign : Sign} (h : x.toModel.unpack = .infinity sign) :
    text x = match sign with
      | .positive => "Infinity"
      | .negative => "-Infinity" := by
  have hnan : x.isNaN = false := by
    change x.toModel.unpack.isNaN = false
    rw [h]
    rfl
  have hinf : x.isInf = true := by
    change x.toModel.unpack.isInf = true
    rw [h]
    rfl
  have hpos : 0 < x ↔ UnpackedFloat.lt (.zero .positive) (.infinity sign) = true := by
    rw [← h]
    exact decide_eq_true_iff
  simp only [text, Layout.write, hnan, hinf, gt_iff_lt, hpos, Bool.false_eq_true, if_false, if_true]
  cases sign <;> rfl

lemma beq_self (h : x.isNaN = false) : (x == x) = true := by
  change x.toModel.unpack.isNaN = false at h
  change UnpackedFloat.beq x.toModel.unpack x.toModel.unpack = true
  cases hu : x.toModel.unpack with
  | notANumber =>
    rw [hu] at h
    cases h
  | infinity sign => cases sign <;> rfl
  | zero sign => rfl
  | finite sign m e => cases sign <;> simp [UnpackedFloat.beq, UnpackedFloat.compare]

lemma beq_zero_eq : (x == 0) = UnpackedFloat.beq x.toModel.unpack (.zero .positive) := rfl

lemma parse?_text_of_infinity {sign : Sign} (h : x.toModel.unpack = .infinity sign) :
    (x == 0) = false ∧ parse? (text x) = some x := by
  rw [beq_zero_eq, h, text_of_infinity h]
  cases sign with
  | positive =>
    have hread : Numeral.read "Infinity".toList = some (.infinity false) := by decide
    rw [parse?, hread]
    exact ⟨rfl, congrArg some (Doubles.eq_of_unpack h.symm)⟩
  | negative =>
    have hread : Numeral.read "-Infinity".toList = some (.infinity true) := by decide
    rw [parse?, hread]
    exact ⟨rfl, congrArg some (Doubles.eq_of_unpack h.symm)⟩

lemma parse?_text_of_zero (h : x.isFinite = true) (hm : (Binary.ofFloat x).mantissa = 0) :
    parse? (text x) = some 0 := by
  have hread : Numeral.read "0".toList = some (.decimal ⟨false, ['0'], 0⟩) := by decide
  rw [text_of_zero h hm, parse?, hread]
  rfl

/-- What is written for a double lies in its interval, so it is read as this double. -/
lemma parse?_text_of_isFinite (h : x.isFinite = true) (hm : (Binary.ofFloat x).mantissa ≠ 0) :
    parse? (text x) = some x := by
  obtain ⟨hc, -⟩ := (Doubles.unpack_of_isFinite h).resolve_left fun h => hm h.1
  obtain ⟨hwf, hin⟩ := Shortest.ofBinary_spec .upper hc
  obtain ⟨d, hspells, hnegative, hvalue⟩ := spells_text hwf (Binary.ofFloat x).negative
  rw [text_of_isFinite h hm, parse?, String.toList_ofList, read_eq_of_spells hspells]
  exact congrArg some (Decimal.toFloat_eq h hm hnegative (hvalue ▸ hin))

/-- Zero is the only finite number without a mantissa. -/
lemma beq_zero_iff (h : x.isFinite = true) : (x == 0) = true ↔ (Binary.ofFloat x).mantissa = 0 := by
  rw [beq_zero_eq]
  rcases Doubles.unpack_of_isFinite h with ⟨hm, hu⟩ | ⟨hc, hu⟩
  · rw [hu]
    exact iff_of_true rfl hm
  · rw [hu]
    refine iff_of_false ?_ hc.pos.ne'
    cases (Binary.ofFloat x).sign <;> exact Bool.false_ne_true

lemma parse?_text (h : x.isNaN = false) : parse? (text x) = some (if x == 0 then 0 else x) := by
  by_cases hfin : x.isFinite = true
  · by_cases hm : (Binary.ofFloat x).mantissa = 0
    · rw [if_pos ((beq_zero_iff hfin).2 hm), parse?_text_of_zero hfin hm]
    · rw [if_neg fun h0 => hm ((beq_zero_iff hfin).1 h0), parse?_text_of_isFinite hfin hm]
  · change ¬ x.toModel.unpack.isFinite = true at hfin
    change x.toModel.unpack.isNaN = false at h
    cases hu : x.toModel.unpack with
    | notANumber =>
      rw [hu] at h
      cases h
    | infinity sign =>
      obtain ⟨hzero, hparse⟩ := parse?_text_of_infinity hu
      rw [hparse, hzero]
      rfl
    | zero | finite =>
      rw [hu] at hfin
      exact absurd rfl hfin

/-- A number compares equal to its own text: as numbers, and for NaN as texts. -/
lemma compare_text (x : Float) : (Value.number x).compare (.text (text x)) = .eq := by
  cases hnan : x.isNaN with
  | true =>
    have hnone : (Value.number x).comparable? = none := by
      rw [Value.comparable?, hnan]
      rfl
    rw [Value.compare, hnone]
    exact if_pos rfl
  | false =>
    have hequal : ∀ y : Float, y.isNaN = false → (x == y) = true → parse? (text x) = some y →
        (Value.number x).compare (.text (text x)) = .eq := by
      intro y hy hxy hparse
      have hnumber : (Value.number x).comparable? = some x := by
        rw [Value.comparable?, hnan]
        rfl
      have htext : (Value.text (text x)).comparable? = some y := by
        rw [Value.comparable?, hparse, Option.filter_some, hy]
        rfl
      rw [Value.compare, hnumber, htext]
      exact if_pos hxy
    have hparse := parse?_text hnan
    by_cases h0 : (x == 0) = true
    · exact hequal 0 rfl h0 (by rw [hparse, if_pos h0])
    · exact hequal x hnan (beq_self hnan) (by rw [hparse, if_neg h0])

end

/-- **Texts of numbers are exact**: whatever digits and exponent are laid out, the text is a decimal
that stands for just this number, in the form that its size asks for, and no other number has the
same text. A number other than zero is laid out from digits in its interval; so what is read back is
the number itself, zero without its sign, and a number compares equal to its own text. -/
theorem text_exact :
    (∀ (negative : Bool) (s : Scientific), s.WellFormed →
      Written s.value (layout.body s) ∧
      ∃ d, Numeral.read (Layout.signPart negative ++ layout.body s) = some (.decimal d) ∧
        SpellsDecimal (Layout.signPart negative ++ layout.body s) d ∧
        d.value = (if negative then -1 else 1) * s.value) ∧
    (∀ (m n : Bool) (s t : Scientific), s.WellFormed → t.WellFormed →
      Layout.signPart m ++ layout.body s = Layout.signPart n ++ layout.body t → m = n ∧ s = t) ∧
    (∀ x : Float, x.isFinite = true → (x == 0) = false → ∃ s : Scientific, s.WellFormed ∧
      text x = String.ofList (Layout.signPart (Binary.ofFloat x).negative ++ layout.body s) ∧
      (Shortest.interval (Binary.ofFloat x)).Contains s.value) ∧
    (∀ x : Float, x.isNaN = false → parse? (text x) = some (if x == 0 then 0 else x)) ∧
    ∀ x : Float, (Value.number x).compare (.text (text x)) = .eq := by
  refine ⟨fun negative s hs => ⟨(laid_body hs.nonempty).written hs, ?_⟩,
    fun m n s t hs ht => text_injective hs ht, fun x hfin hzero => ?_, fun x => parse?_text,
    compare_text⟩
  · obtain ⟨d, hspells, rfl, hvalue⟩ := spells_text hs negative
    exact ⟨d, read_eq_of_spells hspells, hspells, by rw [Decimal.value, hvalue]⟩
  · have hm : (Binary.ofFloat x).mantissa ≠ 0 := fun h => by
      rw [(beq_zero_iff hfin).2 h] at hzero
      cases hzero
    obtain ⟨hc, -⟩ := (Doubles.unpack_of_isFinite hfin).resolve_left fun h => hm h.1
    obtain ⟨hwf, hin⟩ := Shortest.ofBinary_spec .upper hc
    exact ⟨_, hwf, text_of_isFinite hfin hm, hin⟩

/-- The last number that is written out, the first that is not, and the zero with a sign. -/
theorem text_exact_at_limits :
    let s : Scientific := ⟨"15".toList, 20⟩
    let t : Scientific := ⟨"15".toList, 21⟩
    s.WellFormed ∧ t.WellFormed ∧ Written s.value "150000000000000000000".toList ∧
      Written t.value "1.5e+21".toList ∧
      (∃ d, Numeral.read "-1.5e+21".toList = some (.decimal d) ∧ d.value = -t.value) ∧
      (Layout.signPart true ++ layout.body s ≠ Layout.signPart true ++ layout.body t) ∧
      parse? (text (-0.0)) = some 0 := by
  intro s t
  have hs : s.WellFormed := by decide
  have ht : t.WellFormed := by decide
  have hbody : layout.body t = "1.5e+21".toList := by decide
  obtain ⟨hwritten, d, hread, -, hvalue⟩ := text_exact.1 true t ht
  rw [hbody] at hwritten hread
  refine ⟨hs, ht, (text_exact.1 true s hs).1, hwritten, ⟨d, hread, ?_⟩, fun h => ?_,
    text_exact.2.2.2.1 (-0.0) rfl⟩
  · rw [hvalue, if_pos rfl, neg_one_mul]
  · exact absurd (text_exact.2.1 true true s t hs ht h).2 (by decide)

end Number

end Blockwork
