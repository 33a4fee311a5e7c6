import Blockwork.Proofs.Compile.Tables
import Blockwork.Proofs.Number.Doubles
import Blockwork.Value

/-!
The order of values. A comparison looks at both values at once: two numbers are compared by their
size, anything else by its lowercased text. Either regime is a total preorder of its own; taken
together they are not, as a text between two numerals shows. What holds of all values is that
comparing the other way round gives the reverse.

The order of doubles is not assumed. A double that is not NaN has a rank of three integers, its
place among the infinities, the zeros and the rest, its exponent and its mantissa, and doubles
compare as their ranks do.
-/

namespace Blockwork

open Float.Model Float.Model.UnpackedFloat

namespace Doubles

/-! ### Ranks of doubles -/

/-- The place, the exponent and the mantissa of a number, all with its sign. The rank of NaN is
never looked at. -/
def rank : UnpackedFloat → Int × Int × Int
  | .infinity .negative => (-2, 0, 0)
  | .finite .negative m e _ => (-1, -e, -m)
  | .zero _ | .notANumber => (0, 0, 0)
  | .finite .positive m e _ => (1, e, m)
  | .infinity .positive => (2, 0, 0)

/-- The first difference decides. -/
def compareRanks : Int × Int × Int → Int × Int × Int → Ordering :=
  compareLex (compareOn (·.1)) (compareLex (compareOn (·.2.1)) (compareOn (·.2.2)))

instance transCmp_ranks : Std.TransCmp compareRanks := by
  unfold compareRanks
  infer_instance

lemma compare_neg (a b : Int) : compare (-a) (-b) = (compare a b).swap := by
  have hanti : StrictAnti fun a : Int => -a := fun _ _ h => neg_lt_neg h
  rw [← Std.OrientedOrd.eq_swap, ← cmp_eq_compare, ← cmp_eq_compare]
  exact hanti.cmp_map_eq a b

lemma compare_natCast (m n : Nat) : compare (m : Int) n = compare m n := by
  rw [← cmp_eq_compare, ← cmp_eq_compare]
  exact Nat.strictMono_cast.cmp_map_eq m n

/-- Two numbers of one sign, both finite: the exponent decides before the mantissa. -/
lemma compare_finite {m n : Nat} (e f : Int) (hm : 0 < m) (hn : 0 < n) (s : Sign) :
    (UnpackedFloat.finite s m e hm).compare (.finite s n f hn) =
      some (compareRanks (rank (.finite s m e hm)) (rank (.finite s n f hn))) := by
  cases s with
  | positive =>
    have h : compareRanks (1, e, m) (1, f, n) =
      (compare e f).then (compare (m : Int) n) := rfl
    rw [rank, rank, h, compare_natCast]
    rfl
  | negative =>
    have h : compareRanks (-1, -e, -m) (-1, -f, -n) =
      (compare (-e) (-f)).then (compare (-(m : Int)) (-n)) := rfl
    rw [rank, rank, h, compare_neg, compare_neg, compare_natCast, ← Ordering.swap_then]
    rfl

lemma compare_eq_compareRanks {u v : UnpackedFloat} (hu : u.isNaN = false)
    (hv : v.isNaN = false) : u.compare v = some (compareRanks (rank u) (rank v)) := by
  cases u with
  | notANumber => cases hu
  | infinity s =>
    cases v with
    | notANumber => cases hv
    | infinity t => cases s <;> cases t <;> rfl
    | zero t => cases s <;> rfl
    | finite t n f hn => cases s <;> cases t <;> rfl
  | zero s =>
    cases v with
    | notANumber => cases hv
    | infinity t => cases t <;> rfl
    | zero t => rfl
    | finite t n f hn => cases t <;> rfl
  | finite s m e hm =>
    cases v with
    | notANumber => cases hv
    | infinity t => cases s <;> cases t <;> rfl
    | zero t => cases s <;> rfl
    | finite t n f hn =>
      by_cases hst : s = t
      · subst hst
        exact compare_finite e f hm hn s
      · cases s <;> cases t <;> first | rfl | exact absurd rfl hst

end Doubles

namespace Value

variable {a b : Value}

/-! ### The two regimes -/

lemma compareNumbers_eq {x y : Float} (hx : x.isNaN = false) (hy : y.isNaN = false) :
    compareNumbers x y =
      Doubles.compareRanks (Doubles.rank x.toModel.unpack) (Doubles.rank y.toModel.unpack) := by
  have hcompare : x.toModel.unpack.compare y.toModel.unpack = _ :=
    Doubles.compare_eq_compareRanks hx hy
  have heq : (x == y) = (x.toModel.unpack.compare y.toModel.unpack == some .eq) := rfl
  have hlt : x < y ↔ (x.toModel.unpack.compare y.toModel.unpack == some .lt) = true :=
    decide_eq_true_iff
  rw [compareNumbers, heq]
  simp only [hlt, hcompare]
  cases Doubles.compareRanks _ _ <;> rfl

lemma compareTexts_eq (s t : String) : compareTexts s t = Ord.compare s t := by
  rw [compareTexts]
  rcases lt_trichotomy s t with h | h | h
  · rw [compare_lt_iff_lt.2 h, if_neg h.ne, if_pos h]
  · rw [compare_eq_iff_eq.2 h, if_pos h]
  · rw [compare_gt_iff_gt.2 h, if_neg h.ne', if_neg h.asymm]

lemma isNaN_of_comparable? {x : Float} (h : a.comparable? = some x) : x.isNaN = false := by
  cases a with
  | number y =>
    rw [comparable?] at h
    split at h
    · cases h
    · next hy =>
      obtain rfl := Option.some.inj h
      exact Bool.eq_false_of_not_eq_true hy
  | bool b =>
    obtain rfl := Option.some.inj h
    cases b <;> decide +kernel
  | text s =>
    have hx := (Option.filter_eq_some_iff.1 h).2
    rwa [Bool.not_eq_true'] at hx
  | pointer p => cases h

/-- The rank of the number that a value is compared by. -/
def rank? (v : Value) : Option (Int × Int × Int) :=
  v.comparable?.map fun x => Doubles.rank x.toModel.unpack

/-- The letters that a value is compared by. -/
def letters (v : Value) : String := Text.lowercase v.toText

/-- Each regime compares by one key of the value alone. -/
lemma compare_eq (a b : Value) :
    a.compare b = match a.rank?, b.rank? with
      | some p, some q => Doubles.compareRanks p q
      | _, _ => Ord.compare a.letters b.letters := by
  rw [compare, rank?, rank?]
  cases ha : a.comparable? with
  | none => exact compareTexts_eq _ _
  | some x =>
    cases hb : b.comparable? with
    | none => exact compareTexts_eq _ _
    | some y => exact compareNumbers_eq (isNaN_of_comparable? ha) (isNaN_of_comparable? hb)

lemma rank?_eq_none (h : a.comparable?.isSome = false) : a.rank? = none := by
  rw [rank?, Option.not_isSome_iff_eq_none.1 (Bool.eq_false_iff.1 h), Option.map_none]

lemma exists_rank? (h : a.comparable?.isSome = true) : ∃ p, a.rank? = some p := by
  obtain ⟨x, hx⟩ := Option.isSome_iff_exists.1 h
  exact ⟨_, by rw [rank?, hx, Option.map_some]⟩

/-! ### The laws of each regime -/

lemma compare_self (a : Value) : a.compare a = .eq := by
  rw [compare_eq]
  cases a.rank? with
  | none => exact Std.ReflOrd.compare_self
  | some p =>
    change Doubles.compareRanks p p = .eq
    exact Std.ReflCmp.compare_self

lemma compare_swap (a b : Value) : b.compare a = (a.compare b).swap := by
  rw [compare_eq, compare_eq]
  cases a.rank? with
  | none => cases b.rank? <;> exact Std.OrientedOrd.eq_swap
  | some p =>
    cases b.rank? with
    | none => exact Std.OrientedOrd.eq_swap
    | some q => exact Doubles.transCmp_ranks.eq_swap

/-- Values that all have a number, or that all have none. -/
abbrev Regime (numeric : Bool) : Type := {v : Value // v.comparable?.isSome = numeric}

lemma isLE_trans {numeric : Bool} {a b c : Regime numeric} (hab : (a.1.compare b.1).isLE = true)
    (hbc : (b.1.compare c.1).isLE = true) : (a.1.compare c.1).isLE = true := by
  obtain ⟨a, ha⟩ := a
  obtain ⟨b, hb⟩ := b
  obtain ⟨c, hc⟩ := c
  rw [compare_eq] at hab hbc ⊢
  cases numeric with
  | false =>
    rw [rank?_eq_none ha] at hab ⊢
    rw [rank?_eq_none hb] at hbc
    exact Std.TransOrd.isLE_trans hab hbc
  | true =>
    obtain ⟨p, hp⟩ := exists_rank? ha
    obtain ⟨q, hq⟩ := exists_rank? hb
    obtain ⟨r, hr⟩ := exists_rank? hc
    rw [hp, hq] at hab
    rw [hq, hr] at hbc
    rw [hp, hr]
    exact Doubles.transCmp_ranks.isLE_trans hab hbc

lemma transCmp_regime (numeric : Bool) :
    Std.TransCmp fun a b : Regime numeric => a.1.compare b.1 where
  eq_swap {a b} := compare_swap b.1 a.1
  isLE_trans := isLE_trans

/-! ### Identical values -/

lemma identical_self (a : Value) : a.identical a = true := by
  cases a <;> simp [identical]

lemma identical_iff_eq : a.identical b = true ↔ a = b :=
  ⟨eq_of_identical, fun h => h ▸ identical_self a⟩

lemma equivalence_identical : Equivalence fun a b : Value => a.identical b = true := by
  simp only [identical_iff_eq]
  exact eq_equivalence

/-! ### The laws of comparison -/

/-- **Values are compared lawfully.** A value is equal to itself, comparing the other way round
gives the reverse, and of less, equal and greater exactly one holds. Among values that have a
number, and among values that have none, comparison is a total preorder. To be identical is an
equivalence, and identical values cannot be told apart by any comparison or conversion. -/
theorem comparison_laws :
    (∀ a : Value, a.compare a = .eq) ∧
    (∀ a b : Value, b.compare a = (a.compare b).swap) ∧
    (∀ a b : Value, a.equal b = b.equal a ∧ a.less b = b.greater a ∧
      [a.less b, a.equal b, a.greater b].count true = 1) ∧
    (∀ numeric : Bool, Std.TransCmp fun a b : Regime numeric => a.1.compare b.1) ∧
    (Equivalence fun a b : Value => a.identical b = true) ∧
    ∀ a b : Value, a.identical b = true →
      (∀ c : Value, a.compare c = b.compare c ∧ c.compare a = c.compare b) ∧
      a.toDouble = b.toDouble ∧ a.toNumber = b.toNumber ∧ a.toLong = b.toLong ∧
      a.toInt = b.toInt ∧ a.toBool = b.toBool ∧ a.toText = b.toText := by
  refine ⟨compare_self, compare_swap, fun a b => ?_, transCmp_regime, equivalence_identical,
    fun a b h => ?_⟩
  · simp only [equal, less, greater, compare_swap a b]
    cases a.compare b <;> decide
  · obtain rfl := eq_of_identical h
    exact ⟨fun c => ⟨rfl, rfl⟩, rfl, rfl, rfl, rfl, rfl, rfl⟩

/-- Truth values and numerals of either spelling are ordered through a number between them, NaN and
a text through a text between them, and the NaN of a division is the NaN of a root. -/
theorem comparison_laws_mixed :
    ((Value.bool true).compare (.number 1000)).isLE = true ∧
    ((Value.text "Apple").compare (.text "zebra")).isLE = true ∧
    (Value.number (0 / 0)).toText = (Value.number (-1 : Float).sqrt).toText := by
  obtain ⟨-, -, -, htrans, -, hsame⟩ := comparison_laws
  refine ⟨?_, ?_, ?_⟩
  · exact (htrans true).isLE_trans (a := ⟨.bool true, by decide +kernel⟩)
      (b := ⟨.text "0x10", by decide +kernel⟩) (c := ⟨.number 1000, by decide +kernel⟩)
      (by decide +kernel) (by decide +kernel)
  · exact (htrans false).isLE_trans (a := ⟨.text "Apple", by decide +kernel⟩)
      (b := ⟨.number (0 / 0), by decide +kernel⟩) (c := ⟨.text "zebra", by decide +kernel⟩)
      (by decide +kernel) (by decide +kernel)
  · exact (hsame _ _ (by decide +kernel)).2.2.2.2.2.2

-- The regimes do not join up: a text can stand between two numerals the wrong way round.
example : Value.less (.text "9") (.text "10") ∧ Value.less (.text "10") (.text "1a") ∧
    Value.less (.text "1a") (.text "9") := by
  decide +kernel

end Value

end Blockwork
