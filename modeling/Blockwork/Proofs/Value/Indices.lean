import Blockwork.ItemList
import Blockwork.Proofs.Number.Floor

/-!
The places that an index names. Three words name a place by themselves; any other value names the
item whose place, counted from one, is the floor of its number. Resolving an index finds the place
that it names, and none exactly if it names none.
-/

namespace Blockwork

lemma Value.isNaN_toNumber (v : Value) : v.toNumber.isNaN = false := by
  rw [toNumber]
  cases h : v.toDouble.isNaN with
  | true =>
    have hzero : (0 : Float).isNaN = false := by decide +kernel
    exact hzero
  | false => exact h

namespace ListIndex

variable {n : Nat} {acceptAll : Bool} {index : Value} {k : ListIndex}

/-! ### What an index names -/

/-- The places that an index names in a list of `n` items, counted from zero. -/
inductive Names (n : Nat) (acceptAll : Bool) (index : Value) : ListIndex → Prop
  | last : index = .text "last" → 0 < n → Names n acceptAll index (.item (n - 1))
  | random {i : Nat} : index = .text "random" ∨ index = .text "any" → i < n →
      Names n acceptAll index (.item i)
  | all : index = .text "all" → acceptAll = true → Names n acceptAll index .all
  | number {i : Nat} : index.toNumber.isFinite = true →
      ⌊(Binary.ofFloat index.toNumber).value⌋ = i + 1 → i < n → Names n acceptAll index (.item i)

/-- The place is one that the index names, or there is no such place. -/
def Resolves (n : Nat) (acceptAll : Bool) (index : Value) (k : ListIndex) : Prop :=
  Names n acceptAll index k ∨ k = .invalid ∧ ∀ j, ¬ Names n acceptAll index j

lemma Names.lt {i : Nat} (h : Names n acceptAll index (.item i)) : i < n := by
  cases h with
  | last _ h => omega
  | random _ h => exact h
  | number _ _ h => exact h

lemma Resolves.lt {i : Nat} (h : Resolves n acceptAll index (.item i)) : i < n := by
  rcases h with h | ⟨h, -⟩
  · exact h.lt
  · cases h

lemma eq_of_word? {w : Word} (h : word? index = some w) :
    match w with
    | .all => index = .text "all"
    | .last => index = .text "last"
    | .random => index = .text "random" ∨ index = .text "any" := by
  unfold word? at h
  split at h
  case h_5 => cases h
  all_goals
    cases h
    simp

/-- A word is no numeral: its number is zero. -/
lemma toNumber_of_word {w : Word} (h : word? index = some w) :
    index.toNumber.isFinite = true ∧ ⌊(Binary.ofFloat index.toNumber).value⌋ = 0 := by
  have hnumber : index.toNumber = 0 := by
    unfold word? at h
    split at h
    case h_5 => cases h
    all_goals
      refine Value.eq_of_identical (a := .number _) (b := .number _) ?_ |> Value.number.inj
      decide +kernel
  rw [hnumber]
  exact ⟨Doubles.zero_spec.1, by rw [Doubles.zero_spec.2]; rfl⟩

/-! ### Resolving -/

lemma word?_eq_none {i : Nat} (hfloor : ⌊(Binary.ofFloat index.toNumber).value⌋ = i + 1) :
    word? index = none := by
  cases h : word? index with
  | none => rfl
  | some w =>
    have := (toNumber_of_word h).2
    omega

/-- A number names the item whose place is its floor. -/
lemma resolves_ofNumber (hn : n ≤ 2 ^ 53) (hword : word? index = none) :
    Resolves n acceptAll index (ofNumber index.toNumber n) := by
  obtain ⟨hnfin, hnvalue⟩ := Doubles.ofNat_spec hn
  -- no word is left, so a place can only be named by number
  have hnumber : ∀ {j}, Names n acceptAll index j → ∃ i : Nat, j = .item i ∧
      index.toNumber.isFinite = true ∧ ⌊(Binary.ofFloat index.toNumber).value⌋ = i + 1 ∧ i < n := by
    intro j h
    cases h with
    | number hfin hfloor hi => exact ⟨_, rfl, hfin, hfloor, hi⟩
    | last e => rw [e] at hword; cases hword
    | random e => rcases e with e | e <;> rw [e] at hword <;> cases hword
    | all e => rw [e] at hword; cases hword
  unfold ofNumber
  cases hfin : index.toNumber.isFinite with
  | false =>
    have hnone : ∀ j, ¬ Names n acceptAll index j := fun j h => by
      obtain ⟨i, -, h, -⟩ := hnumber h
      rw [hfin] at h
      cases h
    obtain ⟨hfloor, hbelow | habove⟩ :=
      Number.bounds_of_not_isFinite index.isNaN_toNumber hfin
    · have h := hbelow 1 Doubles.one_spec.1
      simp only [hfloor, h, decide_true, Bool.true_or, if_true]
      exact .inr ⟨rfl, hnone⟩
    · have h := habove _ hnfin
      simp only [hfloor, gt_iff_lt, h, decide_true, Bool.or_true, if_true]
      exact .inr ⟨rfl, hnone⟩
  | true =>
    obtain ⟨hkfin, hkvalue⟩ := Number.floor_spec hfin
    have hlow : Number.floor index.toNumber < 1 ↔ ⌊(Binary.ofFloat index.toNumber).value⌋ < 1 := by
      rw [Doubles.lt_iff_value_lt hkfin Doubles.one_spec.1, hkvalue, Doubles.one_spec.2]
      norm_cast
    have hhigh : Number.floor index.toNumber > Float.ofNat n ↔
        n < ⌊(Binary.ofFloat index.toNumber).value⌋ := by
      rw [gt_iff_lt, Doubles.lt_iff_value_lt hnfin hkfin, hkvalue, hnvalue]
      norm_cast
    generalize hk : ⌊(Binary.ofFloat index.toNumber).value⌋ = k at *
    simp only [hlow, hhigh, Bool.or_eq_true, decide_eq_true_eq]
    split
    · refine .inr ⟨rfl, fun j h => ?_⟩
      obtain ⟨i, -, -, hfloor, hi⟩ := hnumber h
      omega
    · have hnat : Number.toNat (Number.floor index.toNumber) = k.toNat := by
        refine Number.toNat_eq hkfin ?_
        rw [hkvalue]
        exact_mod_cast (Int.toNat_of_nonneg (by omega)).symm
      rw [hnat]
      exact .inl (.number hfin (by omega) (by omega))

/-- **An index is resolved to a place that it names**, whatever the fraction drawn; to none exactly
if it names none. -/
lemma resolves_resolve (hn : n ≤ 2 ^ 53) (index : Value) (acceptAll : Bool) (r : Float) :
    Resolves n acceptAll index (resolve index n acceptAll r) := by
  have hword : ∀ {w : Word} {i : Nat}, word? index = some w →
      ⌊(Binary.ofFloat index.toNumber).value⌋ ≠ i + 1 := fun h hfloor => by
    rw [word?_eq_none hfloor] at h
    cases h
  unfold resolve
  split
  · next h =>
    obtain rfl : index = .text "all" := eq_of_word? h
    split
    · next hall => exact .inl (.all rfl hall)
    · next hall =>
      refine .inr ⟨rfl, fun j hj => ?_⟩
      cases hj with
      | all _ h => exact hall h
      | number _ hfloor => exact hword h hfloor
      | last e | random e => simp at e
  · next h =>
    obtain rfl : index = .text "last" := eq_of_word? h
    split
    · next hpos => exact .inl (.last rfl hpos)
    · next hpos =>
      refine .inr ⟨rfl, fun j hj => ?_⟩
      cases hj with
      | last _ h => exact hpos h
      | number _ hfloor => exact hword h hfloor
      | all e | random e => simp at e
  · next h =>
    have hrandom : index = .text "random" ∨ index = .text "any" := eq_of_word? h
    split
    · next hpos => exact .inl (.random hrandom (by omega))
    · next hpos =>
      refine .inr ⟨rfl, fun j hj => ?_⟩
      cases hj with
      | random _ h => omega
      | number _ hfloor => exact hword h hfloor
      | last e | all e => rcases hrandom with rfl | rfl <;> simp at e
  · next h => exact resolves_ofNumber hn h

end ListIndex

end Blockwork
