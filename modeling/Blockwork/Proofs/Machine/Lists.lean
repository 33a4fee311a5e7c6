import Blockwork.Proofs.Reference.Evaluator
import Blockwork.Proofs.Value.Indices
import Blockwork.Proofs.World.Generations

/-!
Instructions on lists. Each of them resolves its index against the list and then takes out,
replaces, reads or puts in one item; the others keep their order. Where the index names no place the
list stays as it is. No other list and no variable changes, and what an instruction leaves behind
outside the list is at most one random fraction less.
-/

namespace Blockwork

namespace ItemList

/-! ### What an instruction makes of the items -/

def deleted (items : List Value) : ListIndex → List Value
  | .item i => items.take i ++ items.drop (i + 1)
  | .all => []
  | .invalid => items

def replaced (items : List Value) (v : Value) : ListIndex → List Value
  | .item i => items.take i ++ v :: items.drop (i + 1)
  | _ => items

def inserted (items : List Value) (v : Value) : ListIndex → List Value
  | .item i => items.take i ++ v :: items.drop i
  | _ => items

def reading (items : List Value) : ListIndex → Value
  | .item i => items.getD i .empty
  | _ => .empty

/-- Putting in behind the last item appends. -/
lemma inserted_last (items : List Value) (v : Value) :
    inserted items v (.item items.length) = items ++ [v] := by
  simp [inserted]

lemma insertIdx_eq {items : List Value} {i : Nat} (h : i ≤ items.length) (v : Value) :
    items.insertIdx i v = items.take i ++ v :: items.drop i := by
  induction items generalizing i with
  | nil =>
    obtain rfl : i = 0 := by simpa using h
    rfl
  | cons x rest ih =>
    cases i with
    | zero => rfl
    | succ i => simp [ih (Nat.le_of_succ_le_succ h)]

end ItemList

/-! ### Worlds in which one list has changed -/

/-- The list at a slot has these items now; beyond that only random fractions have been drawn. -/
structure World.Rewrites (w : World) (s : Slot) (items : List Value) (w' : World) : Prop where
  list : w'.targets.listAt? s = (w.targets.listAt? s).map fun l => { l with items }
  others : ∀ t, t ≠ s → w'.targets.listAt? t = w.targets.listAt? t
  vars : ∀ t, w'.targets.variableAt? t = w.targets.variableAt? t
  rest : { w with targets := w'.targets }.Draws w'

namespace Arena

variable {a : Arena} {s t : Slot} {f : ItemList → ItemList}

lemma listAt?_modifyList_self : (a.modifyList s f).listAt? s = (a.listAt? s).map f := by
  rw [listAt?, listAt?, modifyList, get?_modify, if_pos rfl]
  cases a.get? s.target with
  | none => rfl
  | some x => simp

lemma listAt?_modifyList_ne (h : t ≠ s) : (a.modifyList s f).listAt? t = a.listAt? t := by
  rw [listAt?, listAt?, modifyList, get?_modify]
  split
  · next htarget =>
    -- another list of the same target
    have hindex : s.index ≠ t.index := fun hindex => h <| by
      cases s
      cases t
      simp_all
    cases a.get? t.target with
    | none => rfl
    | some x => simp [hindex]
  · rfl

lemma variableAt?_modifyList : (a.modifyList s f).variableAt? t = a.variableAt? t := by
  rw [variableAt?, variableAt?, modifyList, get?_modify]
  split
  · cases a.get? t.target <;> rfl
  · rfl

end Arena

namespace Machine

variable {m : Machine} {w w' : World} {s : Slot} {l : ItemList} {i : Nat}

/-- An index that names nothing leaves the list as it is. -/
lemma rewrites_of_draws (hlist : w.targets.listAt? s = some l) (h : w.Draws w') :
    w.Rewrites s l.items w' := by
  obtain ⟨draws, rfl⟩ := h
  exact ⟨by rw [hlist]; rfl, fun _ _ => rfl, fun _ => rfl, ⟨draws, rfl⟩⟩

lemma rewrites_onList (hslot : m.lists[i]? = some s) (hlist : w.targets.listAt? s = some l)
    (h : w.Draws w') (f : List Value → List Value) :
    w.Rewrites s (f l.items) (m.onList w' i fun l => { l with items := f l.items }) := by
  obtain ⟨draws, rfl⟩ := h
  simp only [onList, hslot]
  refine ⟨?_, fun t ht => ?_, fun t => ?_, ⟨draws, rfl⟩⟩
  · change (w.targets.modifyList s _).listAt? s = _
    rw [Arena.listAt?_modifyList_self, hlist]
    rfl
  · exact Arena.listAt?_modifyList_ne ht
  · exact Arena.variableAt?_modifyList

/-- The place is resolved against the list, with the extra places at its end. -/
lemma place_spec (hslot : m.lists[i]? = some s) (hlist : w.targets.listAt? s = some l)
    (index : Value) (extra : Nat) (hn : l.size + extra ≤ 2 ^ 53) (acceptAll : Bool) :
    ListIndex.Resolves (l.size + extra) acceptAll index (m.place w i index extra acceptAll).1 ∧
      w.Draws (m.place w i index extra acceptAll).2 := by
  have hlength : ((m.list? w i).map (·.size)).getD 0 = l.size := by
    rw [list?, hslot, Option.bind_some, hlist]
    rfl
  unfold place
  simp only [hlength]
  split
  · exact ⟨ListIndex.resolves_resolve hn index acceptAll _, w.draws_draw⟩
  · exact ⟨ListIndex.resolves_resolve hn index acceptAll _, .refl w⟩

lemma list?_of_draws (hslot : m.lists[i]? = some s) (hlist : w.targets.listAt? s = some l)
    (h : w.Draws w') : m.list? w' i = some l := by
  obtain ⟨draws, rfl⟩ := h
  rw [list?, hslot]
  exact hlist

section

variable {rest : List Value} (hslot : m.lists[i]? = some s)
  (hlist : w.targets.listAt? s = some l)

include hslot hlist

lemma stepList_delete (hn : l.size < 2 ^ 53) {index : Value} (hstack : m.stack = index :: rest) :
    ∃ k, ListIndex.Resolves l.size true index k ∧
      (m.stepList w .delete i).1 = { m with stack := rest } ∧
      w.Rewrites s (ItemList.deleted l.items k) (m.stepList w .delete i).2 := by
  have hpop : m.pop = (index, { m with stack := rest }) := by rw [pop, hstack]
  obtain ⟨hk, hw⟩ := place_spec (m := { m with stack := rest }) hslot hlist index 0
    (by omega) true
  refine ⟨_, hk, by rw [stepList, hpop], ?_⟩
  rw [stepList, hpop]
  simp only
  cases hcase : (place { m with stack := rest } w i index 0 true).1 with
  | item j =>
    have h := rewrites_onList (m := { m with stack := rest }) hslot hlist hw (·.eraseIdx j)
    rwa [List.eraseIdx_eq_take_drop_succ] at h
  | all => exact rewrites_onList (m := { m with stack := rest }) hslot hlist hw fun _ => []
  | invalid => exact rewrites_of_draws hlist hw

lemma stepList_replace (hn : l.size < 2 ^ 53) {v index : Value}
    (hstack : m.stack = v :: index :: rest) :
    ∃ k, ListIndex.Resolves l.size false index k ∧
      (m.stepList w .replace i).1 = { m with stack := rest } ∧
      w.Rewrites s (ItemList.replaced l.items v k) (m.stepList w .replace i).2 := by
  have hpop : m.pop = (v, { m with stack := index :: rest }) := by rw [pop, hstack]
  have hpop' : pop { m with stack := index :: rest } = (index, { m with stack := rest }) := rfl
  obtain ⟨hk, hw⟩ := place_spec (m := { m with stack := rest }) hslot hlist index 0
    (by omega) false
  refine ⟨_, hk, by rw [stepList, hpop]; rfl, ?_⟩
  rw [stepList, hpop]
  simp only [hpop']
  cases hcase : (place { m with stack := rest } w i index 0 false).1 with
  | item j =>
    have hj : j < l.items.length := (hcase ▸ hk).lt
    have h := rewrites_onList (m := { m with stack := rest }) hslot hlist hw (·.set j v)
    rwa [List.set_eq_take_append_cons_drop, if_pos hj] at h
  | all | invalid => exact rewrites_of_draws hlist hw

lemma stepList_insert (hn : l.size < 2 ^ 53) {index v : Value}
    (hstack : m.stack = index :: v :: rest) :
    ∃ k, ListIndex.Resolves (l.size + 1) false index k ∧
      (m.stepList w .insert i).1 = { m with stack := rest } ∧
      w.Rewrites s (ItemList.inserted l.items v k) (m.stepList w .insert i).2 := by
  have hpop : m.pop = (index, { m with stack := v :: rest }) := by rw [pop, hstack]
  have hpop' : pop { m with stack := v :: rest } = (v, { m with stack := rest }) := rfl
  obtain ⟨hk, hw⟩ := place_spec (m := { m with stack := rest }) hslot hlist index 1
    (by omega) false
  refine ⟨_, hk, by rw [stepList, hpop]; rfl, ?_⟩
  rw [stepList, hpop]
  simp only [hpop']
  cases hcase : (place { m with stack := rest } w i index 1 false).1 with
  | item j =>
    have hj : j < l.items.length + 1 := (hcase ▸ hk).lt
    have h := rewrites_onList (m := { m with stack := rest }) hslot hlist hw (·.insertIdx j v)
    rwa [ItemList.insertIdx_eq (Nat.le_of_lt_succ hj)] at h
  | all | invalid => exact rewrites_of_draws hlist hw

lemma stepList_item (hn : l.size < 2 ^ 53) {index : Value} (hstack : m.stack = index :: rest) :
    ∃ k, ListIndex.Resolves l.size false index k ∧
      (m.stepList w .item i).1 = { m with stack := ItemList.reading l.items k :: rest } ∧
      w.Rewrites s l.items (m.stepList w .item i).2 := by
  have hpop : m.pop = (index, { m with stack := rest }) := by rw [pop, hstack]
  obtain ⟨hk, hw⟩ := place_spec (m := { m with stack := rest }) hslot hlist index 0
    (by omega) false
  have hread := list?_of_draws (m := { m with stack := rest }) hslot hlist hw
  refine ⟨_, hk, ?_, ?_⟩
  · rw [stepList, hpop]
    simp only [hread]
    cases (place { m with stack := rest } w i index 0 false).1 with
    | item j => simp [ItemList.reading, ItemList.get?, push]
    | all | invalid => rfl
  · rw [stepList, hpop]
    exact rewrites_of_draws hlist hw

end

/-! ### All of them -/

/-- Behind the last place there is one more to put an item in. -/
lemma inserted_of_last {items : List Value} {k : ListIndex}
    (h : ListIndex.Resolves (items.length + 1) false (.text "last") k) (v : Value) :
    ItemList.inserted items v k = items ++ [v] := by
  rcases h with h | ⟨-, hnone⟩
  · cases h with
    | last => exact ItemList.inserted_last items v
    | random e => simp at e
    | all e => simp at e
    | number _ hfloor =>
      have hword : ListIndex.word? (.text "last") = some .last := rfl
      rw [ListIndex.word?_eq_none hfloor] at hword
      cases hword
  · exact absurd (.last rfl (Nat.succ_pos _)) (hnone _)

/-- **List instructions act on the place that their index names.** A place counts from one and is
named by a word or by the floor of a number; deleting takes out that item or, for `all`, every item,
replacing and reading concern that item alone, and inserting puts the new item in front of it, with
one more place at the end for it. An index that names nothing leaves the list as it is and reads the
empty text. Other lists and all variables stay as they are. -/
theorem list_instructions_exact (p : Program) (code : Code) (a : Nat)
    (hslot : m.lists[i]? = some s) (hlist : w.targets.listAt? s = some l)
    (hn : l.size < 2 ^ 53) :
    (∀ n ≤ 2 ^ 53, ∀ index acceptAll r,
      ListIndex.Resolves n acceptAll index (ListIndex.resolve index n acceptAll r) ∧
        ∀ j, ListIndex.resolve index n acceptAll r = .item j → j < n) ∧
    (∀ index rest, m.stack = index :: rest → ∃ k, ListIndex.Resolves l.size true index k ∧
      (execute p code a (.list .delete) i m w).1 = { m with stack := rest } ∧
      w.Rewrites s (ItemList.deleted l.items k) (execute p code a (.list .delete) i m w).2) ∧
    (∀ v index rest, m.stack = v :: index :: rest →
      ∃ k, ListIndex.Resolves l.size false index k ∧
        (execute p code a (.list .replace) i m w).1 = { m with stack := rest } ∧
        w.Rewrites s (ItemList.replaced l.items v k) (execute p code a (.list .replace) i m w).2) ∧
    (∀ index rest, m.stack = index :: rest → ∃ k, ListIndex.Resolves l.size false index k ∧
      (execute p code a (.list .item) i m w).1 =
        { m with stack := ItemList.reading l.items k :: rest } ∧
      w.Rewrites s l.items (execute p code a (.list .item) i m w).2) ∧
    (∀ index v rest, m.stack = index :: v :: rest →
      ∃ k, ListIndex.Resolves (l.size + 1) false index k ∧
        (index = .text "last" → ItemList.inserted l.items v k = l.items ++ [v]) ∧
        (execute p code a (.list .insert) i m w).1 = { m with stack := rest } ∧
        w.Rewrites s (ItemList.inserted l.items v k) (execute p code a (.list .insert) i m w).2) := by
  refine ⟨fun n hle index acceptAll r => ?_, fun index rest h => stepList_delete hslot hlist hn h,
    fun v index rest h => stepList_replace hslot hlist hn h,
    fun index rest h => stepList_item hslot hlist hn h, fun index v rest h => ?_⟩
  · have hresolves := ListIndex.resolves_resolve hle index acceptAll r
    exact ⟨hresolves, fun j hj => (hj ▸ hresolves).lt⟩
  · obtain ⟨k, hk, hm, hw⟩ := stepList_insert hslot hlist hn h
    refine ⟨k, hk, ?_, hm, hw⟩
    rintro rfl
    exact inserted_of_last hk v

/-- A sprite with three items in its second list. -/
def shelf : World where
  targets := ⟨[⟨4, some { name := "Cat", isStage := false, lists := [.new "l" "other",
    ⟨"m", "names", [.text "a", .text "b", .text "c"]⟩] }⟩], []⟩

/-- A machine of the sprite that has an index on its stack. -/
def reader (index : Value) : Machine where
  target := ⟨0, 4⟩
  vars := []
  lists := [⟨⟨0, 4⟩, 1⟩]
  address := 2
  stack := [index, .text "x"]
  loops := []
  calls := []
  pending := []
  checkpoint := none
  warpDepth := 0
  status := .running
  promise := none
  timer := none

/-- Deletes an item of its only list. -/
def removal : Program := ⟨.ofInstructions [⟨.list .delete, [0]⟩], none, { lists := [⟨"names", "m"⟩] }⟩

/-- A numeral with a fraction names the second of three items, which is then taken out. -/
theorem list_instructions_exact_fraction :
    ListIndex.Names 3 true (.text "2.9") (.item 1) ∧
    ∃ k, ListIndex.Resolves 3 true (.text "2.9") k ∧
      shelf.Rewrites ⟨⟨0, 4⟩, 1⟩ (ItemList.deleted [.text "a", .text "b", .text "c"] k)
        (execute removal removal.main 0 (.list .delete) 0 (reader (.text "2.9")) shelf).2 := by
  refine ⟨.number (by decide +kernel) (by decide +kernel) (by decide), ?_⟩
  obtain ⟨-, hdelete, -⟩ := list_instructions_exact (m := reader (.text "2.9")) (w := shelf) (i := 0)
    (s := ⟨⟨0, 4⟩, 1⟩) (l := ⟨"m", "names", [.text "a", .text "b", .text "c"]⟩) removal
    removal.main 0 rfl rfl (by decide)
  obtain ⟨k, hk, -, hw⟩ := hdelete _ _ rfl
  exact ⟨k, hk, hw⟩

end Machine

end Blockwork
