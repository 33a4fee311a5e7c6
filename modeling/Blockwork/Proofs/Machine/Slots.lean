import Blockwork.Machine.Basic
import Mathlib.Order.Basic

/-!
Where the variables and lists of a machine live. A new machine finds a place for each of them in
turn and makes those that are missing; once it is made, asking for any of them again by its id
gives the place that the machine has.
-/

namespace Blockwork

namespace Arena

lemma get?_eq_some_iff {a : Arena} {id : TargetId} {t : Target} :
    a.get? id = some t ↔ a.entries[id.index]? = some ⟨id.generation, some t⟩ := by
  unfold get?
  cases a.entries[id.index]? with
  | none => simp
  | some e =>
    obtain ⟨g, x⟩ := e
    by_cases h : g = id.generation <;> simp [h]

lemma modify_of_get?_eq_none {a : Arena} {owner : TargetId} (h : a.get? owner = none)
    (f : Target → Target) : a.modify owner f = a := by
  simp [modify, h]

lemma modify_of_get?_eq_some {a : Arena} {owner : TargetId} {t : Target}
    (h : a.get? owner = some t) (f : Target → Target) :
    a.modify owner f =
      { a with entries := a.entries.set owner.index ⟨owner.generation, some (f t)⟩ } := by
  simp [modify, h]

lemma get?_modify_self {a : Arena} {owner : TargetId} {t : Target} (h : a.get? owner = some t)
    (f : Target → Target) : (a.modify owner f).get? owner = some (f t) := by
  have he := get?_eq_some_iff.1 h
  rw [modify_of_get?_eq_some h, get?_eq_some_iff]
  simp [(List.getElem?_eq_some_iff.1 he).1]

lemma get?_modify_ne {a : Arena} {owner id : TargetId} (h : id ≠ owner) (f : Target → Target) :
    (a.modify owner f).get? id = a.get? id := by
  cases ho : a.get? owner with
  | none => rw [modify_of_get?_eq_none ho]
  | some t =>
    rw [modify_of_get?_eq_some ho]
    unfold get?
    by_cases hi : id.index = owner.index
    · -- the same place under another generation holds neither of them
      have hg : (owner.generation == id.generation) = false := by
        rw [beq_eq_false_iff_ne]
        intro hg
        apply h
        cases id
        cases owner
        simp_all
      obtain ⟨hlt, he⟩ := List.getElem?_eq_some_iff.1 (get?_eq_some_iff.1 ho)
      simp [hi, hlt, he, hg]
    · simp [List.getElem?_set_ne (Ne.symm hi)]

/-- The id of a live stage at a place. -/
def stageAt? : Entry × Nat → Option TargetId
  | (⟨generation, some t⟩, i) => if t.isStage then some ⟨i, generation⟩ else none
  | _ => none

lemma stage?_eq (a : Arena) : a.stage? = a.entries.zipIdx.findSome? stageAt? := by
  unfold stage? live
  induction a.entries.zipIdx with
  | nil => rfl
  | cons p rest ih =>
    obtain ⟨⟨g, x⟩, i⟩ := p
    cases x with
    | none => simpa [List.findSome?_cons, stageAt?] using ih
    | some t =>
      cases ht : t.isStage with
      | true => simp [stageAt?, ht]
      | false => simpa [List.findSome?_cons, stageAt?, ht] using ih

/-- Changes that leave the stage a stage and sprites sprites. -/
lemma stage?_modify (a : Arena) (owner : TargetId) {f : Target → Target}
    (hf : ∀ t, (f t).isStage = t.isStage) : (a.modify owner f).stage? = a.stage? := by
  cases ho : a.get? owner with
  | none => rw [modify_of_get?_eq_none ho]
  | some t =>
    obtain ⟨hlt, he⟩ := List.getElem?_eq_some_iff.1 (get?_eq_some_iff.1 ho)
    rw [stage?_eq, stage?_eq, modify_of_get?_eq_some ho]
    have hmap : (a.entries.set owner.index ⟨owner.generation, some (f t)⟩).zipIdx.map stageAt? =
        a.entries.zipIdx.map stageAt? := by
      apply List.ext_getElem?
      intro i
      simp only [List.getElem?_map, List.getElem?_zipIdx, List.getElem?_set]
      split
      · next h =>
        subst h
        simp [hlt, he, stageAt?, hf]
      · rfl
    simpa [List.findSome?_map] using congrArg (List.findSome? id) hmap

end Arena

/-! ### Shelves

Variables and lists are found and made in the same way, so both are treated as one.
-/

/-- A kind of things that targets hold, each under an id. -/
structure Shelf where
  ids : Target → List String
  add : Reference → Target → Target
  ids_add : ∀ r t, ids (add r t) = ids t ++ [r.id]
  isStage_add : ∀ r t, (add r t).isStage = t.isStage

namespace Shelf

def vars : Shelf where
  ids t := t.vars.map (·.id)
  add r t := { t with vars := t.vars ++ [⟨r.id, r.name, .number 0, false⟩] }
  ids_add r t := by simp
  isStage_add r t := rfl

def lists : Shelf where
  ids t := t.lists.map (·.id)
  add r t := { t with lists := t.lists ++ [.new r.id r.name] }
  ids_add r t := by simp [ItemList.new]
  isStage_add r t := rfl

variable (k : Shelf)

def position (id : String) (t : Target) : Option Nat := (k.ids t).findIdx? (· == id)

def locate? (a : Arena) (target : TargetId) (id : String) : Option Slot :=
  a.locate? target (k.position id)

/-- Where something lives, or where it would be made. -/
def slot (a : Arena) (target : TargetId) (id : String) : Slot :=
  (k.locate? a target id).getD
    ⟨a.newOwner target, ((a.get? (a.newOwner target)).map fun t => (k.ids t).length).getD 0⟩

/-- Finds something, or makes it. -/
def resolve (a : Arena) (target : TargetId) (r : Reference) : Slot × Arena :=
  (k.slot a target r.id,
    if (k.locate? a target r.id).isSome then a else a.modify (a.newOwner target) (k.add r))

lemma resolveVariable_eq (a : Arena) (target : TargetId) (r : Reference) :
    a.resolveVariable target r = vars.resolve a target r := by
  have hp : (fun t : Target => t.vars.findIdx? (·.id == r.id)) = vars.position r.id := by
    funext t
    simp [position, vars, List.findIdx?_map, Function.comp_def]
  unfold Arena.resolveVariable resolve slot locate?
  rw [hp]
  cases a.locate? target (vars.position r.id) <;> simp [vars]

lemma resolveList_eq (a : Arena) (target : TargetId) (r : Reference) :
    a.resolveList target r = lists.resolve a target r := by
  have hp : (fun t : Target => t.lists.findIdx? (·.id == r.id)) = lists.position r.id := by
    funext t
    simp [position, lists, List.findIdx?_map, Function.comp_def]
  unfold Arena.resolveList resolve slot locate?
  rw [hp]
  cases a.locate? target (lists.position r.id) <;> simp [lists]

/-- Looking for something, or having looked in vain for a place to make it. -/
def Settled (a : Arena) (target : TargetId) (id : String) : Prop :=
  (k.locate? a target id).isSome ∨ a.get? (a.newOwner target) = none

lemma position_add (r : Reference) (t : Target) (id : String) :
    k.position id (k.add r t) =
      (k.position id t).or (if r.id = id then some (k.ids t).length else none) := by
  unfold position
  rw [k.ids_add, List.findIdx?_append]
  by_cases h : r.id = id <;> simp [List.findIdx?_cons, h]

/-- Each owner is looked through in turn. -/
lemma locate?_eq (a : Arena) (target : TargetId) (id : String) :
    k.locate? a target id = (a.owners target).findSome? fun owner =>
      ((a.get? owner).bind (k.position id)).map fun i => ⟨owner, i⟩ := rfl

/-- Making something moves nothing else. -/
lemma locate?_modify_ne {a : Arena} {owner target : TargetId} {r : Reference} {id : String}
    (h : r.id ≠ id) : k.locate? (a.modify owner (k.add r)) target id = k.locate? a target id := by
  rw [locate?_eq, locate?_eq, Arena.owners, Arena.owners,
    Arena.stage?_modify a owner (k.isStage_add r)]
  congr 1
  funext o
  by_cases ho : o = owner
  · subst ho
    cases hg : a.get? o with
    | none => rw [Arena.modify_of_get?_eq_none hg, hg]
    | some t => simp [Arena.get?_modify_self hg, position_add, h]
  · rw [Arena.get?_modify_ne ho]

lemma newOwner_mem {a : Arena} {target : TargetId} {t : Target}
    (h : a.get? (a.newOwner target) = some t) : a.newOwner target ∈ a.owners target := by
  unfold Arena.newOwner Arena.owners at *
  split at h <;> simp_all [Arena.contains]
  cases hs : a.stage? <;> simp_all

/-- What was made is found where it was made. -/
lemma locate?_modify_self {a : Arena} {target : TargetId} {r : Reference} {t : Target}
    (h : k.locate? a target r.id = none) (ht : a.get? (a.newOwner target) = some t) :
    k.locate? (a.modify (a.newOwner target) (k.add r)) target r.id =
      some ⟨a.newOwner target, (k.ids t).length⟩ := by
  have hmem := newOwner_mem ht
  have hnone : ∀ o ∈ a.owners target, (a.get? o).bind (k.position r.id) = none := by
    intro o ho
    have := List.findSome?_eq_none_iff.1 h o ho
    simpa using this
  generalize a.newOwner target = owner at ht hmem ⊢
  rw [locate?_eq, Arena.owners, Arena.stage?_modify a owner (k.isStage_add r)]
  change (a.owners target).findSome? _ = _
  generalize a.owners target = os at hmem hnone ⊢
  -- of all owners only the one that got it has it
  induction os with
  | nil => simp at hmem
  | cons o rest ih =>
    by_cases ho : o = owner
    · subst ho
      have hp : k.position r.id t = none := by simpa [ht] using hnone o (by simp)
      simp [Arena.get?_modify_self ht, position_add, hp]
    · have hrest : owner ∈ rest := by simpa [Ne.symm ho] using hmem
      rw [List.findSome?_cons, Arena.get?_modify_ne ho, hnone o (by simp)]
      exact ih hrest fun x hx => hnone x (List.mem_cons_of_mem _ hx)

/-- What is settled stays where it is. -/
lemma Settled.keep {a : Arena} {target : TargetId} {id : String} (h : k.Settled a target id)
    (r : Reference) :
    k.Settled (k.resolve a target r).2 target id ∧
      k.slot (k.resolve a target r).2 target id = k.slot a target id := by
  simp only [resolve]
  split
  · exact ⟨h, rfl⟩
  · next hr =>
    cases ht : a.get? (a.newOwner target) with
    | none =>
      rw [Arena.modify_of_get?_eq_none ht]
      exact ⟨h, rfl⟩
    | some t =>
      have hsome : (k.locate? a target id).isSome := by
        rcases h with h | h
        · exact h
        · rw [ht] at h; cases h
      have hne : r.id ≠ id := by
        rintro rfl
        exact hr hsome
      obtain ⟨s, hs⟩ := Option.isSome_iff_exists.1 hsome
      have hs' : k.locate? (a.modify (a.newOwner target) (k.add r)) target id = some s := by
        rw [locate?_modify_ne k hne, hs]
      exact ⟨Or.inl (by rw [hs']; rfl), by rw [slot, slot, hs, hs']; rfl⟩

/-- What was just resolved is settled, in the place that was given for it. -/
lemma settled_resolve (a : Arena) (target : TargetId) (r : Reference) :
    k.Settled (k.resolve a target r).2 target r.id ∧
      k.slot (k.resolve a target r).2 target r.id = (k.resolve a target r).1 := by
  simp only [resolve]
  split
  · next hr => exact ⟨Or.inl hr, rfl⟩
  · next hr =>
    have hnone : k.locate? a target r.id = none := by simpa using hr
    cases ht : a.get? (a.newOwner target) with
    | none =>
      rw [Arena.modify_of_get?_eq_none ht]
      exact ⟨Or.inr ht, rfl⟩
    | some t =>
      have hs := locate?_modify_self k hnone ht
      exact ⟨Or.inl (by rw [hs]; rfl), by rw [slot, slot, hs, hnone, ht]; rfl⟩

/-- Places depend on the ids that owners hold only. -/
lemma slot_congr {a a' : Arena} {target : TargetId} (hs : a'.stage? = a.stage?)
    (hids : ∀ o, (a'.get? o).map k.ids = (a.get? o).map k.ids) (id : String) :
    k.slot a' target id = k.slot a target id := by
  have hc : a'.contains target = a.contains target := by
    have := congrArg Option.isSome (hids target)
    simpa [Arena.contains] using this
  have hnew : a'.newOwner target = a.newOwner target := by
    rw [Arena.newOwner, Arena.newOwner, hc, hs]
  have hpos : ∀ o, (a'.get? o).bind (k.position id) = (a.get? o).bind (k.position id) := by
    intro o
    have h : ∀ x : Option Target,
        x.bind (k.position id) = (x.map k.ids).bind (·.findIdx? (· == id)) := by
      intro x
      cases x <;> rfl
    rw [h, h, hids]
  have hlen : ∀ x : Option Target,
      x.map (fun t => (k.ids t).length) = (x.map k.ids).map List.length := by
    intro x
    cases x <;> rfl
  rw [slot, slot, locate?_eq, locate?_eq, Arena.owners, Arena.owners, hs, hnew, hlen, hlen, hids]
  simp only [hpos]

/-- Resolving on one shelf leaves the other as it is. -/
lemma slot_resolve_other {k k' : Shelf} (hk : ∀ r t, k'.ids (k.add r t) = k'.ids t) (a : Arena)
    (target : TargetId) (r : Reference) (id : String) :
    k'.slot (k.resolve a target r).2 target id = k'.slot a target id := by
  simp only [resolve]
  split
  · rfl
  · refine slot_congr k' (Arena.stage?_modify a _ (k.isStage_add r)) (fun o => ?_) id
    by_cases ho : o = a.newOwner target
    · subst ho
      cases ht : a.get? (a.newOwner target) with
      | none => rw [Arena.modify_of_get?_eq_none ht, ht]
      | some t => simp [Arena.get?_modify_self ht, hk]
    · rw [Arena.get?_modify_ne ho]

/-! ### All of them in turn -/

lemma Settled.keepAll {a : Arena} {target : TargetId} {id : String}
    (h : k.Settled a target id) (rs : List Reference) :
    k.slot (Machine.resolveAll k.resolve target a rs).2 target id = k.slot a target id := by
  induction rs generalizing a with
  | nil => rfl
  | cons r rest ih =>
    obtain ⟨h1, h2⟩ := h.keep k r
    exact (ih h1).trans h2

/-- After all have been resolved, each is where it was put. -/
lemma get_resolveAll (target : TargetId) (a : Arena) (rs : List Reference) {i : Nat}
    {r : Reference} (hr : rs[i]? = some r) :
    (Machine.resolveAll k.resolve target a rs).1[i]? =
      some (k.slot (Machine.resolveAll k.resolve target a rs).2 target r.id) := by
  induction rs generalizing a i with
  | nil => simp at hr
  | cons x rest ih =>
    cases i with
    | zero =>
      obtain ⟨h1, h2⟩ := settled_resolve k a target x
      simp only [List.getElem?_cons_zero, Option.some.injEq] at hr
      subst hr
      simp only [Machine.resolveAll, List.getElem?_cons_zero]
      rw [h1.keepAll, h2]
    | succ j => exact ih (k.resolve a target x).2 hr

lemma slot_resolveAll_other {k k' : Shelf} (hk : ∀ r t, k'.ids (k.add r t) = k'.ids t)
    (target : TargetId) (a : Arena) (rs : List Reference) (id : String) :
    k'.slot (Machine.resolveAll k.resolve target a rs).2 target id = k'.slot a target id := by
  induction rs generalizing a with
  | nil => rfl
  | cons r rest ih => exact (ih _).trans (slot_resolve_other hk a target r id)

lemma vars_resolve : Arena.resolveVariable = vars.resolve := by
  funext a t r
  exact resolveVariable_eq a t r

lemma lists_resolve : Arena.resolveList = lists.resolve := by
  funext a t r
  exact resolveList_eq a t r

end Shelf

/-- A new machine has its variables and lists where their ids lead. -/
lemma Machine.new_slots (p : Program) (target : TargetId) (w : World) :
    (∀ (i : Nat) (r : Reference), p.tables.vars[i]? = some r → (Machine.new p target w).1.vars[i]? =
      some (Shelf.vars.slot (Machine.new p target w).2.targets target r.id)) ∧
    (∀ (i : Nat) (r : Reference), p.tables.lists[i]? = some r → (Machine.new p target w).1.lists[i]? =
      some (Shelf.lists.slot (Machine.new p target w).2.targets target r.id)) := by
  simp only [Machine.new, Machine.reset, Shelf.vars_resolve, Shelf.lists_resolve]
  refine ⟨fun i r hr => ?_, fun i r hr => Shelf.get_resolveAll _ _ _ _ hr⟩
  rw [Shelf.slot_resolveAll_other (fun _ _ => rfl)]
  exact Shelf.get_resolveAll _ _ _ _ hr

end Blockwork
