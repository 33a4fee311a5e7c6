import Blockwork.Proofs.Machine.Slots
import Blockwork.Proofs.World.Mail

/-!
Who lives where. The layout of an arena says which of its places are taken, under which generation and
by clones of whom; the roster says who lives there in full. Threads, questions and bubbles leave them
alone; only clones that come and go change them, and in a tidy arena a new clone takes no place from
anyone.
-/

namespace Blockwork

/-- Who a target is, whatever happens to it. -/
structure Target.Role where
  name : String
  isStage : Bool
  blocks : BlockMap
  cloneOf : Option TargetId

def Target.role (t : Target) : Role := ⟨t.name, t.isStage, t.blocks, t.cloneOf⟩

namespace Arena

/-- The places with their generations and the origins of those who live there, and the free places. -/
def layout (a : Arena) : List (UInt32 × Option (Option TargetId)) × List Nat :=
  (a.entries.map fun e => (e.generation, e.target.map (·.cloneOf)), a.free)

/-- The places with their generations and those who live there, and the free places. -/
def roster (a : Arena) : List (UInt32 × Option Target.Role) × List Nat :=
  (a.entries.map fun e => (e.generation, e.target.map (·.role)), a.free)

/-- Of whom a live target is a clone, if of anyone. -/
def origin? (a : Arena) (id : TargetId) : Option (Option TargetId) :=
  (a.get? id).map (·.cloneOf)

def role? (a : Arena) (id : TargetId) : Option Target.Role := (a.get? id).map (·.role)

variable {a a' : Arena} {id id' : TargetId} {t : Target}

/-- The layout is read off the roster. -/
lemma layout_eq (a : Arena) :
    a.layout = (a.roster.1.map fun x => (x.1, x.2.map (·.cloneOf)), a.roster.2) := by
  unfold layout roster
  rw [List.map_map]
  congr 2
  funext e
  simp [Target.role, Function.comp_def]

lemma layout_of_roster (h : a'.roster = a.roster) : a'.layout = a.layout := by
  rw [layout_eq, layout_eq, h]

/-- What is read of a target is read of its place. -/
lemma map_get? {α : Type} (a : Arena) (id : TargetId) (f : Target → α) : (a.get? id).map f =
    ((a.entries.map fun e => (e.generation, e.target.map f))[id.index]?).bind
      fun x => if x.1 == id.generation then x.2 else none := by
  unfold get?
  rw [List.getElem?_map]
  cases a.entries[id.index]? with
  | none => rfl
  | some e =>
    simp only [Option.map_some, Option.bind_some]
    split <;> rfl

lemma role?_eq (a : Arena) (id : TargetId) : a.role? id =
    (a.roster.1[id.index]?).bind fun x => if x.1 == id.generation then x.2 else none :=
  a.map_get? id _

lemma role?_congr (h : a'.roster = a.roster) (id : TargetId) : a'.role? id = a.role? id := by
  rw [role?_eq, role?_eq, h]

lemma origin?_eq (a : Arena) (id : TargetId) : a.origin? id =
    (a.layout.1[id.index]?).bind fun x => if x.1 == id.generation then x.2 else none :=
  a.map_get? id _

lemma origin?_congr (h : a'.layout = a.layout) (id : TargetId) : a'.origin? id = a.origin? id := by
  rw [origin?_eq, origin?_eq, h]

lemma contains_eq (a : Arena) (id : TargetId) : a.contains id = (a.origin? id).isSome := by
  unfold contains origin?
  rw [Option.isSome_map]

lemma contains_congr (h : a'.layout = a.layout) (id : TargetId) : a'.contains id = a.contains id := by
  rw [contains_eq, contains_eq, origin?_congr h]

lemma mem_live : (id, t) ∈ a.live ↔ a.get? id = some t := by
  obtain ⟨i, g⟩ := id
  rw [get?_eq_some_iff]
  simp only [live, List.mem_filterMap, Option.map_eq_some_iff, Prod.mk.injEq, TargetId.mk.injEq]
  constructor
  · rintro ⟨⟨e, j⟩, hmem, t', ht', ⟨rfl, rfl⟩, rfl⟩
    rw [List.mk_mem_zipIdx_iff_getElem?.1 hmem, ← ht']
  · intro h
    exact ⟨(⟨g, some t⟩, i), List.mk_mem_zipIdx_iff_getElem?.2 h, t, rfl, ⟨rfl, rfl⟩, rfl⟩

lemma mem_ids : id ∈ a.ids ↔ (a.get? id).isSome = true := by
  rw [Option.isSome_iff_exists]
  simp only [ids, List.mem_map, Prod.exists, exists_and_right, exists_eq_right, mem_live]

/-! ### Changes in place -/

lemma roster_modify (a : Arena) (id : TargetId) {f : Target → Target}
    (hf : ∀ t, a.get? id = some t → (f t).role = t.role) :
    (a.modify id f).roster = a.roster := by
  cases h : a.get? id with
  | none => rw [modify_of_get?_eq_none h]
  | some t =>
    have he := get?_eq_some_iff.1 h
    have hsame : (a.entries.map fun e => (e.generation, e.target.map (·.role)))[id.index]? =
        some (id.generation, some (f t).role) := by
      rw [List.getElem?_map, he, hf t h]
      rfl
    obtain ⟨hlt, hget⟩ := List.getElem?_eq_some_iff.1 hsame
    rw [modify_of_get?_eq_some h]
    simp only [roster, List.map_set, Option.map_some, ← hget, List.set_getElem_self]

lemma roster_resolveVariable (a : Arena) (target : TargetId) (r : Reference) :
    (a.resolveVariable target r).2.roster = a.roster := by
  unfold resolveVariable
  split
  · rfl
  · exact roster_modify a _ fun _ _ => rfl

lemma roster_resolveList (a : Arena) (target : TargetId) (r : Reference) :
    (a.resolveList target r).2.roster = a.roster := by
  unfold resolveList
  split
  · rfl
  · exact roster_modify a _ fun _ _ => rfl

/-! ### Coming and going -/

/-- The free places are empty, and each of them is given away once. -/
structure Tidy (a : Arena) : Prop where
  nodup : a.layout.2.Nodup
  vacant : ∀ i ∈ a.layout.2, ∃ g, a.layout.1[i]? = some (g, none)

lemma tidy_empty : empty.Tidy := ⟨List.nodup_nil, fun _ h => (List.not_mem_nil h).elim⟩

lemma Tidy.congr (h : a.Tidy) (hl : a'.layout = a.layout) : a'.Tidy := by
  obtain ⟨hn, hv⟩ := h
  exact ⟨hl ▸ hn, hl ▸ hv⟩

/-- Who lives somewhere keeps the place when another moves in. -/
lemma Tidy.get?_insert (h : a.Tidy) (ht : a.get? id = some t) (u : Target) :
    (a.insert u).2.get? id = some t := by
  have he := get?_eq_some_iff.1 ht
  unfold insert
  split
  · next i free hfree =>
    have hother : i ≠ id.index := by
      rintro rfl
      obtain ⟨g, hg⟩ := h.vacant id.index (by simp [layout, hfree])
      simp [layout, he] at hg
    rw [get?_eq_some_iff]
    simp only
    rw [List.getElem?_set_ne hother, he]
  · rw [get?_eq_some_iff]
    simp only
    rw [List.getElem?_append_left (List.getElem?_eq_some_iff.1 he).1, he]

lemma Tidy.insert (h : a.Tidy) (u : Target) : (a.insert u).2.Tidy := by
  obtain ⟨hn, hv⟩ := h
  unfold Arena.insert
  split
  · next i free hfree =>
    rw [layout, hfree] at hn hv
    obtain ⟨hi, hfresh⟩ := List.nodup_cons.1 hn
    refine ⟨hfresh, fun j hj => ?_⟩
    obtain ⟨g, hg⟩ := hv j (List.mem_cons_of_mem _ hj)
    have hne : i ≠ j := by
      rintro rfl
      exact hi hj
    refine ⟨g, ?_⟩
    simp only [layout, List.map_set]
    rw [List.getElem?_set_ne hne, hg]
  · exact ⟨List.nodup_nil, fun _ hj => (List.not_mem_nil hj).elim⟩

/-- Who leaves is found no more, and the others are found as before. -/
lemma get?_remove (a : Arena) (id id' : TargetId) :
    (a.remove id).get? id' = if id' = id then none else a.get? id' := by
  rw [remove_eq]
  split
  · next hlive =>
    obtain ⟨t, ht⟩ := Option.isSome_iff_exists.1 hlive
    have he := get?_eq_some_iff.1 ht
    have hlt := (List.getElem?_eq_some_iff.1 he).1
    by_cases hi : id.index = id'.index
    · have hnone : Arena.get? ⟨a.entries.set id.index ⟨id.generation + 1, none⟩,
          id.index :: a.free⟩ id' = none := by
        unfold Arena.get?
        rw [← hi, List.getElem?_set_self hlt]
        simp only
        split <;> rfl
      rw [hnone]
      split
      · rfl
      · next hne =>
        -- the same place under another generation
        symm
        rw [Option.eq_none_iff_forall_ne_some]
        intro t' ht'
        have he' := get?_eq_some_iff.1 ht'
        rw [← hi, he] at he'
        cases id
        cases id'
        simp_all
    · have hne : id' ≠ id := by
        rintro rfl
        exact hi rfl
      rw [if_neg hne]
      unfold Arena.get?
      simp only
      rw [List.getElem?_set_ne hi]
  · next hdead =>
    split
    · next hsame =>
      rw [hsame]
      simpa [contains] using hdead
    · rfl

lemma Tidy.remove (h : a.Tidy) (id : TargetId) : (a.remove id).Tidy := by
  rw [remove_eq]
  split
  · next hlive =>
    obtain ⟨t, ht⟩ := Option.isSome_iff_exists.1 hlive
    have he := get?_eq_some_iff.1 ht
    have hlt := (List.getElem?_eq_some_iff.1 he).1
    have hused : id.index ∉ a.free := by
      intro hfree
      obtain ⟨g, hg⟩ := h.vacant id.index hfree
      simp [layout, he] at hg
    refine ⟨List.nodup_cons.2 ⟨hused, h.nodup⟩, fun i hi => ?_⟩
    simp only [layout, List.map_set]
    rcases List.mem_cons.1 hi with rfl | hi
    · exact ⟨id.generation + 1, by simp [hlt]⟩
    · obtain ⟨g, hg⟩ := h.vacant i hi
      have hne : id.index ≠ i := by
        rintro rfl
        exact hused hi
      exact ⟨g, by rw [List.getElem?_set_ne hne]; exact hg⟩
  · exact h

end Arena

/-! ### Questions and bubbles -/

namespace World

lemma get?_setBubble (w : World) (id : TargetId) (kind : BubbleKind) (text : String) (id' : TargetId) :
    (w.setBubble id kind text).targets.get? id' =
      if id' = id then (w.targets.get? id').map (·.say kind text) else w.targets.get? id' := by
  unfold setBubble
  split
  · next hnone =>
    split
    · next hsame => rw [hsame, hnone]; rfl
    · rfl
  · next t ht =>
    split
    · next hsame =>
      rw [hsame, ht]
      exact Arena.get?_modify_self ht _
    · next hne => exact Arena.get?_modify_ne hne _

/-- How many clones there may be, and who there is. -/
def troupe (w : World) : Nat × List (UInt32 × Option Target.Role) × List Nat :=
  (w.config.cloneLimit, w.targets.roster)

lemma layout_of_troupe {w w' : World} (h : w'.troupe = w.troupe) :
    w'.targets.layout = w.targets.layout :=
  Arena.layout_of_roster (congrArg Prod.snd h)

variable (w : World)

lemma troupe_modifyTarget (id : TargetId) {f : Target → Target} (hf : ∀ t, (f t).role = t.role) :
    (w.modifyTarget id f).troupe = w.troupe :=
  congrArg (Prod.mk w.config.cloneLimit) (w.targets.roster_modify id fun t _ => hf t)

lemma troupe_setBubble (id : TargetId) (kind : BubbleKind) (text : String) :
    (w.setBubble id kind text).troupe = w.troupe := by
  unfold setBubble
  split
  · rfl
  · next t ht =>
    refine congrArg (Prod.mk w.config.cloneLimit) (Arena.roster_modify _ _ fun t' ht' => ?_)
    rw [ht, Option.some.injEq] at ht'
    rw [← ht']
    rfl

lemma troupe_announce : w.announce.troupe = w.troupe := by
  unfold announce
  split
  · rfl
  · split
    · exact troupe_setBubble w _ _ _
    · rfl

lemma troupe_withdraw (q : Question) : (w.withdraw q).troupe = w.troupe := by
  unfold withdraw
  split
  · exact troupe_setBubble w _ _ _
  · rfl

lemma troupe_ask (target : TargetId) (text : String) (p : Promise) :
    (w.ask target text p).troupe = w.troupe := by
  unfold ask
  simp only
  split
  · exact troupe_announce _
  · rfl

lemma troupe_answerQuestion (answer : String) : (w.answerQuestion answer).troupe = w.troupe := by
  unfold answerQuestion
  simp only
  split
  · rfl
  · next q rest _ =>
    exact (troupe_announce _).trans (troupe_withdraw { w with answer, questions := rest } q)

lemma troupe_abortPromise (p : Promise) : (w.abortPromise p).troupe = w.troupe := by
  unfold abortPromise
  split
  · rfl
  · next q rest _ =>
    split
    · exact (troupe_announce _).trans (troupe_withdraw { w with questions := rest } q)
    · rfl

end World

/-! ### Threads -/

lemma Machine.roster_resolveAll {resolve : Arena → TargetId → Reference → Slot × Arena}
    (h : ∀ (a : Arena) target r, (resolve a target r).2.roster = a.roster) (target : TargetId)
    (a : Arena) (rs : List Reference) : (resolveAll resolve target a rs).2.roster = a.roster := by
  induction rs generalizing a with
  | nil => rfl
  | cons r rs ih => exact (ih _).trans (h a target r)

namespace Thread

lemma troupe_new (id : ThreadId) (script : Nat) (p : Program) (target : TargetId) (w : World) :
    (new id script p target w).2.troupe = w.troupe :=
  congrArg (Prod.mk w.config.cloneLimit)
    ((Machine.roster_resolveAll Arena.roster_resolveList _ _ _).trans
      (Machine.roster_resolveAll Arena.roster_resolveVariable _ _ _))

lemma troupe_releasePromise (t : Thread) (w : World) : (t.releasePromise w).troupe = w.troupe := by
  unfold releasePromise
  split
  · exact World.troupe_abortPromise _ _
  · rfl

end Thread

end Blockwork
