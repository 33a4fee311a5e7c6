import Blockwork.Proofs.Machine.Isolation

/-!
Places for good. A variable or a list that was found, or made because nobody had it, is found in the same
place from then on, whatever else is looked for, whoever comes or goes and whatever is written. The
reason lies in the order of the search: what is missing is made for the one who asks, so it never gets in
front of what someone else has found. Hence the places of a machine are those that a new machine would
get, however long it has been suspended.
-/

namespace Blockwork

namespace Shelf

variable (k : Shelf) {a a' : Arena} {own target : TargetId} {id : String} {s : Slot} {r : Reference}

/-! ### What is found is found again -/

lemma resolve_of_locate? (h : k.locate? a own r.id = some s) : k.resolve a own r = (s, a) := by
  simp [resolve, slot, h]

/-- Where something is found depends on the ids of the owners only. -/
lemma locate?_congr (hstage : a'.stage? = a.stage?)
    (hids : ∀ o ∈ a.owners own, (a'.get? o).map k.ids = (a.get? o).map k.ids) (id : String) :
    k.locate? a' own id = k.locate? a own id := by
  have hbind : ∀ x : Option Target,
      x.bind (k.position id) = (x.map k.ids).bind (·.findIdx? (· == id)) := by
    intro x
    cases x <;> rfl
  rw [locate?_eq, locate?_eq, Machine.owners_of_stage? hstage]
  generalize a.owners own = os at hids
  induction os with
  | nil => rfl
  | cons o os ih =>
    rw [List.findSome?_cons, List.findSome?_cons, hbind, hbind, hids o List.mem_cons_self,
      ih fun o' ho' => hids o' (List.mem_cons_of_mem _ ho')]

lemma isSome_position {t : Target} : (k.position id t).isSome = true ↔ id ∈ k.ids t := by
  rw [position, List.findIdx?_isSome, List.any_eq_true]
  simp

/-- What is found is there, on one of the owners. -/
lemma of_locate? (h : k.locate? a own id = some s) :
    s.target ∈ a.owners own ∧ ∃ t, a.get? s.target = some t ∧ (k.ids t)[s.index]? = some id := by
  rw [locate?_eq] at h
  obtain ⟨o, ho, h⟩ := List.exists_of_findSome?_eq_some h
  obtain ⟨i, hi, rfl⟩ := Option.map_eq_some_iff.1 h
  obtain ⟨t, ht, hposition⟩ := Option.bind_eq_some_iff.1 hi
  obtain ⟨hlt, hsame, -⟩ := List.findIdx?_eq_some_iff_getElem.1 hposition
  exact ⟨ho, t, ht, by rw [List.getElem?_eq_getElem hlt, beq_iff_eq.1 hsame]⟩

lemma isSome_locate? {o : TargetId} {t : Target} (ho : o ∈ a.owners own) (ht : a.get? o = some t)
    (hmem : id ∈ k.ids t) : ∃ s, k.locate? a own id = some s := by
  rw [← Option.isSome_iff_exists, locate?_eq, List.isSome_findSome?, List.any_eq_true]
  exact ⟨o, ho, by rw [ht, Option.isSome_map]; exact k.isSome_position.2 hmem⟩

/-- Its own target comes first. -/
lemma locate?_own {t : Target} (ht : a.get? own = some t) (hmem : id ∈ k.ids t) :
    ∃ i, k.locate? a own id = some ⟨own, i⟩ := by
  obtain ⟨i, hi⟩ := Option.isSome_iff_exists.1 (k.isSome_position.2 hmem)
  exact ⟨i, by rw [locate?_eq, Arena.owners, List.findSome?_cons, ht, Option.bind_some, hi]; rfl⟩

lemma position_of_owner (hnone : k.locate? a target id = none) {o : TargetId} {t : Target}
    (ho : o ∈ a.owners target) (ht : a.get? o = some t) : k.position id t = none := by
  have h := List.findSome?_eq_none_iff.1 hnone o ho
  rwa [ht, Option.map_eq_none_iff] at h

/-- Looking for something for anyone, and making it if need be, leaves what was found where it is. -/
lemma locate?_resolve (h : k.locate? a own id = some s) (target : TargetId) (r : Reference) :
    k.locate? (k.resolve a target r).2 own id = some s := by
  simp only [resolve]
  split
  · exact h
  next hnone =>
  rw [Option.not_isSome_iff_eq_none] at hnone
  by_cases hid : r.id = id
  · subst hid
    cases ht : a.get? (a.newOwner target) with
    | none => rwa [Arena.modify_of_get?_eq_none ht]
    | some t =>
      -- nobody who was asked has it, the stage among them, so it was found on its own target
      have hlacks : k.position r.id t = none := k.position_of_owner hnone (newOwner_mem ht) ht
      have hown : ((a.get? own).bind (k.position r.id)).map (⟨own, ·⟩) = some s := by
        rw [locate?_eq, Arena.owners, List.findSome?_cons] at h
        split at h
        · next s' hs' => rwa [Option.some.inj h] at hs'
        · rw [locate?_eq, Arena.owners, List.findSome?_cons] at hnone
          split at hnone
          · cases hnone
          · rw [hnone] at h
            cases h
      have hne : own ≠ a.newOwner target := by
        intro heq
        rw [heq, ht, Option.bind_some, hlacks] at hown
        cases hown
      rw [locate?_eq, Arena.owners, List.findSome?_cons, Arena.get?_modify_ne hne, hown]
  · rw [locate?_modify_ne k hid, h]

/-- Looking for things of one kind leaves those of the other kind where they are. -/
lemma locate?_resolve_other {k k' : Shelf} (hk : ∀ r t, k'.ids (k.add r t) = k'.ids t) (a : Arena)
    (own target : TargetId) (r : Reference) (id : String) :
    k'.locate? (k.resolve a target r).2 own id = k'.locate? a own id := by
  simp only [resolve]
  split
  · rfl
  · refine k'.locate?_congr (Arena.stage?_modify a _ (k.isStage_add r)) (fun o _ => ?_) id
    rw [Arena.get?_modify]
    split
    · rw [Option.map_map]
      exact congrArg (Option.map · _) (funext fun t => hk r t)
    · rfl

lemma contains_resolve (a : Arena) (own target : TargetId) (r : Reference) :
    (k.resolve a target r).2.contains own = a.contains own := by
  simp only [resolve]
  split
  · rfl
  · rw [Arena.contains, Arena.get?_modify]
    split
    · rw [Option.isSome_map]
      rfl
    · rfl

/-- A live target finds what it asked for where it was told. -/
lemma locate?_resolve_self (hlive : a.contains own = true) (r : Reference) :
    k.locate? (k.resolve a own r).2 own r.id = some (k.resolve a own r).1 := by
  cases hs : k.locate? a own r.id with
  | some s => rw [k.resolve_of_locate? hs, hs]
  | none =>
    have hnew : a.newOwner own = own := by rw [Arena.newOwner, if_pos hlive]
    obtain ⟨t, ht⟩ := Option.isSome_iff_exists.1 hlive
    have hmade := locate?_modify_self k hs (hnew.symm ▸ ht)
    simp only [resolve, hs, Option.isSome_none, Bool.false_eq_true, if_false, slot,
      Option.getD_none, hmade]
    simp [hnew, ht]

/-! ### All of them -/

/-- Where the search for each of them leads. -/
def Found (a : Arena) (own : TargetId) (rs : List Reference) (ss : List Slot) : Prop :=
  List.Forall₂ (fun r s => k.locate? a own r.id = some s) rs ss

variable {k} {rs : List Reference} {ss : List Slot}

lemma Found.mono (h : k.Found a own rs ss)
    (hkeep : ∀ id s, k.locate? a own id = some s → k.locate? a' own id = some s) :
    k.Found a' own rs ss := by
  unfold Found at h ⊢
  exact List.Forall₂.imp (fun (r : Reference) s => hkeep r.id s) h

lemma Found.get? (h : k.Found a own rs ss) {i : Nat} (hr : rs[i]? = some r) :
    ∃ s, ss[i]? = some s ∧ k.locate? a own r.id = some s := by
  unfold Found at h
  induction h generalizing i with
  | nil => cases hr
  | @cons r' s' _ _ hfirst _ ih =>
    cases i with
    | zero =>
      obtain rfl : r' = r := Option.some.inj hr
      exact ⟨s', rfl, hfirst⟩
    | succ i => exact ih hr

lemma Found.target_mem (h : k.Found a own rs ss) : ∀ s ∈ ss, s.target ∈ a.owners own := by
  unfold Found at h
  induction h with
  | nil => exact fun _ hs => (List.not_mem_nil hs).elim
  | cons hr _ ih => exact List.forall_mem_cons.2 ⟨(k.of_locate? hr).1, ih⟩

/-- What is found need not be looked for in turn. -/
lemma Found.resolveAll (h : k.Found a own rs ss) :
    Machine.resolveAll k.resolve own a rs = (ss, a) := by
  unfold Found at h
  induction h with
  | nil => rfl
  | cons hr _ ih =>
    simp only [Machine.resolveAll]
    rw [k.resolve_of_locate? hr, ih]

/-- What looking for one of them keeps, looking for all of them keeps. -/
lemma resolveAll_induction {P : Arena → Prop} (hstep : ∀ a r, P a → P (k.resolve a target r).2)
    (rs : List Reference) (h : P a) : P (Machine.resolveAll k.resolve target a rs).2 := by
  induction rs generalizing a with
  | nil => exact h
  | cons r rs ih => exact ih (hstep a r h)

lemma locate?_resolveAll (h : k.locate? a own id = some s) (target : TargetId)
    (rs : List Reference) :
    k.locate? (Machine.resolveAll k.resolve target a rs).2 own id = some s :=
  resolveAll_induction (P := fun a => k.locate? a own id = some s)
    (fun _ r h => k.locate?_resolve h target r) rs h

lemma locate?_resolveAll_other {k' : Shelf} (hk : ∀ r t, k'.ids (k.add r t) = k'.ids t)
    (own target : TargetId) (a : Arena) (rs : List Reference) (id : String) :
    k'.locate? (Machine.resolveAll k.resolve target a rs).2 own id = k'.locate? a own id :=
  resolveAll_induction (P := fun a' => k'.locate? a' own id = k'.locate? a own id)
    (fun a' r h => (locate?_resolve_other hk a' own target r id).trans h) rs rfl

lemma contains_resolveAll (own target : TargetId) (a : Arena) (rs : List Reference) :
    (Machine.resolveAll k.resolve target a rs).2.contains own = a.contains own :=
  resolveAll_induction (P := fun a' => a'.contains own = a.contains own)
    (fun a' r h => (k.contains_resolve a' own target r).trans h) rs rfl

lemma found_resolveAll (hlive : a.contains own = true) (rs : List Reference) :
    k.Found (Machine.resolveAll k.resolve own a rs).2 own rs
      (Machine.resolveAll k.resolve own a rs).1 := by
  induction rs generalizing a with
  | nil => exact .nil
  | cons r rs ih =>
    have hlive' : (k.resolve a own r).2.contains own = true := by rwa [contains_resolve]
    exact .cons (locate?_resolveAll (k.locate?_resolve_self hlive r) own rs) (ih hlive')

end Shelf

/-! ### Machines and their places -/

namespace Machine

variable {p : Program} {m m' : Machine} {a a' : Arena} {w : World} {target : TargetId}

/-- The places of a machine are those that its program leads to. -/
structure Bound (p : Program) (a : Arena) (m : Machine) : Prop where
  vars : Shelf.vars.Found a m.target p.tables.vars m.vars
  lists : Shelf.lists.Found a m.target p.tables.lists m.lists

lemma new_eq (p : Program) (target : TargetId) (w : World) : Machine.new p target w =
    let x := resolveAll Shelf.vars.resolve target w.targets p.tables.vars
    let y := resolveAll Shelf.lists.resolve target x.2 p.tables.lists
    (reset ⟨target, x.1, y.1, 0, [], [], [], [], none, 0, .running, none, none⟩ .main,
      { w with targets := y.2 }) := by
  rw [new, Shelf.vars_resolve, Shelf.lists_resolve]

lemma Bound.homed (h : m.Bound p a) : m.Homed a := fun s hs =>
  (List.mem_append.1 hs).elim (h.vars.target_mem s) (h.lists.target_mem s)

/-- What looking for a variable or a list keeps, the making of a machine keeps. -/
lemma new_induction {P : Arena → Prop} (hvars : ∀ a r, P a → P (Shelf.vars.resolve a target r).2)
    (hlists : ∀ a r, P a → P (Shelf.lists.resolve a target r).2) (p : Program)
    (h : P w.targets) : P (Machine.new p target w).2.targets := by
  rw [Machine.new_eq]
  exact Shelf.resolveAll_induction hlists _ (Shelf.resolveAll_induction hvars _ h)

/-- A new machine in the place of one that has kept its places: nothing is made for it. -/
lemma Bound.new_eq (h : m.Bound p w.targets) :
    Machine.new p m.target w = (m.reset .main, w) := by
  rw [Machine.new_eq]
  simp only [h.vars.resolveAll, h.lists.resolveAll]
  rfl

lemma bound_new (hlive : w.targets.contains target = true) :
    (Machine.new p target w).1.Bound p (Machine.new p target w).2.targets := by
  rw [Machine.new_eq]
  constructor
  · refine (Shelf.found_resolveAll hlive _).mono fun id s hs => ?_
    exact (Shelf.locate?_resolveAll_other (fun _ _ => rfl) _ _ _ _ _).trans hs
  · refine Shelf.found_resolveAll ?_ _
    rwa [Shelf.contains_resolveAll]

lemma Bound.mono (h : m.Bound p a) (hm : m'.home = m.home)
    (hvars : ∀ id s, Shelf.vars.locate? a m.target id = some s →
      Shelf.vars.locate? a' m.target id = some s)
    (hlists : ∀ id s, Shelf.lists.locate? a m.target id = some s →
      Shelf.lists.locate? a' m.target id = some s) : m'.Bound p a' := by
  simp only [home, Prod.mk.injEq] at hm
  obtain ⟨htarget, hv, hl⟩ := hm
  exact ⟨by rw [htarget, hv]; exact h.vars.mono hvars, by rw [htarget, hl]; exact h.lists.mono hlists⟩

end Machine

/-! ### What may happen meanwhile -/

namespace Shelf

/-- Things whose places are kept, whatever is looked for. -/
structure Stays (k : Shelf) : Prop where
  labels : ∀ {t t' : Target}, t'.labels = t.labels → k.ids t' = k.ids t
  vars : ∀ {a own id s}, k.locate? a own id = some s → ∀ target r,
    k.locate? (Shelf.vars.resolve a target r).2 own id = some s
  lists : ∀ {a own id s}, k.locate? a own id = some s → ∀ target r,
    k.locate? (Shelf.lists.resolve a target r).2 own id = some s

lemma stays_vars : Shelf.vars.Stays where
  labels h := by simpa [Target.labels, Shelf.vars, Function.comp_def] using congrArg (·.1.map (·.1)) h
  vars h target r := Shelf.vars.locate?_resolve h target r
  lists h target r := (locate?_resolve_other (fun _ _ => rfl) _ _ target r _).trans h

lemma stays_lists : Shelf.lists.Stays where
  labels h := by simpa [Target.labels, Shelf.lists, Function.comp_def] using congrArg (·.2.map (·.1)) h
  vars h target r := (locate?_resolve_other (fun _ _ => rfl) _ _ target r _).trans h
  lists h target r := Shelf.lists.locate?_resolve h target r

/-- Machines that are made for whomever take no place away. -/
lemma Stays.new {k : Shelf} (hk : k.Stays) {w : World} {own : TargetId} {id : String} {s : Slot}
    (h : k.locate? w.targets own id = some s) (p : Program) (target : TargetId) :
    k.locate? (Machine.new p target w).2.targets own id = some s :=
  Machine.new_induction (P := fun a => k.locate? a own id = some s)
    (fun _ r h => hk.vars h target r) (fun _ r h => hk.lists h target r) p h

end Shelf

lemma Machine.Bound.new {p : Program} {m : Machine} {w : World} (h : m.Bound p w.targets)
    (p' : Program) (target : TargetId) : m.Bound p (Machine.new p' target w).2.targets :=
  h.mono rfl (fun _ _ hs => Shelf.stays_vars.new hs p' target)
    fun _ _ hs => Shelf.stays_lists.new hs p' target

namespace Arena

variable {a a' : Arena} {own stage id : TargetId}

/-- The stage lives in the first place and `own` somewhere. -/
structure Anchored (own stage : TargetId) (a : Arena) : Prop where
  tidy : a.Tidy
  hasStage : a.HasStage stage
  first : stage.index = 0
  live : a.contains own = true

/-- What may happen to an arena while something on `own` relies on its places. -/
inductive Event (own stage : TargetId) (a : Arena) : Arena → Prop
  /-- Someone looks for a variable, which may have to be made. -/
  | var (target : TargetId) (r : Reference) : Event own stage a (a.resolveVariable target r).2
  | list (target : TargetId) (r : Reference) : Event own stage a (a.resolveList target r).2
  /-- A clone is made, or anyone else moves in. -/
  | insert (t : Target) : Event own stage a (a.insert t).2
  | remove (id : TargetId) (hown : id ≠ own) (hstage : id ≠ stage) : Event own stage a (a.remove id)
  | setVariable (s : Slot) (v : Value) : Event own stage a (a.setVariable s v)
  | modifyList (s : Slot) {f : ItemList → ItemList} (hf : ∀ l, (f l).id = l.id ∧ (f l).name = l.name) :
      Event own stage a (a.modifyList s f)
  /-- A target changes otherwise, but for its variables and lists. -/
  | edit (id : TargetId) {f : Target → Target}
      (hf : ∀ t, (f t).isStage = t.isStage ∧ (f t).cloneOf = t.cloneOf ∧ (f t).labels = t.labels) :
      Event own stage a (a.modify id f)

def Later (own stage : TargetId) : Arena → Arena → Prop := Relation.ReflTransGen (Event own stage)

lemma Anchored.stage? (h : a.Anchored own stage) : a.stage? = some stage :=
  stage?_eq_some_iff.2 ⟨h.hasStage, fun _ _ => h.first ▸ Nat.zero_le _⟩

lemma contains_iff : a.contains id = true ↔ ∃ t, a.get? id = some t := Option.isSome_iff_exists

/-- Whoever is found under an id keeps being what he is and what he has. -/
lemma Anchored.of_kept (h : a.Anchored own stage) (htidy : a'.Tidy)
    (hkept : ∀ o t, o = own ∨ o = stage → a.get? o = some t →
      ∃ t', a'.get? o = some t' ∧ t'.isStage = t.isStage) : a'.Anchored own stage where
  tidy := htidy
  hasStage := by
    obtain ⟨t, ht, hstage⟩ := h.hasStage
    obtain ⟨t', ht', hsame⟩ := hkept stage t (.inr rfl) ht
    exact ⟨t', ht', hsame.trans hstage⟩
  first := h.first
  live := by
    obtain ⟨t, ht⟩ := contains_iff.1 h.live
    obtain ⟨t', ht', -⟩ := hkept own t (.inl rfl) ht
    exact contains_iff.2 ⟨t', ht'⟩

lemma Anchored.modify (h : a.Anchored own stage) (id : TargetId) {f : Target → Target}
    (hf : ∀ t, (f t).isStage = t.isStage ∧ (f t).cloneOf = t.cloneOf) :
    (a.modify id f).Anchored own stage := by
  refine h.of_kept (h.tidy.congr (layout_modify a id fun t => (hf t).2)) fun o t _ ht => ?_
  rw [get?_modify, ht]
  split
  · exact ⟨f t, rfl, (hf t).1⟩
  · exact ⟨t, rfl, rfl⟩

lemma Anchored.resolve (h : a.Anchored own stage) {k : Shelf}
    (hk : ∀ r t, (k.add r t).cloneOf = t.cloneOf) (target : TargetId) (r : Reference) :
    (k.resolve a target r).2.Anchored own stage := by
  simp only [Shelf.resolve]
  split
  · exact h
  · exact h.modify _ fun t => ⟨k.isStage_add r t, hk r t⟩

lemma Event.anchored (h : Event own stage a a') (ha : a.Anchored own stage) :
    a'.Anchored own stage := by
  cases h with
  | var target r =>
    rw [Shelf.resolveVariable_eq]
    exact ha.resolve (fun _ _ => rfl) target r
  | list target r =>
    rw [Shelf.resolveList_eq]
    exact ha.resolve (fun _ _ => rfl) target r
  | insert u =>
    exact ha.of_kept (ha.tidy.insert u) fun o t _ ht => ⟨t, ha.tidy.get?_insert ht u, rfl⟩
  | remove id hown hstage =>
    refine ha.of_kept (ha.tidy.remove id) fun o t ho ht => ⟨t, ?_, rfl⟩
    have hne : o ≠ id := by
      rcases ho with rfl | rfl
      · exact hown.symm
      · exact hstage.symm
    rw [get?_remove, if_neg hne, ht]
  | setVariable s v => exact ha.modify _ fun _ => ⟨rfl, rfl⟩
  | modifyList s hf => exact ha.modify _ fun _ => ⟨rfl, rfl⟩
  | edit id hf => exact ha.modify id fun t => ⟨(hf t).1, (hf t).2.1⟩

variable {k : Shelf} {s : Slot}

/-- Changes after which the owners hold the same under the same ids. -/
lemma locate?_of_labels (hk : k.Stays) (hstage : a'.stage? = a.stage?)
    (hlabels : ∀ o ∈ a.owners own, (a'.get? o).map Target.labels = (a.get? o).map Target.labels)
    (id : String) : k.locate? a' own id = k.locate? a own id := by
  refine k.locate?_congr hstage (fun o ho => ?_) id
  have h := hlabels o ho
  cases ht : a.get? o with
  | none =>
    rw [ht] at h
    rw [Option.map_eq_none_iff.1 h]
  | some t =>
    rw [ht] at h
    obtain ⟨t', ht', hsame⟩ := Option.map_eq_some_iff.1 h
    rw [ht', Option.map_some, Option.map_some, hk.labels hsame]

lemma locate?_modify (hk : k.Stays) (id : TargetId) {f : Target → Target}
    (hf : ∀ t, (f t).isStage = t.isStage ∧ (f t).labels = t.labels) (own : TargetId) (x : String) :
    k.locate? (a.modify id f) own x = k.locate? a own x := by
  refine locate?_of_labels hk (stage?_modify a id fun t => (hf t).1) (fun o _ => ?_) x
  rw [get?_modify]
  split
  · rw [Option.map_map]
    exact congrArg (Option.map · _) (funext fun t => (hf t).2)
  · rfl

lemma Event.locate? (hk : k.Stays) (h : Event own stage a a') (ha : a.Anchored own stage)
    {x : String} (hs : k.locate? a own x = some s) : k.locate? a' own x = some s := by
  have hstage := ha.stage?
  have hstage' := (h.anchored ha).stage?
  have howners : ∀ o ∈ a.owners own, (o = own ∨ o = stage) := by
    intro o ho
    simpa [owners, hstage] using ho
  cases h with
  | var target r =>
    rw [Shelf.resolveVariable_eq]
    exact hk.vars hs target r
  | list target r =>
    rw [Shelf.resolveList_eq]
    exact hk.lists hs target r
  | insert u =>
    refine (locate?_of_labels hk (hstage'.trans hstage.symm) (fun o ho => ?_) x).trans hs
    obtain ⟨t, ht⟩ : ∃ t, a.get? o = some t := by
      rcases howners o ho with rfl | rfl
      · exact contains_iff.1 ha.live
      · exact ha.hasStage.imp fun t ht => ht.1
    rw [ha.tidy.get?_insert ht u, ht]
  | remove id hown hstage'' =>
    refine (locate?_of_labels hk (hstage'.trans hstage.symm) (fun o ho => ?_) x).trans hs
    have hne : o ≠ id := by
      rcases howners o ho with rfl | rfl
      · exact hown.symm
      · exact hstage''.symm
    rw [get?_remove, if_neg hne]
  | setVariable slot v =>
    refine (locate?_modify hk slot.target ?_ own x).trans hs
    exact fun t => ⟨rfl, Target.labels_of_bare (t.bare_modify_vars slot.index fun _ => v)⟩
  | modifyList slot hf =>
    refine (locate?_modify hk slot.target ?_ own x).trans hs
    exact fun t => ⟨rfl, Target.labels_of_bare (t.bare_modify_lists slot.index hf)⟩
  | edit id hf =>
    exact (locate?_modify hk id (fun t => ⟨(hf t).1, (hf t).2.2⟩) own x).trans hs

lemma Later.anchored (h : Later own stage a a') (ha : a.Anchored own stage) :
    a'.Anchored own stage := by
  induction h with
  | refl => exact ha
  | tail _ hevent ih => exact hevent.anchored ih

lemma Later.locate? (hk : k.Stays) (h : Later own stage a a') (ha : a.Anchored own stage)
    {x : String} (hs : k.locate? a own x = some s) : k.locate? a' own x = some s := by
  induction h with
  | refl => exact hs
  | tail hbefore hevent ih => exact hevent.locate? hk (Later.anchored hbefore ha) ih

/-! ### Places that last -/

/-- What looking for something comes to: it is found on the target itself or else on the stage, or it
is made for the target. -/
structure Finds (k : Shelf) (a : Arena) (own stage : TargetId) (r : Reference) (s : Slot)
    (a' : Arena) : Prop where
  owner : s.target = own ∨ s.target = stage
  holds : ∃ t, a'.get? s.target = some t ∧ (k.ids t)[s.index]? = some r.id
  own_first : ∀ t, a.get? own = some t → r.id ∈ k.ids t → s.target = own
  unchanged : (∃ o t, (o = own ∨ o = stage) ∧ a.get? o = some t ∧ r.id ∈ k.ids t) → a' = a
  made : (∀ o t, o = own ∨ o = stage → a.get? o = some t → r.id ∉ k.ids t) →
    s.target = own ∧ a' = a.modify own (k.add r)

lemma finds_resolve (k : Shelf) (ha : a.Anchored own stage) (r : Reference) :
    Finds k a own stage r (k.resolve a own r).1 (k.resolve a own r).2 := by
  have hself := k.locate?_resolve_self ha.live r
  have howners : a.owners own = [own, stage] := by rw [owners, ha.stage?, Option.toList_some]
  have howner : ∀ o, o = own ∨ o = stage ↔ o ∈ a.owners own := by simp [howners]
  have hstage : (k.resolve a own r).2.stage? = a.stage? := by
    simp only [Shelf.resolve]
    split
    · rfl
    · exact stage?_modify a _ (k.isStage_add r)
  refine ⟨?_, (k.of_locate? hself).2, fun t ht hmem => ?_, ?_, fun hnone => ?_⟩
  · rw [howner, ← Machine.owners_of_stage? hstage]
    exact (k.of_locate? hself).1
  · obtain ⟨i, hi⟩ := k.locate?_own ht hmem
    rw [k.resolve_of_locate? hi]
  · rintro ⟨o, t, ho, ht, hmem⟩
    obtain ⟨s, hs⟩ := k.isSome_locate? ((howner o).1 ho) ht hmem
    rw [k.resolve_of_locate? hs]
  · have hlocate : k.locate? a own r.id = none := by
      refine Option.eq_none_iff_forall_ne_some.2 fun s hs => ?_
      obtain ⟨ho, t, ht, hid⟩ := k.of_locate? hs
      exact hnone s.target t ((howner _).2 ho) ht (List.mem_of_getElem? hid)
    have hnew : a.newOwner own = own := by rw [newOwner, if_pos ha.live]
    simp [Shelf.resolve, Shelf.slot, hlocate, hnew]

/-- What two machines on one target call by the same id, they have in the same place. -/
def SameSlots (rs rs' : List Reference) (ss ss' : List Slot) : Prop :=
  ∀ (i j : Nat) (r r' : Reference), rs[i]? = some r → rs'[j]? = some r' → r.id = r'.id →
    ∃ s, ss[i]? = some s ∧ ss'[j]? = some s

lemma sameSlots_of_found {rs rs' : List Reference} {ss ss' : List Slot} (h : k.Found a own rs ss)
    (h' : k.Found a own rs' ss') : SameSlots rs rs' ss ss' := by
  intro i j r r' hr hr' hid
  obtain ⟨s, hs, hplace⟩ := h.get? hr
  obtain ⟨s', hs', hplace'⟩ := h'.get? hr'
  rw [hid, hplace'] at hplace
  cases hplace
  exact ⟨s, hs, hs'⟩

lemma Later.resolve (hk : k.Stays) (ha : a.Anchored own stage)
    (hcloneOf : ∀ r t, (k.add r t).cloneOf = t.cloneOf) (r : Reference)
    (h : Later own stage (k.resolve a own r).2 a') (name : String) :
    k.resolve a' own ⟨name, r.id⟩ = ((k.resolve a own r).1, a') :=
  k.resolve_of_locate?
    (h.locate? hk (ha.resolve hcloneOf own r) (k.locate?_resolve_self ha.live r))

lemma Later.bound {p : Program} {m : Machine} (h : Later own stage a a')
    (ha : a.Anchored own stage) (hm : m.Bound p a) (htarget : m.target = own) : m.Bound p a' := by
  subst htarget
  exact hm.mono rfl (fun _ _ hs => h.locate? Shelf.stays_vars ha hs)
    fun _ _ hs => h.locate? Shelf.stays_lists ha hs

lemma Anchored.new {w : World} (ha : w.targets.Anchored own stage) (p : Program)
    (target : TargetId) : (Machine.new p target w).2.targets.Anchored own stage :=
  Machine.new_induction (fun _ r h => h.resolve (fun _ _ => rfl) target r)
    (fun _ r h => h.resolve (fun _ _ => rfl) target r) p ha

/-- **Places last.** In a tidy arena with the stage in its first place, looking for a variable or a list
of a live target finds it on the target or else on the stage, and makes it for the target if it is
nowhere. Whoever looks for whatever afterwards, comes, leaves or writes, as long as the target and the
stage stay, looking for the same id again finds the same place and makes nothing. So a machine that
is made later is the same machine, and all machines on the target share what they call by one id. -/
theorem places_last (htidy : a.Tidy) (hstage : a.HasStage stage) (hfirst : stage.index = 0)
    (hown : a.contains own = true) :
    (∀ r, Finds .vars a own stage r (a.resolveVariable own r).1 (a.resolveVariable own r).2 ∧
      ∀ a', Later own stage (a.resolveVariable own r).2 a' → ∀ name,
        a'.resolveVariable own ⟨name, r.id⟩ = ((a.resolveVariable own r).1, a')) ∧
    (∀ r, Finds .lists a own stage r (a.resolveList own r).1 (a.resolveList own r).2 ∧
      ∀ a', Later own stage (a.resolveList own r).2 a' → ∀ name,
        a'.resolveList own ⟨name, r.id⟩ = ((a.resolveList own r).1, a')) ∧
    ∀ (p p' : Program) (w w' : World), w.targets = a →
      Later own stage (Machine.new p own w).2.targets w'.targets →
      Machine.new p own w' = ((Machine.new p own w).1, w') ∧
      SameSlots p.tables.vars p'.tables.vars (Machine.new p own w).1.vars
        (Machine.new p' own w').1.vars ∧
      SameSlots p.tables.lists p'.tables.lists (Machine.new p own w).1.lists
        (Machine.new p' own w').1.lists := by
  have ha : a.Anchored own stage := ⟨htidy, hstage, hfirst, hown⟩
  refine ⟨fun r => ?_, fun r => ?_, fun p p' w w' hw hlater => ?_⟩
  · simp only [Shelf.resolveVariable_eq]
    exact ⟨finds_resolve .vars ha r, fun a' h => h.resolve Shelf.stays_vars ha (fun _ _ => rfl) r⟩
  · simp only [Shelf.resolveList_eq]
    exact ⟨finds_resolve .lists ha r, fun a' h => h.resolve Shelf.stays_lists ha (fun _ _ => rfl) r⟩
  · subst hw
    have hmade := ha.new p own
    have hbound := hlater.bound hmade (Machine.bound_new ha.live) rfl
    have hlive : w'.targets.contains own = true := (hlater.anchored hmade).live
    exact ⟨hbound.new_eq, sameSlots_of_found (hbound.new p' own).vars (Machine.bound_new hlive).vars,
      sameSlots_of_found (hbound.new p' own).lists (Machine.bound_new hlive).lists⟩

/-- The stage makes a variable of its own under the id that the cat has made before. -/
theorem places_last_twice :
    let stage : Target := { name := "Stage", isStage := true }
    let cat : Target := { name := "Cat", isStage := false }
    let a : Arena := ⟨[⟨0, some stage⟩, ⟨0, some cat⟩], []⟩
    let b := (a.resolveVariable ⟨1, 0⟩ ⟨"lives", "v"⟩).2
    let c := (b.resolveVariable ⟨0, 0⟩ ⟨"lives", "v"⟩).2
    c.resolveVariable ⟨1, 0⟩ ⟨"health", "v"⟩ = (⟨⟨1, 0⟩, 0⟩, c) := by
  intro stage cat a b c
  have htidy : a.Tidy := ⟨List.nodup_nil, fun _ h => by cases h⟩
  have hstage : a.HasStage ⟨0, 0⟩ := ⟨stage, rfl, rfl⟩
  have hlater : Later ⟨1, 0⟩ ⟨0, 0⟩ b c := .single (.var ⟨0, 0⟩ ⟨"lives", "v"⟩)
  exact ((places_last htidy hstage rfl rfl).1 ⟨"lives", "v"⟩).2 c hlater "health"

end Arena

end Blockwork
