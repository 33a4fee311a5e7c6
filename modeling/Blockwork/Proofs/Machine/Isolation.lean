import Blockwork.Proofs.World.Stage

/-!
What a slice leaves alone. A machine reaches targets in two ways: by its own id, through the natives,
and through the places of its variables and lists, which were found when it was made. Both lead to its
own target or to the stage, and the second way leads to values and items only. So of everybody else
nothing changes; and nobody's variables and lists are moved, renamed or removed, not even its own.
-/

namespace Blockwork

namespace Target

/-- A target without the values of its variables and the items of its lists. -/
def bare (t : Target) : Target :=
  { t with
    vars := t.vars.map fun v => { v with value := .empty }
    lists := t.lists.map fun l => { l with items := [] } }

/-- The ids and names of the variables and of the lists, in order. -/
def labels (t : Target) : List (String × String) × List (String × String) :=
  (t.vars.map fun v => (v.id, v.name), t.lists.map fun l => (l.id, l.name))

lemma labels_bare (t : Target) : t.bare.labels = t.labels := by
  simp [labels, bare, Function.comp_def]

lemma labels_of_bare {t t' : Target} (h : t'.bare = t.bare) : t'.labels = t.labels := by
  rw [← labels_bare t', h, labels_bare]

lemma role_of_bare {t t' : Target} (h : t'.bare = t.bare) : t'.role = t.role := by
  have hrole : ∀ t : Target, t.bare.role = t.role := fun _ => rfl
  rw [← hrole t', h, hrole]

lemma isClone_of_role {t t' : Target} (h : t'.role = t.role) : t'.isClone = t.isClone :=
  congrArg (fun r : Role => r.cloneOf.isSome) h

/-- What is written into a variable. -/
lemma bare_modify_vars (t : Target) (i : Nat) (g : Variable → Value) :
    ({ t with vars := t.vars.modify i fun v => { v with value := g v } } : Target).bare = t.bare := by
  simp only [bare]
  congr 1
  apply List.ext_getElem?
  intro j
  simp only [List.getElem?_map, List.getElem?_modify]
  cases t.vars[j]? with
  | none => rfl
  | some v =>
    simp only [Option.map_some]
    split <;> rfl

/-- What is done to the items of a list. -/
lemma bare_modify_lists (t : Target) (i : Nat) {f : ItemList → ItemList}
    (hf : ∀ l, (f l).id = l.id ∧ (f l).name = l.name) :
    ({ t with lists := t.lists.modify i f } : Target).bare = t.bare := by
  simp only [bare]
  congr 1
  apply List.ext_getElem?
  intro j
  simp only [List.getElem?_map, List.getElem?_modify]
  cases t.lists[j]? with
  | none => rfl
  | some l =>
    simp only [Option.map_some]
    split
    · simp [(hf l).1, (hf l).2]
    · rfl

end Target

namespace Arena

variable {a a' a'' : Arena} {own : TargetId}

/-- All that a machine on the target `own` may have done on the way from the first arena to the second. -/
structure Confined (own : TargetId) (a a' : Arena) : Prop where
  /-- Nothing happens to the others. -/
  others : ∀ id t, id ≠ own → a.stage? ≠ some id → a.get? id = some t → a'.get? id = some t
  /-- Of the stage only values and items change. -/
  stage : ∀ id t, id ≠ own → a.stage? = some id → a.get? id = some t →
    ∃ t', a'.get? id = some t' ∧ t'.bare = t.bare
  /-- Nobody becomes someone else, and nobody's variables and lists are moved or renamed. -/
  kept : ∀ id t t', a.get? id = some t → a'.get? id = some t' →
    t'.role = t.role ∧ t'.labels = t.labels
  /-- Newcomers are clones. -/
  newcomers : ∀ id t', a.get? id = none → a'.get? id = some t' → t'.isClone = true
  /-- Who is no clone stays. -/
  stays : ∀ t, a.get? own = some t → t.isClone = false → ∃ t', a'.get? own = some t'

/-- Everybody is still there. -/
def Remain (a a' : Arena) : Prop := ∀ id t, a.get? id = some t → ∃ t', a'.get? id = some t'

lemma Remain.trans (h : Remain a a') (k : Remain a' a'') : Remain a a'' := by
  intro id t ht
  obtain ⟨t', ht'⟩ := h id t ht
  exact k id t' ht'

lemma Confined.refl (own : TargetId) (a : Arena) : Confined own a a where
  others _ _ _ _ h := h
  stage _ t _ _ h := ⟨t, h, rfl⟩
  kept _ t t' h h' := by
    rw [h] at h'
    cases h'
    exact ⟨rfl, rfl⟩
  newcomers _ _ h h' := by
    rw [h] at h'
    cases h'
  stays t h _ := ⟨t, h⟩

lemma Confined.trans (h : Confined own a a') (k : Confined own a' a'')
    (hstage : a'.stage? = a.stage?) (hremain : Remain a a') : Confined own a a'' where
  others id t hne hns ht := k.others id t hne (hstage ▸ hns) (h.others id t hne hns ht)
  stage id t hne hs ht := by
    obtain ⟨t', ht', hbare⟩ := h.stage id t hne hs ht
    obtain ⟨t'', ht'', hbare'⟩ := k.stage id t' hne (hstage.trans hs) ht'
    exact ⟨t'', ht'', hbare'.trans hbare⟩
  kept id t t'' ht ht'' := by
    obtain ⟨t', ht'⟩ := hremain id t ht
    obtain ⟨hrole, hlabels⟩ := h.kept id t t' ht ht'
    obtain ⟨hrole', hlabels'⟩ := k.kept id t' t'' ht' ht''
    exact ⟨hrole'.trans hrole, hlabels'.trans hlabels⟩
  newcomers id t'' ht ht'' := by
    cases ht' : a'.get? id with
    | none => exact k.newcomers id t'' ht' ht''
    | some t' =>
      rw [Target.isClone_of_role (k.kept id t' t'' ht' ht'').1]
      exact h.newcomers id t' ht ht'
  stays t ht hclone := by
    obtain ⟨t', ht'⟩ := hremain own t ht
    exact k.stays t' ht' ((Target.isClone_of_role (h.kept own t t' ht ht').1).trans hclone)

/-! ### One touch -/

/-- What one instruction of a machine on the target `own` may do, short of deleting it. -/
inductive Touch (own : TargetId) (a : Arena) : Arena → Prop
  | nothing : Touch own a a
  /-- The target itself moves, speaks or hides. -/
  | self {f : Target → Target} (hf : ∀ t, a.get? own = some t →
      (f t).role = t.role ∧ (f t).labels = t.labels) : Touch own a (a.modify own f)
  /-- Something is written where a variable or a list lives. -/
  | write {owner : TargetId} {f : Target → Target} (howner : owner ∈ a.owners own)
      (hf : ∀ t, (f t).bare = t.bare) : Touch own a (a.modify owner f)
  | clone {u : Target} (hstage : u.isStage = false) (hclone : u.isClone = true) :
      Touch own a (a.insert u).2

/-- A change in place that only the target itself or the stage can suffer. -/
lemma confined_modify {owner : TargetId} {f : Target → Target}
    (hkept : ∀ t, a.get? owner = some t → (f t).role = t.role ∧ (f t).labels = t.labels)
    (hbare : owner = own ∨ a.stage? = some owner ∧ ∀ t, (f t).bare = t.bare) :
    Confined own a (a.modify owner f) ∧ Remain a (a.modify owner f) := by
  have hget := a.get?_modify owner
  refine ⟨⟨fun id t hne hns ht => ?_, fun id t hne hs ht => ?_, fun id t t' ht ht' => ?_,
    fun id t' ht ht' => ?_, fun t ht _ => ?_⟩, fun id t ht => ?_⟩
  · have hother : id ≠ owner := by
      rintro rfl
      rcases hbare with rfl | ⟨hs, -⟩
      · exact hne rfl
      · exact hns hs
    rw [hget, if_neg hother, ht]
  · rw [hget]
    split
    · next hsame =>
      subst hsame
      rcases hbare with rfl | ⟨-, hbare⟩
      · exact absurd rfl hne
      · exact ⟨f t, by rw [ht]; rfl, hbare t⟩
    · exact ⟨t, ht, rfl⟩
  · rw [hget, ht] at ht'
    split at ht'
    · next hsame =>
      cases ht'
      exact hkept t (hsame ▸ ht)
    · cases ht'
      exact ⟨rfl, rfl⟩
  · rw [hget, ht] at ht'
    split at ht' <;> cases ht'
  · rw [hget, ht]
    split
    · exact ⟨f t, rfl⟩
    · exact ⟨t, rfl⟩
  · rw [hget, ht]
    split
    · exact ⟨f t, rfl⟩
    · exact ⟨t, rfl⟩

lemma Touch.confined (h : Touch own a a') (hs : a.Sound) : Confined own a a' ∧ Remain a a' := by
  cases h with
  | nothing => exact ⟨.refl own a, fun _ t ht => ⟨t, ht⟩⟩
  | self hf => exact confined_modify hf (.inl rfl)
  | @write owner f howner hf =>
    refine confined_modify (fun t _ => ⟨Target.role_of_bare (hf t), Target.labels_of_bare (hf t)⟩) ?_
    rcases List.mem_cons.1 howner with hsame | hstage
    · exact .inl hsame
    · exact .inr ⟨by simpa using hstage, hf⟩
  | @clone u hstage hclone =>
    have hkeeps : ∀ {id t}, a.get? id = some t → (a.insert u).2.get? id = some t :=
      fun ht => hs.tidy.get?_insert ht u
    refine ⟨⟨fun id t _ _ ht => hkeeps ht, fun id t _ _ ht => ⟨t, hkeeps ht, rfl⟩,
      fun id t t' ht ht' => ?_, fun id t' ht ht' => ?_, fun t ht _ => ⟨t, hkeeps ht⟩⟩,
      fun id t ht => ⟨t, hkeeps ht⟩⟩
    · rw [hkeeps ht] at ht'
      cases ht'
      exact ⟨rfl, rfl⟩
    · rw [hs.tidy.get?_insert_eq] at ht'
      split at ht'
      · cases ht'
        exact hclone
      · rw [ht] at ht'
        cases ht'

/-- A clone that leaves. -/
lemma confined_remove {t : Target} (ht : a.get? own = some t) (hclone : t.isClone = true) :
    Confined own a (a.remove own) where
  others id t' hne _ ht' := by rw [get?_remove, if_neg hne, ht']
  stage id t' hne _ ht' := ⟨t', by rw [get?_remove, if_neg hne, ht'], rfl⟩
  kept id t₁ t₂ h₁ h₂ := by
    rw [get?_remove] at h₂
    split at h₂
    · cases h₂
    · rw [h₁] at h₂
      cases h₂
      exact ⟨rfl, rfl⟩
  newcomers id t' hnone ht' := by
    rw [get?_remove, hnone] at ht'
    split at ht' <;> cases ht'
  stays t' ht' hnot := by
    rw [ht] at ht'
    cases ht'
    rw [hclone] at hnot
    cases hnot

end Arena

/-! ### Natives -/

namespace World

lemma touch_setBubble (w : World) (id : TargetId) (kind : BubbleKind) (text : String) :
    Arena.Touch id w.targets (w.setBubble id kind text).targets := by
  unfold setBubble
  split
  · exact .nothing
  · next t ht =>
    refine .self fun t' ht' => ?_
    rw [ht] at ht'
    cases ht'
    exact ⟨rfl, rfl⟩

/-- Only a question that is the first of the queue is asked at once, so no bubble is shown but on the
target that asks. -/
lemma touch_ask (w : World) (id : TargetId) (text : String) (p : Promise) :
    Arena.Touch id w.targets (w.ask id text p).targets := by
  unfold ask
  simp only
  split
  · next hone =>
    have hempty : w.questions = [] := by simpa using hone
    simp only [hempty, List.nil_append, announce]
    split
    · exact touch_setBubble
        { w with questions := [⟨text, id, p, w.isVisibleSprite id⟩] } id .say text
    · exact .nothing
  · exact .nothing

end World

namespace Native

lemma touch_onSprite {f : Target → Target}
    (hf : ∀ t, (f t).role = t.role ∧ (f t).labels = t.labels) (w : World) (id : TargetId) :
    Arena.Touch id w.targets (onSprite w id f).targets := by
  refine .self fun t _ => ?_
  split
  · exact ⟨rfl, rfl⟩
  · exact hf t

/-- A native touches its own target, makes a clone, or deletes the clone that it runs on, and then
the script is over. -/
lemma touch_run (n : Native) (m : Machine) (w : World) (x y : Value) :
    Arena.Touch m.target w.targets (n.run m w x y).world.targets ∨
      (∃ t, w.targets.get? m.target = some t ∧ t.isClone = true) ∧
        (n.run m w x y).world.targets = w.targets.remove m.target ∧
        (n.run m w x y).machine.status = .finished ∧ (n.run m w x y).pause = .go := by
  cases n
  case control c => cases c <;> exact .inl .nothing
  case wait =>
    simp only [run]
    split <;> exact .inl .nothing
  case createClone =>
    simp only [run]
    split
    · next id _ =>
      cases hclone : (w.createClone id).1 with
      | none =>
        rw [World.createClone_of_none hclone]
        exact .inl .nothing
      | some c =>
        have hsome : w.createClone id = (some c, (w.createClone id).2) := Prod.ext hclone rfl
        obtain ⟨t, -, hsprite, -, hins, -⟩ := World.createClone_eq_some hsome
        have htargets : (w.createClone id).2.targets =
            (w.targets.insert (t.clone (t.cloneOf.getD id))).2 := by rw [hins]
        rw [htargets]
        exact .inl (.clone hsprite rfl)
    · exact .inl .nothing
  case deleteClone =>
    simp only [run]
    split
    · next hlive =>
      cases ht : w.targets.get? m.target with
      | none => simp [ht] at hlive
      | some t =>
        have hclone : t.isClone = true := by simpa [ht] using hlive
        refine .inr ⟨⟨t, rfl, hclone⟩, ?_, rfl, rfl⟩
        rw [World.deleteClone_eq ht hclone]
        rfl
    · exact .inl .nothing
  case ask => exact .inl (World.touch_ask w.newPromise.2 m.target x.toText w.newPromise.1)
  case bubble kind => exact .inl (w.touch_setBubble _ _ _)
  case startBubble kind => exact .inl (w.touch_setBubble _ _ _)
  case clearBubble => exact .inl (w.touch_setBubble _ _ _)
  case setVisible v =>
    refine .inl (touch_onSprite (fun t => ?_) w m.target)
    exact ⟨rfl, rfl⟩
  case motion f =>
    refine .inl (touch_onSprite (fun t => ?_) w m.target)
    cases f <;> simp only [move, Target.point] <;> first | exact ⟨rfl, rfl⟩ | (split <;> exact ⟨rfl, rfl⟩)
  all_goals exact .inl .nothing

end Native

/-! ### Instructions -/

namespace Machine

/-- All variables and lists live on the target of the machine or on the stage. -/
def Homed (a : Arena) (m : Machine) : Prop :=
  ∀ s ∈ m.vars ++ m.lists, s.target ∈ a.owners m.target

lemma Homed.congr {a a' : Arena} {m m' : Machine} (h : m.Homed a) (hm : m'.home = m.home)
    (hstage : ∀ s, a.stage? = some s → a'.stage? = some s) : m'.Homed a' := by
  simp only [home, Prod.mk.injEq] at hm
  obtain ⟨htarget, hvars, hlists⟩ := hm
  intro s hs
  rw [hvars, hlists] at hs
  have howner := h s hs
  rw [Arena.owners, List.mem_cons, Option.mem_toList] at howner ⊢
  exact howner.imp (·.trans htarget.symm) (hstage _)

/-- Writing into a list, after operands were taken off and a random number was drawn. -/
lemma touch_onList {m m' : Machine} {w w' : World} (hm : m.Homed w.targets) (hhome : m'.home = m.home)
    (hw : w'.targets = w.targets) (i : Nat) {f : ItemList → ItemList}
    (hf : ∀ l, (f l).id = l.id ∧ (f l).name = l.name) :
    Arena.Touch m.target w.targets (m'.onList w' i f).targets := by
  have hlists : m'.lists = m.lists := congrArg (·.2.2) hhome
  unfold onList
  rw [hlists]
  split
  · next s hs =>
    simp only [hw]
    exact .write (hm s (List.mem_append_right _ (List.mem_of_getElem? hs)))
      fun t => t.bare_modify_lists s.index hf
  · rw [hw]
    exact .nothing

lemma touch_stepVariable {m : Machine} {w : World} (hm : m.Homed w.targets) (op : VariableOp)
    (i : Nat) : Arena.Touch m.target w.targets (m.stepVariable w op i).2.targets := by
  have hslot : ∀ s, m.vars[i]? = some s → s.target ∈ w.targets.owners m.target :=
    fun s hs => hm s (List.mem_append_left _ (List.mem_of_getElem? hs))
  cases op
  case read => exact .nothing
  all_goals
    simp only [stepVariable]
    split
  · next s hs => exact .write (hslot s hs) fun t => t.bare_modify_vars s.index _
  · exact .nothing
  · next s hs => exact .write (hslot s hs) fun t => t.bare_modify_vars s.index _
  · exact .nothing

lemma targets_place (m : Machine) (w : World) (i : Nat) (index : Value) (extra : Nat) (all : Bool) :
    (m.place w i index extra all).2.targets = w.targets := by
  simp only [place]
  split <;> rfl

lemma home_pop (m : Machine) : m.pop.2.home = m.home := by
  rw [pop_eq]
  rfl

lemma touch_stepList {m : Machine} {w : World} (hm : m.Homed w.targets) (op : ListOp) (i : Nat) :
    Arena.Touch m.target w.targets (m.stepList w op i).2.targets := by
  have hquiet : ∀ {w' : World}, w'.targets = w.targets → Arena.Touch m.target w.targets w'.targets := by
    intro w' hw
    rw [hw]
    exact .nothing
  have hone := m.home_pop
  have htwo : m.pop.2.pop.2.home = m.home := (home_pop _).trans hone
  cases op
  case read | length => exact .nothing
  case indexOf | contains => exact .nothing
  case append => exact touch_onList hm hone rfl i fun _ => ⟨rfl, rfl⟩
  case deleteAll => exact touch_onList hm rfl rfl i fun _ => ⟨rfl, rfl⟩
  case item => exact hquiet (targets_place _ _ _ _ _ _)
  case delete =>
    simp only [stepList]
    split
    · exact touch_onList hm hone (targets_place _ _ _ _ _ _) i fun _ => ⟨rfl, rfl⟩
    · exact touch_onList hm hone (targets_place _ _ _ _ _ _) i fun _ => ⟨rfl, rfl⟩
    · exact hquiet (targets_place _ _ _ _ _ _)
  case insert =>
    simp only [stepList]
    split
    · exact touch_onList hm htwo (targets_place _ _ _ _ _ _) i fun _ => ⟨rfl, rfl⟩
    · exact hquiet (targets_place _ _ _ _ _ _)
  case replace =>
    simp only [stepList]
    split
    · exact touch_onList hm htwo (targets_place _ _ _ _ _ _) i fun _ => ⟨rfl, rfl⟩
    · exact hquiet (targets_place _ _ _ _ _ _)

lemma touch_execute {op : Opcode} (hop : op ≠ .exec) {m : Machine} {w : World}
    (hm : m.Homed w.targets) (p : Program) (code : Code) (a operand : Nat) :
    Arena.Touch m.target w.targets (execute p code a op operand m w).2.targets := by
  cases op
  case exec => exact absurd rfl hop
  case list f => exact touch_stepList hm f operand
  case var f => exact touch_stepVariable hm f operand
  all_goals
    simp only [execute]
    repeat' split
  all_goals exact .nothing

/-! ### Steps -/

/-- What a machine has done to the targets. One that has deleted the clone it runs on is finished, so
only then is anybody missing. -/
structure Spares (x y : Machine × World) : Prop where
  home : y.1.home = x.1.home
  sound : y.2.targets.Sound
  stage : y.2.targets.stage? = x.2.targets.stage?
  confined : x.2.targets.Confined x.1.target y.2.targets
  remain : y.1.status = .finished ∨ x.2.targets.Remain y.2.targets

lemma Spares.refl (m : Machine) {w : World} (hs : w.targets.Sound) : Spares (m, w) (m, w) :=
  ⟨rfl, hs, rfl, .refl _ _, .inr fun _ t ht => ⟨t, ht⟩⟩

lemma Spares.homed {x y : Machine × World} (h : Spares x y) (hm : x.1.Homed x.2.targets) :
    y.1.Homed y.2.targets :=
  hm.congr h.home fun _ hs => h.stage.trans hs

lemma Spares.trans {x y z : Machine × World} (h : Spares x y) (k : Spares y z)
    (hy : y.1.status ≠ .finished) : Spares x z where
  home := k.home.trans h.home
  sound := k.sound
  stage := k.stage.trans h.stage
  confined := by
    have htarget : y.1.target = x.1.target := congrArg Prod.fst h.home
    exact h.confined.trans (htarget ▸ k.confined) h.stage (h.remain.resolve_left hy)
  remain := k.remain.imp_right ((h.remain.resolve_left hy).trans ·)

lemma spares_callNative (m : Machine) {w : World} (hs : w.targets.Sound) (n : Native) (a : Nat) :
    Spares (m, w) (m.callNative w n a) := by
  have hhome := home_callNative m w n a
  obtain ⟨rs, hchange, -⟩ := change_callNative m w n a
  obtain ⟨hsound, hstage⟩ := hchange.sound hs
  unfold callNative at hhome hsound hstage ⊢
  split
  · exact ⟨rfl, hs, rfl, .refl _ _, .inr fun _ t ht => ⟨t, ht⟩⟩
  next hinputs =>
  rw [if_neg hinputs] at hhome hsound hstage
  simp only at hhome hsound hstage ⊢
  have htouch := n.touch_run m w (((m.stack.take n.arity).reverse)[0]?.getD .empty)
    (((m.stack.take n.arity).reverse)[1]?.getD .empty)
  generalize n.run m w (((m.stack.take n.arity).reverse)[0]?.getD .empty)
    (((m.stack.take n.arity).reverse)[1]?.getD .empty) = r at hhome hsound hstage htouch ⊢
  rcases htouch with htouch | ⟨⟨t, ht, hclone⟩, hremove, hfin⟩
  · obtain ⟨hconfined, hremain⟩ := htouch.confined hs
    exact ⟨hhome, hsound, hstage, hconfined, .inr hremain⟩
  · refine ⟨hhome, hsound, hstage, ?_, .inl (finished_resume a n.pops r.world hfin)⟩
    simp only [hremove]
    exact Arena.confined_remove ht hclone

lemma spares_step (p : Program) {m : Machine} {w : World} (hs : w.targets.Sound)
    (hm : m.Homed w.targets) : Spares (m, w) (step p m w) := by
  have hstop : Spares (m, w) (m.stopScript, w) :=
    ⟨m.home_stopScript, hs, rfl, .refl _ _, .inr fun _ t ht => ⟨t, ht⟩⟩
  obtain ⟨-, rs, hchange, -⟩ := change_step p m w
  obtain ⟨hsound, hstage⟩ := hchange.sound hs
  unfold step at hsound hstage ⊢
  split
  · exact hstop
  next code hcode =>
  simp only [hcode] at hsound hstage ⊢
  split
  · exact hstop
  next op hword =>
  simp only [hword] at hsound hstage
  by_cases hop : op = .exec
  · subst hop
    simp only [execute]
    split
    · next n _ =>
      obtain ⟨hhome, hsound, hstage, hconfined, hremain⟩ :=
        spares_callNative { m with address := m.address + 1 + Opcode.exec.operandCount } hs n m.address
      exact ⟨hhome, hsound, hstage, hconfined, hremain⟩
    · exact ⟨rfl, hs, rfl, .refl _ _, .inr fun _ t ht => ⟨t, ht⟩⟩
  · have hput : Homed w.targets { m with address := m.address + 1 + op.operandCount } := hm
    obtain ⟨hconfined, hremain⟩ := (touch_execute hop hput p code m.address
      (code.words[m.address + 1]?.getD 0).toNat).confined hs
    exact ⟨(kept_execute hop _ _ _ _ _ w).1, hsound, hstage, hconfined, .inr hremain⟩

/-- Steps of a machine that runs all the time. -/
lemma spares_runs {p : Program} {x y : Machine × World} (h : Runs p x y) (hs : x.2.targets.Sound)
    (hm : x.1.Homed x.2.targets) : Spares x y := by
  induction h with
  | refl => exact .refl _ hs
  | @tail y z _ hstep ih =>
    obtain ⟨hrun, rfl⟩ := hstep
    exact ih.trans (spares_step p ih.sound (ih.homed hm)) (by rw [hrun]; simp)

/-! ### Slices -/

lemma steps_add (p : Program) (i j : Nat) (m : Machine) (w : World) :
    steps p (i + j) m w = steps p j (steps p i m w).1 (steps p i m w).2 := by
  induction i generalizing m w with
  | zero => rw [Nat.zero_add]; rfl
  | succ i ih =>
    rw [Nat.succ_add, steps, steps]
    split
    · exact ih _ _
    · next hnot =>
      rw [steps_of_not_running]
      simpa using hnot

/-- A machine that was made in a world, and what may have become of both since. -/
inductive Since (p : Program) (target : TargetId) (w₀ : World) : Machine → World → Prop
  | made : Since p target w₀ (new p target w₀).1 (new p target w₀).2
  | ran {m : Machine} {w : World} (h : Since p target w₀ m w) (fuel : Nat) :
      Since p target w₀ (m.run fuel p w).1 (m.run fuel p w).2
  /-- Others were at work. -/
  | passes {m : Machine} {w w' : World} (h : Since p target w₀ m w) (k : w.Passes w') :
      Since p target w₀ m w'
  /-- The machine was reset, stopped, or put into another state. -/
  | set {m m' : Machine} {w : World} (h : Since p target w₀ m w) (k : m'.home = m.home) :
      Since p target w₀ m' w

/-- The steps of a slice, if it starts. -/
lemma spares_steps (p : Program) (fuel : Nat) {m : Machine} {w : World} (hs : w.targets.Sound)
    (hm : m.Homed w.targets) : Spares (m.wake, w) (steps p fuel m.wake w) :=
  spares_runs (runs_steps p fuel m.wake w) hs hm

lemma spares_run (fuel : Nat) (p : Program) {m : Machine} {w : World} (hs : w.targets.Sound)
    (hm : m.Homed w.targets) : Spares (m, w) (m.run fuel p w) := by
  unfold run
  split
  · obtain ⟨hhome, hsound, hstage, hconfined, hremain⟩ := spares_steps p fuel hs hm
    refine ⟨?_, hsound, hstage, hconfined, hremain.imp_left fun hfin => ?_⟩
    · refine Eq.trans ?_ hhome
      simp only [giveUp]
      split <;> rfl
    · simp [giveUp, hfin]
  · exact .refl m hs

lemma owners_of_stage? {a a' : Arena} (h : a'.stage? = a.stage?) (target : TargetId) :
    a'.owners target = a.owners target := by
  rw [Arena.owners, Arena.owners, h]

/-- A place that is found or made is on one of the owners. -/
lemma target_slot_mem (k : Shelf) (a : Arena) (target : TargetId) (id : String) :
    (k.slot a target id).target ∈ a.owners target := by
  unfold Shelf.slot
  cases hs : k.locate? a target id with
  | some s =>
    rw [Shelf.locate?_eq] at hs
    obtain ⟨owner, hmem, hs⟩ := List.exists_of_findSome?_eq_some hs
    obtain ⟨i, -, rfl⟩ := Option.map_eq_some_iff.1 hs
    exact hmem
  | none =>
    simp only [Option.getD_none, Arena.newOwner, Arena.owners]
    split
    · exact List.mem_cons_self
    · cases a.stage? <;> simp

lemma homed_resolveAll (k : Shelf) (target : TargetId) (a : Arena) (rs : List Reference) :
    ∀ s ∈ (resolveAll k.resolve target a rs).1, s.target ∈ a.owners target := by
  induction rs generalizing a with
  | nil => exact fun _ h => (List.not_mem_nil h).elim
  | cons r rs ih =>
    have hstage : (k.resolve a target r).2.stage? = a.stage? := by
      simp only [Shelf.resolve]
      split
      · rfl
      · exact Arena.stage?_modify a _ (k.isStage_add r)
    intro s hs
    rcases List.mem_cons.1 hs with rfl | hs
    · exact target_slot_mem k a target r.id
    · rw [← owners_of_stage? hstage]
      exact ih _ s hs

lemma homed_new (p : Program) (target : TargetId) (w : World) :
    (Machine.new p target w).1.Homed (Machine.new p target w).2.targets := by
  intro s hs
  simp only [new, reset, Shelf.vars_resolve, Shelf.lists_resolve, List.mem_append] at hs ⊢
  have hvars : (resolveAll Shelf.vars.resolve target w.targets p.tables.vars).2.stage? =
      w.targets.stage? := by
    rw [← Shelf.vars_resolve]
    exact Arena.stage?_of_roster (roster_resolveAll Arena.roster_resolveVariable _ _ _)
  have hlists : ∀ a : Arena,
      (resolveAll Shelf.lists.resolve target a p.tables.lists).2.stage? = a.stage? := by
    intro a
    rw [← Shelf.lists_resolve]
    exact Arena.stage?_of_roster (roster_resolveAll Arena.roster_resolveList _ _ _)
  rw [owners_of_stage? (hlists _)]
  rcases hs with hs | hs
  · rw [owners_of_stage? hvars]
    exact homed_resolveAll Shelf.vars target _ _ s hs
  · exact homed_resolveAll Shelf.lists target _ _ s hs

/-- Since it was made, a machine has kept its target and its places, and the stage has stayed. -/
lemma Since.homed {p : Program} {target : TargetId} {w₀ w : World} {m : Machine} (h₀ : w₀.Reached)
    (h : Since p target w₀ m w) : m.target = target ∧ w.targets.Sound ∧ m.Homed w.targets := by
  induction h with
  | made => exact ⟨rfl, (h₀.passes (.machine p target)).sound, homed_new p target w₀⟩
  | @ran m w _ fuel ih =>
    obtain ⟨htarget, hs, hm⟩ := ih
    have hafter : w.Passes (m.run fuel p w).2 := .slice fuel p m
    have hhome := (spares_run fuel p hs hm).home
    exact ⟨(congrArg Prod.fst hhome).trans htarget, hafter.succeeds.sound hs,
      hm.congr hhome (hafter.succeeds.stage hs)⟩
  | passes _ k ih =>
    obtain ⟨htarget, hs, hm⟩ := ih
    exact ⟨htarget, k.succeeds.sound hs, hm.congr rfl (k.succeeds.stage hs)⟩
  | set _ k ih =>
    obtain ⟨htarget, hs, hm⟩ := ih
    exact ⟨(congrArg Prod.fst k).trans htarget, hs, hm.congr k fun _ h => h⟩

/-- **Isolation**: in whatever way a machine and its world have come to be since it was made, a slice
changes nothing of the other targets but values and items of the stage; new targets are clones, and
its own target goes only if it is a clone. The same holds from any moment of the slice to its end, so
that variables and lists stay where they are on the clones it makes, too. -/
theorem confined_run {p : Program} {target : TargetId} {w₀ w : World} {m : Machine}
    (h₀ : w₀.Reached) (h : Since p target w₀ m w) (fuel : Nat) :
    w.targets.Confined target (m.run fuel p w).2.targets ∧
      ∀ i ≤ fuel, (m.run i p w).2.targets.Confined target (m.run fuel p w).2.targets := by
  obtain ⟨rfl, hs, hm⟩ := h.homed h₀
  unfold run
  split
  · refine ⟨(spares_steps p fuel hs hm).confined, fun i hi => ?_⟩
    obtain ⟨j, rfl⟩ := Nat.exists_eq_add_of_le hi
    have hfirst := spares_steps p i hs hm
    have hthen := spares_runs (runs_steps p j (steps p i m.wake w).1 (steps p i m.wake w).2)
      hfirst.sound (hfirst.homed hm)
    have htarget : (steps p i m.wake w).1.target = m.target := congrArg Prod.fst hfirst.home
    rw [steps_add, ← htarget]
    exact hthen.confined
  · exact ⟨.refl _ _, fun _ _ => .refl _ _⟩

/-- A sprite that counts on the stage. -/
theorem confined_run_score :
    let stage : Target :=
      { name := "Stage", isStage := true, vars := [⟨"v", "score", .number 0, false⟩] }
    let cat : Target := { name := "Cat", isStage := false }
    let w : World := { targets := ⟨[⟨0, some stage⟩, ⟨0, some cat⟩], []⟩ }
    let p : Program :=
      { main := .ofInstructions [⟨.start, []⟩, ⟨.const, [0]⟩, ⟨.var .change, [0]⟩, ⟨.halt, []⟩]
        tables := { constants := [.number 1], vars := [⟨"v", "score"⟩] } }
    let x := Machine.new p ⟨1, 0⟩ w
    x.2.targets.Confined ⟨1, 0⟩ (x.1.run 4 p x.2).2.targets := by
  intro stage cat w p x
  have hstage : World.Reached { targets := ⟨[⟨0, some stage⟩], []⟩ } :=
    .passes (.new (w := {}) rfl) (.add stage fun _ => ⟨rfl, rfl⟩)
  have hw : w.Reached := .passes hstage (.add cat fun h => by cases h)
  exact (confined_run hw .made 4).1

end Machine

end Blockwork
