import Blockwork.Proofs.Machine.Clones
import Blockwork.Proofs.World.Generations

/-!
The stage stays. It is found as the first live target that is a stage, so it is given by who lives where;
clones are never stages, and only clones leave. Hence whatever happens in a world, slices of any
machine included, a stage that is there remains the stage.
-/

namespace Blockwork

namespace Arena

variable {a a' : Arena} {id id' s : TargetId} {t : Target}

/-- A stage lives under an id. -/
def HasStage (a : Arena) (id : TargetId) : Prop := ∃ t, a.get? id = some t ∧ t.isStage = true

/-- Nobody else lives at the same place. -/
lemma eq_of_index_eq {t' : Target} (h : a.get? id = some t) (h' : a.get? id' = some t')
    (hi : id.index = id'.index) : id = id' := by
  have he := get?_eq_some_iff.1 h
  rw [hi, get?_eq_some_iff.1 h'] at he
  cases id
  cases id'
  simp_all

/-- The stage is the first of the stages that live here. -/
lemma stage?_eq_some_iff :
    a.stage? = some s ↔ a.HasStage s ∧ ∀ s', a.HasStage s' → s.index ≤ s'.index := by
  have hfirst : ∀ s, a.stage? = some s →
      a.HasStage s ∧ ∀ s', a.HasStage s' → s.index ≤ s'.index := by
    intro s hs
    obtain ⟨⟨_, t⟩, hfind, rfl⟩ := Option.map_eq_some_iff.1 hs
    obtain ⟨hstage, before, after, hsplit, hbefore⟩ := List.find?_eq_some_iff_append.1 hfind
    refine ⟨⟨t, mem_live.1 (List.mem_of_find?_eq_some hfind), hstage⟩, ?_⟩
    rintro s' ⟨t', ht', hstage'⟩
    have hmem := mem_live.2 ht'
    rw [hsplit, List.mem_append, List.mem_cons] at hmem
    rcases hmem with hmem | hsame | hmem
    · simpa [hstage'] using hbefore _ hmem
    · cases hsame
      exact Nat.le_refl _
    · have hsorted := a.pairwise_live
      rw [hsplit, List.pairwise_append, List.pairwise_cons] at hsorted
      exact Nat.le_of_lt (hsorted.2.1.1 _ hmem)
  refine ⟨hfirst s, fun ⟨⟨t, ht, hstage⟩, hleast⟩ => ?_⟩
  cases hs : a.stage? with
  | none =>
    rw [stage?, Option.map_eq_none_iff] at hs
    simpa [hstage] using List.find?_eq_none.1 hs _ (mem_live.2 ht)
  | some s' =>
    obtain ⟨⟨t', ht', hstage'⟩, hleast'⟩ := hfirst s' hs
    have hindex := Nat.le_antisymm (hleast' s ⟨t, ht, hstage⟩) (hleast s' ⟨t', ht', hstage'⟩)
    rw [eq_of_index_eq ht' ht hindex]

lemma stage?_congr (h : ∀ id, a'.HasStage id ↔ a.HasStage id) : a'.stage? = a.stage? := by
  ext s
  simp only [stage?_eq_some_iff, h]

lemma hasStage_iff : a.HasStage id ↔ ∃ r, a.role? id = some r ∧ r.isStage = true := by
  simp only [HasStage, role?, Option.map_eq_some_iff]
  constructor
  · rintro ⟨t, ht, hstage⟩
    exact ⟨t.role, ⟨t, ht, rfl⟩, hstage⟩
  · rintro ⟨_, ⟨t, ht, rfl⟩, hstage⟩
    exact ⟨t, ht, hstage⟩

/-- Newcomers take no place from anyone, and no stage is a clone. -/
structure Sound (a : Arena) : Prop where
  tidy : a.Tidy
  stages : ∀ id t, a.get? id = some t → t.isStage = true → t.isClone = false

lemma sound_empty : empty.Sound := ⟨tidy_empty, fun _ _ h => by simp [empty, get?] at h⟩

/-- From the first arena to the second: all is still sound, and the stage, if there was one, is the
stage. -/
structure Succeeds (a a' : Arena) : Prop where
  sound : a.Sound → a'.Sound
  stage : a.Sound → ∀ s, a.stage? = some s → a'.stage? = some s

lemma Succeeds.refl (a : Arena) : Succeeds a a := ⟨fun h => h, fun _ _ h => h⟩

lemma Succeeds.trans {a'' : Arena} (h : a.Succeeds a') (k : a'.Succeeds a'') : a.Succeeds a'' :=
  ⟨fun hs => k.sound (h.sound hs), fun hs s hstage => k.stage (h.sound hs) s (h.stage hs s hstage)⟩

lemma stage?_of_roster (h : a'.roster = a.roster) : a'.stage? = a.stage? :=
  stage?_congr fun id => by rw [hasStage_iff, hasStage_iff, role?_congr h]

lemma Sound.of_roster (hs : a.Sound) (h : a'.roster = a.roster) : a'.Sound where
  tidy := hs.tidy.congr (layout_of_roster h)
  stages id t ht hstage := by
    have hrole : a.role? id = some t.role := by rw [← role?_congr h, role?, ht]; rfl
    obtain ⟨t', ht', hsame⟩ := Option.map_eq_some_iff.1 hrole
    have horigin : t'.cloneOf = t.cloneOf := congrArg Target.Role.cloneOf hsame
    rw [Target.isClone, ← horigin]
    exact hs.stages id t' ht' ((congrArg Target.Role.isStage hsame).trans hstage)

lemma succeeds_of_roster (h : a'.roster = a.roster) : a.Succeeds a' :=
  ⟨fun hs => hs.of_roster h, fun _ s hstage => by rw [stage?_of_roster h, hstage]⟩

lemma Sound.insert (hs : a.Sound) {u : Target} (hu : u.isStage = true → u.isClone = false) :
    (a.insert u).2.Sound where
  tidy := hs.tidy.insert u
  stages id t ht hstage := by
    rw [hs.tidy.get?_insert_eq] at ht
    split at ht
    · cases ht
      exact hu hstage
    · exact hs.stages id t ht hstage

/-- A sprite that moves in does not become the stage. -/
lemma Sound.stage?_insert (hs : a.Sound) {u : Target} (hu : u.isStage = false) :
    (a.insert u).2.stage? = a.stage? := by
  refine stage?_congr fun id => ⟨?_, ?_⟩
  · rintro ⟨t, ht, hstage⟩
    rw [hs.tidy.get?_insert_eq] at ht
    split at ht
    · cases ht
      rw [hu] at hstage
      cases hstage
    · exact ⟨t, ht, hstage⟩
  · rintro ⟨t, ht, hstage⟩
    exact ⟨t, hs.tidy.get?_insert ht u, hstage⟩

lemma Sound.remove (hs : a.Sound) (id : TargetId) : (a.remove id).Sound where
  tidy := hs.tidy.remove id
  stages id' t ht hstage := by
    rw [get?_remove] at ht
    split at ht
    · cases ht
    · exact hs.stages id' t ht hstage

lemma Sound.stage?_remove (hs : a.Sound) (ht : a.get? id = some t) (hclone : t.isClone = true) :
    (a.remove id).stage? = a.stage? := by
  refine stage?_congr fun id' => ?_
  by_cases hsame : id' = id
  · subst hsame
    refine ⟨fun ⟨t', ht', _⟩ => by simp [get?_remove] at ht', fun ⟨t', ht', hstage⟩ => ?_⟩
    rw [ht] at ht'
    cases ht'
    rw [hs.stages _ _ ht hstage] at hclone
    cases hclone
  · simp only [HasStage, get?_remove, if_neg hsame]

lemma layout_modify (a : Arena) (id : TargetId) {f : Target → Target}
    (hf : ∀ t, (f t).cloneOf = t.cloneOf) : (a.modify id f).layout = a.layout := by
  cases h : a.get? id with
  | none => rw [modify_of_get?_eq_none h]
  | some t =>
    have hsame : (a.entries.map fun e => (e.generation, e.target.map (·.cloneOf)))[id.index]? =
        some (id.generation, some (f t).cloneOf) := by
      rw [List.getElem?_map, get?_eq_some_iff.1 h, hf t]
      rfl
    obtain ⟨hlt, hget⟩ := List.getElem?_eq_some_iff.1 hsame
    rw [modify_of_get?_eq_some h]
    simp only [layout, List.map_set, Option.map_some, ← hget, List.set_getElem_self]

/-- Changes in place that make no stage and no clone of anyone. -/
lemma succeeds_modify (a : Arena) (id : TargetId) {f : Target → Target}
    (hf : ∀ t, (f t).isStage = t.isStage ∧ (f t).cloneOf = t.cloneOf) :
    a.Succeeds (a.modify id f) where
  sound hs := by
    refine ⟨hs.tidy.congr (layout_modify a id fun t => (hf t).2), fun id' t ht hstage => ?_⟩
    rw [get?_modify] at ht
    split at ht
    · obtain ⟨t', ht', rfl⟩ := Option.map_eq_some_iff.1 ht
      rw [Target.isClone, (hf t').2]
      exact hs.stages id' t' ht' ((hf t').1 ▸ hstage)
    · exact hs.stages id' t ht hstage
  stage _ s hs := (stage?_modify a id fun t => (hf t).1).trans hs

end Arena

namespace World

variable {self : TargetId} {rs : List Request} {w w' : World}

lemma Change.sound (h : Change self w rs w') (hs : w.targets.Sound) :
    w'.targets.Sound ∧ w'.targets.stage? = w.targets.stage? := by
  cases h with
  | keep _ _ _ ht =>
    have hroster : w'.targets.roster = w.targets.roster := congrArg Prod.snd ht
    exact ⟨hs.of_roster hroster, Arena.stage?_of_roster hroster⟩
  | @create source _ _ h =>
    obtain ⟨t, -, hsprite, -, hins, -⟩ := createClone_eq_some h
    have htargets : w'.targets = (w.targets.insert (t.clone (t.cloneOf.getD source))).2 := by rw [hins]
    rw [htargets]
    exact ⟨hs.insert fun hstage => by simp [Target.clone, hsprite] at hstage,
      hs.stage?_insert hsprite⟩
  | delete ht hclone =>
    rw [deleteClone_eq ht hclone]
    exact ⟨hs.remove self, hs.stage?_remove ht hclone⟩

lemma succeeds_createClone (w : World) (source : TargetId) :
    w.targets.Succeeds (w.createClone source).2.targets := by
  cases hclone : (w.createClone source).1 with
  | none =>
    rw [createClone_of_none hclone]
    exact .refl _
  | some c =>
    have hchange : Change source w [.startClone c] (w.createClone source).2 :=
      .create (Prod.ext hclone rfl)
    exact ⟨fun hs => (hchange.sound hs).1, fun hs s hstage => (hchange.sound hs).2.trans hstage⟩

lemma succeeds_deleteClone (w : World) (id : TargetId) :
    w.targets.Succeeds (w.deleteClone id).targets := by
  obtain ⟨rs, hchange⟩ := w.change_deleteClone id
  exact ⟨fun hs => (hchange.sound hs).1, fun hs s hstage => (hchange.sound hs).2.trans hstage⟩

lemma succeeds_of_troupe (h : w'.troupe = w.troupe) : w.targets.Succeeds w'.targets :=
  Arena.succeeds_of_roster (congrArg Prod.snd h)

/-- Something that happens in a world: what the machines and their threads do, what is done about
clones, bubbles and questions, and what the host does. -/
inductive Passes (w : World) : World → Prop
  /-- The clock, the input, requests, promises, the answer: whatever does not touch the targets. -/
  | outside {w' : World} (h : w'.targets = w.targets) : Passes w w'
  /-- A slice of any machine, in whatever state. -/
  | slice (fuel : Nat) (p : Program) (m : Machine) : Passes w (m.run fuel p w).2
  | machine (p : Program) (target : TargetId) : Passes w (Machine.new p target w).2
  | createClone (source : TargetId) : Passes w (w.createClone source).2
  | deleteClone (id : TargetId) : Passes w (w.deleteClone id)
  | bubble (id : TargetId) (kind : BubbleKind) (text : String) : Passes w (w.setBubble id kind text)
  | ask (target : TargetId) (text : String) (p : Promise) : Passes w (w.ask target text p)
  | answer (text : String) : Passes w (w.answerQuestion text)
  | abort (p : Promise) : Passes w (w.abortPromise p)
  /-- A target is added. There is one stage at most, and it is nobody's clone. -/
  | add (t : Target) (h : t.isStage = true → w.targets.stage? = none ∧ t.isClone = false) :
      Passes w { w with targets := (w.targets.insert t).2 }
  /-- A target is changed; it may move, get other variables or another name. -/
  | edit (id : TargetId) {f : Target → Target}
      (h : ∀ t, (f t).isStage = t.isStage ∧ (f t).cloneOf = t.cloneOf) : Passes w (w.modifyTarget id f)

/-- A world that began without targets. -/
inductive Reached : World → Prop
  | new {w : World} (h : w.targets = .empty) : Reached w
  | passes {w w' : World} (h : Reached w) (k : w.Passes w') : Reached w'

end World

namespace Machine

lemma Changes.sound {self : TargetId} {rs : List Request} {w w' : World} (h : Changes self w rs w')
    (hs : w.targets.Sound) : w'.targets.Sound ∧ w'.targets.stage? = w.targets.stage? := by
  induction h with
  | refl => exact ⟨hs, rfl⟩
  | step _ _ k ih =>
    obtain ⟨hsound, hstage⟩ := k.sound ih.1
    exact ⟨hsound, hstage.trans ih.2⟩

end Machine

namespace World

variable {w w' : World}

lemma Passes.succeeds (h : w.Passes w') : w.targets.Succeeds w'.targets := by
  cases h with
  | outside h => rw [h]; exact .refl _
  | slice fuel p m =>
    obtain ⟨-, rs, hchanges⟩ := Machine.changes_run fuel p m w
    exact ⟨fun hs => (hchanges.sound hs).1, fun hs s hstage => (hchanges.sound hs).2.trans hstage⟩
  | machine p target => exact succeeds_of_troupe (Thread.troupe_new 0 0 p target w)
  | createClone source => exact w.succeeds_createClone source
  | deleteClone id => exact w.succeeds_deleteClone id
  | bubble id kind text => exact succeeds_of_troupe (w.troupe_setBubble id kind text)
  | ask target text p => exact succeeds_of_troupe (w.troupe_ask target text p)
  | answer text => exact succeeds_of_troupe (w.troupe_answerQuestion text)
  | abort p => exact succeeds_of_troupe (w.troupe_abortPromise p)
  | add t h =>
    refine ⟨fun hs => hs.insert fun hstage => (h hstage).2, fun hs s hstage => ?_⟩
    cases ht : t.isStage with
    | false => rw [hs.stage?_insert ht, hstage]
    | true =>
      rw [(h ht).1] at hstage
      cases hstage
  | edit id h => exact w.targets.succeeds_modify id h

lemma Reached.sound (h : w.Reached) : w.targets.Sound := by
  induction h with
  | new h => rw [h]; exact Arena.sound_empty
  | passes _ k ih => exact k.succeeds.sound ih

end World

end Blockwork
