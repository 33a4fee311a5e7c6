import Blockwork.Proofs.Engine.Lives
import Blockwork.Proofs.Engine.Lodging

/-!
Starting over. A thread that starts over is put back to the first block and keeps the places of its
variables and lists, where a new one would look for them. The places have not changed since it was
started, whatever it has gone through: so it is as a new one would be, and nothing is made for it. What
it waited for is called off, and its question is dropped.
-/

namespace Blockwork

/-- No target of a project is a clone. -/
lemma Project.cloneOf_of_read {text : String} {targets : List Target} (h : read text = .ok targets) :
    ∀ t ∈ targets, t.cloneOf = none := by
  unfold read at h
  split at h
  · cases h
  split at h
  · split at h
    · next ts hts =>
      cases h
      intro t ht
      obtain ⟨s, -, hload⟩ := exists_of_mapM hts t ht
      simp only [StoredTarget.load?, Option.bind_eq_bind, Option.bind_eq_some_iff] at hload
      obtain ⟨blocks, -, hload⟩ := hload
      split at hload
      · cases hload
        rfl
      · cases hload
        simp only [Target.point]
        split <;> rfl
    · cases h
  · cases h

namespace Engine

/-! ### States of an engine -/

/-- The states of an engine between the things it is told to do. Projects may be loaded at any time, and
targets added, but a stage only if there is none. From outside anything may change but the mail, the
blocks, who there is, and which variables and lists they have. -/
inductive Performed (good : BlockMap → Prop) : Engine → Prop
  | new (config : Config) (host : Host) : Performed good (.new config host)
  | load {e e' : Engine} {text : String} (h : Performed good e) (hload : e.load text = .ok e')
      (hgood : ∀ targets, Project.read text = .ok targets → ∀ t ∈ targets, t.blocks.Keyed →
        good t.blocks) : Performed good e'
  | add {e : Engine} (h : Performed good e) (t : Target) (hgood : good t.blocks)
      (hclone : t.cloneOf = none) (hstage : t.isStage = true → e.world.targets.stage? = none) :
      Performed good (e.addTarget t)
  | outside {e : Engine} (h : Performed good e) (w : World) (hmail : w.mail = e.world.mail)
      (hc : e.world.targets.Covers w.targets) (ht : w.troupe = e.world.troupe)
      (hl : ∀ id, (w.targets.get? id).map Target.labels =
        (e.world.targets.get? id).map Target.labels) : Performed good { e with world := w }
  | order {e e' : Engine} (h : Performed good e) (ho : Order e e') : Performed good e'

/-- A script is started on one of its targets, as it happens again and again while those with one hat
are started. -/
inductive Launch : Engine → Engine → Prop
  | start {e : Engine} {index : Nat} {s : Script} {target : TargetId}
      (hs : e.scripts[index]? = some s) (htarget : target ∈ e.family s.target) (restart : Bool) :
      Launch e (e.startScript index s target restart).2

section

variable {good : BlockMap → Prop} {rs : List Request} {e e' : Engine}

lemma lodged_compile (h : e.world.targets.Sound) : Lodged [] e.compile :=
  lodged_of_no_threads (e.succeeds_stop.sound h) rfl (by simp [Engine.compile])

lemma Lodged.add (h : Lodged [] e) (htable : Table [] e) {u : Target} (hclone : u.cloneOf = none)
    (hstage : u.isStage = true → e.world.targets.stage? = none) : Lodged [] (e.addTarget u) := by
  have hclone' : u.isClone = false := by simp [Target.isClone, hclone]
  refine ⟨h.sound.insert fun _ => hclone', fun t ht hf => Or.inl ?_,
    fun g hg => (h.edges g hg).congr rfl fun s hs => ?_⟩
  · have hlive := htable.contains_target ht hf
    exact (h.bound ht hf).mono rfl
      (fun _ _ => Arena.locate?_insert Shelf.stays_vars h.sound hstage hlive)
      fun _ _ => Arena.locate?_insert Shelf.stays_lists h.sound hstage hlive
  · have hsprite : u.isStage = false := by
      by_contra hnot
      cases (hstage (by simpa using hnot)).symm.trans hs
    exact (h.sound.stage?_insert hsprite).trans hs

lemma Lodged.order (hgood : ∀ b, good b → b.Playable) (hv : Visited good ([], e)) (h : Lodged [] e)
    (ho : Order e e') : Lodged [] e' := by
  cases ho with
  | compile => exact lodged_compile h.sound
  | start =>
    have htimer : Lodged [] { e.stop with world := e.stop.world.resetTimer } := (h.stop []).world rfl
    exact htimer.startHats _ _ _
  | stop => exact h.stop []
  | broadcast name =>
    rw [broadcast_eq (hv.sound hgood).1.idle]
    have htold : Lodged [.broadcast name none] e :=
      ⟨h.sound, fun t ht hf => Or.inl (h.bound ht hf), h.edges⟩
    exact htold.foldl_handle
  | keyPressed key => exact h.startHats _ _ _
  | click id =>
    unfold Engine.click
    split
    · exact h
    · exact h.startHats _ _ _
  | answerQuestion answer =>
    have hw : e.world.Upholds (e.answerQuestion answer).world := World.upholds_of_hushed
      (e.world.troupe_answerQuestion answer) (e.world.hushed?_answerQuestion answer)
    exact h.still hw (fun _ ht _ => ht) (fun _ hg => hg) fun _ hr => hr
  | step fuel hf => exact h.beats hgood hv (beats_step hgood hv fuel (hv.fault_step hgood hf))

/-- The targets of a project move in. -/
lemma Toured.addAll {targets : List Target}
    (hall : ∀ t ∈ targets, good t.blocks ∧ t.cloneOf = none) (h : Toured good ([], e))
    (hs : e.world.targets.Sound) :
    let e' := { e with world := { e.world with
      targets := targets.foldl (fun a t => (a.insert t).2) e.world.targets } }
    Toured good ([], e') ∧ e'.world.targets.Sound := by
  induction targets generalizing e with
  | nil => exact ⟨h, hs⟩
  | cons t rest ih =>
    obtain ⟨⟨hblocks, hclone⟩, hrest⟩ := List.forall_mem_cons.1 hall
    exact ih (e := e.addTarget t) hrest (h.deed (.add e t hblocks hclone))
      (hs.insert fun _ => by simp [Target.isClone, hclone])

/-- Every such state is one that the engine comes to deed by deed, and its threads are in their places. -/
lemma Performed.toured (hgood : ∀ b, good b → b.Playable) (h : Performed good e) :
    Toured good ([], e) ∧ Lodged [] e := by
  induction h with
  | new config host =>
    exact ⟨.new config host, ⟨Arena.sound_empty, by simp [Engine.new], by simp [Engine.new]⟩⟩
  | @load e e' text _ hload hblocks ih =>
    obtain ⟨htoured, hlodged⟩ := ih
    unfold Engine.load at hload
    cases hread : Project.read text with
    | error =>
      rw [hread] at hload
      cases hload
    | ok targets =>
      rw [hread] at hload
      cases hload
      obtain ⟨hadded, hsound⟩ := htoured.addAll (fun t ht =>
        ⟨hblocks targets hread t ht (Project.keyed_of_read hread t ht),
          Project.cloneOf_of_read hread t ht⟩) hlodged.sound
      exact ⟨hadded.deed (.compile _), lodged_compile hsound⟩
  | add _ t hblocks hclone hstage ih =>
    obtain ⟨htoured, hlodged⟩ := ih
    exact ⟨htoured.deed (.add _ t hblocks hclone),
      hlodged.add (htoured.visited.table hgood) hclone hstage⟩
  | @outside e _ w hmail hc ht hl ih =>
    obtain ⟨htoured, hlodged⟩ := ih
    have hw : e.world.Upholds { e with world := w }.world := World.upholds_of_labels ht hl
    exact ⟨htoured.deed (.outside e w hmail hc ht),
      hlodged.still hw (fun _ ht _ => ht) (fun _ hg => hg) fun _ hr => hr⟩
  | order _ ho ih =>
    obtain ⟨htoured, hlodged⟩ := ih
    exact ⟨htoured.order hgood ho, hlodged.order hgood htoured.visited ho⟩

/-! ### Starting over -/

/-- What is in order stays so while scripts are started. -/
lemma keeps_of_launches (hgood : ∀ b, good b → b.Playable)
    (k : Relation.ReflTransGen Launch e e') (hsound : Sound good e) (hposted : Posted rs e)
    (h : Lodged rs e) : Sound good e' ∧ Posted rs e' ∧ Lodged rs e' := by
  induction k with
  | refl => exact ⟨hsound, hposted, h⟩
  | tail _ k ih =>
    obtain ⟨hsound, hposted, h⟩ := ih
    cases k with
    | @start index s target hs htarget restart =>
      have hmoves := (starts_startScript hs target restart).moves rs
      exact ⟨hsound.moves hgood hmoves, hposted.moves hgood hsound hmoves,
        h.startScript htarget restart⟩

/-- A question is dropped if it is its own, and only then. -/
lemma Posted.mem_questions_releasePromise (h : Posted rs e) (t : Thread) (q : Question) :
    q ∈ (t.releasePromise e.world).questions ↔
      q ∈ e.world.questions ∧ t.machine.promise ≠ some q.promise := by
  rw [t.questions_releasePromise]
  constructor
  · intro hq
    have hmem := List.mem_of_mem_eraseP hq
    refine ⟨hmem, fun hown => ?_⟩
    exact Question.not_of_mem_eraseP h.questions hq
      (Thread.pendingPromise?_eq_some.2 ⟨hown, (h.asked q hmem).1⟩)
  · rintro ⟨hmem, hother⟩
    refine (List.mem_eraseP_of_neg fun hown => hother ?_).2 hmem
    exact (Thread.pendingPromise?_eq_some.1 (beq_iff_eq.1 hown)).1

end

/-- **Starting over is starting afresh.** In every state of an engine that plays projects with good
blocks, in the middle of a frame and between two starts too, take a thread that is not finished, but for
those of a clone that is gone, which are about to be killed. When it starts over, its machine is the one
that would be made for its script and its target now, before or after its promise is given up; and for
this nothing is made in the world. Of the promises, its own is not pending any more, and of the
questions, its own is dropped; the others are as they were. -/
theorem restart_eq_new {e e' e'' : Engine} {rs : List Request} (h : Performed BlockMap.Playable e)
    (hbeats : Beats ([], e) (rs, e')) (hstarts : Relation.ReflTransGen Launch e' e'') {t : Thread}
    (ht : t ∈ e''.threads) (hf : t.isFinished = false) (hlive : .killThreadsOf t.target ∉ rs) :
    Machine.new t.program t.target e''.world = ((t.restart e''.world).1.machine, e''.world) ∧
    Machine.new t.program t.target (t.restart e''.world).2 =
      ((t.restart e''.world).1.machine, (t.restart e''.world).2) ∧
    (∀ p, (t.restart e''.world).2.promises.isPending p = true ↔
      e''.world.promises.isPending p = true ∧ t.machine.promise ≠ some p) ∧
    ∀ q, q ∈ (t.restart e''.world).2.questions ↔
      q ∈ e''.world.questions ∧ t.machine.promise ≠ some q.promise := by
  have hgood : ∀ b : BlockMap, b.Playable → b.Playable := fun _ hb => hb
  obtain ⟨htoured, hlodged⟩ := h.toured hgood
  have hv' : Visited BlockMap.Playable (rs, e') := htoured.visited.beats hbeats
  obtain ⟨-, hposted, hlodged⟩ := keeps_of_launches hgood hstarts (hv'.sound hgood).1
    (hv'.posted hgood) (hlodged.beats hgood htoured.visited hbeats)
  have hbound : t.machine.Bound t.program e''.world.targets :=
    (hlodged.threads t ht hf).resolve_right hlive
  have hafter : t.machine.Bound t.program (t.releasePromise e''.world).targets :=
    hbound.upholds rfl (t.upholds_releasePromise e''.world)
  exact ⟨hbound.new_eq, hafter.new_eq, t.isPending_releasePromise e''.world,
    hposted.mem_questions_releasePromise t⟩

/-- A sprite counts and asks for a name, over and over. -/
def asksOn : BlockMap := .ofList [
  ("flag", { id := "flag", opcode := "event_whenflagclicked", topLevel := true
             next := some "loop" }),
  ("loop", { id := "loop", opcode := "control_forever"
             inputs := .ofList [("SUBSTACK", { value := some (.block "count") })] }),
  ("count", { id := "count", opcode := "data_changevariableby", next := some "ask"
              inputs := .ofList [("VALUE", { value := some (.value (.number 1)) })]
              fields := .ofList [("VARIABLE", { value := .text "sum", id := some "sum" })] }),
  ("ask", { id := "ask", opcode := "sensing_askandwait"
            inputs := .ofList [("QUESTION", { value := some (.value (.text "Name?")) })] })]

/-- It waits for the answer in the middle of its loop; the sum is a variable of the stage. When it starts
over, nobody asks any more, and a new machine would be the same. -/
theorem restart_eq_new_asksOn : ∃ e, Performed BlockMap.Playable e ∧ ∃ t ∈ e.threads,
    t.machine.promise = some ⟨0⟩ ∧ e.world.promises.isPending ⟨0⟩ = true ∧
    t.machine.loops.length = 1 ∧ t.machine.vars = [⟨⟨0, 0⟩, 0⟩] ∧
    e.world.questions.map (·.promise) = [⟨0⟩] ∧
    Machine.new t.program t.target e.world = ((t.restart e.world).1.machine, e.world) ∧
    (t.restart e.world).2.promises.isPending ⟨0⟩ = false ∧ (t.restart e.world).2.questions = [] := by
  have hac : asksOn.Acyclic := BlockMap.acyclic_of_falling
    (fun id => ["ask", "count", "loop", "flag"].idxOf id) (by decide +kernel)
  have hplayable : asksOn.Playable := ⟨by decide +kernel, by decide +kernel, hac⟩
  have hempty : ({} : BlockMap).Playable :=
    ⟨by decide, by decide, BlockMap.acyclic_of_falling (fun _ => 0) (by decide)⟩
  have hstage := (Performed.new {} {}).add
    { name := "Stage", isStage := true, vars := [⟨"sum", "sum", .number 0, false⟩] } hempty rfl
      fun _ => rfl
  have hcat := hstage.add { name := "Cat", isStage := false, blocks := asksOn } hplayable rfl
    fun h => by cases h
  obtain ⟨e, he, hthreads, hpending, hquestions⟩ : ∃ e, Performed BlockMap.Playable e ∧
      e.threads.map (fun t => (t.machine.status, t.machine.promise, t.machine.loops.length,
        t.machine.vars)) = [(.awaiting, some ⟨0⟩, 1, [⟨⟨0, 0⟩, 0⟩])] ∧
      e.world.promises.isPending ⟨0⟩ = true ∧ e.world.questions.map (·.promise) = [⟨0⟩] :=
    ⟨_, ((hcat.order (.compile _)).order (.start _)).order (.step _ 100 (by decide +kernel)),
      by decide +kernel⟩
  obtain ⟨t, hone, hsame⟩ := List.map_eq_singleton_iff.1 hthreads
  simp only [Prod.mk.injEq] at hsame
  obtain ⟨hstatus, hpromise, hloops, hvars⟩ := hsame
  have ht : t ∈ e.threads := by simp [hone]
  have hf : t.isFinished = false := by simp [Thread.isFinished, Machine.isFinished, hstatus]
  obtain ⟨hnew, -, hpromises, hasked⟩ :=
    restart_eq_new he (.refl _) .refl ht hf List.not_mem_nil
  refine ⟨e, he, t, ht, hpromise, hpending, hloops, hvars, hquestions, hnew, ?_, ?_⟩
  · rw [Bool.eq_false_iff, ne_eq, hpromises]
    exact fun h => h.2 hpromise
  · refine List.eq_nil_iff_forall_not_mem.2 fun q hq => ?_
    obtain ⟨hmem, hother⟩ := (hasked q).1 hq
    have hown : q.promise ∈ e.world.questions.map (·.promise) := List.mem_map_of_mem hmem
    rw [hquestions, List.mem_singleton] at hown
    exact hother (hown ▸ hpromise)

end Engine

end Blockwork
