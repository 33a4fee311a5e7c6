import Blockwork.Proofs.Engine.Held
import Blockwork.Proofs.Engine.Threads

/-!
What a stop leaves: the targets that are no clones, as they were but for their bubbles, and nothing
else. While threads are killed one by one, questions are dropped and the next ones are announced, in
bubbles too; whatever was shown in the meantime is taken away in the end, and no promise is forgotten,
for every pending promise is held by a thread.
-/

namespace Blockwork

/-! ### Targets apart from their bubbles -/

def Target.hushed (t : Target) : Target := { t with bubble := none }

namespace World

/-- A target as it is apart from its bubble. -/
def hushed? (w : World) (id : TargetId) : Option Target := (w.targets.get? id).map Target.hushed

variable (w : World)

@[simp] lemma hushed?_setBubble (id : TargetId) (kind : BubbleKind) (text : String) :
    (w.setBubble id kind text).hushed? = w.hushed? := by
  funext id'
  simp only [hushed?, get?_setBubble]
  split
  · rw [Option.map_map]
    rfl
  · rfl

@[simp] lemma hushed?_announce : w.announce.hushed? = w.hushed? := by
  unfold announce
  split
  · rfl
  · split
    · exact w.hushed?_setBubble _ _ _
    · rfl

@[simp] lemma hushed?_withdraw (q : Question) : (w.withdraw q).hushed? = w.hushed? := by
  unfold withdraw
  split
  · exact w.hushed?_setBubble _ _ _
  · rfl

@[simp] lemma hushed?_abortPromise (p : Promise) : (w.abortPromise p).hushed? = w.hushed? := by
  unfold abortPromise
  split
  · rfl
  · next q rest _ =>
    split
    · rw [hushed?_announce]
      exact hushed?_withdraw { w with questions := rest } q
    · rfl

@[simp] lemma hushed?_answerQuestion (text : String) :
    (w.answerQuestion text).hushed? = w.hushed? := by
  unfold answerQuestion
  simp only
  split
  · rfl
  · next q rest _ =>
    rw [hushed?_announce]
    exact hushed?_withdraw { w with answer := text, questions := rest } q

end World

lemma Thread.hushed?_releasePromise (t : Thread) (w : World) :
    (t.releasePromise w).hushed? = w.hushed? := by
  unfold releasePromise
  split
  · next p _ => exact World.hushed?_abortPromise { w with promises := w.promises.cancel p } p
  · rfl

namespace Engine

lemma hushed?_killThreads (p : Thread → Bool) (ts : List Thread) (w : World) :
    (killThreads p ts w).2.hushed? = w.hushed? := by
  induction ts generalizing w with
  | nil => rfl
  | cons t ts ih =>
    simp only [killThreads]
    split
    · exact (ih _).trans (t.hushed?_releasePromise w)
    · exact ih w

/-! ### All targets in turn -/

/-- Something is done to all targets in turn that changes one target at a time, and would change none
a second time. -/
lemma get?_foldl_ids {f : World → TargetId → World} {g : Target → Option Target}
    (hf : ∀ w id id', (f w id).targets.get? id' =
      if id' = id then (w.targets.get? id').bind g else w.targets.get? id')
    (hg : ∀ t, (g t).bind g = g t) (w : World) (id : TargetId) :
    (w.targets.ids.foldl f w).targets.get? id = (w.targets.get? id).bind g := by
  have hfold : ∀ (ids : List TargetId) (w : World), (ids.foldl f w).targets.get? id =
      if id ∈ ids then (w.targets.get? id).bind g else w.targets.get? id := by
    intro ids
    induction ids with
    | nil => simp
    | cons i ids ih =>
      intro w
      rw [List.foldl_cons, ih, hf]
      by_cases hsame : id = i
      · simp [hsame, Option.bind_assoc, hg]
      · simp [hsame]
  rw [hfold]
  split
  · rfl
  · next hnot =>
    have hdead : w.targets.get? id = none := by simpa [Arena.mem_ids] using hnot
    rw [hdead]
    rfl

/-- Only those that are no clones are left. -/
lemma get?_deleteClones (w : World) (id : TargetId) :
    (deleteClones w).targets.get? id = (w.targets.get? id).filter (!·.isClone) := by
  rw [← Option.bind_guard]
  refine get?_foldl_ids (fun w id id' => ?_) (fun t => ?_) w id
  · unfold World.deleteClone
    split
    · next hnone =>
      split
      · next hsame => rw [hsame, hnone]; rfl
      · rfl
    · next t ht =>
      split
      · next hclone =>
        simp only [World.request, Arena.get?_remove]
        split
        · next hsame => simp [hsame, ht, hclone, Option.guard]
        · rfl
      · next hclone =>
        split
        · next hsame => simp [hsame, ht, hclone, Option.guard]
        · rfl
  · cases ht : t.isClone <;> simp [Option.guard, ht]

lemma get?_clearBubbles (w : World) (id : TargetId) :
    (clearBubbles w).targets.get? id = w.hushed? id := by
  have hsome : w.hushed? id = (w.targets.get? id).bind fun t => some t.hushed :=
    Option.map_eq_bind
  rw [hsome]
  refine get?_foldl_ids (fun w id id' => ?_) (fun t => rfl) w id
  split
  · rw [World.get?_setBubble]
    split
    · exact Option.map_eq_bind
    · rfl
  · next hquiet =>
    split
    · next hsame =>
      rw [hsame]
      cases ht : w.targets.get? id with
      | none => rfl
      | some t =>
        have hnone : t.bubble = none := by simpa [ht] using hquiet
        rw [Option.bind_some, Target.hushed, ← hnone]
    · rfl

/-- The targets after a stop. -/
lemma get?_stop (e : Engine) (id : TargetId) :
    e.stop.world.targets.get? id = (e.world.hushed? id).filter (!·.isClone) := by
  have hkilled : e.released.hushed? id = e.world.hushed? id :=
    congrFun (hushed?_killThreads (fun _ => true) e.threads e.world) id
  have hclear : e.stop.world.targets.get? id = (deleteClones e.released).hushed? id :=
    get?_clearBubbles (deleteClones e.released) id
  calc e.stop.world.targets.get? id
      = ((e.released.targets.get? id).filter (!·.isClone)).map Target.hushed := by
        rw [hclear, World.hushed?, get?_deleteClones]
    _ = (e.released.hushed? id).filter (!·.isClone) :=
        (Option.filter_map (p := fun t : Target => !t.isClone)).symm
    _ = (e.world.hushed? id).filter (!·.isClone) := by rw [hkilled]

/-! ### Requests -/

/-- When everything is to stop, nothing else is left to do. -/
lemma Visited.stopsLast {good : BlockMap → Prop} (hgood : ∀ b, good b → b.Playable)
    {x : List Request × Engine} (h : Visited good x) : Machine.StopsLast x.1 := by
  induction h with
  | new config host => exact Machine.stopsLast_nil
  | act hx ha ih =>
    cases ha with
    | handle r rs e => exact ih.tail
    | turn fuel ht hf hrun => exact (Thread.changes_run fuel _ (hx.sound hgood).1.idle).2.stopsLast
    | broadcast e name => exact List.not_mem_nil
    | _ => exact Machine.stopsLast_nil

/-- **A stop leaves nothing behind**: no thread, no wait, no request, no question, no pending promise, no
clone and no bubble, and no history of a target that is gone. The other targets are as they were. When
a script has told everything to stop, nothing that it asked for is left to do after that. -/
theorem stop_leaves_nothing {x : List Request × Engine} (h : Visited BlockMap.Playable x) :
    x.2.stop.threads = [] ∧ x.2.stop.waits = [] ∧ x.2.stop.world.requests = [] ∧
    (∀ rs, x.1 = .stopAll :: rs → rs = []) ∧
    x.2.stop.world.questions = [] ∧ (∀ p, x.2.stop.world.promises.isPending p = false) ∧
    (∀ id t, x.2.stop.world.targets.get? id = some t → t.isClone = false ∧ t.bubble = none) ∧
    (∀ g ∈ x.2.stop.edges, x.2.stop.world.targets.contains g.target = true) ∧
    ∀ id t, x.2.world.targets.get? id = some t → t.isClone = false →
      x.2.stop.world.targets.get? id = some { t with bubble := none } := by
  have hgood : ∀ b : BlockMap, b.Playable → b.Playable := fun _ hb => hb
  have hsound := (h.sound hgood).1
  have hposted := h.posted hgood
  have hmoves := moves_stop x.1 x.2
  have hkeeps : Keeps x.2 x.2.stop := (lasting_keeps hgood x.2).moves hgood hsound hposted
    (keeps_of_eq rfl rfl (List.Subset.refl _)) hmoves
  refine ⟨rfl, rfl, rfl, fun rs hrs => ?_, ?_, fun p => ?_, fun id t ht => ?_, fun g hg => ?_,
    fun id t ht hclone => ?_⟩
  · have hlast := h.stopsLast hgood
    rw [hrs] at hlast
    exact hlast.eq_nil
  · refine List.eq_nil_iff_forall_not_mem.2 fun q hq => ?_
    obtain ⟨-, t, ht, -⟩ := (hposted.moves hgood hsound hmoves).asked q hq
    exact List.not_mem_nil ht
  · by_contra hpending
    rw [Bool.not_eq_false] at hpending
    obtain ⟨t, ht, -⟩ := (h.held hgood).keep hkeeps p hpending
    exact List.not_mem_nil ht
  · rw [get?_stop, Option.filter_eq_some_iff, World.hushed?, Option.map_eq_some_iff] at ht
    obtain ⟨⟨t', -, rfl⟩, hclone⟩ := ht
    exact ⟨by simpa using hclone, rfl⟩
  · exact ((h.table hgood).stop []).watched g hg |>.resolve_right List.not_mem_nil
  · have hkept : (!t.hushed.isClone) = true := by
      rw [Bool.not_eq_true']
      exact hclone
    rw [get?_stop, World.hushed?, ht, Option.map_some]
    exact Option.filter_some_pos hkept

/-- A sprite clones itself, tells both to ask for a name, and waits for them. -/
def asksTwice : BlockMap := .ofList [
  ("flag", { id := "flag", opcode := "event_whenflagclicked", topLevel := true
             next := some "clone" }),
  ("clone", { id := "clone", opcode := "control_create_clone_of", next := some "send"
              inputs := .ofList [("CLONE_OPTION", { value := some (.value (.text "_myself_")) })] }),
  ("send", { id := "send", opcode := "event_broadcastandwait"
             inputs := .ofList [("BROADCAST_INPUT", { value := some (.value (.text "go")) })] }),
  ("receive", { id := "receive", opcode := "event_whenbroadcastreceived", topLevel := true
                next := some "ask"
                fields := .ofList [("BROADCAST_OPTION", { value := .text "go" })] }),
  ("ask", { id := "ask", opcode := "sensing_askandwait"
            inputs := .ofList [("QUESTION", { value := some (.value (.text "Name?")) })] })]

/-- Two questions are open and one of them is shown, one broadcast is waited for, and there is a clone;
a stop leaves nothing of it. -/
theorem stop_leaves_nothing_asksTwice : ∃ e, Visited BlockMap.Playable ([], e) ∧
    e.threads.length = 3 ∧ e.waits.length = 1 ∧ e.world.questions.length = 2 ∧
    e.world.promises.isPending ⟨0⟩ = true ∧
    e.world.targets.live.map (fun x => (x.2.isClone, x.2.bubble)) =
      [(false, some ⟨.say, "Name?"⟩), (true, none)] ∧
    e.stop.threads = [] ∧ e.stop.waits = [] ∧ e.stop.world.questions = [] ∧
    (∀ p, e.stop.world.promises.isPending p = false) ∧
    ∀ id t, e.stop.world.targets.get? id = some t → t.isClone = false ∧ t.bubble = none := by
  have hac : asksTwice.Acyclic := BlockMap.acyclic_of_falling
    (fun id => ["ask", "receive", "send", "clone", "flag"].idxOf id) (by decide +kernel)
  have hplayable : asksTwice.Playable := ⟨by decide +kernel, by decide +kernel, hac⟩
  have hstart := (((Played.new {} {}).play
    (.add _ { name := "Cat", isStage := false, blocks := asksTwice } hplayable)).play (.compile _)).play
      (.start _)
  obtain ⟨e, he, hthreads, hwaits, hquestions, hpending, hlive⟩ : ∃ e, Played BlockMap.Playable e ∧
      e.threads.length = 3 ∧ e.waits.length = 1 ∧ e.world.questions.length = 2 ∧
      e.world.promises.isPending ⟨0⟩ = true ∧
      e.world.targets.live.map (fun x => (x.2.isClone, x.2.bubble)) =
        [(false, some ⟨.say, "Name?"⟩), (true, none)] :=
    ⟨_, hstart.play (.step _ 100 (by decide +kernel)), by decide +kernel⟩
  have hv : Visited BlockMap.Playable ([], e) := he.visited fun _ hb => hb
  obtain ⟨h1, h2, -, -, h3, h4, h5, -⟩ := stop_leaves_nothing hv
  exact ⟨e, hv, hthreads, hwaits, hquestions, hpending, hlive, h1, h2, h3, h4, h5⟩

end Engine

end Blockwork
