import Blockwork.Proofs.Blocks.Stored
import Blockwork.Proofs.Engine.Moves
import Blockwork.Proofs.Machine.Effects

/-!
What holds of an engine at all times: its scripts are compiled from the blocks of its targets, and
every thread runs one of them, in a state that its machine can reach. It is enough that every move
keeps this, and that no slice but one that is given up leaves a fault.
-/

namespace Blockwork

/-- Blocks under their own ids, each in a place for its kind, and none inside itself. -/
structure BlockMap.Playable (blocks : BlockMap) : Prop where
  keyed : blocks.Keyed
  kinds : blocks.WellKinded
  acyclic : blocks.Acyclic

/-- It runs one of these scripts. -/
def Thread.Runs (scripts : List Script) (t : Thread) : Prop :=
  ∃ s ∈ scripts, t.program = s.program ∧ Machine.Reachable t.program t.machine

namespace Thread.Runs

variable {scripts : List Script} {t : Thread} {s : Script}

lemma new (hs : s ∈ scripts) (id : ThreadId) (index : Nat) (target : TargetId) (w : World) :
    (Thread.new id index s.program target w).1.Runs scripts :=
  ⟨s, hs, rfl, .new target w⟩

lemma kill (h : t.Runs scripts) (w : World) : (t.kill w).1.Runs scripts := by
  obtain ⟨s, hs, hp, hr⟩ := h
  exact ⟨s, hs, hp, hr.kill⟩

lemma restart (h : t.Runs scripts) (w : World) : (t.restart w).1.Runs scripts := by
  obtain ⟨s, hs, hp, hr⟩ := h
  exact ⟨s, hs, hp, hr.restart⟩

lemma run (h : t.Runs scripts) (fuel : Nat) (w : World)
    (hf : (t.run fuel w).1.machine.isFaulted = false) : (t.run fuel w).1.Runs scripts := by
  obtain ⟨s, hs, hp, hr⟩ := h
  refine ⟨s, hs, hp, hr.run fuel { w with currentThread := t.id } fun ho => ?_⟩
  have hfault : (t.run fuel w).1.machine.isFaulted = true := by
    simp only [Thread.run, Machine.isFaulted, ho]
  rw [hf] at hfault
  cases hfault

end Thread.Runs

namespace Engine

/-- Every script is compiled from good blocks, and every thread runs a script. -/
structure Sound (good : BlockMap → Prop) (e : Engine) : Prop where
  blocks : ∀ b, e.world.targets.HasBlocks b → good b
  scripts : ∀ s ∈ e.scripts, ∃ b target, good b ∧ s ∈ (compileTarget .builtin target b).1
  threads : ∀ t ∈ e.threads, t.Runs e.scripts
  edges : ∀ h ∈ e.edges, h.thread.Runs e.scripts
  idle : e.world.requests = []

section

variable {good : BlockMap → Prop} {e e' : Engine}

/-- The routines of a thread are laid out line by line. -/
lemma Sound.laid (h : Sound good e) (hgood : ∀ b, good b → b.Playable) {t : Thread}
    (ht : t.Runs e.scripts) : Machine.Reachable t.program t.machine ∧ ∃ b, good b ∧
      ∀ r, (t.program.code? r).isSome → ∃ ls, t.program.Laid true b r ls := by
  obtain ⟨s, hs, hp, hr⟩ := ht
  obtain ⟨b, target, hb, hmem⟩ := h.scripts s hs
  obtain ⟨hkey, hk, hac⟩ := hgood b hb
  refine ⟨hr, b, hb, ?_⟩
  rw [hp]
  exact laid_of_mem true hkey hk.values hac (fun _ => hk) hmem

/-! ### One move -/

lemma requests_releasePromise (t : Thread) (w : World) :
    (t.releasePromise w).requests = w.requests := by
  have := congrArg Mail.requests (t.mail_releasePromise w)
  simp only [World.mail] at this
  rw [this]
  split <;> rfl

/-- One of the threads is replaced. -/
lemma forall_mem_replace {α : Type} {P : α → Prop} {xs ys : List α} {a b : α}
    (h : ∀ x ∈ xs ++ a :: ys, P x) (hb : P b) : ∀ x ∈ xs ++ b :: ys, P x := by
  intro x hx
  rcases List.mem_append.1 hx with hx | hx
  · exact h x (by simp [hx])
  · rcases List.mem_cons.1 hx with rfl | hx
    · exact hb
    · exact h x (by simp [hx])

lemma mem_replace {α : Type} {xs ys : List α} {a b x : α} (h : x ∈ xs ++ a :: ys) (hne : x ≠ a) :
    x ∈ xs ++ b :: ys := by
  simp only [List.mem_append, List.mem_cons] at h ⊢
  exact h.imp_right fun h => Or.inr (h.resolve_left hne)

lemma Sound.start (h : Sound good e) (hs : Start e e') : Sound good e' := by
  cases hs with
  | @spawn index s hs target =>
    have hmem : s ∈ e.scripts := List.mem_of_getElem? hs
    have hcovers := Thread.covers_new e.nextThread index s.program target e.world
    refine ⟨fun b hb => h.blocks b (hcovers b hb), h.scripts, fun t ht => ?_, h.edges, h.idle⟩
    rcases List.mem_append.1 ht with ht | ht
    · exact h.threads t ht
    · rw [List.mem_singleton.1 ht]
      exact .new hmem _ _ _ _
  | @restart xs ys t ht hf =>
    have hold := h.threads
    rw [ht] at hold
    exact ⟨fun b hb => h.blocks b (t.covers_releasePromise _ b hb), h.scripts,
      forall_mem_replace hold ((hold t (by simp)).restart _), h.edges,
      (requests_releasePromise t _).trans h.idle⟩

lemma Sound.move (hgood : ∀ b, good b → b.Playable) {x y : List Request × Engine}
    (h : Sound good x.2) (hm : Move x y) : Sound good y.2 := by
  cases hm with
  | start hs => exact h.start hs
  | calm hq hp hr hc => exact ⟨fun b hb => h.blocks b (hc b hb), h.scripts, h.threads, h.edges, hr⟩
  | @kill _ e xs ys t ht =>
    have hold := h.threads
    simp only [ht] at hold
    exact ⟨fun b hb => h.blocks b (t.covers_releasePromise _ b hb), h.scripts,
      forall_mem_replace hold ((hold t (by simp)).kill _), h.edges,
      (requests_releasePromise t _).trans h.idle⟩
  | clear hf => exact ⟨h.blocks, h.scripts, by simp, h.edges, h.idle⟩
  | @run e xs ys t fuel ht hf hrun =>
    have hold := h.threads
    simp only [ht] at hold
    exact ⟨fun b hb => h.blocks b (Machine.covers_run _ _ _ { e.world with currentThread := t.id } b hb),
      h.scripts, forall_mem_replace hold ((hold t (by simp)).run _ _ hrun), h.edges, rfl⟩
  | collect => exact ⟨h.blocks, h.scripts, h.threads, h.edges, rfl⟩
  | told | served | posted | resolve => exact ⟨h.blocks, h.scripts, h.threads, h.edges, h.idle⟩
  | sweep =>
    exact ⟨h.blocks, h.scripts, fun t ht => h.threads t (List.mem_filter.1 ht).1, h.edges, h.idle⟩
  | @answer _ e text =>
    refine ⟨fun b hb => h.blocks b (e.world.covers_answerQuestion text b hb), h.scripts, h.threads,
      h.edges, ?_⟩
    have := congrArg Mail.requests (e.world.mail_answerQuestion text)
    refine Eq.trans (this.trans ?_) h.idle
    split <;> rfl
  | forget edges hsub =>
    exact ⟨h.blocks, h.scripts, h.threads, fun x hx => h.edges x (hsub x hx), h.idle⟩
  | @watch _ e index s hs target =>
    have hmem : s ∈ e.scripts := List.mem_of_getElem? hs
    simp only [edge]
    split
    · exact h
    · have hcovers := Thread.covers_new e.nextThread index s.program target e.world
      refine ⟨fun b hb => h.blocks b (hcovers b hb), h.scripts, h.threads, fun x hx => ?_, h.idle⟩
      rcases List.mem_append.1 hx with hx | hx
      · exact h.edges x hx
      · rw [List.mem_singleton.1 hx]
        exact .new hmem _ _ _ _
  | @evaluate _ e g fuel index target hg hrun =>
    obtain ⟨hr, b, hb, hlaid⟩ := h.laid hgood (h.edges g hg)
    obtain ⟨hmail, hcovers, hprogram, hend⟩ := Thread.runPredicate_frame hlaid hr fuel e.world
    refine ⟨fun b hb => h.blocks b (hcovers b hb), h.scripts, h.threads, fun x hx => ?_,
      (congrArg Mail.requests hmail).trans h.idle⟩
    obtain ⟨g', hg', rfl⟩ := List.mem_map.1 hx
    split
    · obtain ⟨s, hs, hp, -⟩ := h.edges g hg
      have hreach := hend.resolve_right fun ho => by simp [Machine.isFaulted, ho] at hrun
      exact ⟨s, hs, hprogram.trans hp, hprogram ▸ hreach⟩
    · exact h.edges g' hg'

/-! ### Many moves -/

lemma Sound.moves (hgood : ∀ b, good b → b.Playable) {x y : List Request × Engine}
    (h : Sound good x.2) (hm : Moves x y) : Sound good y.2 := by
  induction hm with
  | refl => exact h
  | tail _ hm ih => exact ih.move hgood hm

/-- No slice but one that is given up leaves a fault. -/
lemma Sound.fails (hgood : ∀ b, good b → b.Playable) (h : Sound good e) {fuel : Nat}
    {f : Machine.Fault} (hf : e.Fails fuel f) : f = .overrun := by
  cases hf with
  | thread t mem status =>
    obtain ⟨hr, b, hb, hlaid⟩ := h.laid hgood (h.threads t mem)
    exact hr.fault_run hlaid status
  | condition g mem status =>
    obtain ⟨hr, b, hb, hlaid⟩ := h.laid hgood (h.edges g mem)
    obtain ⟨-, -, hprogram, hend⟩ := Thread.runPredicate_frame hlaid hr fuel e.world
    rcases hend with hend | hend
    · exact (hend.not_faulted hlaid f status).elim
    · rw [status] at hend
      exact Machine.Status.faulted.inj hend

lemma Sound.goes (hgood : ∀ b, good b → b.Playable) (h : Sound good e) {fuel : Nat}
    (hg : Goes fuel e e') (ho : e'.fault ≠ some .overrun) : Moves ([], e) ([], e') := by
  cases hg with
  | on moves => exact moves
  | overrun fault => exact (ho fault).elim
  | fails f mid moves cause fault =>
    rw [(h.moves hgood moves).fails hgood cause] at fault
    exact (ho fault).elim

end

/-! ### What an engine is told to do -/

/-- A target is added; its scripts are not compiled yet. -/
def addTarget (e : Engine) (t : Target) : Engine :=
  { e with world := { e.world with targets := (e.world.targets.insert t).2 } }

/-- The states of an engine whose targets have good blocks. A frame leads on if it is not given up.
The host and the targets may change at any time, as long as no target gets other blocks. -/
inductive Reachable (good : BlockMap → Prop) : Engine → Prop
  | new (config : Config) (host : Host) : Reachable good (.new config host)
  | add {e : Engine} (h : Reachable good e) (t : Target) (hgood : good t.blocks) :
      Reachable good (e.addTarget t)
  | outside {e : Engine} (h : Reachable good e) (w : World) (hmail : w.mail = e.world.mail)
      (hc : e.world.targets.Covers w.targets) : Reachable good { e with world := w }
  | compile {e : Engine} (h : Reachable good e) : Reachable good e.compile
  | start {e : Engine} (h : Reachable good e) : Reachable good e.start
  | stop {e : Engine} (h : Reachable good e) : Reachable good e.stop
  | broadcast {e : Engine} (h : Reachable good e) (name : String) : Reachable good (e.broadcast name)
  | keyPressed {e : Engine} (h : Reachable good e) (key : String) : Reachable good (e.keyPressed key)
  | click {e : Engine} (h : Reachable good e) (id : TargetId) : Reachable good (e.click id)
  | answerQuestion {e : Engine} (h : Reachable good e) (answer : String) :
      Reachable good (e.answerQuestion answer)
  | step {e : Engine} (h : Reachable good e) (fuel : Nat)
      (hf : (e.step fuel).fault ≠ some .overrun) : Reachable good (e.step fuel)

section

variable {good : BlockMap → Prop} {e e' : Engine}

/-- A project that was loaded has its blocks under their own ids. -/
lemma Reachable.load (h : Reachable good e) {text : String} (hload : e.load text = .ok e')
    (hgood : ∀ targets, Project.read text = .ok targets → ∀ t ∈ targets, t.blocks.Keyed →
      good t.blocks) : Reachable good e' := by
  have hadd : ∀ (targets : List Target) (e : Engine), Reachable good e →
      (∀ t ∈ targets, good t.blocks) → Reachable good { e with world := { e.world with
        targets := targets.foldl (fun a t => (a.insert t).2) e.world.targets } } := by
    intro targets
    induction targets with
    | nil => exact fun _ he _ => he
    | cons t rest ih =>
      exact fun e he hg => ih (e.addTarget t) (he.add t (hg t (by simp))) fun x hx => hg x (by simp [hx])
  unfold Engine.load at hload
  cases hread : Project.read text with
  | error =>
    rw [hread] at hload
    cases hload
  | ok targets =>
    rw [hread] at hload
    cases hload
    have hkeyed := Project.keyed_of_read hread
    exact (hadd targets e h fun t ht => hgood targets hread t ht (hkeyed t ht)).compile

lemma Sound.compile (hgood : ∀ b, good b → b.Playable) (h : Sound good e)
    (hp : e.palette = .builtin) : Sound good e.compile := by
  have hstop : Sound good e.stop := h.moves hgood (moves_stop [] e)
  refine ⟨hstop.blocks, fun s hs => ?_, fun t ht => (List.not_mem_nil ht).elim,
    fun h hh => (List.not_mem_nil hh).elim, hstop.idle⟩
  simp only [Engine.compile, List.mem_flatMap, List.mem_map] at hs
  obtain ⟨c, ⟨x, hx, rfl⟩, hs⟩ := hs
  refine ⟨x.2.blocks, x.1, hstop.blocks _ (Arena.hasBlocks_of_live (List.mem_filter.1 hx).1), ?_⟩
  rwa [show e.stop.palette = .builtin from hp] at hs

/-- **Soundness**: every state that an engine comes to is sound, and without a fault. -/
lemma Reachable.sound (hgood : ∀ b, good b → b.Playable) (h : Reachable good e) :
    Sound good e ∧ e.fault = none ∧ e.palette = .builtin := by
  have hmoves : ∀ {e e' : Engine}, Sound good e ∧ e.fault = none ∧ e.palette = .builtin →
      Moves ([], e) ([], e') → Sound good e' ∧ e'.fault = none ∧ e'.palette = .builtin := by
    rintro e e' ⟨hs, hf, hp⟩ hm
    obtain ⟨-, h2, h3⟩ := hm.frame
    exact ⟨hs.moves hgood hm, h2.trans hf, h3.trans hp⟩
  induction h with
  | new config host =>
    refine ⟨⟨?_, by simp [Engine.new], by simp [Engine.new], by simp [Engine.new], rfl⟩, rfl, rfl⟩
    rintro b ⟨x, hx, -⟩
    simp [Engine.new, Arena.empty] at hx
  | add _ t hb ih =>
    obtain ⟨hs, hf, hp⟩ := ih
    refine ⟨⟨fun b h => ?_, hs.scripts, hs.threads, hs.edges, hs.idle⟩, hf, hp⟩
    rcases Arena.hasBlocks_insert h with h | rfl
    · exact hs.blocks b h
    · exact hb
  | outside _ w hmail hc ih =>
    have hidle : w.requests = [] := (congrArg Mail.requests hmail).trans ih.1.idle
    exact hmoves ih
      (Move.calm (congrArg Mail.questions hmail) (congrArg Mail.promises hmail) hidle hc).moves
  | compile _ ih => exact ⟨ih.1.compile hgood ih.2.2, ih.2.1, ih.2.2⟩
  | start _ ih => exact hmoves ih (moves_start _)
  | stop _ ih => exact hmoves ih (moves_stop [] _)
  | broadcast _ name ih => exact hmoves ih (moves_broadcast _ name)
  | keyPressed _ key ih => exact hmoves ih (moves_keyPressed _ key)
  | click _ id ih => exact hmoves ih (moves_click _ id)
  | answerQuestion _ answer ih => exact hmoves ih (Move.answer answer).moves
  | step _ fuel hf ih => exact hmoves ih (ih.1.goes hgood (goes_step fuel ih.2.1) hf)

end

end Engine

end Blockwork
