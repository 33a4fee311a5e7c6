import Blockwork.Proofs.Engine.Moves

/-!
The loop that gives the threads their slices, turn by turn. It goes along the table of threads, which
may grow and shrink meanwhile: a thread that is finished is passed over, another one has its slice, and
what was asked for is handled before the loop goes on.
-/

namespace Blockwork.Engine

/-- The loop between two turns: the position of the next thread, and the requests to handle before. -/
structure Moment where
  position : Nat
  todo : List Request
  engine : Engine

/-- What the loop does at a time. -/
inductive Turn where
  /-- A thread has its slice, and this is what it asks for. -/
  | slice (id : ThreadId) (asked : List Request)
  /-- A thread that is finished is passed over. -/
  | pass
  | handle (r : Request)

/-- One turn of the loop. A slice that is given up leads nowhere. -/
inductive Tick (fuel : Nat) : Moment → Turn → Moment → Prop
  | slice {i : Nat} {e : Engine} {t : Thread} (ht : e.threads[i]? = some t)
      (hf : t.isFinished = false) (hrun : (t.run fuel e.world).1.machine.isFaulted = false) :
      Tick fuel ⟨i, [], e⟩ (.slice t.id (t.run fuel e.world).2.requests)
        ⟨i + 1, (t.run fuel e.world).2.requests, { e with
          world := { (t.run fuel e.world).2 with requests := [] }
          threads := e.threads.set i (t.run fuel e.world).1 }⟩
  | pass {i : Nat} {e : Engine} {t : Thread} (ht : e.threads[i]? = some t)
      (hf : t.isFinished = true) :
      Tick fuel ⟨i, [], e⟩ .pass
        ⟨i + 1, e.world.requests, { e with world := { e.world with requests := [] } }⟩
  | handle {i : Nat} (r : Request) (rs : List Request) (e : Engine) :
      Tick fuel ⟨i, r :: rs, e⟩ (.handle r) ⟨i, rs, e.handle r⟩

/-- The turns that lead from one moment to another. -/
inductive Loop (fuel : Nat) : Moment → List Turn → Moment → Prop
  | nil (x : Moment) : Loop fuel x [] x
  | cons {x y z : Moment} {a : Turn} {as : List Turn} (h : Tick fuel x a y) (k : Loop fuel y as z) :
      Loop fuel x (a :: as) z

/-- No thread is left, and nothing to handle. -/
def Moment.IsOver (x : Moment) : Prop := x.todo = [] ∧ x.engine.threads[x.position]? = none

section

variable {fuel : Nat} {x y z : Moment} {as bs : List Turn} {e : Engine}

lemma Loop.append (h : Loop fuel x as y) (k : Loop fuel y bs z) : Loop fuel x (as ++ bs) z := by
  induction h with
  | nil x => exact k
  | cons h _ ih => exact .cons h (ih k)

lemma loop_handle (i : Nat) (rs : List Request) (e : Engine) :
    Loop fuel ⟨i, rs, e⟩ (rs.map .handle) ⟨i, [], rs.foldl handle e⟩ := by
  induction rs generalizing e with
  | nil => exact .nil _
  | cons r rs ih => exact .cons (.handle r rs e) (ih _)

lemma fault_handleRequests (e : Engine) : e.handleRequests.fault = e.fault :=
  (moves_handleRequests e).frame.2.1

/-- What the loop over the threads does, it does turn by turn. -/
lemma exists_loop {turns i : Nat} (he : e.fault = none)
    (hnone : (runThreads fuel turns i e).fault = none) :
    ∃ as n, Loop fuel ⟨i, [], e⟩ as ⟨n, [], runThreads fuel turns i e⟩ ∧
      (runThreads fuel turns i e).threads[n]? = none := by
  induction turns generalizing i e with
  | zero => cases hnone
  | succ turns ih =>
    rw [runThreads] at hnone ⊢
    cases ht : e.threads[i]? with
    | none => exact ⟨[], i, .nil _, ht⟩
    | some t =>
      simp only [ht] at hnone ⊢
      cases hfin : t.isFinished with
      | true =>
        simp only [hfin, if_true, he, Option.isSome_none, Bool.false_eq_true, if_false] at hnone ⊢
        obtain ⟨as, n, hloop, hend⟩ := ih ((fault_handleRequests e).trans he) hnone
        exact ⟨_, n, .cons (.pass ht hfin) ((loop_handle _ _ _).append hloop), hend⟩
      | false =>
        simp only [hfin, Bool.false_eq_true, if_false] at hnone ⊢
        cases hrun : (t.run fuel e.world).1.machine.isFaulted with
        | true =>
          obtain ⟨f, hf⟩ := exists_fault hrun
          have hnoted : (e.runThread fuel i t).fault = some f := fault_noteFault hf
          simp [hnoted] at hnone
        | false =>
          have heq : e.runThread fuel i t = { e with
              world := (t.run fuel e.world).2
              threads := e.threads.set i (t.run fuel e.world).1 } := noteFault_eq hrun
          have hnoted : (e.runThread fuel i t).fault = none := by rw [heq]; exact he
          simp only [hnoted, Option.isSome_none, Bool.false_eq_true, if_false] at hnone ⊢
          obtain ⟨as, n, hloop, hend⟩ := ih ((fault_handleRequests _).trans hnoted) hnone
          rw [heq] at hloop hend ⊢
          exact ⟨_, n, .cons (.slice ht hfin hrun) ((loop_handle _ _ _).append hloop), hend⟩

/-- The end of a frame: those who wait are looked after, and the finished threads are swept away. -/
def settled (e : Engine) : Engine :=
  { e.resolveWaits with threads := e.resolveWaits.threads.filter (!·.isFinished) }

/-- A frame evaluates the conditions, goes through the loop and settles the rest. -/
lemma exists_loop_step (he : e.fault = none) (hnone : (e.step fuel).fault = none) :
    (e.evaluateEdges fuel).fault = none ∧ ∃ as z, Loop fuel ⟨0, [], e.evaluateEdges fuel⟩ as z ∧
      z.IsOver ∧ e.step fuel = z.engine.settled := by
  unfold step at hnone ⊢
  simp only [he, Option.isSome_none, Bool.false_eq_true, if_false] at hnone ⊢
  split at hnone
  · next hsome => simp [hnone] at hsome
  next hedges =>
  split at hnone
  · next hsome => simp [hnone] at hsome
  next hthreads =>
  have hfault : (e.evaluateEdges fuel).fault = none := by simpa using hedges
  obtain ⟨as, n, hloop, hend⟩ := exists_loop hfault (by simpa using hthreads)
  refine ⟨hfault, as, _, hloop, ⟨rfl, hend⟩, ?_⟩
  rw [if_neg hedges, if_neg hthreads]
  rfl

end

end Blockwork.Engine
