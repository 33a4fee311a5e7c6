import Blockwork.Proofs.Machine.Flow
import Blockwork.Thread

/-!
Slices in a row. What a machine reaches by single steps and by going on when it gave way, it
reaches in slices, however long each of them may be, as long as it may be long enough.
-/

namespace Blockwork

/-! ### The thread whose slice is running -/

namespace World

@[simp] lemma currentThread_draw (w : World) : w.draw.2.currentThread = w.currentThread := rfl

@[simp] lemma currentThread_request (w : World) (r : Request) :
    (w.request r).currentThread = w.currentThread := rfl

@[simp] lemma currentThread_newPromise (w : World) :
    w.newPromise.2.currentThread = w.currentThread := rfl

@[simp] lemma currentThread_setBubble (w : World) (id : TargetId) (kind : BubbleKind)
    (text : String) : (w.setBubble id kind text).currentThread = w.currentThread := by
  unfold setBubble
  split <;> rfl

@[simp] lemma currentThread_ask (w : World) (target : TargetId) (text : String) (p : Promise) :
    (w.ask target text p).currentThread = w.currentThread := by
  unfold ask announce
  simp only
  split
  · split
    · rfl
    · split <;> simp
  · rfl

@[simp] lemma currentThread_createClone (w : World) (id : TargetId) :
    (w.createClone id).2.currentThread = w.currentThread := by
  unfold createClone
  repeat' split
  all_goals rfl

@[simp] lemma currentThread_deleteClone (w : World) (id : TargetId) :
    (w.deleteClone id).currentThread = w.currentThread := by
  unfold deleteClone
  repeat' split
  all_goals rfl

end World

lemma Native.currentThread_run (n : Native) (m : Machine) (w : World) (a b : Value) :
    (n.run m w a b).world.currentThread = w.currentThread := by
  cases n
  case control c => cases c <;> rfl
  all_goals
    simp only [run]
    repeat' split
  all_goals simp [suspend, onSprite, runMotion, World.modifyTarget, World.resetTimer]

namespace Machine

lemma currentThread_stepList (m : Machine) (w : World) (op : ListOp) (i : Nat) :
    (m.stepList w op i).2.currentThread = w.currentThread := by
  have hplace : ∀ (m : Machine) index extra all,
      (m.place w i index extra all).2.currentThread = w.currentThread := by
    intro m index extra all
    simp only [place]
    split <;> rfl
  have hon : ∀ (m : Machine) (w : World) f, (m.onList w i f).currentThread = w.currentThread := by
    intro m w f
    unfold onList
    split <;> rfl
  cases op <;> simp only [stepList] <;> repeat' split
  all_goals simp only [hplace, hon]

lemma currentThread_execute (p : Program) (code : Code) (address : Nat) (op : Opcode)
    (operand : Nat) (m : Machine) (w : World) :
    (execute p code address op operand m w).2.currentThread = w.currentThread := by
  cases op
  case list op => exact currentThread_stepList _ w op _
  case var op =>
    cases op <;> simp only [execute, stepVariable] <;> repeat' split
    all_goals rfl
  case exec =>
    simp only [execute, callNative]
    repeat' split
    all_goals first
      | rfl
      | exact Native.currentThread_run _ _ _ _ _
  all_goals
    simp only [execute]
    repeat' split
  all_goals rfl

lemma currentThread_step (p : Program) (m : Machine) (w : World) :
    (step p m w).2.currentThread = w.currentThread := by
  unfold step
  cases p.code? m.routine with
  | none => rfl
  | some code =>
    simp only
    cases code.words[m.address]?.bind Opcode.ofWord? with
    | none => rfl
    | some op => exact currentThread_execute _ _ _ _ _ _ _

lemma currentThread_run (fuel : Nat) (p : Program) (m : Machine) (w : World) :
    (m.run fuel p w).2.currentThread = w.currentThread := by
  have hsteps : ∀ (m : Machine) w, (steps p fuel m w).2.currentThread = w.currentThread := by
    induction fuel with
    | zero => exact fun _ _ => rfl
    | succ fuel ih =>
      intro m w
      rw [steps]
      split
      · exact (ih _ _).trans (currentThread_step p m w)
      · rfl
  unfold run
  split
  · exact hsteps _ _
  · rfl

/-! ### Slices -/

/-- One slice after the other. -/
def turns (fuel : Nat) (p : Program) (k : Nat) : Machine × World → Machine × World :=
  (fun x => x.1.run fuel p x.2)^[k]

/-- The rest of a slice, and what it is marked with. -/
def rest (fuel : Nat) (p : Program) (x : Machine × World) : Machine × World :=
  ((steps p fuel x.1 x.2).1.giveUp, (steps p fuel x.1 x.2).2)

lemma run_eq_rest {m : Machine} {w : World} (h : m.isReady w = true) (fuel : Nat) (p : Program) :
    m.run fuel p w = rest fuel p (m.wake, w) := by
  simp only [run, h, if_true, rest]

lemma turns_finished {fuel : Nat} {p : Program} {y : Machine × World}
    (hy : y.1.status = .finished) (k : Nat) : turns fuel p k y = y := by
  have hstay : y.1.run fuel p y.2 = y := by simp [run, isReady, hy]
  exact Function.iterate_fixed (f := fun x : Machine × World => x.1.run fuel p x.2) hstay k

/-- A machine that reaches its end gets there in slices that are long enough. -/
lemma turns_of_reaches {p : Program} {x y : Machine × World} (h : Reaches p x y)
    (hy : y.1.status = .finished) :
    ∃ n, ∀ now ≥ n, ∀ fuel ≥ n, ∀ k ≥ n, turns fuel p k (rest now p x) = y := by
  induction h using Relation.ReflTransGen.head_induction_on with
  | refl =>
    refine ⟨0, fun now _ fuel _ k _ => ?_⟩
    have hrest : rest now p y = y := by
      simp [rest, steps_of_not_running (by simp [hy] : y.1.status ≠ .running), giveUp, hy]
    rw [hrest, turns_finished hy]
  | @head x z hxz _ ih =>
    obtain ⟨n, hn⟩ := ih
    refine ⟨n + 1, fun now hnow fuel hfuel k hk => ?_⟩
    rcases hxz with ⟨hrun, rfl⟩ | ⟨hyield, rfl⟩
    · -- a step of the slice
      obtain ⟨now, rfl⟩ := Nat.exists_eq_add_of_le' (Nat.lt_of_lt_of_le n.succ_pos hnow)
      have hrest : rest (now + 1) p x = rest now p (step p x.1 x.2) := by
        simp [rest, steps, hrun]
      rw [hrest]
      exact hn now (by omega) fuel (by omega) k (by omega)
    · -- the slice is over, and the next one begins
      obtain ⟨k, rfl⟩ := Nat.exists_eq_add_of_le' (Nat.lt_of_lt_of_le n.succ_pos hk)
      have hrest : rest now p x = x := by
        simp [rest, steps_of_not_running (by simp [hyield] : x.1.status ≠ .running), giveUp, hyield]
      have hready : x.1.isReady x.2 = true := by simp [isReady, hyield]
      rw [hrest, turns, Function.iterate_succ_apply, run_eq_rest hready]
      exact hn fuel (by omega) fuel (by omega) k (by omega)

end Machine

namespace Thread

/-- One slice of a thread after the other. -/
def turns (fuel k : Nat) : Thread × World → Thread × World := (fun x => x.1.run fuel x.2)^[k]

lemma turns_eq (fuel k : Nat) (t : Thread) {w : World} (hw : w.currentThread = t.id) :
    turns fuel k (t, w) = ({ t with machine := (Machine.turns fuel t.program k (t.machine, w)).1 },
      (Machine.turns fuel t.program k (t.machine, w)).2) := by
  induction k generalizing t w with
  | zero => rfl
  | succ k ih =>
    have hset : { w with currentThread := t.id } = w := by rw [← hw]
    have hrun : t.run fuel w = ({ t with machine := (t.machine.run fuel t.program w).1 },
        (t.machine.run fuel t.program w).2) := by rw [run, hset]
    rw [turns, Function.iterate_succ_apply]
    simp only [hrun]
    refine (ih _ ?_).trans ?_
    · rw [Machine.currentThread_run, hw]
    · rfl

/-- A thread whose machine reaches its end from the start of a slice finishes. -/
lemma finishes_of_reaches {t : Thread} {w w' : World} {m : Machine}
    (h : Machine.Reaches t.program (t.machine, { w with currentThread := t.id }) (m, w'))
    (ht : t.machine.status = .running) (hm : m.status = .finished) :
    ∃ n, ∀ fuel ≥ n, ∀ k ≥ n,
      (turns fuel k (t, w)).1.isFinished = true ∧ (turns fuel k (t, w)).2 = w' := by
  obtain ⟨n, hn⟩ := Machine.turns_of_reaches h hm
  refine ⟨n + 1, fun fuel hfuel k hk => ?_⟩
  obtain ⟨k, rfl⟩ := Nat.exists_eq_add_of_le' (Nat.lt_of_lt_of_le n.succ_pos hk)
  have hset : turns fuel (k + 1) (t, w) = turns fuel (k + 1) (t, { w with currentThread := t.id }) := by
    simp only [turns, Function.iterate_succ_apply, run]
  have hready : t.machine.isReady { w with currentThread := t.id } = true := by
    simp [Machine.isReady, ht]
  have hend : Machine.turns fuel t.program (k + 1) (t.machine, { w with currentThread := t.id }) =
      (m, w') := by
    rw [Machine.turns, Function.iterate_succ_apply, Machine.run_eq_rest hready,
      Machine.wake_of_running ht]
    exact hn fuel (by omega) fuel (by omega) k (by omega)
  rw [hset, turns_eq fuel (k + 1) t rfl, hend]
  exact ⟨by simp [isFinished, Machine.isFinished, hm], rfl⟩

end Thread

end Blockwork
