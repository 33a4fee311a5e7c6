import Blockwork.Machine.Step

/-!
Threads: a script running on a target.
-/

namespace Blockwork

structure Thread where
  id : ThreadId
  /-- Which script of the engine it runs. -/
  script : Nat
  program : Program
  machine : Machine

namespace Thread

def new (id : ThreadId) (script : Nat) (p : Program) (target : TargetId) (w : World) :
    Thread × World :=
  let (machine, w) := Machine.new p target w
  (⟨id, script, p, machine⟩, w)

def target (t : Thread) : TargetId := t.machine.target

def isFinished (t : Thread) : Bool := t.machine.isFinished

/-- The promise it waits for. -/
def pendingPromise? (t : Thread) (w : World) : Option Promise :=
  t.machine.promise.filter w.promises.isPending

/-- Runs one slice. -/
def run (fuel : Nat) (t : Thread) (w : World) : Thread × World :=
  let (machine, w) := t.machine.run fuel t.program { w with currentThread := t.id }
  ({ t with machine }, w)

/-- Slices in a row, as long as the machine yields. -/
def slices (fuel : Nat) (p : Program) : (passes : Nat) → Machine → World → Machine × World
  | 0, m, w => (m, w)
  | passes + 1, m, w =>
    let (m, w) := m.run fuel p w
    if m.status == .yielded then slices fuel p passes m w else (m, w)

/-- How many slices a value may take. -/
def maxPasses : Nat := 1024

/-- Runs a routine to its end and gives the value it leaves, if it gets there. -/
def evaluate (fuel : Nat) (t : Thread) (entry : Routine) (w : World) :
    Option Value × Thread × World :=
  let w := { w with currentThread := t.id }
  let (m, w) := slices fuel t.program maxPasses (t.machine.reset entry) w
  let result := if m.isFinished then m.result? else none
  let m := if m.isFaulted then m else m.finish
  (result, { t with machine := m }, w)

/-- Evaluates the condition of a hat; without one it is false. -/
def runPredicate (fuel : Nat) (t : Thread) (w : World) : Bool × Thread × World :=
  if t.program.predicate.isNone then (false, t, w)
  else
    let (v, t, w) := t.evaluate fuel .predicate w
    (v.any Value.toBool, t, w)

/-- Evaluates a script that was compiled as a reporter. -/
def runReporter (fuel : Nat) (t : Thread) (w : World) : Value × Thread × World :=
  let (v, t, w) := t.evaluate fuel .main w
  (v.getD .empty, t, w)

/-- Cancels the promise it waits for, and with it the question. -/
def releasePromise (t : Thread) (w : World) : World :=
  match t.pendingPromise? w with
  | some p => { w with promises := w.promises.cancel p }.abortPromise p
  | none => w

def kill (t : Thread) (w : World) : Thread × World :=
  ({ t with machine := t.machine.finish }, t.releasePromise w)

/-- Starts over from the first block. -/
def restart (t : Thread) (w : World) : Thread × World :=
  ({ t with machine := t.machine.reset .main }, t.releasePromise w)

end Thread

end Blockwork
