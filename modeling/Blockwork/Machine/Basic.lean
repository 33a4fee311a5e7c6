import Blockwork.Program
import Blockwork.World.Questions

/-!
The machine that runs one script for one target. It stops at the end of each slice and goes on
later from where it stopped, so all of its state is here.
-/

namespace Blockwork

namespace Machine

/-- What no well-formed code does. -/
inductive Fault where
  /-- A native lacks an input. -/
  | missingInput
  | badConstant
  | badNative
  /-- A slice that was given up. -/
  | overrun
  deriving Repr, DecidableEq

inductive Status where
  | running
  | yielded
  /-- Waits for a promise. -/
  | awaiting
  | finished
  | faulted (f : Fault)
  deriving Repr, DecidableEq

inductive LoopKind where
  /-- Some rounds are done out of a number of them, which need not be finite. -/
  | times (done : Nat) (count : Float)
  | until
  | forever

structure Loop where
  kind : LoopKind
  /-- Where a round begins. -/
  start : Nat

/-- An activation of a routine. -/
structure Call where
  routine : Routine
  /-- Where the caller goes on. -/
  returnTo : Nat := 0
  arguments : List Value := []
  warp : Bool := false
  /-- How many loops were open when it was called. -/
  openLoops : Nat := 0

/-- The clock of a timed wait. -/
structure Timer where
  start : Float
  duration : Float

def Timer.hasElapsed (t : Timer) (now : Float) : Bool := now - t.start ≥ t.duration

@[simp] theorem Timer.hasElapsed_mk (start duration now : Float) :
    (Timer.mk start duration).hasElapsed now = decide (now - start ≥ duration) := rfl

end Machine

structure Machine where
  target : TargetId
  /-- Where the variables and lists of the program live. -/
  vars : List Slot
  lists : List Slot
  address : Nat
  /-- The operands, the topmost first. -/
  stack : List Value
  /-- The open loops of all activations, the innermost first. -/
  loops : List Machine.Loop
  /-- The activations, the innermost first. The last one is the script itself. -/
  calls : List Machine.Call
  /-- The arguments gathered for calls to come, the innermost call first. -/
  pending : List (List Value)
  checkpoint : Option Nat
  /-- How many activations are in warp. -/
  warpDepth : Nat
  status : Machine.Status
  promise : Option Promise
  timer : Option Machine.Timer

namespace Machine

/-- At the start of a routine, with nothing done. -/
def reset (m : Machine) (entry : Routine) : Machine where
  target := m.target
  vars := m.vars
  lists := m.lists
  address := 0
  stack := []
  loops := []
  calls := [{ routine := entry }]
  pending := []
  checkpoint := none
  warpDepth := 0
  status := .running
  promise := none
  timer := none

/-- Finds a place for each reference in turn; missing ones are made. -/
def resolveAll (resolve : Arena → TargetId → Reference → Slot × Arena) (target : TargetId)
    (a : Arena) : List Reference → List Slot × Arena
  | [] => ([], a)
  | r :: rest =>
    let (s, a) := resolve a target r
    let (ss, a) := resolveAll resolve target a rest
    (s :: ss, a)

/-- A machine for a program on a target. -/
def new (p : Program) (target : TargetId) (w : World) : Machine × World :=
  let (vars, targets) := resolveAll Arena.resolveVariable target w.targets p.tables.vars
  let (lists, targets) := resolveAll Arena.resolveList target targets p.tables.lists
  let blank : Machine :=
    { target, vars, lists, address := 0, stack := [], loops := [], calls := [], pending := []
      checkpoint := none, warpDepth := 0, status := .running, promise := none, timer := none }
  (blank.reset .main, { w with targets })

def isFinished (m : Machine) : Bool := m.status == .finished

def isFaulted (m : Machine) : Bool :=
  match m.status with
  | .faulted _ => true
  | _ => false

def isWarp (m : Machine) : Bool := 0 < m.warpDepth

/-- The topmost operand, such as the result of a reporter. -/
def result? (m : Machine) : Option Value := m.stack.head?

/-- The routine that is running. -/
def routine (m : Machine) : Routine := (m.calls.head?.map (·.routine)).getD .main

def push (m : Machine) (v : Value) : Machine := { m with stack := v :: m.stack }

/-- The topmost operand, taken off; an empty stack gives the empty value. -/
def pop (m : Machine) : Value × Machine :=
  match m.stack with
  | [] => (.empty, m)
  | v :: rest => (v, { m with stack := rest })

/-- Ends the script. -/
def finish (m : Machine) : Machine :=
  { m with
    status := .finished
    loops := []
    calls := m.calls.getLast?.toList
    pending := []
    timer := none }

/-- Goes back to the caller; what the activation left open is closed. -/
def returnFrom (m : Machine) (c : Call) (rest : List Call) : Machine :=
  { m with
    calls := rest
    warpDepth := if c.warp then m.warpDepth - 1 else m.warpDepth
    loops := m.loops.drop (m.loops.length - c.openLoops)
    address := c.returnTo }

/-- Ends the innermost activation, or the script if there is no other. -/
def stopScript (m : Machine) : Machine :=
  match m.calls with
  | c :: d :: rest => m.returnFrom c (d :: rest)
  | _ => m.finish

def fault (m : Machine) (f : Fault) : Machine := { m with status := .faulted f }

end Machine

end Blockwork
