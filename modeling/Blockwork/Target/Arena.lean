import Blockwork.Target.Basic

/-!
The arena of targets. Places that were given up are used again, the last one first, under a new
generation, so the id of a deleted clone never finds the target that took its place.
-/

namespace Blockwork

/-- A place in the arena. -/
structure Arena.Entry where
  generation : UInt32
  target : Option Target

structure Arena where
  entries : List Arena.Entry
  /-- The places without a target, the next one to use first. -/
  free : List Nat

/-- Where a variable or a list lives: its owner and its position there. -/
structure Slot where
  target : TargetId
  index : Nat
  deriving Repr, DecidableEq, Inhabited

namespace Arena

def empty : Arena := ⟨[], []⟩

def insert (a : Arena) (t : Target) : TargetId × Arena :=
  match a.free with
  | i :: free =>
    let generation := (a.entries[i]?.map (·.generation)).getD 0
    (⟨i, generation⟩, ⟨a.entries.set i ⟨generation, some t⟩, free⟩)
  | [] => (⟨a.entries.length, 0⟩, ⟨a.entries ++ [⟨0, some t⟩], []⟩)

def get? (a : Arena) (id : TargetId) : Option Target :=
  match a.entries[id.index]? with
  | some e => if e.generation == id.generation then e.target else none
  | none => none

def contains (a : Arena) (id : TargetId) : Bool := (a.get? id).isSome

/-- Takes out a live target and gives up its place. -/
def take (a : Arena) (id : TargetId) : Option Target × Arena :=
  match a.get? id with
  | some t => (some t, ⟨a.entries.set id.index ⟨id.generation + 1, none⟩, id.index :: a.free⟩)
  | none => (none, a)

def remove (a : Arena) (id : TargetId) : Arena := (a.take id).2

/-- Changes a live target in place. -/
def modify (a : Arena) (id : TargetId) (f : Target → Target) : Arena :=
  match a.get? id with
  | some t => { a with entries := a.entries.set id.index ⟨id.generation, some (f t)⟩ }
  | none => a

/-- The number of places, used or free. -/
def capacity (a : Arena) : Nat := a.entries.length

/-- The live targets with their ids, in the order of their places. -/
def live (a : Arena) : List (TargetId × Target) :=
  a.entries.zipIdx.filterMap fun (e, i) => e.target.map fun t => (⟨i, e.generation⟩, t)

def ids (a : Arena) : List TargetId := a.live.map (·.1)

def size (a : Arena) : Nat := a.live.length

def isEmpty (a : Arena) : Bool := a.live.isEmpty

def stage? (a : Arena) : Option TargetId := (a.live.find? (·.2.isStage)).map (·.1)

/-- The target of a name, clones left aside; `_stage_` is the stage whatever its name. -/
def find? (a : Arena) (name : String) : Option TargetId :=
  if name == "_stage_" then a.stage?
  else (a.live.find? fun (_, t) => !t.isClone && t.name == name).map (·.1)

/-- The live target at a position, the stage being the first. -/
def at? (a : Arena) (i : Nat) : Option TargetId := (a.live[i]?).map (·.1)

def cloneCount (a : Arena) : Nat := a.live.countP (·.2.isClone)

/-! ### Variables and lists -/

def variableAt? (a : Arena) (s : Slot) : Option Variable :=
  (a.get? s.target).bind fun t => t.vars[s.index]?

def listAt? (a : Arena) (s : Slot) : Option ItemList :=
  (a.get? s.target).bind fun t => t.lists[s.index]?

def modifyVariable (a : Arena) (s : Slot) (f : Variable → Variable) : Arena :=
  a.modify s.target fun t => { t with vars := t.vars.modify s.index f }

def setVariable (a : Arena) (s : Slot) (v : Value) : Arena :=
  a.modifyVariable s fun x => { x with value := v }

def modifyList (a : Arena) (s : Slot) (f : ItemList → ItemList) : Arena :=
  a.modify s.target fun t => { t with lists := t.lists.modify s.index f }

/-- The owners that are asked for a variable or a list, in order. -/
def owners (a : Arena) (target : TargetId) : List TargetId := target :: a.stage?.toList

/-- The first owner that holds something at a position found by `position`. -/
def locate? (a : Arena) (target : TargetId) (position : Target → Option Nat) : Option Slot :=
  (a.owners target).findSome? fun owner =>
    ((a.get? owner).bind position).map fun i => ⟨owner, i⟩

/-- The owner of what has to be made anew. -/
def newOwner (a : Arena) (target : TargetId) : TargetId :=
  if a.contains target then target else a.stage?.getD target

/-- The slot of a variable: the target's own, else the stage's, else a new one on the target. -/
def resolveVariable (a : Arena) (target : TargetId) (r : Reference) : Slot × Arena :=
  match a.locate? target fun t => t.vars.findIdx? (·.id == r.id) with
  | some s => (s, a)
  | none =>
    let owner := a.newOwner target
    let index := ((a.get? owner).map (·.vars.length)).getD 0
    (⟨owner, index⟩, a.modify owner fun t =>
      { t with vars := t.vars ++ [⟨r.id, r.name, .number 0, false⟩] })

/-- The slot of a list, found or made in the same way. -/
def resolveList (a : Arena) (target : TargetId) (r : Reference) : Slot × Arena :=
  match a.locate? target fun t => t.lists.findIdx? (·.id == r.id) with
  | some s => (s, a)
  | none =>
    let owner := a.newOwner target
    let index := ((a.get? owner).map (·.lists.length)).getD 0
    (⟨owner, index⟩, a.modify owner fun t => { t with lists := t.lists ++ [.new r.id r.name] })

end Arena

end Blockwork
