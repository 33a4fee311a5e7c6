import Blockwork.Block.Basic
import Blockwork.ItemList
import Blockwork.Number.Degrees

/-!
Targets: the stage, sprites and clones of sprites, each with its own variables and lists.
-/

namespace Blockwork

/-- A place in the arena, and how often the place had been given up when this id was issued. -/
structure TargetId where
  index : Nat
  generation : UInt32
  deriving Repr, DecidableEq, Inhabited

structure Variable where
  id : String
  name : String
  value : Value
  isCloud : Bool := false
  deriving Inhabited

inductive BubbleKind where
  | say | think
  deriving Repr, DecidableEq

structure Bubble where
  kind : BubbleKind
  text : String
  deriving Repr, DecidableEq

structure Target where
  name : String
  isStage : Bool
  blocks : BlockMap := {}
  vars : List Variable := []
  lists : List ItemList := []
  visible : Bool := !isStage
  x : Float := 0
  y : Float := 0
  size : Float := 100
  direction : Float := 90
  bubble : Option Bubble := none
  /-- For a clone, the sprite whose scripts it runs. -/
  cloneOf : Option TargetId := none

namespace Target

def isClone (t : Target) : Bool := t.cloneOf.isSome

def variableNamed? (t : Target) (name : String) : Option Variable :=
  t.vars.find? (·.name == name)

def listNamed? (t : Target) (name : String) : Option ItemList :=
  t.lists.find? (·.name == name)

/-- Shows a bubble; an empty text takes it away. -/
def say (t : Target) (kind : BubbleKind) (text : String) : Target :=
  { t with bubble := if text == "" then none else some ⟨kind, text⟩ }

def bubbleText (t : Target) : String := (t.bubble.map (·.text)).getD ""

/-- Turns to a direction; infinities and NaN are no directions. -/
def point (t : Target) (direction : Float) : Target :=
  if direction.isFinite then { t with direction := Number.wrapDirection direction } else t

/-- A copy that runs the scripts of `root`, without the bubble. -/
def clone (t : Target) (root : TargetId) : Target :=
  { t with bubble := none, cloneOf := some root }

end Target

end Blockwork
