import Blockwork.Palette.Recipe

/-!
The palette: what is known about each kind of block. A kind that no section lists is unsupported.
-/

namespace Blockwork

/-- A group of block kinds. -/
structure Section where
  name : String
  recipes : List (String × Recipe) := []
  /-- Those of the recipes that always give a truth value. -/
  booleans : List String := []
  /-- Kinds that start a script. -/
  hats : List String := []
  /-- Hats that start their script when a condition becomes true. -/
  predicates : List (String × Recipe) := []
  /-- The numbers of the options of fields. -/
  options : List ((String × String) × Nat) := []

structure Palette where
  sections : List Section

namespace Palette

def empty : Palette := ⟨[]⟩

def add (p : Palette) (s : Section) : Palette := ⟨p.sections ++ [s]⟩

def names (p : Palette) : List String := p.sections.map (·.name)

def recipe? (p : Palette) (opcode : String) : Option Recipe :=
  p.sections.findSome? (·.recipes.lookup opcode)

def predicate? (p : Palette) (opcode : String) : Option Recipe :=
  p.sections.findSome? (·.predicates.lookup opcode)

def isHat (p : Palette) (opcode : String) : Bool :=
  p.sections.any fun s => s.hats.contains opcode || (s.predicates.lookup opcode).isSome

def isBoolean (p : Palette) (opcode : String) : Bool :=
  p.sections.any (·.booleans.contains opcode)

def option? (p : Palette) (field value : String) : Option Nat :=
  p.sections.findSome? (·.options.lookup (field, value))

/-- Neither a hat nor a kind with a recipe. -/
def isUnsupported (p : Palette) (opcode : String) : Bool :=
  !p.isHat opcode && (p.recipe? opcode).isNone

end Palette

end Blockwork
