import Blockwork.Block.Signature

/-!
Blocks: what a script is made of. A block names the blocks plugged into its inputs and the one
below it by id, so a script is spread over a map of blocks.
-/

namespace Blockwork

/-- Names a variable, a list or a broadcast. -/
structure Reference where
  name : String
  id : String
  deriving Repr, DecidableEq, Inhabited

/-- What sits in an input. -/
inductive Plug where
  | block (id : String)
  | value (v : Value)
  | broadcast (r : Reference)
  | var (r : Reference)
  | list (r : Reference)

inductive ShadowKind where
  | shadow | noShadow | obscured
  deriving Repr, DecidableEq

/-- An input, with the shadow that lies under what is plugged in. -/
structure Input where
  kind : ShadowKind := .shadow
  value : Option Plug := none
  shadow : Option Plug := none

structure Field where
  value : Value
  id : Option String := none

/-- A field without an id is referred to by its text. -/
def Field.reference (f : Field) : Reference :=
  ⟨f.value.toText, f.id.getD f.value.toText⟩

structure Block where
  id : String
  opcode : String
  next : Option String := none
  parent : Option String := none
  inputs : Dictionary Input := {}
  fields : Dictionary Field := {}
  shadow : Bool := false
  topLevel : Bool := false
  mutation : Option Mutation := none

namespace Block

def input? (b : Block) (name : String) : Option Input := b.inputs.get? name

def field? (b : Block) (name : String) : Option Field := b.fields.get? name

/-- The value of a field, empty when there is none. -/
def fieldValue (b : Block) (name : String) : Value :=
  match b.field? name with
  | some f => f.value
  | none => .empty

/-- The id of the block plugged into an input. -/
def plugged? (b : Block) (name : String) : Option String :=
  match (b.input? name).bind (·.value) with
  | some (.block id) => some id
  | _ => none

end Block

/-- The blocks of a target by id. -/
abbrev BlockMap := Dictionary Block

end Blockwork
