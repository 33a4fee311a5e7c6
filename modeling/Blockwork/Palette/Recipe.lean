import Blockwork.Code.Opcode
import Blockwork.Native

/-!
Recipes: how a block turns into code. A recipe is a list of steps, each of which evaluates an
input, compiles a stack of blocks, or emits an instruction; most blocks need nothing else.
-/

namespace Blockwork

/-- One step of compiling a block. -/
inductive Recipe.Step where
  /-- Evaluates an input. -/
  | input (name : String)
  /-- Evaluates an input as a truth value. -/
  | condition (name : String)
  /-- The stack in an input, once. -/
  | body (name : String)
  /-- The stack in an input, as the body of a loop. -/
  | loopBody (name : String)
  | emit (op : Opcode)
  | call (n : Native)
  | const (v : Value)
  /-- The value of a field as a constant. -/
  | field (name : String)
  /-- Enters the variable of the block into the table. -/
  | variableEntry
  /-- Enters the list of the block into the table. -/
  | listEntry
  /-- An instruction on the variable of the block. -/
  | var (op : VariableOp)
  /-- An instruction on the list of the block. -/
  | list (op : ListOp)

inductive Recipe where
  | steps (steps : List Recipe.Step)
  /-- Takes other steps when the block lacks a field. -/
  | needs (field : String) (steps otherwise : List Recipe.Step)
  /-- Chooses by the number of a field's option. -/
  | choose (field : String) (options : List (Nat × List Recipe.Step))
      (otherwise : List Recipe.Step)
  /-- The head of a custom block. -/
  | definition
  /-- A call of a custom block. -/
  | call
  /-- An argument of a custom block; outside of one it has a fixed value. -/
  | argument (outside : Value)

namespace Recipe

/-- The field that names the variable of a block. -/
def variableField : String := "VARIABLE"

/-- The field that names the list of a block. -/
def listField : String := "LIST"

/-- An instruction on the block's variable after some inputs. -/
def onVariable (inputs : List String) (op : VariableOp) (otherwise : List Step) : Recipe :=
  .needs variableField (.variableEntry :: inputs.map .input ++ [.var op]) otherwise

/-- An instruction on the block's list after some inputs. -/
def onList (inputs : List String) (op : ListOp) (otherwise : List Step) : Recipe :=
  .needs listField (.listEntry :: inputs.map .input ++ [.list op]) otherwise

def unary (a : String) (f : UnaryOp) : Recipe := .steps [.input a, .emit (.unary f)]

def binary (a b : String) (f : BinaryOp) : Recipe :=
  .steps [.input a, .input b, .emit (.binary f)]

/-- A native after its inputs. -/
def native (inputs : List String) (n : Native) : Recipe :=
  .steps (inputs.map .input ++ [.call n])

end Recipe

end Blockwork
