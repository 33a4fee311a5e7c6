import Blockwork.Palette.Basic
import Blockwork.Program

/-!
The state of compiling the scripts of one target: the code of the current script, and the tables,
which only ever grow. An entry of a table is found again by its own notion of sameness, so every
operand that was handed out keeps its meaning.
-/

namespace Blockwork

/-- The position of an entry that is the same as `a`, entered at the end if there is none. -/
def intern {α : Type} (same : α → α → Bool) (a : α) (table : List α) : Nat × List α :=
  match table.findIdx? (same · a) with
  | some i => (i, table)
  | none => (table.length, table ++ [a])

structure Compiler where
  /-- The code of the current script so far. -/
  code : List Instruction := []
  tables : Tables := {}
  /-- The custom block whose body is compiled. -/
  signature : Option Signature := none
  /-- The signatures of custom blocks met so far. -/
  definitions : Dictionary Signature := {}
  /-- Compiling the body of a custom block that runs in warp. -/
  warp : Bool := false
  /-- The kinds of unsupported blocks met so far. -/
  unsupported : Dictionary Unit := {}

namespace Compiler

def new : Compiler := {}

/-- Emits an instruction without operand. -/
def emit (c : Compiler) (op : Opcode) : Compiler := { c with code := c.code ++ [⟨op, []⟩] }

/-- Emits an instruction with a position in a table. -/
def emitAt (c : Compiler) (op : Opcode) (index : Nat) : Compiler :=
  { c with code := c.code ++ [⟨op, [UInt32.ofNat index]⟩] }

def internConst (c : Compiler) (v : Value) : Nat × Compiler :=
  let (i, table) := intern Value.identical v c.tables.constants
  (i, { c with tables := { c.tables with constants := table } })

def sameId (a b : Reference) : Bool := a.id == b.id

def internVariable (c : Compiler) (r : Reference) : Nat × Compiler :=
  let (i, table) := intern sameId r c.tables.vars
  (i, { c with tables := { c.tables with vars := table } })

def internList (c : Compiler) (r : Reference) : Nat × Compiler :=
  let (i, table) := intern sameId r c.tables.lists
  (i, { c with tables := { c.tables with lists := table } })

/-- A custom block that is new has no body yet. -/
def internProcedure (c : Compiler) (code : String) : Nat × Compiler :=
  match c.tables.procedureCodes.findIdx? (· == code) with
  | some i => (i, c)
  | none =>
    (c.tables.procedureCodes.length,
      { c with tables := { c.tables with
          procedureCodes := c.tables.procedureCodes ++ [code]
          procedures := c.tables.procedures ++ [none] } })

def internNative (c : Compiler) (n : Native) : Nat × Compiler :=
  let (i, table) := intern (· == ·) n c.tables.natives
  (i, { c with tables := { c.tables with natives := table } })

def const (c : Compiler) (v : Value) : Compiler :=
  let (i, c) := c.internConst v
  c.emitAt .const i

def callNative (c : Compiler) (n : Native) : Compiler :=
  let (i, c) := c.internNative n
  c.emitAt .exec i

def variableOp (c : Compiler) (op : VariableOp) (r : Reference) : Compiler :=
  let (i, c) := c.internVariable r
  c.emitAt (.var op) i

def listOp (c : Compiler) (op : ListOp) (r : Reference) : Compiler :=
  let (i, c) := c.internList r
  c.emitAt (.list op) i

/-- The current script is the body of a custom block. -/
def define (c : Compiler) (s : Signature) : Compiler :=
  let (_, c) := c.internProcedure s.code
  { c with signature := some s, warp := s.warp, definitions := c.definitions.insert s.code s }

/-- Gives a custom block its body; the first one stays. -/
def install (c : Compiler) (s : Signature) (body : Code) : Compiler :=
  let (i, c) := c.internProcedure s.code
  match c.tables.procedures[i]? with
  | some none =>
    { c with tables := { c.tables with procedures := c.tables.procedures.set i (some body) } }
  | _ => c

end Compiler

end Blockwork
