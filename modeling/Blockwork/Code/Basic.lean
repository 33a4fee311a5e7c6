import Blockwork.Code.Opcode

/-!
Code: a sequence of words, read as instructions from the front up to the first word that is none.
-/

namespace Blockwork

structure Instruction where
  opcode : Opcode
  operands : List UInt32
  deriving Repr, DecidableEq

namespace Instruction

def words (i : Instruction) : List UInt32 := i.opcode.toWord :: i.operands

end Instruction

namespace Code

/-- Reads instructions up to the first word that is none. The last one may lack its operand. -/
def decode : List UInt32 → List Instruction
  | [] => []
  | w :: rest =>
    match Opcode.ofWord? w with
    | none => []
    | some op =>
      ⟨op, rest.take op.operandCount⟩ :: decode (rest.drop op.operandCount)
termination_by ws => ws.length
decreasing_by simp only [List.length_drop, List.length_cons]; omega

/-- The words of a list of instructions. -/
def encode (is : List Instruction) : List UInt32 := is.flatMap Instruction.words

/-- The instructions with their addresses, the first at `start`. -/
def addressed (start : Nat) : List Instruction → List (Nat × Opcode)
  | [] => []
  | i :: rest => (start, i.opcode) :: addressed (start + 1 + i.opcode.operandCount) rest

/-! ### Jumps

One pass over the instructions matches brackets. A branch jumps to its `otherwise` or `endBranch`,
an `otherwise` to its `endBranch`; what opens or tests a loop jumps to the loop's end.
-/

/-- What is still open, the innermost first, and the jumps found so far. -/
structure Scan where
  branches : List Nat
  /-- For each open loop the addresses that jump to its end. -/
  loops : List (List Nat)
  jumps : List (Nat × Nat)
  deriving Repr, DecidableEq

namespace Scan

def start : Scan := ⟨[], [], []⟩

/-- Lets the innermost open branch jump to `address`. -/
def closeBranch (s : Scan) (address : Nat) : Scan :=
  match s.branches with
  | [] => s
  | a :: rest => { s with branches := rest, jumps := (a, address) :: s.jumps }

def step (s : Scan) (at_ : Nat × Opcode) : Scan :=
  let (address, op) := at_
  match op with
  | .branch => { s with branches := address :: s.branches }
  | .otherwise =>
    let s := s.closeBranch address
    { s with branches := address :: s.branches }
  | .endBranch => s.closeBranch address
  | .untilTest =>
    match s.loops with
    | [] => s
    | l :: rest => { s with loops := (address :: l) :: rest }
  | .loopEnd =>
    match s.loops with
    | [] => s
    | l :: rest => { s with loops := rest, jumps := l.map (·, address) ++ s.jumps }
  | op => if op.opensLoop then { s with loops := [address] :: s.loops } else s

end Scan

/-- All jumps of a sequence of words. -/
def jumpsOf (words : List UInt32) : List (Nat × Nat) :=
  ((addressed 0 (decode words)).foldl Scan.step Scan.start).jumps

end Code

/-- Words with the jumps among them. -/
structure Code where
  words : Array UInt32
  jumps : List (Nat × Nat)
  deriving Repr, DecidableEq

namespace Code

def ofWords (words : Array UInt32) : Code := ⟨words, jumpsOf words.toList⟩

def size (c : Code) : Nat := c.words.size

def isEmpty (c : Code) : Bool := c.words.isEmpty

def jump? (c : Code) (address : Nat) : Option Nat := c.jumps.lookup address

def instructions (c : Code) : List Instruction := decode c.words.toList

end Code

end Blockwork
