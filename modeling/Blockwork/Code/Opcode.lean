/-!
The instructions of the machine. An instruction is written as one word, followed by its operand if
it has one; the word is the instruction's position in `Opcode.table`.
-/

namespace Blockwork

/-- Takes one value and gives one. -/
inductive UnaryOp where
  | round | abs | floor | ceiling | sqrt | sin | cos | tan | asin | acos | atan
  | not | length
  deriving Repr, DecidableEq

/-- Takes two values and gives one. -/
inductive BinaryOp where
  | add | subtract | multiply | divide | modulo
  | greater | less | equal | and | or
  | join | letter | contains
  deriving Repr, DecidableEq

inductive VariableOp where
  | set | change | read
  deriving Repr, DecidableEq

inductive ListOp where
  | read | append | delete | deleteAll | insert | replace | item | indexOf | length | contains
  deriving Repr, DecidableEq

inductive Opcode where
  | start | halt
  /-- Pushes a constant. -/
  | const
  /-- Pushes the empty value. -/
  | null
  /-- Marks where a retry resumes. -/
  | checkpoint
  | branch | otherwise | endBranch
  | forever | times
  /-- Pushes the number of the current round, counted from one. -/
  | round
  /-- Leaves the loop if the popped value is true. -/
  | untilTest
  | untilLoop
  | loopEnd
  | unary (f : UnaryOp)
  | binary (f : BinaryOp)
  | random
  | var (op : VariableOp)
  | list (op : ListOp)
  /-- Calls a native. -/
  | exec
  | initProcedure | callProcedure | addArg | readArg
  /-- Gives way to other threads, unless in warp. -/
  | breakFrame
  | warp
  deriving Repr, DecidableEq

namespace Opcode

/-- All instructions with their names, in the order of their words. -/
def table : Array (Opcode × String) := #[
  (.start, "Start"), (.halt, "Halt"), (.const, "Const"), (.null, "Null"),
  (.checkpoint, "Checkpoint"), (.branch, "If"), (.otherwise, "Else"), (.endBranch, "EndIf"),
  (.forever, "ForeverLoop"), (.times, "RepeatLoop"), (.round, "RepeatLoopIndex1"),
  (.untilTest, "UntilLoop"), (.untilLoop, "BeginUntilLoop"), (.loopEnd, "LoopEnd"),
  (.binary .add, "Add"), (.binary .subtract, "Subtract"), (.binary .multiply, "Multiply"),
  (.binary .divide, "Divide"), (.binary .modulo, "Mod"), (.random, "Random"),
  (.unary .round, "Round"), (.unary .abs, "Abs"), (.unary .floor, "Floor"),
  (.unary .ceiling, "Ceil"), (.unary .sqrt, "Sqrt"), (.unary .sin, "Sin"),
  (.unary .cos, "Cos"), (.unary .tan, "Tan"), (.unary .asin, "Asin"), (.unary .acos, "Acos"),
  (.unary .atan, "Atan"), (.binary .greater, "GreaterThan"), (.binary .less, "LessThan"),
  (.binary .equal, "Equals"), (.binary .and, "And"), (.binary .or, "Or"), (.unary .not, "Not"),
  (.var .set, "SetVar"), (.var .change, "ChangeVar"), (.var .read, "ReadVar"),
  (.list .read, "ReadList"), (.list .append, "ListAppend"), (.list .delete, "ListDel"),
  (.list .deleteAll, "ListDelAll"), (.list .insert, "ListInsert"),
  (.list .replace, "ListReplace"), (.list .item, "ListGetItem"),
  (.list .indexOf, "ListIndexOf"), (.list .length, "ListLength"),
  (.list .contains, "ListContains"), (.binary .join, "StrConcat"), (.binary .letter, "StrAt"),
  (.unary .length, "StrLength"), (.binary .contains, "StrContains"), (.exec, "Exec"),
  (.initProcedure, "InitProcedure"), (.callProcedure, "CallProcedure"), (.addArg, "AddArg"),
  (.readArg, "ReadArg"), (.breakFrame, "BreakFrame"), (.warp, "Warp")
]

/-- The word of an instruction. -/
def number : Opcode → Nat
  | .start => 0 | .halt => 1 | .const => 2 | .null => 3 | .checkpoint => 4
  | .branch => 5 | .otherwise => 6 | .endBranch => 7
  | .forever => 8 | .times => 9 | .round => 10
  | .untilTest => 11 | .untilLoop => 12 | .loopEnd => 13
  | .binary .add => 14 | .binary .subtract => 15 | .binary .multiply => 16
  | .binary .divide => 17 | .binary .modulo => 18 | .random => 19
  | .unary .round => 20 | .unary .abs => 21 | .unary .floor => 22 | .unary .ceiling => 23
  | .unary .sqrt => 24 | .unary .sin => 25 | .unary .cos => 26 | .unary .tan => 27
  | .unary .asin => 28 | .unary .acos => 29 | .unary .atan => 30
  | .binary .greater => 31 | .binary .less => 32 | .binary .equal => 33
  | .binary .and => 34 | .binary .or => 35 | .unary .not => 36
  | .var .set => 37 | .var .change => 38 | .var .read => 39
  | .list .read => 40 | .list .append => 41 | .list .delete => 42 | .list .deleteAll => 43
  | .list .insert => 44 | .list .replace => 45 | .list .item => 46 | .list .indexOf => 47
  | .list .length => 48 | .list .contains => 49
  | .binary .join => 50 | .binary .letter => 51 | .unary .length => 52
  | .binary .contains => 53
  | .exec => 54 | .initProcedure => 55 | .callProcedure => 56 | .addArg => 57 | .readArg => 58
  | .breakFrame => 59 | .warp => 60

def toWord (op : Opcode) : UInt32 := UInt32.ofNat op.number

def ofWord? (w : UInt32) : Option Opcode := table[w.toNat]?.map (·.1)

def name (op : Opcode) : String := (table[op.number]?.map (·.2)).getD ""

def named? (name : String) : Option Opcode := (table.find? (·.2 == name)).map (·.1)

/-- How many words follow the instruction's own. -/
def operandCount : Opcode → Nat
  | .const | .var _ | .list _ | .exec | .callProcedure | .readArg => 1
  | _ => 0

/-- Starts a loop that ends with a `loopEnd`. -/
def opensLoop : Opcode → Bool
  | .forever | .times | .untilLoop => true
  | _ => false

@[simp] theorem ofWord?_toWord (op : Opcode) : ofWord? op.toWord = some op := by
  cases op with
  | unary f => cases f <;> rfl
  | binary f => cases f <;> rfl
  | var f => cases f <;> rfl
  | list f => cases f <;> rfl
  | _ => rfl

end Opcode

end Blockwork
