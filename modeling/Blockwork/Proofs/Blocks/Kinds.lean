import Blockwork.Compile.Emit
import Blockwork.Palette.Builtin
import Blockwork.Proofs.Blocks.Graph

/-!
Kinds of blocks. A reporter gives a value, a command does something; what is neither, a hat or a
kind without a recipe, gives nothing and does nothing. In a well-kinded map reporters stand in
inputs and commands in stacks.
-/

namespace Blockwork

deriving instance DecidableEq for Value, Recipe.Step, Recipe

/-- The functions that the block with a choice of functions offers. -/
inductive MathChoice where
  | unary (f : UnaryOp)
  | other (f : MathFunction)
  deriving Repr, DecidableEq

namespace MathChoice

def table : List (String × MathChoice) := [
  ("abs", .unary .abs), ("floor", .unary .floor), ("ceiling", .unary .ceiling),
  ("sqrt", .unary .sqrt), ("sin", .unary .sin), ("cos", .unary .cos), ("tan", .unary .tan),
  ("asin", .unary .asin), ("acos", .unary .acos), ("atan", .unary .atan), ("ln", .other .ln),
  ("log", .other .log), ("e ^", .other .exp), ("10 ^", .other .tenPower)]

/-- The last step of the recipe, after the input. -/
def step : MathChoice → Recipe.Step
  | .unary f => .emit (.unary f)
  | .other f => .call (.math f)

/-- The steps for each, under the numbers of the options. -/
def options : List (Nat × List Recipe.Step) :=
  table.zipIdx.map fun e => (e.2, [.input "NUM", e.1.2.step])

end MathChoice

/-- What the reporters are. -/
inductive Reporter where
  | unary (input : String) (f : UnaryOp)
  | binary (first second : String) (f : BinaryOp)
  | random (low high : String)
  /-- A function of one number, chosen by a field. -/
  | math
  | reading (r : Reading)
  | keyPressed
  /-- An attribute of a named target. -/
  | attributeOf
  | var
  | list (inputs : List String) (op : ListOp)
  /-- An argument of a custom block; outside of one it has a fixed value. -/
  | argument (outside : Value)
  deriving DecidableEq

namespace Reporter

def table : List (String × Reporter) := [
  ("motion_xposition", .reading .xPosition), ("motion_yposition", .reading .yPosition),
  ("motion_direction", .reading .direction),
  ("operator_add", .binary "NUM1" "NUM2" .add),
  ("operator_subtract", .binary "NUM1" "NUM2" .subtract),
  ("operator_multiply", .binary "NUM1" "NUM2" .multiply),
  ("operator_divide", .binary "NUM1" "NUM2" .divide),
  ("operator_mod", .binary "NUM1" "NUM2" .modulo),
  ("operator_random", .random "FROM" "TO"),
  ("operator_round", .unary "NUM" .round),
  ("operator_mathop", .math),
  ("operator_gt", .binary "OPERAND1" "OPERAND2" .greater),
  ("operator_lt", .binary "OPERAND1" "OPERAND2" .less),
  ("operator_equals", .binary "OPERAND1" "OPERAND2" .equal),
  ("operator_and", .binary "OPERAND1" "OPERAND2" .and),
  ("operator_or", .binary "OPERAND1" "OPERAND2" .or),
  ("operator_not", .unary "OPERAND" .not),
  ("operator_join", .binary "STRING1" "STRING2" .join),
  ("operator_letter_of", .binary "STRING" "LETTER" .letter),
  ("operator_length", .unary "STRING" .length),
  ("operator_contains", .binary "STRING1" "STRING2" .contains),
  ("sensing_answer", .reading .answer), ("sensing_timer", .reading .timer),
  ("sensing_mousex", .reading .mouseX), ("sensing_mousey", .reading .mouseY),
  ("sensing_mousedown", .reading .mouseDown), ("sensing_keypressed", .keyPressed),
  ("sensing_loudness", .reading .loudness), ("sensing_of", .attributeOf),
  ("data_variable", .var), ("data_itemoflist", .list ["INDEX"] .item),
  ("data_itemnumoflist", .list ["ITEM"] .indexOf), ("data_lengthoflist", .list [] .length),
  ("data_listcontainsitem", .list ["ITEM"] .contains), ("data_listcontents", .list [] .read),
  ("argument_reporter_string_number", .argument (.number 0)),
  ("argument_reporter_boolean", .argument (.bool false))]

def of? (opcode : String) : Option Reporter := table.lookup opcode

/-- How each is compiled. -/
def recipe : Reporter → Recipe
  | .unary a f => .unary a f
  | .binary a b f => .binary a b f
  | .random a b => .steps [.input a, .input b, .emit .random]
  | .math => .choose "OPERATOR" MathChoice.options [.const (.number 0)]
  | .reading r => .native [] (.reading r)
  | .keyPressed => .native ["KEY_OPTION"] .keyPressed
  | .attributeOf => .steps [.field "PROPERTY", .input "OBJECT", .call .attributeOf]
  | .var => .onVariable [] .read [.emit .null]
  | .list inputs op => .onList inputs op [.emit .null]
  | .argument outside => .argument outside

lemma recipe?_of_mem : ∀ e ∈ table, Palette.builtin.recipe? e.1 = some e.2.recipe := by
  decide

lemma recipe?_of_reporter {opcode : String} {r : Reporter} (h : of? opcode = some r) :
    Palette.builtin.recipe? opcode = some r.recipe :=
  recipe?_of_mem (opcode, r) (mem_of_lookup h)

end Reporter

namespace Palette

def isReporter (opcode : String) : Bool := (Reporter.of? opcode).isSome

/-- Has a recipe and gives no value. -/
def isCommand (opcode : String) : Bool := !isReporter opcode && (builtin.recipe? opcode).isSome

lemma recipe?_of_neither {opcode : String} (hc : isCommand opcode = false)
    (hr : Reporter.of? opcode = none) : builtin.recipe? opcode = none := by
  simpa [isCommand, isReporter, hr] using hc

end Palette

/-- The blocks that hold stacks of others. -/
def Block.isControl (b : Block) : Bool := (Palette.control.recipes.lookup b.opcode).isSome

/-- The inputs in which no value is evaluated. -/
def Block.holdsStack (b : Block) (name : String) : Bool :=
  b.isControl && (name == "SUBSTACK" || name == "SUBSTACK2") ||
    b.opcode == "procedures_definition" && name == "custom_block"

/-- The block that stands for an input. -/
def Source.id? : Source → Option String
  | .block id => some id
  | _ => none

/-- No command stands for the value of an input, and no reporter in a stack. -/
structure Block.WellKinded (blocks : BlockMap) (b : Block) : Prop where
  values : ∀ i ∈ b.inputs.entries, b.holdsStack i.1 = false →
    ∀ id ∈ (b.source blocks i.1).id?, ∀ x ∈ blocks.get? id, Palette.isCommand x.opcode = false
  bodies : b.isControl = true → ∀ name ∈ ["SUBSTACK", "SUBSTACK2"],
    ∀ id ∈ b.plugged? name, ∀ x ∈ blocks.get? id, Palette.isReporter x.opcode = false
  below : Palette.isReporter b.opcode = false →
    ∀ id ∈ b.next, ∀ x ∈ blocks.get? id, Palette.isReporter x.opcode = false

instance (blocks : BlockMap) (b : Block) : Decidable (b.WellKinded blocks) :=
  decidable_of_iff
    ((∀ i ∈ b.inputs.entries, b.holdsStack i.1 = false →
        ∀ id ∈ (b.source blocks i.1).id?, ∀ x ∈ blocks.get? id,
          Palette.isCommand x.opcode = false) ∧
      (b.isControl = true → ∀ name ∈ ["SUBSTACK", "SUBSTACK2"],
        ∀ id ∈ b.plugged? name, ∀ x ∈ blocks.get? id, Palette.isReporter x.opcode = false) ∧
      (Palette.isReporter b.opcode = false →
        ∀ id ∈ b.next, ∀ x ∈ blocks.get? id, Palette.isReporter x.opcode = false))
    ⟨fun ⟨h1, h2, h3⟩ => ⟨h1, h2, h3⟩, fun h => ⟨h.values, h.bodies, h.below⟩⟩

namespace BlockMap

/-- Every block of the map is well-kinded. -/
def WellKinded (blocks : BlockMap) : Prop := ∀ e ∈ blocks.entries, e.2.WellKinded blocks

instance (blocks : BlockMap) : Decidable blocks.WellKinded :=
  inferInstanceAs (Decidable (∀ e ∈ blocks.entries, e.2.WellKinded blocks))

/-- No command stands for the value of an input; what stands in stacks does not matter. -/
def ValuesKinded (blocks : BlockMap) : Prop :=
  ∀ e ∈ blocks.entries, ∀ i ∈ e.2.inputs.entries, e.2.holdsStack i.1 = false →
    ∀ id ∈ (e.2.source blocks i.1).id?, ∀ x ∈ blocks.get? id, Palette.isCommand x.opcode = false

instance (blocks : BlockMap) : Decidable blocks.ValuesKinded :=
  inferInstanceAs (Decidable (∀ e ∈ blocks.entries, ∀ i ∈ e.2.inputs.entries,
    e.2.holdsStack i.1 = false → ∀ id ∈ (e.2.source blocks i.1).id?, ∀ x ∈ blocks.get? id,
      Palette.isCommand x.opcode = false))

lemma WellKinded.values {blocks : BlockMap} (h : blocks.WellKinded) : blocks.ValuesKinded :=
  fun e he => (h e he).values

/-- What stands for the value of an input is no command. -/
lemma ValuesKinded.value {blocks : BlockMap} (h : blocks.ValuesKinded) {a : String} {b : Block}
    (hb : blocks.get? a = some b) {name id : String} (hn : b.holdsStack name = false)
    (hs : b.source blocks name = .block id) {x : Block} (hx : blocks.get? id = some x) :
    Palette.isCommand x.opcode = false := by
  obtain ⟨i, hi, -, -⟩ := Block.source_block hs
  exact h (a, b) (Dictionary.mem_of_get? hb) (name, i) hi hn id (by rw [hs]; rfl) x hx

lemma WellKinded.value {blocks : BlockMap} (h : blocks.WellKinded) {a : String} {b : Block}
    (hb : blocks.get? a = some b) {name id : String} (hn : b.holdsStack name = false)
    (hs : b.source blocks name = .block id) {x : Block} (hx : blocks.get? id = some x) :
    Palette.isCommand x.opcode = false :=
  h.values.value hb hn hs hx

end BlockMap

end Blockwork
