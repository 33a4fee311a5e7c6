import Blockwork.Compile.Unsupported

/-!
Compiling blocks. A value leaves one value on the operand stack, a stack of blocks none.

Blocks refer to each other by id and are followed to a bounded depth. A block is met in one of two
ways, for its value or as part of a stack, and only in the second way does the one below it come
next. So no path without a repetition is longer than twice the number of blocks.
-/

namespace Blockwork

namespace Compiler

/-- How to compile what a block refers to. -/
structure Descent where
  /-- The block that gives a value. -/
  value : String → Compiler → Compiler
  /-- The stack that starts with a block. -/
  stack : Option String → Compiler → Compiler

/-- The field of a menu: a shadow block with a single field stands for its value. -/
def menuValue? (b : Block) : Option Value :=
  if b.shadow then
    match b.fields.entries with
    | [(_, f)] => some f.value
    | _ => none
  else none

/-- Compiles what sits in an input; `none` when there is nothing to compile. -/
def plug? (d : Descent) (blocks : BlockMap) (c : Compiler) : Option Plug → Option Compiler
  | none => none
  | some (.value v) => some (c.const v)
  | some (.broadcast r) => some (c.const (.text r.name))
  | some (.var r) => some (c.variableOp .read r)
  | some (.list r) => some (c.listOp .read r)
  | some (.block id) =>
    (blocks.get? id).map fun b =>
      match menuValue? b with
      | some v => c.const v
      | none => d.value id c

/-- Evaluates an input: what is plugged in, else the shadow under it, else the empty value. -/
def input (d : Descent) (blocks : BlockMap) (b : Block) (name : String) (c : Compiler) :
    Compiler :=
  match b.input? name with
  | none => c.emit .null
  | some i =>
    match plug? d blocks c i.value with
    | some c => c
    | none =>
      match plug? d blocks c i.shadow with
      | some c => c
      | none => c.emit .null

/-- The block plugged into an input. -/
def pluggedBlock? (blocks : BlockMap) (b : Block) (name : String) : Option Block :=
  (b.plugged? name).bind blocks.get?

/-- Evaluates an input as a truth value: what may give something else is negated twice. -/
def condition (palette : Palette) (d : Descent) (blocks : BlockMap) (b : Block) (name : String)
    (c : Compiler) : Compiler :=
  let c := c.input d blocks b name
  if (pluggedBlock? blocks b name).any fun p => palette.isBoolean p.opcode then c
  else (c.emit (.unary .not)).emit (.unary .not)

/-- Compiles the stack in an input. -/
def body (d : Descent) (blocks : BlockMap) (b : Block) (name : String) (c : Compiler) :
    Compiler :=
  d.stack ((pluggedBlock? blocks b name).map (·.id)) c

def step (palette : Palette) (d : Descent) (blocks : BlockMap) (b : Block) (c : Compiler) :
    Recipe.Step → Compiler
  | .input name => c.input d blocks b name
  | .condition name => c.condition palette d blocks b name
  | .body name => c.body d blocks b name
  | .loopBody name =>
    let c := c.body d blocks b name
    if c.warp then c else c.emit .breakFrame
  | .emit op => c.emit op
  | .call n => c.callNative n
  | .const v => c.const v
  | .field name => c.const (b.fieldValue name)
  | .variableEntry =>
    match b.field? Recipe.variableField with
    | some f => (c.internVariable f.reference).2
    | none => c
  | .listEntry =>
    match b.field? Recipe.listField with
    | some f => (c.internList f.reference).2
    | none => c
  | .var op =>
    match b.field? Recipe.variableField with
    | some f => c.variableOp op f.reference
    | none => c
  | .list op =>
    match b.field? Recipe.listField with
    | some f => c.listOp op f.reference
    | none => c

def steps (palette : Palette) (d : Descent) (blocks : BlockMap) (b : Block) (c : Compiler)
    (ss : List Recipe.Step) : Compiler :=
  ss.foldl (step palette d blocks b) c

/-! ### Custom blocks -/

/-- The kind of the block that carries the signature of a custom block. -/
def prototypeOpcode : String := "procedures_prototype"

/-- The first signature with a given code among the blocks. -/
def findSignature? (blocks : BlockMap) (code : String) : Option Signature :=
  blocks.entries.findSome? fun (_, b) =>
    if b.opcode == prototypeOpcode then
      (b.mutation.map Signature.ofMutation).filter (·.code == code)
    else none

/-- The signature of a custom block: one met before, else the first among the blocks. -/
def definition (c : Compiler) (blocks : BlockMap) (code : String) :
    Option Signature × Compiler :=
  match c.definitions.get? code with
  | some s => (some s, c)
  | none =>
    match findSignature? blocks code with
    | some s => (some s, { c with definitions := c.definitions.insert code s })
    | none => (none, c)

/-- Starts the body of a custom block. -/
def head (blocks : BlockMap) (b : Block) (c : Compiler) : Compiler :=
  match (pluggedBlock? blocks b "custom_block").bind (·.mutation) with
  | none => c
  | some m =>
    let s := Signature.ofMutation m
    let c := c.define s
    if s.warp then c.emit .warp else c

/-- Evaluates one argument of a call; one that is left out has the default of the definition. -/
def argument (d : Descent) (blocks : BlockMap) (b : Block) (defaults : Signature)
    (c : Compiler) (arg : String × Nat) : Compiler :=
  let c :=
    if (b.input? arg.1).isSome then c.input d blocks b arg.1
    else c.const (defaults.defaultArgument arg.2)
  c.emit .addArg

/-- Calls a custom block, the arguments evaluated in the order of their ids. -/
def call (d : Descent) (blocks : BlockMap) (b : Block) (c : Compiler) : Compiler :=
  match b.mutation with
  | none => c
  | some m =>
    let s := Signature.ofMutation m
    let (found, c) := c.definition blocks s.code
    let (i, c) := c.internProcedure s.code
    let c := s.argumentIds.zipIdx.foldl (argument d blocks b (found.getD s))
      (c.emit .initProcedure)
    c.emitAt .callProcedure i

/-- Reads an argument of the custom block that is being compiled. -/
def readArgument (b : Block) (outside : Value) (c : Compiler) : Compiler :=
  let name := (b.fieldValue "VALUE").toText
  match c.signature.bind (·.argumentIndex? name) with
  | some i => c.emitAt .readArg i
  | none => c.const outside

/-- Compiles a block by its recipe. -/
def recipe (palette : Palette) (d : Descent) (blocks : BlockMap) (b : Block) (c : Compiler) :
    Recipe → Compiler
  | .steps ss => c.steps palette d blocks b ss
  | .needs field ss otherwise =>
    c.steps palette d blocks b (if (b.field? field).isSome then ss else otherwise)
  | .choose field options otherwise =>
    let chosen := do
      let f ← b.field? field
      let n ← palette.option? field f.value.toText
      options.lookup n
    c.steps palette d blocks b (chosen.getD otherwise)
  | .definition => c.head blocks b
  | .call => c.call d blocks b
  | .argument outside => c.readArgument b outside

/-! ### Following blocks -/

/-- Compiles a block that should give a value. -/
def value (palette : Palette) (d : Descent) (blocks : BlockMap) (id : String) (c : Compiler) :
    Compiler :=
  match blocks.get? id with
  | none => c.emit .null
  | some b =>
    match palette.recipe? b.opcode with
    | some r => c.recipe palette d blocks b r
    | none => (c.markUnsupported palette blocks id).emit .null

/-- Compiles a block of a stack; hats do nothing there. -/
def command (palette : Palette) (d : Descent) (blocks : BlockMap) (id : String) (b : Block)
    (c : Compiler) : Compiler :=
  if palette.isHat b.opcode then c
  else
    match palette.recipe? b.opcode with
    | some r => c.recipe palette d blocks b r
    | none => c.markUnsupported palette blocks id

/-- Follows blocks to a bounded depth. -/
def descend (palette : Palette) (blocks : BlockMap) : (fuel : Nat) → Descent
  | 0 => ⟨fun _ c => c, fun _ c => c⟩
  | fuel + 1 =>
    let d := descend palette blocks fuel
    { value := fun id c => c.value palette d blocks id
      stack := fun first c =>
        match first with
        | none => c
        | some id =>
          match blocks.get? id with
          | none => c
          | some b => d.stack b.next (c.command palette d blocks id b) }

/-- What is compiled from a root block. -/
inductive Mode where
  /-- A stack of blocks, its hat passed over. -/
  | script
  /-- A block that gives a value. -/
  | reporter
  /-- The condition of a hat. -/
  | predicate
  deriving Repr, DecidableEq

/-- How deep blocks are followed: each may be met for its value and as part of a stack. -/
def depth (blocks : BlockMap) : Nat := 2 * blocks.size + 1

def root (palette : Palette) (blocks : BlockMap) (id : String) (mode : Mode) (c : Compiler) :
    Compiler :=
  let d := descend palette blocks (depth blocks)
  match mode with
  | .script => d.stack (some id) c
  | .reporter => d.value id c
  | .predicate =>
    match blocks.get? id with
    | none => c.emit .null
    | some b =>
      match palette.predicate? b.opcode with
      | some r => c.recipe palette d blocks b r
      | none => c.emit .null

/-- Compiles one script. If it defines a custom block, its code also becomes that block's body. -/
def compile (c : Compiler) (palette : Palette) (blocks : BlockMap) (id : String) (mode : Mode) :
    Code × Compiler :=
  let c := { c with code := [], signature := none, warp := false }
  let c := ((c.emit .start).root palette blocks id mode).emit .halt
  let code := Code.ofWords (Code.encode c.code).toArray
  let c :=
    match c.signature with
    | some s => c.install s code
    | none => c
  (code, { c with code := [], signature := none })

end Compiler

end Blockwork
