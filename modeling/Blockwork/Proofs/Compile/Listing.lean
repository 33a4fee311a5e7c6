import Blockwork.Proofs.Blocks.Graph
import Blockwork.Proofs.Compile.Tables

/-!
The listing of a script: its code line by line, each instruction with the block it was emitted for
and with the custom block and the mode that were in force when it was emitted. Compiling itself
keeps none of this; the listing follows it step by step, and its instructions are those that
compiling emits.
-/

namespace Blockwork

/-- An instruction with what the compiler knew when it was emitted. -/
structure Line where
  instruction : Instruction
  /-- The block it was emitted for; the frame of a script belongs to none. -/
  block : Option String
  /-- The custom block in whose body it stands. -/
  signature : Option Signature
  /-- The compiler was in warp mode. -/
  warp : Bool

namespace Line

def opcode (l : Line) : Opcode := l.instruction.opcode

end Line

namespace Recipe

/-- The steps by which a block is compiled, for the recipes that are lists of steps. -/
def plan? (palette : Palette) (b : Block) : Recipe → Option (List Step)
  | .steps ss => some ss
  | .needs field ss otherwise => some (if (b.field? field).isSome then ss else otherwise)
  | .choose field options otherwise =>
    let chosen := do
      let f ← b.field? field
      let n ← palette.option? field f.value.toText
      options.lookup n
    some (chosen.getD otherwise)
  | _ => none

end Recipe

namespace Compiler

/-! ### Inputs -/

/-- Evaluates what stands for an input. -/
def atSource (d : Descent) (c : Compiler) : Source → Compiler
  | .block id => d.value id c
  | .value v => c.const v
  | .var r => c.variableOp .read r
  | .list r => c.listOp .read r
  | .nothing => c.emit .null

lemma menuValue?_eq_menu? (b : Block) : menuValue? b = b.menu? := by
  unfold menuValue? Block.menu? Dictionary.size
  cases b.shadow with
  | false => rfl
  | true => rcases b.fields.entries with _ | ⟨e, _ | ⟨f, rest⟩⟩ <;> simp

lemma plug?_eq (d : Descent) (blocks : BlockMap) (c : Compiler) (p : Option Plug) :
    plug? d blocks c p = (p.bind (Plug.source? blocks)).map (atSource d c) := by
  rcases p with _ | (id | v | r | r | r)
  case some.block =>
    simp only [plug?, Option.bind_some, Plug.source?, Option.map_map]
    congr 1
    funext b
    rw [menuValue?_eq_menu?, Function.comp_apply]
    cases b.menu? <;> rfl
  all_goals rfl

lemma input_eq (d : Descent) (blocks : BlockMap) (b : Block) (name : String) (c : Compiler) :
    c.input d blocks b name = c.atSource d (b.source blocks name) := by
  unfold input Block.source
  cases b.input? name with
  | none => rfl
  | some i =>
    simp only [plug?_eq]
    cases i.value.bind (Plug.source? blocks) with
    | some s => rfl
    | none => cases i.shadow.bind (Plug.source? blocks) <;> rfl

/-! ### Lines -/

/-- The lines that were added for a block on the way from `c` to `c'`. -/
def added (id : Option String) (c c' : Compiler) : List Line :=
  (c'.code.drop c.code.length).map fun i => ⟨i, id, c'.signature, c'.warp⟩

lemma added_of_code {c c' : Compiler} {is : List Instruction} (h : c'.code = c.code ++ is)
    (id : Option String) : added id c c' = is.map fun i => ⟨i, id, c'.signature, c'.warp⟩ := by
  rw [added, h, List.drop_left]

/-- The lines of what a block refers to, beside the descent that compiles it. -/
structure Trace where
  value : String → Compiler → List Line
  stack : Option String → Compiler → List Line

section

variable (palette : Palette) (d : Descent) (t : Trace) (blocks : BlockMap) (id : String)
  (b : Block)

def inputLines (c : Compiler) (name : String) : List Line :=
  match b.source blocks name with
  | .block id' => t.value id' c
  | _ => added id c (c.input d blocks b name)

/-- The stack in an input begins with this block. -/
def bodyId? (name : String) : Option String := (pluggedBlock? blocks b name).map (·.id)

def stepLines (c : Compiler) : Recipe.Step → List Line
  | .input name => inputLines d t blocks id b c name
  | .condition name =>
    inputLines d t blocks id b c name ++
      added id (c.input d blocks b name) (c.condition palette d blocks b name)
  | .body name => t.stack (bodyId? blocks b name) c
  | .loopBody name =>
    t.stack (bodyId? blocks b name) c ++
      added id (c.body d blocks b name) (c.step palette d blocks b (.loopBody name))
  | s => added id c (c.step palette d blocks b s)

def stepsLines : Compiler → List Recipe.Step → List Line
  | _, [] => []
  | c, s :: ss =>
    stepLines palette d t blocks id b c s ++ stepsLines (c.step palette d blocks b s) ss

def argumentLines (defaults : Signature) (c : Compiler) (arg : String × Nat) : List Line :=
  if (b.input? arg.1).isSome then
    inputLines d t blocks id b c arg.1 ++
      added id (c.input d blocks b arg.1) (argument d blocks b defaults c arg)
  else added id c (argument d blocks b defaults c arg)

def argumentsLines (defaults : Signature) : Compiler → List (String × Nat) → List Line
  | _, [] => []
  | c, arg :: args =>
    argumentLines d t blocks id b defaults c arg ++
      argumentsLines defaults (argument d blocks b defaults c arg) args

def callLines (c : Compiler) : List Line :=
  match b.mutation with
  | none => []
  | some m =>
    let s := Signature.ofMutation m
    let (found, c) := c.definition blocks s.code
    let (i, c) := c.internProcedure s.code
    let started := c.emit .initProcedure
    let args := s.argumentIds.zipIdx
    let filled := args.foldl (argument d blocks b (found.getD s)) started
    added id c started ++ argumentsLines d t blocks id b (found.getD s) started args ++
      added id filled (filled.emitAt .callProcedure i)

def recipeLines (c : Compiler) (r : Recipe) : List Line :=
  match r with
  | .call => callLines d t blocks id b c
  | r =>
    match r.plan? palette b with
    | some ss => stepsLines palette d t blocks id b c ss
    | none => added id c (c.recipe palette d blocks b r)

end

def valueLines (palette : Palette) (d : Descent) (t : Trace) (blocks : BlockMap) (id : String)
    (c : Compiler) : List Line :=
  match blocks.get? id with
  | none => added id c (c.emit .null)
  | some b =>
    match palette.recipe? b.opcode with
    | some r => recipeLines palette d t blocks id b c r
    | none => added id c (c.value palette d blocks id)

def commandLines (palette : Palette) (d : Descent) (t : Trace) (blocks : BlockMap) (id : String)
    (b : Block) (c : Compiler) : List Line :=
  if palette.isHat b.opcode then []
  else
    match palette.recipe? b.opcode with
    | some r => recipeLines palette d t blocks id b c r
    | none => []

/-- The lines of what is followed to a bounded depth. -/
def trace (palette : Palette) (blocks : BlockMap) : (fuel : Nat) → Trace
  | 0 => ⟨fun _ _ => [], fun _ _ => []⟩
  | fuel + 1 =>
    let d := descend palette blocks fuel
    let t := trace palette blocks fuel
    { value := fun id c => valueLines palette d t blocks id c
      stack := fun first c =>
        match first with
        | none => []
        | some id =>
          match blocks.get? id with
          | none => []
          | some b =>
            commandLines palette d t blocks id b c ++
              t.stack b.next (c.command palette d blocks id b) }

def rootLines (palette : Palette) (blocks : BlockMap) (id : String) (mode : Mode) (c : Compiler) :
    List Line :=
  let d := descend palette blocks (depth blocks)
  let t := trace palette blocks (depth blocks)
  match mode with
  | .script => t.stack (some id) c
  | .reporter => t.value id c
  | .predicate =>
    match blocks.get? id with
    | none => added id c (c.emit .null)
    | some b =>
      match palette.predicate? b.opcode with
      | some r => recipeLines palette d t blocks id b c r
      | none => added id c (c.emit .null)

/-- Ready for a new script. -/
def fresh (c : Compiler) : Compiler := { c with code := [], signature := none, warp := false }

/-- The listing of one script. -/
def listing (c : Compiler) (palette : Palette) (blocks : BlockMap) (id : String) (mode : Mode) :
    List Line :=
  let started := c.fresh.emit .start
  let filled := started.root palette blocks id mode
  added none c.fresh started ++ rootLines palette blocks id mode started ++
    added none filled (filled.emit .halt)

end Compiler

end Blockwork
