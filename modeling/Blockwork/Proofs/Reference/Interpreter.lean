import Blockwork.Proofs.Blocks.Commands
import Blockwork.Proofs.Reference.Evaluator
import Mathlib.Algebra.Group.Nat.Defs

/-!
The meaning of commands, by walking the blocks: a stack is run from its first block along the
blocks below, a loop runs the stack inside it round by round, and a call runs the stack of a custom
block. There are no frames, jumps or slices. The walk need not end, so it is given a number of steps
and gives nothing when they are used up, or when it meets a command that is not covered here.
-/

namespace Blockwork

/-- How a stack ends: at its last block, or because the script was stopped. -/
inductive Ending where
  | done
  | stopped
  deriving Repr, DecidableEq

namespace Scene

def setVariable (s : Scene) (id : String) (v : Value) (w : World) : World :=
  { w with targets := w.targets.setVariable (s.varSlot id) v }

def changeVariable (s : Scene) (id : String) (v : Value) (w : World) : World :=
  { w with targets := w.targets.modifyVariable (s.varSlot id) fun x =>
      { x with value := .number (x.value.toNumber + v.toNumber) } }

def onList (s : Scene) (id : String) (f : ItemList → ItemList) (w : World) : World :=
  { w with targets := w.targets.modifyList (s.listSlot id) f }

/-- Below the head of a custom block its arguments have names. -/
def below (blocks : BlockMap) (s : Scene) (b : Block) : Scene :=
  { s with signature := (b.head? blocks).or s.signature }

end Scene

def Deed.apply (d : Deed) (target : TargetId) (values : List Value) (w : World) : World :=
  let a := values[0]?.getD .empty
  let b := values[1]?.getD .empty
  match d with
  | .move m => Native.runMotion m w target a.toNumber b.toNumber
  | .bubble kind => w.setBubble target kind a.toText
  | .appear visible => Native.onSprite w target fun t => { t with visible }

namespace Command

def onVariable (s : Scene) (id : String) (op : VariableOp) (values : List Value) (w : World) :
    World :=
  match op, values with
  | .set, [v] => s.setVariable id v w
  | .change, [v] => s.changeVariable id v w
  | _, _ => w

/-- A change of a list. A random index is drawn after the inputs are evaluated. -/
def onList (s : Scene) (id : String) (op : ListOp) (values : List Value) (w : World) : World :=
  match op, values with
  | .append, [v] => s.onList id (·.push v) w
  | .delete, [index] =>
    let (k, w) := Scene.place w index (s.listSize w id) true
    match k with
    | .item k => s.onList id (·.eraseAt k) w
    | .all => s.onList id (·.clear) w
    | .invalid => w
  | .deleteAll, [] => s.onList id (·.clear) w
  | .insert, [v, index] =>
    let (k, w) := Scene.place w index (s.listSize w id + 1) false
    match k with
    | .item k => s.onList id (·.insert k v) w
    | _ => w
  | .replace, [index, v] =>
    let (k, w) := Scene.place w index (s.listSize w id) false
    match k with
    | .item k => s.onList id (·.replace k v) w
    | _ => w
  | _, _ => w

end Command

/-! ### Loops -/

/-- Rounds of a loop: before each one a test may leave the loop. -/
def rounds (leave : World → Bool × World) (body : World → Option (Ending × World)) :
    (steps : Nat) → World → Option (Ending × World)
  | 0, _ => none
  | steps + 1, w =>
    let (left, w) := leave w
    if left then some (.done, w)
    else
      match body w with
      | some (.done, w) => rounds leave body steps w
      | r => r

/-- A loop without a test. -/
def noTest (w : World) : Bool × World := (false, w)

/-- So many rounds more, when some are done; the body is told how many. -/
def repeated (body : Nat → World → Option (Ending × World)) :
    (more done : Nat) → World → Option (Ending × World)
  | 0, _, w => some (.done, w)
  | more + 1, done, w =>
    match body done w with
    | some (.done, w) => repeated body more (done + 1) w
    | r => r

/-- How many rounds a number stands for: the nearest integer, and none if that is below one. -/
def roundsOf (x : Float) : Nat := Number.toNat (Number.round x)

/-- A loop with a number of rounds. It is followed for at most `2 ^ 53` of them, up to which doubles count
every one. -/
def counted (count : Nat) (body : Nat → World → Option (Ending × World)) (w : World) :
    Option (Ending × World) :=
  if count ≤ 2 ^ 53 then repeated body count 0 w
  else (repeated body (2 ^ 53) 0 w).filter (·.1 == .stopped)

section

variable (blocks : BlockMap)

/-- The value of an input. -/
def valueOf (s : Scene) (b : Block) (name : String) (w : World) : Value × World :=
  inputValue blocks s (evaluate blocks s) b name w

/-- The value of an input as a truth value. -/
def truthOf (s : Scene) (b : Block) (name : String) (w : World) : Bool × World :=
  let (v, w) := valueOf blocks s b name w
  (v.toBool, w)

/-- The arguments of a call, in the order of their ids; one that is left out has the default of
the definition. -/
def argumentsOf (s : Scene) (b : Block) (defaults : Signature) :
    List (String × Nat) → World → List Value × World
  | [], w => ([], w)
  | arg :: rest, w =>
    let (v, w) :=
      if (b.input? arg.1).isSome then valueOf blocks s b arg.1 w
      else (defaults.defaultArgument arg.2, w)
    let (vs, w) := argumentsOf s b defaults rest w
    (v :: vs, w)

/-- Runs one command, given how to run stacks. -/
def Command.run (stack : Scene → Option String → World → Option (Ending × World)) (steps : Nat)
    (s : Scene) (b : Block) (w : World) : Command → Option (Ending × World)
  | .branch =>
    let (t, w) := truthOf blocks s b "CONDITION" w
    if t then stack s (b.plugged? "SUBSTACK") w else some (.done, w)
  | .choice =>
    let (t, w) := truthOf blocks s b "CONDITION" w
    stack s (b.plugged? (if t then "SUBSTACK" else "SUBSTACK2")) w
  | .forever =>
    rounds noTest (stack s (b.plugged? "SUBSTACK")) steps w
  | .times =>
    let (v, w) := valueOf blocks s b "TIMES" w
    counted (roundsOf v.toNumber) (fun _ => stack s (b.plugged? "SUBSTACK")) w
  | .untilTrue =>
    rounds (truthOf blocks s b "CONDITION") (stack s (b.plugged? "SUBSTACK")) steps w
  | .whileTrue =>
    rounds (fun w => ((truthOf blocks s b "CONDITION" w).map (!·) id))
      (stack s (b.plugged? "SUBSTACK")) steps w
  | .forEach =>
    match b.field? Recipe.variableField with
    | none => some (.done, w)
    | some f =>
      let (v, w) := valueOf blocks s b "VALUE" w
      counted (roundsOf (UnaryOp.ceiling.apply v).toNumber)
        (fun done w => stack s (b.plugged? "SUBSTACK")
          (s.setVariable f.reference.id (.ofNat (done + 1)) w)) w
  | .var op =>
    match b.field? Recipe.variableField with
    | none => some (.done, w)
    | some f =>
      let (vs, w) := inputValues blocks s (evaluate blocks s) b ["VALUE"] w
      some (.done, onVariable s f.reference.id op vs w)
  | .list inputs op =>
    match b.field? Recipe.listField with
    | none => some (.done, w)
    | some f =>
      let (vs, w) := inputValues blocks s (evaluate blocks s) b inputs w
      some (.done, onList s f.reference.id op vs w)
  | .deed inputs d =>
    let (vs, w) := inputValues blocks s (evaluate blocks s) b inputs w
    some (.done, d.apply s.target vs w)
  | .stop =>
    if (b.fieldValue "STOP_OPTION").toText = "this script" then some (.stopped, w) else none
  | .head => some (.done, w)
  | .call =>
    match b.mutation with
    | none => some (.done, w)
    | some m =>
      let sig := Signature.ofMutation m
      let head := blocks.headOf? sig.code
      let defaults := (head.map (·.2)).getD sig
      let (args, w) := argumentsOf blocks s b defaults sig.argumentIds.zipIdx w
      match head with
      | none => some (.done, w)
      | some (id, _) =>
        -- a custom block that is stopped has only ended itself
        (stack { s with arguments := args } (some id) w).map fun r => (.done, r.2)

/-- Runs a block of a stack. Hats and kinds without a recipe do nothing there. -/
def runBlock (stack : Scene → Option String → World → Option (Ending × World)) (steps : Nat)
    (s : Scene) (b : Block) (w : World) : Option (Ending × World) :=
  if Palette.builtin.isHat b.opcode || (Palette.builtin.recipe? b.opcode).isNone then
    some (.done, w)
  else (Command.of? b.opcode).bind (Command.run blocks stack steps s b w)

/-- Runs the stack that starts with a block. -/
def runStack : (steps : Nat) → Scene → Option String → World → Option (Ending × World)
  | 0, _, _, _ => none
  | steps + 1, s, first, w =>
    match first.bind blocks.get? with
    | none => some (.done, w)
    | some b =>
      match runBlock blocks (runStack steps) steps s b w with
      | some (.done, w) => runStack steps (s.below blocks b) b.next w
      | r => r

end

end Blockwork
