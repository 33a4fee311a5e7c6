import Blockwork.Compile.Emit
import Blockwork.Palette.Builtin
import Blockwork.Project
import Blockwork.Thread

/-!
The engine: the world, the compiled scripts, and the threads that run them.
-/

namespace Blockwork

/-- What starts a script. -/
inductive Hat where
  | flag
  /-- The name in lowercase. -/
  | broadcast (name : String)
  | cloneStart
  | key (name : String)
  | spriteClick
  | stageClick
  /-- Starts when its condition becomes true. -/
  | edge
  deriving Repr, DecidableEq

def Hat.ofBlock (b : Block) : Hat :=
  let field name := (b.fieldValue name).toText
  match b.opcode with
  | "event_whenflagclicked" => .flag
  | "event_whenbroadcastreceived" => .broadcast (Text.lowercase (field "BROADCAST_OPTION"))
  | "control_start_as_clone" => .cloneStart
  | "event_whenkeypressed" => .key (field "KEY_OPTION")
  | "event_whenthisspriteclicked" => .spriteClick
  | "event_whenstageclicked" => .stageClick
  | _ => .edge

structure Script where
  hat : Hat
  /-- The target it belongs to; the clones of that target run it too. -/
  target : TargetId
  program : Program

/-- The history of the condition of a hat on a target. -/
structure EdgeHat where
  script : Nat
  target : TargetId
  /-- The condition when it was last evaluated. -/
  value : Bool
  /-- The thread that evaluates it. -/
  thread : Thread

/-- A broadcast whose sender waits for the receivers. -/
structure BroadcastWait where
  promise : Promise
  receivers : List ThreadId

structure Engine where
  world : World
  palette : Palette := .builtin
  scripts : List Script := []
  threads : List Thread := []
  nextThread : ThreadId := 0
  edges : List EdgeHat := []
  waits : List BroadcastWait := []
  unsupported : Dictionary Unit := {}
  /-- Set when a machine has done what no well-formed code does; nothing runs after that. -/
  fault : Option Machine.Fault := none

namespace Engine

def new (config : Config) (host : Host) : Engine where
  world := { config, host, timerStart := host.clock }

def isRunning (e : Engine) : Bool := e.threads.any (!·.isFinished)

/-- The question that is being asked. -/
def question? (e : Engine) : Option String := e.world.questions.head?.map (·.text)

def answerQuestion (e : Engine) (answer : String) : Engine :=
  { e with world := e.world.answerQuestion answer }

/-- The value of a target's variable of some name. -/
def valueOf? (e : Engine) (id : TargetId) (name : String) : Option Value :=
  ((e.world.targets.get? id).bind (·.variableNamed? name)).map (·.value)

/-- Kills the threads that satisfy `p`. -/
def killThreads (p : Thread → Bool) : List Thread → World → List Thread × World
  | [], w => ([], w)
  | t :: rest, w =>
    let (t, w) := if p t then t.kill w else (t, w)
    let (rest, w) := killThreads p rest w
    (t :: rest, w)

/-- Deletes all clones. -/
def deleteClones (w : World) : World := w.targets.ids.foldl World.deleteClone w

/-- Takes away all bubbles. -/
def clearBubbles (w : World) : World :=
  w.targets.ids.foldl (fun w id =>
    if (w.targets.get? id).any (·.bubble.isSome) then w.setBubble id .say "" else w) w

/-- Ends every thread and every wait, deletes all clones and takes away all bubbles. -/
def stop (e : Engine) : Engine :=
  let (_, w) := killThreads (fun _ => true) e.threads e.world
  let promises := e.waits.foldl (fun ps b => ps.cancel b.promise) w.promises
  let w := deleteClones { w with promises }
  let edges := e.edges.filter fun h => w.targets.contains h.target
  let w := clearBubbles w
  { e with world := { w with requests := [] }, threads := [], waits := [], edges }

/-! ### Scripts -/

/-- The ids of the top-level blocks that satisfy `p`, in the order of their keys. -/
def rootsWhere (p : Block → Bool) (blocks : BlockMap) : List (String × Block) :=
  blocks.entries.filter fun (_, b) => b.topLevel && p b

/-- Compiles the custom blocks of a target. -/
def compileDefinitions (palette : Palette) (blocks : BlockMap) (c : Compiler) : Compiler :=
  (rootsWhere (·.opcode == "procedures_definition") blocks).foldl
    (fun c (id, _) => (c.compile palette blocks id .script).2) c

/-- The code of a hat's script and of its condition, if it has one. -/
structure CompiledHat where
  hat : Hat
  main : Code
  predicate : Option Code

def compileHats (palette : Palette) (blocks : BlockMap) :
    List (String × Block) → Compiler → List CompiledHat × Compiler
  | [], c => ([], c)
  | (id, b) :: rest, c =>
    let (main, c) := c.compile palette blocks id .script
    let (predicate, c) :=
      if (palette.predicate? b.opcode).isSome then
        let (code, c) := c.compile palette blocks id .predicate
        (some code, c)
      else (none, c)
    let (hats, c) := compileHats palette blocks rest c
    (⟨Hat.ofBlock b, main, predicate⟩ :: hats, c)

/-- Compiles the scripts of one target. Custom blocks come first, so that calls find them. -/
def compileTarget (palette : Palette) (target : TargetId) (blocks : BlockMap) :
    List Script × Dictionary Unit :=
  let c := compileDefinitions palette blocks .new
  let (hats, c) := compileHats palette blocks
    (rootsWhere (palette.isHat ·.opcode) blocks) c
  (hats.map fun h => ⟨h.hat, target, ⟨h.main, h.predicate, c.tables⟩⟩, c.unsupported)

/-- Compiles all scripts anew. What is running is stopped. -/
def compile (e : Engine) : Engine :=
  let e := e.stop
  let compiled := (e.world.targets.live.filter (!·.2.isClone)).map fun (id, t) =>
    compileTarget e.palette id t.blocks
  { e with
    scripts := compiled.flatMap (·.1)
    edges := []
    unsupported := Dictionary.ofList (compiled.flatMap (·.2.entries)) }

/-- Adds the targets of a project and compiles their scripts. -/
def load (e : Engine) (text : String) : Except LoadError Engine :=
  (Project.read text).map fun targets =>
    { e with world := { e.world with
        targets := targets.foldl (fun a t => (a.insert t).2) e.world.targets } }.compile

end Engine

end Blockwork
