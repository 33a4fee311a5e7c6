import Blockwork.Engine.Basic

/-!
Starting scripts, and running threads frame by frame.

In a frame every thread gets one slice, in the order in which they were started. What a thread
requested in its slice is done before the next thread runs.
-/

namespace Blockwork.Engine

/-! ### Starting scripts -/

/-- The targets that run the scripts of `root`: it and its clones. -/
def family (e : Engine) (root : TargetId) : List TargetId :=
  (e.world.targets.live.filter fun (id, t) => id == root || t.cloneOf == some root).map (·.1)

def isThreadOf (script : Nat) (target : TargetId) (t : Thread) : Bool :=
  !t.isFinished && t.target == target && t.script == script

/-- Starts a new thread. -/
def spawn (e : Engine) (index : Nat) (s : Script) (target : TargetId) : Engine :=
  let (t, world) := Thread.new e.nextThread index s.program target e.world
  { e with world, threads := e.threads ++ [t], nextThread := e.nextThread + 1 }

/-- Starts a script on a target. If it is running there already, it starts over or is left alone. -/
def startScript (e : Engine) (index : Nat) (s : Script) (target : TargetId) (restart : Bool) :
    Option ThreadId × Engine :=
  match e.threads.find? (isThreadOf index target) with
  | some t =>
    if restart then
      let (t', world) := t.restart e.world
      let threads := e.threads.set (e.threads.findIdx (isThreadOf index target)) t'
      (some t.id, { e with world, threads })
    else (none, e)
  | none => (some e.nextThread, e.spawn index s target)

/-- Starts a script on several targets. -/
def startOn (index : Nat) (s : Script) (restart : Bool) :
    List TargetId → Engine → List ThreadId × Engine
  | [], e => ([], e)
  | target :: rest, e =>
    let (id, e) := e.startScript index s target restart
    let (ids, e) := startOn index s restart rest e
    (id.toList ++ ids, e)

/-- Starts the scripts among those given whose hat satisfies `p`. -/
def startAmong (p : Hat → Bool) (only : Option TargetId) (restart : Bool) :
    List (Script × Nat) → Engine → List ThreadId × Engine
  | [], e => ([], e)
  | (s, index) :: rest, e =>
    let (ids, e) :=
      if p s.hat then
        let targets := (e.family s.target).filter fun id => only.all (· == id)
        startOn index s restart targets e
      else ([], e)
    let (ids', e) := startAmong p only restart rest e
    (ids ++ ids', e)

/-- Starts all scripts whose hat satisfies `p`, on all their targets or on one only. -/
def startHats (e : Engine) (p : Hat → Bool) (only : Option TargetId) (restart : Bool) :
    List ThreadId × Engine :=
  startAmong p only restart e.scripts.zipIdx e

/-- The green flag: everything stops, and the flag scripts start. -/
def start (e : Engine) : Engine :=
  let e := e.stop
  ({ e with world := e.world.resetTimer }.startHats (· == Hat.flag) none true).2

def keyPressed (e : Engine) (key : String) : Engine :=
  let matches? (h : Hat) : Bool :=
    match h with
    | .key k => k == key || k == "any"
    | _ => false
  (e.startHats matches? none false).2

def click (e : Engine) (id : TargetId) : Engine :=
  match e.world.targets.get? id with
  | none => e
  | some t =>
    let hat := if t.isStage then Hat.stageClick else Hat.spriteClick
    (e.startHats (· == hat) (some id) true).2

/-! ### Requests -/

def handle (e : Engine) : Request → Engine
  | .broadcast name promise =>
    let (receivers, e) := e.startHats (· == .broadcast (Text.lowercase name)) none true
    match promise with
    | some promise => { e with waits := e.waits ++ [⟨promise, receivers⟩] }
    | none => e
  | .startClone clone => (e.startHats (· == .cloneStart) (some clone) false).2
  | .killThreadsOf target =>
    let (threads, world) := killThreads (·.target == target) e.threads e.world
    { e with world, threads, edges := e.edges.filter (·.target != target) }
  | .stopAll => e.stop
  | .stopOthers target except =>
    let (threads, world) :=
      killThreads (fun t => t.target == target && t.id != except) e.threads e.world
    { e with world, threads }

/-- Does all that was requested, in order. Doing it makes no new requests. -/
def handleRequests (e : Engine) : Engine :=
  e.world.requests.foldl handle { e with world := { e.world with requests := [] } }

def broadcast (e : Engine) (name : String) : Engine :=
  { e with world := e.world.request (.broadcast name none) }.handleRequests

/-! ### Conditions of hats -/

def isEdgeOf (script : Nat) (target : TargetId) (h : EdgeHat) : Bool :=
  h.script == script && h.target == target

/-- The history for a script on a target; a new one starts with the condition false. -/
def edge (e : Engine) (index : Nat) (s : Script) (target : TargetId) : EdgeHat × Engine :=
  match e.edges.find? (isEdgeOf index target) with
  | some h => (h, e)
  | none =>
    let (t, world) := Thread.new e.nextThread index s.program target e.world
    let h : EdgeHat := ⟨index, target, false, t⟩
    (h, { e with world, nextThread := e.nextThread + 1, edges := e.edges ++ [h] })

/-- Notes a fault of a machine. -/
def noteFault (e : Engine) (m : Machine) : Engine :=
  match m.status with
  | .faulted f => { e with fault := some f }
  | _ => e

/-- Evaluates the condition of a hat on a target, and starts the script if it has become true. -/
def evaluateEdge (fuel : Nat) (index : Nat) (s : Script) (e : Engine) (target : TargetId) :
    Engine :=
  if e.fault.isSome then e
  else
    let (h, e) := e.edge index s target
    let (value, thread, world) := h.thread.runPredicate fuel e.world
    let edges := e.edges.map fun g =>
      if isEdgeOf index target g then { g with value, thread } else g
    let e := { e with world, edges }.noteFault thread.machine
    if e.fault.isNone && value && !h.value then (e.startScript index s target false).2 else e

def evaluateEdges (fuel : Nat) (e : Engine) : Engine :=
  e.scripts.zipIdx.foldl (fun e (s, index) =>
    if s.hat == .edge then (e.family s.target).foldl (evaluateEdge fuel index s) e else e) e

/-! ### Frames -/

/-- Gives one thread its slice. -/
def runThread (fuel : Nat) (e : Engine) (i : Nat) (t : Thread) : Engine :=
  let (t, world) := t.run fuel e.world
  { e with world, threads := e.threads.set i t }.noteFault t.machine

/-- Runs the threads from position `i` on; more may be started meanwhile. -/
def runThreads (fuel : Nat) : (turns i : Nat) → Engine → Engine
  | 0, _, e => { e with fault := some .overrun }
  | turns + 1, i, e =>
    match e.threads[i]? with
    | none => e
    | some t =>
      let e := if t.isFinished then e else e.runThread fuel i t
      if e.fault.isSome then e else runThreads fuel turns (i + 1) e.handleRequests

/-- Whether every receiver of a broadcast is done. -/
def isDone (threads : List Thread) (b : BroadcastWait) : Bool :=
  b.receivers.all fun id => ((threads.find? (·.id == id)).map (·.isFinished)).getD true

/-- Lets the senders go on whose receivers are done. -/
def resolveWaits (e : Engine) : Engine :=
  let promises := e.waits.foldl
    (fun ps b => if isDone e.threads b then ps.resolve b.promise else ps) e.world.promises
  let waits := e.waits.filter fun b => !isDone e.threads b && promises.isPending b.promise
  { e with world := { e.world with promises }, waits }

/-- Runs one frame. -/
def step (fuel : Nat) (e : Engine) : Engine :=
  if e.fault.isSome then e
  else
    let e := e.evaluateEdges fuel
    if e.fault.isSome then e
    else
      let e := runThreads fuel fuel 0 e
      if e.fault.isSome then e
      else
        let e := e.resolveWaits
        { e with threads := e.threads.filter (!·.isFinished) }

def runFrames (fuel : Nat) : (frames : Nat) → Engine → Engine
  | 0, e => e
  | frames + 1, e => runFrames fuel frames (e.step fuel)

/-- Runs frames until no thread is left, at most so many; tells whether none is left. -/
def runUntilIdle (fuel : Nat) : (frames : Nat) → Engine → Bool × Engine
  | 0, e => (!e.isRunning, e)
  | frames + 1, e =>
    if e.isRunning && e.fault.isNone then runUntilIdle fuel frames (e.step fuel)
    else (!e.isRunning, e)

end Blockwork.Engine
