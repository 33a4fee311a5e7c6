import Blockwork.Promise
import Blockwork.Target.Arena
import Blockwork.World.Host

/-!
The world of a running project: everything a thread can touch.
-/

namespace Blockwork

/-- The settings of a project. -/
structure Config where
  stageWidth : Nat := 480
  stageHeight : Nat := 360
  /-- Frames in a second. -/
  frameRate : Nat := 30
  cloneLimit : Nat := 300
  deriving Repr, Inhabited

abbrev ThreadId := Nat

/-- What a thread asks of the engine, to be done when its slice is over. -/
inductive Request where
  | broadcast (name : String) (promise : Option Promise)
  /-- Start the scripts of a new clone. -/
  | startClone (clone : TargetId)
  | killThreadsOf (target : TargetId)
  | stopAll
  | stopOthers (target : TargetId) (except : ThreadId)
  deriving Repr, DecidableEq

structure Question where
  text : String
  target : TargetId
  /-- Resolved by the answer. -/
  promise : Promise
  /-- The sprite was visible when it asked, so a bubble shows the question. -/
  inBubble : Bool
  deriving Repr, DecidableEq

structure World where
  config : Config := {}
  targets : Arena := .empty
  host : Host := {}
  /-- The questions not yet answered; the first one is being asked. -/
  questions : List Question := []
  /-- The latest answer. -/
  answer : String := ""
  timerStart : Float := host.clock
  requests : List Request := []
  /-- The thread whose slice is running, or ran last. -/
  currentThread : ThreadId := 0
  promises : Promise.Ledger := .empty

namespace World

def timer (w : World) : Float := w.host.clock - w.timerStart

def resetTimer (w : World) : World := { w with timerStart := w.host.clock }

def request (w : World) (r : Request) : World := { w with requests := w.requests ++ [r] }

def draw (w : World) : Float × World :=
  let (x, host) := w.host.draw
  (x, { w with host })

def newPromise (w : World) : Promise × World :=
  let (p, promises) := w.promises.make
  (p, { w with promises })

def modifyTarget (w : World) (id : TargetId) (f : Target → Target) : World :=
  { w with targets := w.targets.modify id f }

/-- Shows a bubble on a live target, or takes it away when the text is empty. -/
def setBubble (w : World) (id : TargetId) (kind : BubbleKind) (text : String) : World :=
  match w.targets.get? id with
  | none => w
  | some t =>
    let t := t.say kind text
    { w with
      targets := w.targets.modify id fun _ => t
      host := w.host.tell (.bubble t.name t.bubble) }

/-! ### Clones -/

/-- Clones a sprite or a clone, unless there are too many clones already. The scripts of the new
clone are started by a request. -/
def createClone (w : World) (source : TargetId) : Option TargetId × World :=
  if w.config.cloneLimit ≤ w.targets.cloneCount then (none, w)
  else
    match w.targets.get? source with
    | none => (none, w)
    | some t =>
      if t.isStage then (none, w)
      else
        let (id, targets) := w.targets.insert (t.clone (t.cloneOf.getD source))
        (some id, { w with targets }.request (.startClone id))

/-- Deletes a clone; its threads are killed by a request. Targets that are no clones stay. -/
def deleteClone (w : World) (id : TargetId) : World :=
  match w.targets.get? id with
  | none => w
  | some t =>
    if t.isClone then
      let host := if t.bubble.isSome then w.host.tell (.bubble t.name none) else w.host
      { w with targets := w.targets.remove id, host }.request (.killThreadsOf id)
    else w

end World

end Blockwork
