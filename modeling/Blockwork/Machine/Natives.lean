import Blockwork.Machine.Basic

/-!
What each native does. A native sees its inputs in the order in which they were evaluated, may
change the machine and its world, and says how to go on.
-/

namespace Blockwork

namespace Native

/-- How a native wants the slice to go on. -/
inductive Pause where
  | go
  /-- The slice ends. -/
  | yield
  /-- The slice ends, and the next one starts again from the checkpoint. -/
  | retry
  deriving Repr, DecidableEq

structure Reply where
  machine : Machine
  world : World
  /-- Pushed after the inputs are gone. -/
  value : Option Value := none
  pause : Pause := .go

/-- Changes a sprite; the stage does not move. -/
def onSprite (w : World) (id : TargetId) (f : Target → Target) : World :=
  w.modifyTarget id fun t => if t.isStage then t else f t

/-- A coordinate that is an integer but for a rounding error is taken for that integer. -/
def snap (x : Float) : Float :=
  let n := Number.nearest x
  if (x - n).abs < 1e-9 then n else x

def move (t : Target) (steps : Float) : Target :=
  let angle := (90 - t.direction) * Number.pi / 180
  { t with x := t.x + steps * angle.cos, y := t.y + steps * angle.sin }

def runMotion (m : Motion) (w : World) (id : TargetId) (a b : Float) : World :=
  onSprite w id fun t =>
    match m with
    | .steps => move t a
    | .turnRight => t.point (t.direction + a)
    | .turnLeft => t.point (t.direction - a)
    | .goTo => { t with x := a, y := b }
    | .setX => { t with x := a }
    | .setY => { t with y := a }
    | .changeX => { t with x := t.x + a }
    | .changeY => { t with y := t.y + a }
    | .point => t.point a

def MathFunction.apply (f : MathFunction) (x : Float) : Float :=
  match f with
  | .ln => x.log
  | .log => x.log10
  | .exp => x.exp
  | .tenPower => Float.pow 10 x

/-- Reads an attribute of a sprite; the stage has none. -/
def ofSprite (w : World) (id : TargetId) (f : Target → Float) : Value :=
  match w.targets.get? id with
  | some t => .number (if t.isStage then 0 else f t)
  | none => .number 0

def read (r : Reading) (w : World) (id : TargetId) : Value :=
  match r with
  | .xPosition => ofSprite w id fun t => snap t.x
  | .yPosition => ofSprite w id fun t => snap t.y
  | .direction => ofSprite w id (·.direction)
  | .answer => .text w.answer
  | .timer => .number w.timer
  | .mouseX => .number w.host.readMouseX
  | .mouseY => .number w.host.readMouseY
  | .mouseDown => .bool w.host.isMouseDown
  | .loudness => .number w.host.readLoudness

/-- An attribute of a target: its place or size if it is a sprite, else a variable of that name. -/
def attribute? (t : Target) (property : String) : Option Value :=
  let sprite :=
    if t.isStage then none
    else if property == "x position" then some (snap t.x)
    else if property == "y position" then some (snap t.y)
    else if property == "direction" then some t.direction
    else if property == "size" then some (Number.nearest t.size)
    else none
  match sprite with
  | some x => some (.number x)
  | none => (t.variableNamed? property).map (·.value)

/-- What is not found is zero. -/
def lookUp (w : World) (property object : String) : Value :=
  (((w.targets.find? object).bind w.targets.get?).bind (attribute? · property)).getD (.number 0)

/-- Waits for a new promise. -/
def suspend (m : Machine) (w : World) (p : Promise) : Reply :=
  ⟨{ m with promise := some p }, w, none, .go⟩

def startTimer (m : Machine) (w : World) (seconds : Float) : Machine :=
  { m with timer := some ⟨w.host.clock, seconds⟩ }

def runControl (c : Control) (m : Machine) (w : World) (a b : Value) : Reply :=
  match c with
  | .yield => ⟨m, w, none, .yield⟩
  | .yieldValue => ⟨m, w, some (.text "y"), .yield⟩
  | .retryUnless => ⟨m, w, none, if a.toBool then .go else .retry⟩
  | .join => ⟨m, w, some (.text (a.toText ++ "|" ++ b.toText)), .go⟩
  | .stop => ⟨m.stopScript, w, none, .go⟩
  | .finish => ⟨m.finish, w, none, .go⟩
  | .suspend =>
    let (p, w) := w.newPromise
    suspend m w p
  | .suspendSettled =>
    let (p, w) := w.newPromise
    suspend m { w with promises := w.promises.cancel p } p
  | .finishYield => ⟨m.finish, w, none, .yield⟩
  | .finishSuspend =>
    let (p, w) := w.newPromise
    suspend m.finish w p
  | .dropAll => ⟨m, w, none, .go⟩

/-- Runs a native on its inputs; `b` is the second one where there are two. -/
def run (n : Native) (m : Machine) (w : World) (a b : Value) : Reply :=
  match n with
  | .startWait => ⟨startTimer m w a.toNumber, w, none, .yield⟩
  | .wait =>
    if m.timer.any fun t => !t.hasElapsed w.host.clock then ⟨m, w, none, .retry⟩
    else ⟨{ m with timer := none }, w, none, .go⟩
  | .waitUntil => ⟨m, w, none, if a.toBool then .go else .retry⟩
  | .stopAll => ⟨m.finish, w.request .stopAll, none, .go⟩
  | .stopThisScript => ⟨m.stopScript, w, none, .go⟩
  | .stopOtherScripts => ⟨m, w.request (.stopOthers m.target w.currentThread), none, .go⟩
  | .createClone =>
    let source := if a.toText == "_myself_" then some m.target else w.targets.find? a.toText
    match source with
    | some id => ⟨m, (w.createClone id).2, none, .go⟩
    | none => ⟨m, w, none, .go⟩
  | .deleteClone =>
    if (w.targets.get? m.target).any (·.isClone) then
      ⟨m.finish, w.deleteClone m.target, none, .go⟩
    else ⟨m, w, none, .go⟩
  | .broadcast => ⟨m, w.request (.broadcast a.toText none), none, .go⟩
  | .broadcastAndWait =>
    let (p, w) := w.newPromise
    suspend m (w.request (.broadcast a.toText (some p))) p
  | .timerAbove => ⟨m, w, some (.bool (w.timer > a.toNumber)), .go⟩
  | .loudnessAbove => ⟨m, w, some (.bool (w.host.readLoudness > a.toNumber)), .go⟩
  | .bubble kind => ⟨m, w.setBubble m.target kind a.toText, none, .go⟩
  | .startBubble kind =>
    ⟨startTimer m w b.toNumber, w.setBubble m.target kind a.toText, none, .yield⟩
  | .clearBubble => ⟨m, w.setBubble m.target .say "", none, .go⟩
  | .setVisible visible => ⟨m, onSprite w m.target fun t => { t with visible }, none, .go⟩
  | .motion move => ⟨m, runMotion move w m.target a.toNumber b.toNumber, none, .go⟩
  | .math f => ⟨m, w, some (.number (MathFunction.apply f a.toNumber)), .go⟩
  | .reading r => ⟨m, w, some (read r w m.target), .go⟩
  | .resetTimer => ⟨m, w.resetTimer, none, .go⟩
  | .ask =>
    let (p, w) := w.newPromise
    suspend m (w.ask m.target a.toText p) p
  | .keyPressed => ⟨m, w, some (.bool (w.host.isKeyPressed a.toText)), .go⟩
  | .attributeOf => ⟨m, w, some (lookUp w a.toText b.toText), .go⟩
  | .print => ⟨m, { w with host := w.host.print a.toText }, none, .go⟩
  | .control c => runControl c m w a b

end Native

end Blockwork
