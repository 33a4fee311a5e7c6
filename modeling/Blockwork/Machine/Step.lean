import Blockwork.Machine.Natives
import Blockwork.Number.Between

/-!
One step of the machine, and slices made of steps.

A step reads the instruction at the current address of the running routine, moves the address past
it, and then does what the instruction says. A slice is a run of steps up to the first that does
not leave the machine running.
-/

namespace Blockwork

namespace UnaryOp

def onNumber (f : UnaryOp) (x : Float) : Float :=
  match f with
  | .round => Number.round x
  | .abs => x.abs
  | .floor => Number.floor x
  | .ceiling => Number.ceiling x
  | .sqrt => x.sqrt
  | .sin => Number.sin x
  | .cos => Number.cos x
  | .tan => Number.tan x
  | .asin => Number.asin x
  | .acos => Number.acos x
  | .atan => Number.atan x
  | _ => x

def apply (f : UnaryOp) (v : Value) : Value :=
  match f with
  | .not => .bool !v.toBool
  | .length => .ofNat v.toText.length
  | f => .number (f.onNumber v.toNumber)

end UnaryOp

namespace BinaryOp

/-- The letter at a position counted from one, empty when there is none. -/
def letterAt (s : String) (position : Float) : String :=
  let i := position - 1
  if i ≥ 0 then
    match s.toList[Number.toNat (Number.floor i)]? with
    | some c => String.singleton c
    | none => ""
  else ""

/-- Whether `part` stands somewhere in a text. -/
def occursIn (part : List Char) : List Char → Bool
  | [] => part.isEmpty
  | c :: rest => part.isPrefixOf (c :: rest) || occursIn part rest

/-- Whether a text contains another, without regard to case. -/
def containsText (s part : String) : Bool :=
  occursIn (Text.lowercase part).toList (Text.lowercase s).toList

def apply (f : BinaryOp) (a b : Value) : Value :=
  match f with
  | .add => a.add b
  | .subtract => a.subtract b
  | .multiply => a.multiply b
  | .divide => a.divide b
  | .modulo => a.modulo b
  | .greater => .bool (a.greater b)
  | .less => .bool (a.less b)
  | .equal => .bool (a.equal b)
  | .and => .bool (a.toBool && b.toBool)
  | .or => .bool (a.toBool || b.toBool)
  | .join => .text (a.toText ++ b.toText)
  | .letter => .text (letterAt a.toText b.toNumber)
  | .contains => .bool (containsText a.toText b.toText)

end BinaryOp

namespace Machine

/-! ### Variables and lists -/

def stepVariable (m : Machine) (w : World) (op : VariableOp) (i : Nat) : Machine × World :=
  let slot? := m.vars[i]?
  match op with
  | .read =>
    let x := (slot?.bind w.targets.variableAt?).map (·.value)
    (m.push (x.getD .empty), w)
  | .set =>
    let (v, m) := m.pop
    match slot? with
    | some s => (m, { w with targets := w.targets.setVariable s v })
    | none => (m, w)
  | .change =>
    let (v, m) := m.pop
    match slot? with
    | some s =>
      (m, { w with targets := w.targets.modifyVariable s fun x =>
        { x with value := .number (x.value.toNumber + v.toNumber) } })
    | none => (m, w)

def list? (m : Machine) (w : World) (i : Nat) : Option ItemList :=
  m.lists[i]?.bind w.targets.listAt?

def onList (m : Machine) (w : World) (i : Nat) (f : ItemList → ItemList) : World :=
  match m.lists[i]? with
  | some s => { w with targets := w.targets.modifyList s f }
  | none => w

/-- The place an index names in a list with `extra` places at its end. A random number is drawn
only if the index asks for one. -/
def place (m : Machine) (w : World) (i : Nat) (index : Value) (extra : Nat) (acceptAll : Bool) :
    ListIndex × World :=
  let length := ((m.list? w i).map (·.size)).getD 0 + extra
  if ListIndex.draws index length then
    let (r, w) := w.draw
    (ListIndex.resolve index length acceptAll r, w)
  else (ListIndex.resolve index length acceptAll 0, w)

def stepList (m : Machine) (w : World) (op : ListOp) (i : Nat) : Machine × World :=
  match op with
  | .read => (m.push (.text (((m.list? w i).map (·.toText)).getD "")), w)
  | .append =>
    let (v, m) := m.pop
    (m, m.onList w i (·.push v))
  | .delete =>
    let (index, m) := m.pop
    let (k, w) := m.place w i index 0 true
    (m, match k with
      | .item k => m.onList w i (·.eraseAt k)
      | .all => m.onList w i (·.clear)
      | .invalid => w)
  | .deleteAll => (m, m.onList w i (·.clear))
  | .insert =>
    let (index, m) := m.pop
    let (v, m) := m.pop
    let (k, w) := m.place w i index 1 false
    (m, match k with
      | .item k => m.onList w i (·.insert k v)
      | _ => w)
  | .replace =>
    let (v, m) := m.pop
    let (index, m) := m.pop
    let (k, w) := m.place w i index 0 false
    (m, match k with
      | .item k => m.onList w i (·.replace k v)
      | _ => w)
  | .item =>
    let (index, m) := m.pop
    let (k, w) := m.place w i index 0 false
    (m.push (match k with
      | .item k => ((m.list? w i).bind (·.get? k)).getD .empty
      | _ => .empty), w)
  | .indexOf =>
    let (v, m) := m.pop
    let k := ((m.list? w i).bind (·.indexOf? v)).map (· + 1)
    (m.push (.ofNat (k.getD 0)), w)
  | .length => (m.push (.ofNat (((m.list? w i).map (·.size)).getD 0)), w)
  | .contains =>
    let (v, m) := m.pop
    (m.push (.bool (((m.list? w i).map (·.contains v)).getD false)), w)

/-! ### Loops -/

def openLoop (m : Machine) (kind : LoopKind) : Machine :=
  { m with loops := ⟨kind, m.address⟩ :: m.loops }

/-- The rounds done in the innermost counted loop. -/
def roundsDone : List Loop → Nat
  | [] => 0
  | ⟨.times done _, _⟩ :: _ => done
  | _ :: rest => roundsDone rest

/-- The end of a round: back to the start of the loop, unless it was the last one. -/
def endRound (m : Machine) : Machine :=
  match m.loops with
  | [] => m
  | ⟨.times done count, start⟩ :: rest =>
    if Float.ofNat (done + 1) ≥ count then { m with loops := rest }
    else { m with loops := ⟨.times (done + 1) count, start⟩ :: rest, address := start }
  | ⟨_, start⟩ :: _ => { m with address := start }

/-! ### Calls -/

/-- Calls a custom block that has a body. A recursive call ends the slice, unless in warp. -/
def callProcedure (m : Machine) (p : Program) (i : Nat) : Machine :=
  let arguments := m.pending.head?.getD []
  let m := { m with pending := m.pending.tail }
  let routine := Routine.procedure i
  if (p.code? routine).isSome then
    let recursive := m.calls.any (·.routine == routine)
    let call : Call :=
      { routine, returnTo := m.address, arguments, openLoops := m.loops.length }
    { m with
      calls := call :: m.calls
      address := 0
      status := if recursive && m.warpDepth == 0 then .yielded else m.status }
  else m

def addArgument (m : Machine) : Machine :=
  let (v, m) := m.pop
  match m.pending with
  | [] => m
  | arguments :: rest => { m with pending := (arguments ++ [v]) :: rest }

def readArgument (m : Machine) (i : Nat) : Value :=
  (m.calls.head?.bind fun c => c.arguments[i]?).getD (.number 0)

/-- Puts the running activation into warp. -/
def enterWarp (m : Machine) : Machine :=
  match m.calls with
  | [] => m
  | c :: rest =>
    if c.warp then m
    else { m with calls := { c with warp := true } :: rest, warpDepth := m.warpDepth + 1 }

/-! ### Natives -/

/-- Goes on after a native as it asked for. `address` is where the call stands. A retry without a
checkpoint repeats the call itself, inputs and all. -/
def resume (address pops : Nat) (r : Native.Reply) : Machine :=
  let m := r.machine
  match r.pause, m.checkpoint with
  | .retry, none => { m with address, status := .yielded }
  | pause, checkpoint =>
    let m := { m with stack := m.stack.drop pops }
    let m := match r.value with
      | some v => m.push v
      | none => m
    let m := if pause == .retry then { m with address := checkpoint.getD address } else m
    if pause != .go && m.status == .running then { m with status := .yielded } else m

/-- A machine that is left with a pending promise waits for it. -/
def awaitPromise (m : Machine) (w : World) : Machine :=
  if m.status != .finished && m.promise.any w.promises.isPending then
    { m with status := .awaiting }
  else m

def callNative (m : Machine) (w : World) (n : Native) (address : Nat) : Machine × World :=
  if m.stack.length < n.arity then (m.fault .missingInput, w)
  else
    let inputs := (m.stack.take n.arity).reverse
    let r := n.run m w (inputs[0]?.getD .empty) (inputs[1]?.getD .empty)
    ((resume address n.pops r).awaitPromise r.world, r.world)

/-! ### Steps -/

/-- The address after the jump from `address`, if there is one; else the next address. -/
def jumpPast (m : Machine) (code : Code) (address : Nat) : Machine :=
  match code.jump? address with
  | some target => { m with address := target + 1 }
  | none => m

/-- Does an instruction that was read at `address`; the machine's own address is already past it. -/
def execute (p : Program) (code : Code) (address : Nat) (op : Opcode) (operand : Nat)
    (m : Machine) (w : World) : Machine × World :=
  match op with
  | .start | .endBranch => (m, w)
  | .halt => (m.stopScript, w)
  | .const =>
    match p.tables.constants[operand]? with
    | some v => (m.push v, w)
    | none => (m.fault .badConstant, w)
  | .null => (m.push .empty, w)
  | .checkpoint => ({ m with checkpoint := some m.address }, w)
  | .branch =>
    let (v, m) := m.pop
    (if v.toBool then m else m.jumpPast code address, w)
  | .otherwise => (m.jumpPast code address, w)
  | .forever => (m.openLoop .forever, w)
  | .times =>
    let (v, m) := m.pop
    let count := Number.round v.toNumber
    (if count ≥ 1 then m.openLoop (.times 0 count) else m.jumpPast code address, w)
  | .round => (m.push (.ofNat (roundsDone m.loops + 1)), w)
  | .untilLoop => (m.openLoop .until, w)
  | .untilTest =>
    let (v, m) := m.pop
    (if v.toBool then { m with loops := m.loops.tail }.jumpPast code address else m, w)
  | .loopEnd => (m.endRound, w)
  | .unary f =>
    let (v, m) := m.pop
    (m.push (f.apply v), w)
  | .binary f =>
    let (b, m) := m.pop
    let (a, m) := m.pop
    (m.push (f.apply a b), w)
  | .random =>
    let (b, m) := m.pop
    let (a, m) := m.pop
    let (r, w) := w.draw
    (m.push (a.between b r), w)
  | .var op => m.stepVariable w op operand
  | .list op => m.stepList w op operand
  | .exec =>
    match p.tables.natives[operand]? with
    | some n => m.callNative w n address
    | none => (m.fault .badNative, w)
  | .initProcedure => ({ m with pending := [] :: m.pending }, w)
  | .addArg => (m.addArgument, w)
  | .callProcedure => (m.callProcedure p operand, w)
  | .readArg => (m.push (m.readArgument operand), w)
  | .breakFrame => (if m.warpDepth == 0 then { m with status := .yielded } else m, w)
  | .warp => (m.enterWarp, w)

/-- One step. Past the end of the code, or at a word that is no instruction, the script stops. -/
def step (p : Program) (m : Machine) (w : World) : Machine × World :=
  match p.code? m.routine with
  | none => (m.stopScript, w)
  | some code =>
    let address := m.address
    match code.words[address]?.bind Opcode.ofWord? with
    | none => (m.stopScript, w)
    | some op =>
      let operand := (code.words[address + 1]?.getD 0).toNat
      execute p code address op operand { m with address := address + 1 + op.operandCount } w

/-- Steps while the machine is running; a machine that is still running at the end has used up the
fuel. -/
def steps (p : Program) : (fuel : Nat) → Machine → World → Machine × World
  | 0, m, w => (m, w)
  | fuel + 1, m, w =>
    if m.status == .running then
      let (m, w) := step p m w
      steps p fuel m w
    else (m, w)

/-- Whether a slice may start: a finished machine stays, and one that waits goes on when its
promise is settled. -/
def isReady (m : Machine) (w : World) : Bool :=
  match m.status with
  | .finished | .faulted _ => false
  | .awaiting => !m.promise.any w.promises.isPending
  | _ => true

/-- Ready for the first step of a slice. -/
def wake (m : Machine) : Machine :=
  { m with status := .running, promise := if m.status == .awaiting then none else m.promise }

/-- Marks a slice that did not end. -/
def giveUp (m : Machine) : Machine :=
  if m.status == .running then m.fault .overrun else m

/-- Runs one slice of at most `fuel` steps. -/
def run (fuel : Nat) (p : Program) (m : Machine) (w : World) : Machine × World :=
  if m.isReady w then
    let (m, w) := steps p fuel m.wake w
    (m.giveUp, w)
  else (m, w)

end Machine

end Blockwork
