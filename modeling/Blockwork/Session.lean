import Blockwork.Engine.Frame

/-!
A session at a terminal: a project is played frame by frame, bubbles and questions are printed,
and lines that are typed in answer the questions.
-/

namespace Blockwork

namespace Session

/-- What is printed for an event. -/
def line? : Event → Option String
  | .printed text => some text
  | .asked question => if question == "" then none else some ("? " ++ question)
  | .aborted => none
  | .bubble target (some b) => some (target ++ ": " ++ b.text)
  | .bubble _ none => none

/-- Takes what happened since the last time, as lines to print. -/
def takeLines (e : Engine) : List String × Engine :=
  (e.world.host.events.reverse.filterMap line?,
    { e with world := { e.world with host := { e.world.host with events := [] } } })

/-- A line without its end. -/
def dropLineEnd (cs : List Char) : List Char :=
  match cs.reverse with
  | '\n' :: '\r' :: rest => rest.reverse
  | '\n' :: rest => rest.reverse
  | _ => cs

/-- Sets the clock and the random fractions for a frame. -/
def setReadings (e : Engine) (clock : Float) (draws : List Float) : Engine :=
  { e with world := { e.world with host := { e.world.host with clock, draws } } }

/-- Fuel for a frame. -/
def fuel : Nat := 1000000000000

/-- Loads a project, stopped at its first frame. -/
def begin (text : String) (host : Host) : Except LoadError Engine :=
  ((Engine.new {} host).load text).map Engine.start

/-- How a session ends. -/
inductive Ending where
  /-- No thread is left. -/
  | idle
  /-- The project could not be loaded. -/
  | notLoaded
  /-- A machine has done what no well-formed code does. -/
  | faulted
  deriving Repr, DecidableEq

/-- What the command line reports of an ending. -/
def Ending.exitCode : Ending → UInt32
  | .idle => 0
  | .notLoaded => 1
  | .faulted => 101

/-- The ending of a session that has stopped here. -/
def ending (e : Engine) : Ending := if e.fault.isSome then .faulted else .idle

/-- Whether there is a frame to come. -/
def goesOn (e : Engine) : Bool := e.fault.isNone && e.isRunning

/-- Whether a line of input is wanted. -/
def wantsLine (e : Engine) : Bool := e.fault.isNone && e.question?.isSome

/-- Answers the question that is asked by a line of input; without a line everything stops. -/
def respond (e : Engine) : Option String → Engine
  | some answer => e.answerQuestion answer
  | none => e.stop

/-- The lines of an input. -/
def inputLines (text : String) : List String :=
  let parts := text.splitOn "\n"
  let lines := if parts.getLast? == some "" then parts.dropLast else parts
  lines.zipIdx.map fun (s, i) =>
    -- Only a line that was ended loses its carriage return.
    if i + 1 < parts.length then String.ofList (dropLineEnd (s.toList ++ ['\n'])) else s

/-- Plays a project on a clock that moves by whole frames. Gives the lines that are printed and how
the session ends. -/
def play (frameLength : Float) : (frames : Nat) → List String → Engine → List String × Ending
  | 0, _, e => ([], ending e)
  | frames + 1, inputs, e =>
    let (shown, e) := takeLines e
    if goesOn e then
      let e := e.step fuel
      let (inputs, e) :=
        if wantsLine e then (inputs.tail, respond e inputs.head?) else (inputs, e)
      let (more, last) := play frameLength frames inputs
        (setReadings e (e.world.host.clock + frameLength) e.world.host.draws)
      (shown ++ more, last)
    else (shown, ending e)

end Session

end Blockwork
