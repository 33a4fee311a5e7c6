import Blockwork.Target.Basic

/-!
Natives: what code can ask of the machine and its world beyond plain instructions. Each takes its
inputs from the top of the operand stack.
-/

namespace Blockwork

/-- Functions of one number that have no instruction of their own. -/
inductive MathFunction where
  | ln | log | exp | tenPower
  deriving Repr, DecidableEq

/-- Changes of a sprite's position or direction. -/
inductive Motion where
  | steps | turnRight | turnLeft | goTo | setX | setY | changeX | changeY | point
  deriving Repr, DecidableEq

/-- What can be read off without an input. -/
inductive Reading where
  | xPosition | yPosition | direction
  | answer | timer | mouseX | mouseY | mouseDown | loudness
  deriving Repr, DecidableEq

/-- Natives that no block uses: they let hand-written code drive the machine directly. -/
inductive Control where
  | yield | yieldValue | retryUnless | join | stop | finish
  | suspend | suspendSettled | finishYield | finishSuspend | dropAll
  deriving Repr, DecidableEq

inductive Native where
  /-- Starts the timer of a wait and yields. -/
  | startWait
  /-- Retries until the timer has run out. -/
  | wait
  /-- Retries until the input is true. -/
  | waitUntil
  | stopAll | stopThisScript | stopOtherScripts
  | createClone | deleteClone
  | broadcast | broadcastAndWait
  | timerAbove | loudnessAbove
  | bubble (kind : BubbleKind)
  /-- Shows a bubble, starts the timer and yields. -/
  | startBubble (kind : BubbleKind)
  | clearBubble
  | setVisible (visible : Bool)
  | motion (m : Motion)
  | math (f : MathFunction)
  | reading (r : Reading)
  | resetTimer
  | ask | keyPressed
  /-- An attribute or a variable of a named target. -/
  | attributeOf
  | print
  | control (c : Control)
  deriving Repr, DecidableEq

namespace Native

/-- How many inputs a native reads. -/
def arity : Native → Nat
  | .startWait | .waitUntil | .createClone | .broadcast | .broadcastAndWait | .timerAbove
  | .loudnessAbove | .bubble _ | .math _ | .ask | .keyPressed | .print => 1
  | .motion .goTo | .startBubble _ | .attributeOf => 2
  | .motion _ => 1
  | .control .retryUnless => 1
  | .control .join => 2
  | _ => 0

/-- How many values it takes off the stack. -/
def pops : Native → Nat
  | .control .dropAll => 99
  | n => n.arity

end Native

end Blockwork
