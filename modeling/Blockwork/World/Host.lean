import Blockwork.Target.Basic

/-!
The host: what a running project reads from the outside, and what it shows there.
-/

namespace Blockwork

/-- Something the host was told. -/
inductive Event where
  | printed (text : String)
  /-- A question is now asked; its text is empty when a bubble shows it. -/
  | asked (question : String)
  /-- The question that was asked is withdrawn. -/
  | aborted
  | bubble (target : String) (bubble : Option Bubble)
  deriving Repr, DecidableEq

structure Host where
  /-- The clock, in seconds. -/
  clock : Float := 0
  /-- Random fractions to come; the last one repeats. -/
  draws : List Float := []
  mouseX : Float := 0
  mouseY : Float := 0
  mouseDown : Bool := false
  keys : List String := []
  loudness : Float := -1
  /-- Without devices and without interest in questions and bubbles. -/
  bare : Bool := false
  /-- What happened, the latest first. -/
  events : List Event := []

namespace Host

/-- The next random fraction. -/
def draw (h : Host) : Float × Host :=
  match h.draws with
  | [] => (0, h)
  | [x] => (x, h)
  | x :: rest => (x, { h with draws := rest })

def readMouseX (h : Host) : Float := if h.bare then 0 else h.mouseX

def readMouseY (h : Host) : Float := if h.bare then 0 else h.mouseY

def isMouseDown (h : Host) : Bool := !h.bare && h.mouseDown

def isKeyPressed (h : Host) (key : String) : Bool := !h.bare && h.keys.contains key

/-- The loudness, `-1` without a microphone. -/
def readLoudness (h : Host) : Float := if h.bare then -1 else h.loudness

def print (h : Host) (text : String) : Host := { h with events := .printed text :: h.events }

/-- Tells of a question or a bubble. -/
def tell (h : Host) (e : Event) : Host :=
  if h.bare then h else { h with events := e :: h.events }

end Host

end Blockwork
