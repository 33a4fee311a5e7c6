/-!
Promises: events that a suspended thread waits for.

A promise is a number; what became of it is written in a ledger that everyone shares. Once it is
settled, either way, it stays so.
-/

namespace Blockwork

structure Promise where
  index : Nat
  deriving Repr, DecidableEq, Inhabited

namespace Promise

inductive State where
  | pending | resolved | cancelled
  deriving Repr, DecidableEq, Inhabited

/-- The states of all promises made so far. -/
structure Ledger where
  states : Array State
  deriving Repr, Inhabited

namespace Ledger

def empty : Ledger := ⟨#[]⟩

/-- A new promise, pending. -/
def make (l : Ledger) : Promise × Ledger := (⟨l.states.size⟩, ⟨l.states.push .pending⟩)

def state (l : Ledger) (p : Promise) : State := l.states.getD p.index .cancelled

def isPending (l : Ledger) (p : Promise) : Bool := l.state p == .pending

def isResolved (l : Ledger) (p : Promise) : Bool := l.state p == .resolved

/-- Gives a pending promise its outcome; a settled one keeps the outcome it has. -/
def settle (l : Ledger) (p : Promise) (s : State) : Ledger :=
  if l.isPending p then ⟨l.states.setIfInBounds p.index s⟩ else l

def resolve (l : Ledger) (p : Promise) : Ledger := l.settle p .resolved

def cancel (l : Ledger) (p : Promise) : Ledger := l.settle p .cancelled

end Ledger

end Promise

end Blockwork
