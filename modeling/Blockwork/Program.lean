import Blockwork.Code.Basic
import Blockwork.Native

/-!
A program: the code of one script and the tables that its operands point into. All scripts of a
target share their tables.
-/

namespace Blockwork

structure Tables where
  constants : List Value := []
  vars : List Reference := []
  lists : List Reference := []
  /-- The codes of custom blocks, in the order in which they were first named. -/
  procedureCodes : List String := []
  /-- Their bodies, `none` for those that are called and never defined. -/
  procedures : List (Option Code) := []
  natives : List Native := []
  deriving Inhabited

/-- Where a machine runs. -/
inductive Routine where
  | main
  | predicate
  | procedure (index : Nat)
  deriving Repr, DecidableEq, Inhabited

structure Program where
  main : Code
  /-- The condition of a hat that waits for one. -/
  predicate : Option Code := none
  tables : Tables

namespace Program

def code? (p : Program) : Routine → Option Code
  | .main => some p.main
  | .predicate => p.predicate
  | .procedure i => (p.tables.procedures[i]?).join

end Program

end Blockwork
