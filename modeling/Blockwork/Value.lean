import Blockwork.Json.Written
import Blockwork.Text.Lowercase

/-!
Values of scripts, how they are read as numbers, truth values and texts, how they are compared,
and the arithmetic on them.

Comparison has two regimes: two values that both have a number are compared as numbers, any others
by their lowercased texts.
-/

namespace Blockwork

inductive Value where
  | number (x : Float)
  | bool (b : Bool)
  | text (s : String)
  /-- An address without a text or a number. -/
  | pointer (address : Nat)

namespace Value

/-- The value of an empty place. -/
def empty : Value := .text ""

instance : Inhabited Value := ⟨empty⟩

inductive Kind where
  | number | bool | text | pointer
  deriving Repr, DecidableEq

def kind : Value → Kind
  | .number _ => .number
  | .bool _ => .bool
  | .text _ => .text
  | .pointer _ => .pointer

def ofNat (n : Nat) : Value := .number (Float.ofNat n)

def ofBit (b : Bool) : Float := if b then 1 else 0

/-! ### Readings -/

def toText : Value → String
  | .number x => Number.text x
  | .bool b => if b then "true" else "false"
  | .text s => s
  | .pointer _ => ""

/-- The number a value stands for: what is no number counts as zero, NaN stays. -/
def toDouble : Value → Float
  | .number x => x
  | .bool b => ofBit b
  | .text s => (Number.parse? s).getD 0
  | .pointer _ => 0

/-- The number used in arithmetic, where NaN counts as zero. -/
def toNumber (v : Value) : Float :=
  let x := v.toDouble
  if x.isNaN then 0 else x

/-- The integer part, within 64 bits. -/
def toLong (v : Value) : Int := Number.toIntWithin (Nat.pow 2 63) v.toNumber

/-- The integer part, within 32 bits. -/
def toInt (v : Value) : Int := Number.toIntWithin (Nat.pow 2 31) v.toNumber

/-- The text `false`, in letters of either case. -/
def isFalseText (s : String) : Bool := s.toList.map Char.toLower == "false".toList

def toBool : Value → Bool
  | .number x => x != 0 && !x.isNaN
  | .bool b => b
  | .text s => !(s == "" || s == "0" || isFalseText s)
  | .pointer a => a != 0

/-! ### Tests -/

/-- The number behind a number or a numeral. -/
def numeric? : Value → Option Float
  | .number x => some x
  | .text s => Number.parse? s
  | _ => none

def isPositiveInfinity (v : Value) : Bool := v.numeric?.any fun x => x.isInf && x > 0

def isNegativeInfinity (v : Value) : Bool := v.numeric?.any fun x => x.isInf && x < 0

def isNaN (v : Value) : Bool := v.numeric?.any Float.isNaN

/-- The number that takes part in a comparison. Truth values are zero and one; NaN and texts that
are no numerals have none. -/
def comparable? : Value → Option Float
  | .number x => if x.isNaN then none else some x
  | .bool b => some (ofBit b)
  | .text s => (Number.parse? s).filter fun x => !x.isNaN
  | .pointer _ => none

/-- Whether a value is taken for an integer when a random number is picked. A text is judged by its
letters, not by its number. -/
def isInt : Value → Bool
  | .number x => Number.isWhole x
  | .bool _ => true
  | .text s => !s.toList.contains '.'
  | .pointer _ => false

/-- Same kind and same content. All NaNs are one; the two zeros are not. -/
def identical : Value → Value → Bool
  | .number x, .number y => x.toBits == y.toBits || (x.isNaN && y.isNaN)
  | .bool a, .bool b => a == b
  | .text s, .text t => s == t
  | .pointer a, .pointer b => a == b
  | _, _ => false

/-! ### Order -/

def compareNumbers (x y : Float) : Ordering :=
  if x == y then .eq else if x < y then .lt else .gt

def compareTexts (s t : String) : Ordering :=
  if s = t then .eq else if s < t then .lt else .gt

def compare (a b : Value) : Ordering :=
  match a.comparable?, b.comparable? with
  | some x, some y => compareNumbers x y
  | _, _ => compareTexts (Text.lowercase a.toText) (Text.lowercase b.toText)

def equal (a b : Value) : Bool := a.compare b == .eq
def less (a b : Value) : Bool := a.compare b == .lt
def greater (a b : Value) : Bool := a.compare b == .gt

/-! ### Arithmetic -/

def add (a b : Value) : Value := .number (a.toNumber + b.toNumber)
def subtract (a b : Value) : Value := .number (a.toNumber - b.toNumber)
def multiply (a b : Value) : Value := .number (a.toNumber * b.toNumber)
def divide (a b : Value) : Value := .number (a.toNumber / b.toNumber)

/-- The remainder that has the sign of the divisor. -/
def modulo (a b : Value) : Value :=
  let n := b.toNumber
  let r := Number.remainder a.toNumber n
  .number (if r / n < 0 then r + n else r)

/-! ### From stored data -/

/-- Arrays and objects become their compact text, nothing becomes the empty text. -/
def ofJson : Json → Value
  | .number n => .number n.toFloat
  | .bool b => .bool b
  | .text s => .text s
  | .null => empty
  | j => .text j.compact

end Value

end Blockwork
