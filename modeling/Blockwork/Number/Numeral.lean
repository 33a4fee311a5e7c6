import Blockwork.Number.Binary
import Blockwork.Text.Blank

/-!
Reading a number from text.

A numeral is one of the literals for infinity and NaN, a whole number in base 16, 8 or 2 without a
sign, or a decimal with an optional fraction and exponent. Blanks around it do not count.
-/

namespace Blockwork

/-- A decimal: `± digits * 10 ^ exponent`. -/
structure Decimal where
  negative : Bool
  digits : List Char
  exponent : Int
  deriving Repr, DecidableEq

inductive Numeral where
  | infinity (negative : Bool)
  | nan
  /-- Digits in a base other than ten. -/
  | radix (base : Nat) (digits : List Nat)
  | decimal (d : Decimal)
  deriving Repr, DecidableEq

/-- The value of a decimal digit string. -/
def digitsValue (cs : List Char) : Nat := cs.foldl (fun n c => 10 * n + (c.toNat - 48)) 0

namespace Decimal

/-- The nearest double, a half to the even one. Magnitudes far outside the range of doubles are
settled by their size, so that no huge power of ten is formed. -/
def toFloat (d : Decimal) : Float :=
  let coefficient := digitsValue d.digits
  let size := (Nat.toDigits 10 coefficient).length + d.exponent
  let magnitude : Float :=
    if coefficient == 0 then 0
    else if size > 400 then 1.0 / 0.0
    else if size < -400 then 0
    else if d.exponent < 0 then Float.ofScientific coefficient true d.exponent.natAbs
    else Float.ofScientific coefficient false d.exponent.natAbs
  if d.negative then -magnitude else magnitude

end Decimal

namespace Numeral

/-- Takes a sign off the front. -/
def sign : List Char → Bool × List Char
  | '+' :: cs => (false, cs)
  | '-' :: cs => (true, cs)
  | cs => (false, cs)

/-- The fraction digits and what follows them; without a point there are none. -/
def fraction : List Char → List Char × List Char
  | '.' :: cs => cs.span Char.isDigit
  | cs => ([], cs)

/-- An exponent that takes up the whole rest of the text, or nothing at all. -/
def exponent? : List Char → Option Int
  | [] => some 0
  | c :: cs =>
    if c == 'e' || c == 'E' then
      let (negative, ds) := sign cs
      if !ds.isEmpty && ds.all Char.isDigit then
        let n : Int := digitsValue ds
        some (if negative then -n else n)
      else none
    else none

/-- A sign, digits with at most one point among them, and an exponent. -/
def decimal? (cs : List Char) : Option Decimal :=
  let (negative, cs) := sign cs
  let (whole, cs) := cs.span Char.isDigit
  let (part, cs) := fraction cs
  if whole.isEmpty && part.isEmpty then none
  else (exponent? cs).map fun e => ⟨negative, whole ++ part, e - part.length⟩

def base? : Char → Option Nat
  | 'x' | 'X' => some 16
  | 'o' | 'O' => some 8
  | 'b' | 'B' => some 2
  | _ => none

/-- The value of a digit in a base of at most sixteen. -/
def digit? (base : Nat) (c : Char) : Option Nat :=
  let n :=
    if c.isDigit then c.toNat - 48
    else if 'a' ≤ c && c ≤ 'f' then c.toNat - 87
    else if 'A' ≤ c && c ≤ 'F' then c.toNat - 55
    else base
  if n < base then some n else none

/-- Digits after a mark such as `0x`, at least one. -/
def radix? : List Char → Option (Option Numeral)
  | '0' :: mark :: d :: ds =>
    (base? mark).map fun base => ((d :: ds).mapM (digit? base)).map (radix base)
  | _ => none

/-- Reads a numeral that has no blanks around it. -/
def readTrimmed (cs : List Char) : Option Numeral :=
  if cs == "Infinity".toList || cs == "+Infinity".toList then some (.infinity false)
  else if cs == "-Infinity".toList then some (.infinity true)
  else if cs == "NaN".toList then some .nan
  else
    match radix? cs with
    | some result => result
    | none => (decimal? cs).map .decimal

def read (cs : List Char) : Option Numeral := readTrimmed (Text.trimBlanks cs)

/-- The number that a numeral stands for. Digits in another base are gathered one at a time, each
step rounded. -/
def toFloat : Numeral → Float
  | .infinity negative => if negative then -1.0 / 0.0 else 1.0 / 0.0
  | .nan => 0.0 / 0.0
  | .radix base ds => ds.foldl (fun x d => x * Float.ofNat base + Float.ofNat d) 0
  | .decimal d => d.toFloat

end Numeral

namespace Number

/-- The number a text stands for, if it is a numeral. -/
def parse? (s : String) : Option Float := (Numeral.read s.toList).map Numeral.toFloat

end Number

end Blockwork
