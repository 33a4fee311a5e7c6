import Blockwork.Number.Shortest

/-!
Writing a number: the digits are the shortest ones, and a layout says where positional notation
ends.
-/

namespace Blockwork

/-- How a decimal is laid out as text. -/
structure Layout where
  /-- Whole numbers of at most this many digits are written out. -/
  wholeDigits : Int
  /-- A fraction is written out when it has fewer zeros than this after the point. -/
  leadingZeros : Int
  /-- What follows a whole number that is written out. -/
  wholeEnd : List Char
  /-- Negative zero keeps its sign. -/
  signedZero : Bool
  tie : Shortest.Tie
  deriving Repr

namespace Layout

def zeros (n : Int) : List Char := List.replicate n.toNat '0'

/-- The part from the exponent mark on; the exponent always has a sign. -/
def exponentPart (e : Int) : List Char :=
  'e' :: (if e < 0 then '-' else '+') :: Nat.toDigits 10 e.natAbs

/-- The text of a positive decimal. -/
def body (l : Layout) (s : Scientific) : List Char :=
  let k : Int := s.digits.length
  let n := s.exponent + 1
  if k ≤ n && n ≤ l.wholeDigits then s.digits ++ zeros (n - k) ++ l.wholeEnd
  else if 0 < n && n ≤ l.wholeDigits then
    s.digits.take n.toNat ++ '.' :: s.digits.drop n.toNat
  else if -l.leadingZeros < n && n ≤ 0 then '0' :: '.' :: zeros (-n) ++ s.digits
  else
    match s.digits with
    | [] => exponentPart s.exponent
    | [d] => d :: exponentPart s.exponent
    | d :: ds => d :: '.' :: ds ++ exponentPart s.exponent

def signPart (negative : Bool) : List Char := if negative then ['-'] else []

/-- The text of a number. -/
def write (l : Layout) (x : Float) : String :=
  if x.isNaN then "NaN"
  else if x.isInf then if x > 0 then "Infinity" else "-Infinity"
  else
    let b := Binary.ofFloat x
    if b.mantissa == 0 then
      String.ofList (signPart (b.negative && l.signedZero) ++ '0' :: l.wholeEnd)
    else String.ofList (signPart b.negative ++ l.body (Shortest.ofBinary l.tie b))

end Layout

namespace Number

/-- Numbers as a script sees them: whole up to 21 digits, fractions down to a millionth. -/
def layout : Layout := ⟨21, 6, [], false, .upper⟩

/-- The text of a number. -/
def text (x : Float) : String := layout.write x

end Number

end Blockwork
