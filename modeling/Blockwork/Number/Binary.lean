/-!
Doubles taken apart.

A finite double is a sign, a natural mantissa and a power of two. What is asked of a number beyond
arithmetic (its whole part, its nearest integer, its remainder) is computed here on these
three in exact integers and put together again, so each rule can be read off and reasoned about.
-/

namespace Blockwork

/-- The number `± mantissa * 2 ^ exponent`. -/
structure Binary where
  negative : Bool
  mantissa : Nat
  exponent : Int
  deriving Repr, DecidableEq

namespace Binary

/-- Takes a finite double apart. The mantissa stays below `2 ^ 53`. -/
def ofFloat (x : Float) : Binary :=
  let bits := x.toBits.toNat
  let field : Nat := bits / Nat.pow 2 52 % Nat.pow 2 11
  let fraction := bits % Nat.pow 2 52
  let negative := bits / Nat.pow 2 63 == 1
  if field == 0 then ⟨negative, fraction, -1074⟩
  else ⟨negative, Nat.pow 2 52 + fraction, (field : Int) - 1075⟩

/-- Puts a double together. Exact when the number is a double. -/
def toFloat (b : Binary) : Float :=
  let sign := if b.negative then Nat.pow 2 63 else 0
  if b.mantissa == 0 then Float.ofBits (UInt64.ofNat sign)
  else
    let place := max (b.exponent + b.mantissa.log2 - 52) (-1074)
    let m :=
      if place ≤ b.exponent then b.mantissa * Nat.pow 2 (b.exponent - place).toNat
      else b.mantissa / Nat.pow 2 (place - b.exponent).toNat
    let field := if m < Nat.pow 2 52 then 0 else (place + 1075).toNat
    Float.ofBits (UInt64.ofNat (sign + field * Nat.pow 2 52 + m % Nat.pow 2 52))

/-- The denominator of the number: a power of two, one for whole numbers. -/
def denominator (b : Binary) : Nat := Nat.pow 2 (-b.exponent).toNat

/-- The numerator of the magnitude over `denominator`. -/
def numerator (b : Binary) : Nat := b.mantissa * Nat.pow 2 b.exponent.toNat

def isWhole (b : Binary) : Bool := b.numerator % b.denominator == 0

/-- The magnitude without its fraction. -/
def wholePart (b : Binary) : Nat := b.numerator / b.denominator

/-- The number without its fraction, as an integer. -/
def truncate (b : Binary) : Int :=
  if b.negative then -(b.wholePart : Int) else b.wholePart

end Binary

namespace Number

/-- A number with the sign given and the magnitude a natural, zero keeping its sign. -/
def signed (negative : Bool) (n : Nat) : Float := Binary.toFloat ⟨negative, n, 0⟩

/-- Applies an operation on the magnitude's quotient and remainder to the numbers that have a
fraction. Others, infinities and NaN included, stay as they are. -/
def onFraction (f : Bool → (quotient remainder denominator : Nat) → Nat) (x : Float) : Float :=
  if x.isFinite then
    let b := Binary.ofFloat x
    if b.exponent < 0 then
      signed b.negative (f b.negative (b.wholePart) (b.numerator % b.denominator) b.denominator)
    else x
  else x

def floor : Float → Float :=
  onFraction fun negative q r _ => if negative && r != 0 then q + 1 else q

def ceiling : Float → Float :=
  onFraction fun negative q r _ => if !negative && r != 0 then q + 1 else q

/-- The nearest integer; a half goes away from zero. -/
def nearest : Float → Float :=
  onFraction fun _ q r d => if d ≤ 2 * r then q + 1 else q

/-- The nearest integer; a half goes up. -/
def round (x : Float) : Float := floor (x + 0.5)

/-- A finite number without a fraction. -/
def isWhole (x : Float) : Bool := x.isFinite && (Binary.ofFloat x).isWhole

/-- The remainder of a division that goes toward zero; it has the sign of `x`. -/
def remainder (x y : Float) : Float :=
  if x.isNaN || y.isNaN || x.isInf || y == 0 then 0.0 / 0.0
  else if y.isInf then x
  else
    let a := Binary.ofFloat x
    let b := Binary.ofFloat y
    let place := min a.exponent b.exponent
    let m := a.mantissa * Nat.pow 2 (a.exponent - place).toNat
    let n := b.mantissa * Nat.pow 2 (b.exponent - place).toNat
    Binary.toFloat ⟨a.negative, m % n, place⟩

/-- The integer part, held within `[-bound, bound)`. -/
def toIntWithin (bound : Nat) (x : Float) : Int :=
  if x.isNaN then 0
  else if x.isInf then if x > 0 then bound - 1 else -bound
  else max (-bound) (min (bound - 1) (Binary.ofFloat x).truncate)

/-- The integer part of a number that is not below zero, and zero for others. -/
def toNat (x : Float) : Nat :=
  if x.isFinite then (Binary.ofFloat x).truncate.toNat
  else if x > 0 then Nat.pow 2 64 - 1 else 0

end Number

end Blockwork
