import Blockwork.Number.Binary

/-!
The fewest decimal digits that identify a double.

Every real strictly between the midpoints to a double's two neighbours rounds to it, the midpoints
themselves too when its mantissa is even. On the grid of `k`-digit decimals, if any point lies in
this interval then one of the two points next to the double does; so it is enough to try those two
for `k = 1, 2, …`, and seventeen digits always suffice.
-/

namespace Blockwork

/-- The number `d₁.d₂…dₖ * 10 ^ exponent`, its digits given as characters. -/
structure Scientific where
  digits : List Char
  exponent : Int
  deriving Repr, DecidableEq

namespace Shortest

/-- A double `mantissa * 2 ^ exponent` and its interval, all in quarters of the last binary place:
`below` and `above` are the distances to the two ends. -/
structure Interval where
  centre : Nat
  below : Nat
  above : Nat
  /-- The ends belong to the interval. -/
  closed : Bool
  place : Int
  deriving Repr

/-- The lower neighbour of a power of two is twice as near as the upper one. -/
def interval (b : Binary) : Interval where
  centre := 4 * b.mantissa
  below := if b.mantissa == Nat.pow 2 52 && b.exponent > -1074 then 1 else 2
  above := 2
  closed := b.mantissa % 2 == 0
  place := b.exponent - 2

/-- The scale by which quarters are measured on the grid of multiples of `10 ^ grid`: a count of
quarters `c` stands at `c * up / down` there. -/
def scale (i : Interval) (grid : Int) : Nat × Nat :=
  (Nat.pow 2 i.place.toNat * Nat.pow 10 (-grid).toNat,
    Nat.pow 2 (-i.place).toNat * Nat.pow 10 grid.toNat)

/-- Which of two equally near decimals is taken. -/
inductive Tie where
  | upper
  /-- The one with the even last digit. -/
  | even
  deriving Repr, DecidableEq

/-- The neighbour on the grid that lies in the interval, the nearer if both do. -/
def onGrid? (tie : Tie) (i : Interval) (grid : Int) : Option Nat :=
  let (up, down) := scale i grid
  let centre := i.centre * up
  let low := (i.centre - i.below) * up
  let high := (i.centre + i.above) * up
  let d := centre / down
  let lower := if i.closed then low ≤ d * down else low < d * down
  let upper := if i.closed then (d + 1) * down ≤ high else (d + 1) * down < high
  match decide lower, decide upper with
  | true, true =>
    let rest := 2 * (centre % down)
    if rest < down || (rest == down && tie == .even && d % 2 == 0) then some d else some (d + 1)
  | true, false => some d
  | false, true => some (d + 1)
  | false, false => none

/-- The exponent of the leading decimal digit. The guess from the binary logarithm is at most one
too small. -/
def leading (b : Binary) : Int :=
  let guess := ((b.exponent + b.mantissa.log2) * 30103).fdiv 100000
  let next := guess + 1
  if Nat.pow 10 next.toNat * b.denominator ≤ b.numerator * Nat.pow 10 (-next).toNat then next
  else guess

/-- Tries the grids of `k`, `k + 1`, … digits. -/
def search (tie : Tie) (i : Interval) (top : Int) : (fuel k : Nat) → Nat × Int
  | 0, k => (i.centre, top - k)
  | fuel + 1, k =>
    let grid := top + 1 - k
    match onGrid? tie i grid with
    | some d => (d, grid)
    | none => search tie i top fuel (k + 1)

def dropZeros (cs : List Char) : List Char := (cs.reverse.dropWhile (· == '0')).reverse

/-- The shortest decimal for a magnitude other than zero. -/
def ofBinary (tie : Tie) (b : Binary) : Scientific :=
  let (d, grid) := search tie (interval b) (leading b) 17 1
  let digits := Nat.toDigits 10 d
  ⟨dropZeros digits, grid + digits.length - 1⟩

end Shortest

end Blockwork
