import Blockwork.Value

/-!
Picking a number between two bounds from a fraction in `[0, 1)`.
-/

namespace Blockwork

namespace Number

/-- Picks between `a` and `b`, in either order, by the fraction `r`. With `whole` set the result
is as far from the lower bound as an integer. -/
def between {α : Type} [Add α] [Sub α] [Mul α] [OfNat α 1] [LE α] [BEq α] [DecidableLE α]
    (floor : α → α) (whole : Bool) (a b r : α) : α :=
  let low := if a ≤ b then a else b
  let high := if a ≤ b then b else a
  if low == high then low
  else if whole then low + floor (r * (high + 1 - low))
  else r * (high - low) + low

end Number

namespace Value

/-- Integer bounds give an integer, others any number. -/
def between (a b : Value) (r : Float) : Value :=
  .number (Number.between Number.floor (a.isInt && b.isInt) a.toNumber b.toNumber r)

end Value

end Blockwork
