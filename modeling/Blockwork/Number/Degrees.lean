import Blockwork.Number.Binary

/-!
Trigonometry in degrees. Sines, cosines and tangents are rounded to ten places, which makes
the familiar angles exact.
-/

namespace Blockwork.Number

def pi : Float := 3.141592653589793

def toTenPlaces (x : Float) : Float := nearest (x * 1e10) / 1e10

def radians (x : Float) : Float := pi * x / 180

def sin (x : Float) : Float := toTenPlaces (radians x).sin

def cos (x : Float) : Float := toTenPlaces (radians x).cos

/-- A quarter turn and its equals have an infinite tangent. -/
def tan (x : Float) : Float :=
  let angle := remainder x 360
  if angle == -270 || angle == 90 then 1.0 / 0.0
  else if angle == -90 || angle == 270 then -1.0 / 0.0
  else toTenPlaces (radians angle).tan

def asin (x : Float) : Float := x.asin * 180 / pi
def acos (x : Float) : Float := x.acos * 180 / pi
def atan (x : Float) : Float := x.atan * 180 / pi

/-- The direction of `x` within `(-180, 180]`. -/
def wrapDirection (x : Float) : Float :=
  let r := remainder (x + 179) 360
  (if r < 0 then r + 360 else r) - 179

end Blockwork.Number
