/-! # The nearest double -/
namespace SlowRequest.Decimal

def digitCount (n : Nat) : Nat := (toString n).length

def nearest (digits : Nat) (exponent : Int) : Float :=
  let size := (digitCount digits : Int) + exponent
  if digits = 0 ∨ size < -400 then 0.0
  else if 400 < size then 1.0 / 0.0
  else Float.ofScientific digits (decide (exponent < 0)) exponent.natAbs

end SlowRequest.Decimal
