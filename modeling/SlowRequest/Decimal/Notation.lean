import SlowRequest.Decimal.Shortest
namespace SlowRequest.Decimal

def digitsOf (n : Nat) : List Char := (toString n).toList

def zeros (n : Nat) : List Char := List.replicate n '0'

/-- Plain digits; `whole` is what follows the digits of a whole number. -/
def positional (whole : List Char) (c : Decimal) : List Char :=
  let ds := digitsOf c.digits
  if 0 ≤ c.exponent then ds ++ zeros c.exponent.toNat ++ whole
  else
    let places := (-c.exponent).toNat
    if places < ds.length then ds.take (ds.length - places) ++ '.' :: ds.drop (ds.length - places)
    else '0' :: '.' :: (zeros (places - ds.length) ++ ds)

def scientific (c : Decimal) : List Char :=
  match digitsOf c.digits with
  | [] => []
  | d :: ds =>
    let power := c.exponent + ds.length
    let sign := if 0 ≤ power then '+' else '-'
    d :: ((if ds.isEmpty then [] else '.' :: ds) ++ 'e' :: sign :: digitsOf power.natAbs)

def signed (x : Float) (magnitude : List Char) : List Char :=
  if isNegative x then '-' :: magnitude else magnitude

/-- A JSON number of a finite double: a signed exponent from 10^16 up and below 10^-5, and a point
in every number without one. -/
def json (x : Float) : List Char :=
  let c := shortest .toEven x
  let power := c.exponent + (digitsOf c.digits).length - 1
  signed x (if -5 ≤ power ∧ power < 16 then positional ['.', '0'] c else scientific c)

def plain (x : Float) : String :=
  if x.isNaN then "NaN"
  else String.ofList (signed x (if x.isInf then "inf".toList else positional [] (shortest .up x)))

/-- The quotient rounded to the nearest whole number, a half to the even one. -/
def roundDiv (num den : Nat) : Nat :=
  let q := num / den
  match compare (2 * (num % den)) den with
  | .lt => q
  | .gt => q + 1
  | .eq => q + q % 2

/-- One digit behind the point, rounded from the exact value. -/
def oneDecimal (x : Float) : String :=
  if x.isNaN then "NaN"
  else if x.isInf then String.ofList (signed x "inf".toList)
  else
    let d := Dyadic.ofFloat x
    let tenths := roundDiv (10 * d.numerator) d.denominator
    String.ofList (signed x (digitsOf (tenths / 10) ++ '.' :: digitsOf (tenths % 10)))

end SlowRequest.Decimal
