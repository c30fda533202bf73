import SlowRequest.Word
/-!
# JSON numerals

A numeral keeps its decimal digits. Its value is a whole number where 64 bits hold one, and a
double otherwise: the leading digits that fit 64 bits, scaled by one power of ten at a time.
-/
namespace SlowRequest.Json

/-- What a text does wrong: it is not JSON, it is JSON of another shape, or it ends too early. -/
inductive Fault where
  | malformed
  | mismatch
  | truncated
  deriving DecidableEq, Repr, Inhabited

def Fault.message : Fault → String
  | malformed => "text is not JSON"
  | mismatch => "JSON is of another shape"
  | truncated => "text ends too early"

structure Numeral where
  negative : Bool
  whole : List Nat
  fraction : List Nat
  exponent : Option Int
  deriving DecidableEq, Repr, Inhabited

inductive Number where
  | natural (n : Nat)
  /-- The number `-n`. -/
  | negative (n : Nat)
  | real (x : Float)
  deriving Repr, Inhabited

/-- Leading digits below `Word.limit64`, and how many of them could not be taken. -/
def leadingDigits (digits : List Nat) : Nat × Nat :=
  digits.foldl (fun (value, left) d =>
    if left = 0 ∧ value * 10 + d < Word.limit64 then (value * 10 + d, 0)
    else (value, left + 1)) (0, 0)

def appendFraction (value : Nat) : List Nat → Nat → Nat × Nat
  | [], taken => (value, taken)
  | d :: ds, taken =>
    if value * 10 + d < Word.limit64 then appendFraction (value * 10 + d) ds (taken + 1)
    else (value, taken)

def scaleByTen (x : Float) (exponent : Int) : Option Float :=
  if exponent.natAbs ≤ 308 then
    let power := Float.ofScientific 1 false exponent.natAbs
    if 0 ≤ exponent then
      if (x * power).isInf then none else some (x * power)
    else some (x / power)
  else if x == 0.0 then some x
  else if 0 ≤ exponent then none
  else scaleByTen (x / 1e308) (exponent + 308)
termination_by exponent.natAbs

def wordToFloat (n : Nat) : Float := (UInt64.ofNat n).toFloat

namespace Numeral

def toNumber (n : Numeral) : Option Number :=
  let (value, left) := leadingDigits n.whole
  match n.fraction, n.exponent, left with
  | [], none, 0 =>
    if !n.negative then some (.natural value)
    else if 0 < value ∧ value ≤ Word.signBit then some (.negative value)
    else some (.real (-wordToFloat value))
  | _, _, _ =>
    let (value, taken) := appendFraction value n.fraction 0
    let exponent := n.exponent.getD 0 + left - taken
    (scaleByTen (wordToFloat value) exponent).map fun x => .real (if n.negative then -x else x)

end Numeral

namespace Number

def toFloat : Number → Float
  | natural n => wordToFloat n
  | negative n => -wordToFloat n
  | real x => x

end Number
end SlowRequest.Json
