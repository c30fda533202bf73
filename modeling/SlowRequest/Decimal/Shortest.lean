import SlowRequest.Decimal.Dyadic
/-!
# Shortest decimals

Among the decimals that round to a double, the one with the fewest digits, and of those the one
nearest to the double.
-/
namespace SlowRequest

structure Decimal where
  digits : Nat
  exponent : Int
  deriving DecidableEq, Repr

inductive TieRule where
  | toEven
  | up
  deriving DecidableEq, Repr

namespace Dyadic

def compareScaled (a : Nat) (i : Int) (b : Nat) (j : Int) : Ordering :=
  compare (a * Nat.pow 10 i.toNat * Nat.pow 2 (-j).toNat)
    (b * Nat.pow 2 j.toNat * Nat.pow 10 (-i).toNat)

/-- Whether a decimal lies among the reals that round to the double; halfway points belong to the
neighbour with the even mantissa. -/
def roundsTo (d : Dyadic) (c : Decimal) : Bool :=
  let low := 4 * d.mantissa - if d.narrow then 1 else 2
  let high := 4 * d.mantissa + 2
  let even := d.mantissa % 2 == 0
  let atLow := compareScaled c.digits c.exponent low (d.exponent - 2)
  let atHigh := compareScaled c.digits c.exponent high (d.exponent - 2)
  (atLow == .gt || (even && atLow == .eq)) && (atHigh == .lt || (even && atHigh == .eq))

def magnitude (d : Dyadic) : Int :=
  let guess := ((d.numerator.log2 : Int) - d.denominator.log2) * 30103 / 100000
  let isAbove := fun (k : Int) =>
    decide (d.numerator * Nat.pow 10 (-k).toNat < d.denominator * Nat.pow 10 k.toNat)
  ([guess, guess + 1, guess + 2].find? isAbove).getD (guess + 3)

/-- The neighbours of the value among the multiples of `10 ^ e`, and the nearer of those that
round to it. -/
def nearestOnGrid (tie : TieRule) (d : Dyadic) (e : Int) : Option Decimal :=
  let num := d.numerator * Nat.pow 10 (-e).toNat
  let den := d.denominator * Nat.pow 10 e.toNat
  let below := num / den
  match d.roundsTo ⟨below, e⟩, d.roundsTo ⟨below + 1, e⟩ with
  | false, false => none
  | true, false => some ⟨below, e⟩
  | false, true => some ⟨below + 1, e⟩
  | true, true =>
    match compare (2 * num) ((2 * below + 1) * den) with
    | .lt => some ⟨below, e⟩
    | .gt => some ⟨below + 1, e⟩
    | .eq => match tie with
      | .up => some ⟨below + 1, e⟩
      | .toEven => some ⟨below + below % 2, e⟩

def exact (d : Dyadic) : Decimal :=
  if 0 ≤ d.exponent then ⟨d.numerator, 0⟩
  else ⟨d.mantissa * Nat.pow 5 (-d.exponent).toNat, d.exponent⟩

end Dyadic

namespace Decimal

def dropZeros (digits : Nat) (exponent : Int) : Decimal :=
  if h : digits ≠ 0 ∧ digits % 10 = 0 then dropZeros (digits / 10) (exponent + 1)
  else ⟨digits, exponent⟩
termination_by digits
decreasing_by omega

def shortest (tie : TieRule) (x : Float) : Decimal :=
  let d := Dyadic.ofFloat x
  if d.mantissa = 0 then ⟨0, 0⟩
  else
    let k := d.magnitude
    let found := (List.range 17).findSome? fun (n : Nat) => d.nearestOnGrid tie (k - (n + 1))
    let c := found.getD d.exact
    dropZeros c.digits c.exponent

end Decimal
end SlowRequest
