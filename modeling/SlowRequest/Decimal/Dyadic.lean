import SlowRequest.Word
namespace SlowRequest

/-- The magnitude of a finite double: `mantissa * 2 ^ exponent`. -/
structure Dyadic where
  mantissa : Nat
  exponent : Int
  /-- The double below is half as far away as the double above. -/
  narrow : Bool
  deriving DecidableEq, Repr

namespace Dyadic

def hiddenBit : Nat := 0x10000000000000

def ofFloat (x : Float) : Dyadic :=
  let bits := x.toBits.toNat
  let field : Nat := bits / hiddenBit % 2048
  let fraction : Nat := bits % hiddenBit
  if field = 0 then ⟨fraction, -1074, false⟩
  else ⟨hiddenBit + fraction, (field : Int) - 1075, fraction == 0 && decide (1 < field)⟩

def numerator (d : Dyadic) : Nat := d.mantissa * Nat.pow 2 d.exponent.toNat

def denominator (d : Dyadic) : Nat := Nat.pow 2 (-d.exponent).toNat

end Dyadic

def isNegative (x : Float) : Bool := Word.signBit ≤ x.toBits.toNat

end SlowRequest
