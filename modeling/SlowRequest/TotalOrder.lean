import SlowRequest.Word
/-!
# The total order of doubles

IEEE 754 orders all doubles, zeros by their sign and a NaN beyond the infinity of its sign. The
order is that of an integer read off the bits.
-/
namespace SlowRequest

/-- Bits with the sign bit clear count up from zero, the others down from minus one. -/
def bitsKey (bits : UInt64) : Int :=
  if bits.toNat < Word.signBit then bits.toNat else (Word.signBit : Int) - 1 - bits.toNat

def totalOrderKey (x : Float) : Int := bitsKey x.toBits

/-- The bits of a NaN, of which `Float` keeps neither the sign nor the payload. -/
structure NaNBits where
  bits : UInt64
  isNaN : 0x7FF0000000000000 < bits.toNat % Word.signBit

namespace NaNBits

def isNegative (x : NaNBits) : Bool := decide (Word.signBit ≤ x.bits.toNat)

def key (x : NaNBits) : Int := bitsKey x.bits

end NaNBits
end SlowRequest
