import SlowRequest.Aggregate
import SlowRequest.Machine
namespace SlowRequest.Desktop

def quietNaN : NaNBits := ⟨0x7FF8000000000000, by decide⟩

def negativeNaN : NaNBits := ⟨0xFFF8000000000000, by decide⟩

/-- The first NaN met stands. Opposite infinities make one with the sign bit set, and those that
were reported have it clear. -/
scoped instance : NaNSums where
  sum _ times :=
    let before := times.toList.takeWhile fun x => !x.isNaN
    if (before.foldl (· + ·) 0.0).isNaN then negativeNaN else quietNaN

/-- A machine that starts every thread, and makes every block of at most 128 GiB. -/
def machine : Machine where
  occurrenceSize := 368
  placeSize := 24
  handleSize := 24
  largestBlock := 0x7FFFFFFFFFFFFFFF
  hasRoom blocks := blocks.all fun bytes => decide (bytes ≤ 0x2000000000)
  held := []
  refusal? _ := none

end SlowRequest.Desktop
