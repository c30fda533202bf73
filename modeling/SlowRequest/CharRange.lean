namespace SlowRequest

abbrev CharRange := Nat × Nat

def CharRange.contains (r : CharRange) (c : Char) : Bool :=
  decide (r.1 ≤ c.toNat) && decide (c.toNat ≤ r.2)

end SlowRequest
