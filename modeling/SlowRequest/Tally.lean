namespace SlowRequest

def tally : List Nat → Nat
  | [] => 0
  | n :: ns => n + tally ns

theorem tally_append (ms ns : List Nat) : tally (ms ++ ns) = tally ms + tally ns := by
  induction ms with
  | nil => simp [tally]
  | cons m ms ih => simp only [List.cons_append, tally, ih]; omega

theorem tally_modify_pred (ns : List Nat) (i : Nat) :
    tally (ns.modify i (· - 1)) + (if ns[i]? = some 1 then 1 else 0) ≤ tally ns := by
  induction ns generalizing i with
  | nil => simp [tally]
  | cons n ns ih =>
    cases i with
    | zero =>
      simp only [List.modify_zero_cons, tally, List.getElem?_cons_zero, Option.some.injEq]
      split <;> omega
    | succ i =>
      simp only [List.modify_succ_cons, tally, List.getElem?_cons_succ]
      have := ih i
      omega

end SlowRequest
