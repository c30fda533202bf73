import SlowRequest.Json.Record
namespace SlowRequest.Json

variable {α β R : Type} {P : R → Prop}

def Yields (read : Reader α) (Q : α → Prop) : Prop :=
  ∀ s x rest, read s = .ok (x, rest) → Q x

private theorem bind_eq_ok {ε : Type} {x : Except ε α} {f : α → Except ε β} {b : β}
    (h : x >>= f = .ok b) : ∃ a, x = .ok a ∧ f a = .ok b := by
  cases x with
  | error e => cases h
  | ok a => exact ⟨a, rfl, h⟩

theorem Yields.mono {read : Reader α} {Q Q' : α → Prop} (h : Yields read Q)
    (himp : ∀ x, Q x → Q' x) : Yields read Q' :=
  fun s x rest hread => himp x (h s x rest hread)

theorem Yields.mapped {read : Reader α} {f : α → β} {Q : β → Prop}
    (h : Yields read fun x => Q (f x)) : Yields (mapped f read) Q := by
  intro s y rest hread
  obtain ⟨⟨x, t⟩, hx, hy⟩ := bind_eq_ok hread
  cases hy
  exact h s x _ hx

theorem Yields.parse {read : Reader α} {Q : α → Prop} {text : String} {x : α}
    (h : Yields read Q) (hparse : parse read text = .ok x) : Q x := by
  obtain ⟨⟨y, rest⟩, hread, hend⟩ := bind_eq_ok hparse
  dsimp only at hend
  split at hend
  · cases hend
    exact h _ _ _ hread
  · cases hend

private theorem yields_natural (limit : Nat) : Yields (natural limit) (· < limit) := by
  intro s n rest hread
  obtain ⟨⟨x, t⟩, -, hx⟩ := bind_eq_ok hread
  cases x with
  | natural m =>
    dsimp only at hx
    split at hx
    · cases hx
      assumption
    · cases hx
  | _ => cases hx

private theorem lt_of_numericName {limit n : Nat} {s rest : List Char}
    (h : numericName limit s = .ok (n, rest)) : n < limit := by
  cases s with
  | nil => cases h
  | cons c s =>
    rw [numericName] at h
    split at h
    · obtain ⟨⟨m, t⟩, hm, hn⟩ := bind_eq_ok h
      dsimp only at hn
      split at hn
      · cases hn
        exact yields_natural limit _ _ _ hm
      · cases hn
    · cases h

private theorem lt_of_numericMembers {limit fuel : Nat} {read : Reader α} {first : Bool}
    {ms found : List (Nat × α)} {s rest : List Char}
    (h : numericMembers limit read fuel first ms s = .ok (found, rest))
    (hms : ∀ m ∈ ms, m.1 < limit) : ∀ m ∈ found, m.1 < limit := by
  induction fuel generalizing first ms s with
  | zero => cases h
  | succ fuel ih =>
    obtain ⟨⟨more, s₁⟩, -, h⟩ := bind_eq_ok h
    dsimp only at h
    split at h
    · obtain ⟨⟨n, s₂⟩, hname, h⟩ := bind_eq_ok h
      obtain ⟨s₃, -, h⟩ := bind_eq_ok h
      obtain ⟨⟨x, s₄⟩, -, h⟩ := bind_eq_ok h
      apply ih h
      intro m hm
      rcases List.mem_append.mp hm with hm | hm
      · exact hms m hm
      · rw [List.mem_singleton.mp hm]
        exact lt_of_numericName hname
    · cases h
      exact hms

theorem yields_numericMap (room limit : Nat) (read : Reader α) :
    Yields (numericMap room limit read) fun ms => ∀ m ∈ ms, m.1 < limit := by
  intro s ms rest h
  rw [numericMap] at h
  split at h
  · split at h
    · cases h
    · exact lt_of_numericMembers h fun m hm => absurd hm List.not_mem_nil
  · cases h

/-! ## Records -/

def RecordField.Keeps (P : R → Prop) (field : RecordField R) : Prop :=
  Yields field.read fun set => ∀ r, P r → P (set r)

theorem RecordField.keeps_ofReader {presence : Presence} {name : String} {read : Reader α}
    {set : α → R → R} {Q : α → Prop} (h : Yields read Q) (hset : ∀ x r, Q x → P r → P (set x r)) :
    (ofReader presence name read set).Keeps P := by
  intro s put rest hread
  obtain ⟨⟨x, t⟩, hx, hput⟩ := bind_eq_ok hread
  cases hput
  exact fun r hr => hset x r (h s x _ hx) hr

private theorem yields_members {fields : List (RecordField R)} (hfields : ∀ f ∈ fields, f.Keeps P)
    {fuel : Nat} {first : Bool} {seen : List String} {r r' : R} {s rest : List Char}
    (h : members fields fuel first seen r s = .ok (r', rest)) (hr : P r) : P r' := by
  induction fuel generalizing first seen r s with
  | zero => cases h
  | succ fuel ih =>
    obtain ⟨⟨more, s₁⟩, -, h⟩ := bind_eq_ok h
    dsimp only at h
    split at h
    · obtain ⟨⟨name, s₂⟩, -, h⟩ := bind_eq_ok h
      dsimp only at h
      split at h
      · rename_i field hfield
        split at h
        · cases h
        · obtain ⟨s₃, -, h⟩ := bind_eq_ok h
          obtain ⟨⟨set, s₄⟩, hset, h⟩ := bind_eq_ok h
          exact ih h (hfields field (List.mem_of_find?_eq_some hfield) _ _ _ hset r hr)
      · obtain ⟨s₃, -, h⟩ := bind_eq_ok h
        obtain ⟨s₄, -, h⟩ := bind_eq_ok h
        exact ih h hr
    · split at h
      · cases h
      · cases h
        exact hr

private theorem yields_positional {fields : List (RecordField R)}
    (hfields : ∀ f ∈ fields, f.Keeps P) {first : Bool} {r r' : R} {s rest : List Char}
    (h : positional fields first r s = .ok (r', rest)) (hr : P r) : P r' := by
  induction fields generalizing first r s with
  | nil =>
    rw [positional] at h
    split at h
    · cases h
    · cases h
      exact hr
    · cases h
  | cons field fields ih =>
    have hrest : ∀ f ∈ fields, f.Keeps P := fun f hf => hfields f (List.mem_cons_of_mem _ hf)
    obtain ⟨⟨more, s₁⟩, -, h⟩ := bind_eq_ok h
    dsimp only at h
    split at h
    · obtain ⟨⟨set, s₂⟩, hset, h⟩ := bind_eq_ok h
      exact ih hrest h (hfields field List.mem_cons_self _ _ _ hset r hr)
    · split at h
      · exact ih hrest h hr
      · cases h

theorem yields_record {room : Nat} {fields : List (RecordField R)} {start : R}
    (hfields : ∀ f ∈ fields, f.Keeps P) (hstart : P start) :
    Yields (record room fields start) P := by
  intro s r rest h
  rw [record] at h
  split at h
  · split at h
    · cases h
    · exact yields_members hfields h hstart
  · split at h
    · cases h
    · exact yields_positional hfields h hstart
  · cases h

end SlowRequest.Json
