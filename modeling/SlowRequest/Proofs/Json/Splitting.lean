import SlowRequest.Json.Reader
/-!
# Where values end

A written value stands before a delimiter or before nothing. What reads a numeral without anything
behind it reads the same numeral before a delimiter, and leaves the delimiter and the rest.
-/
namespace SlowRequest.Json

variable {α β : Type}

/-- What may stand behind a value: nothing, a comma or a closing bracket. -/
def Delimited (s : List Char) : Prop := ∀ c ∈ s.head?, c = ',' ∨ c = ']' ∨ c = '\x7d'

def Reads (read : Reader α) (x : α) (text : List Char) : Prop :=
  ∀ rest, Delimited rest → read (text ++ rest) = .ok (x, rest)

theorem delimited_nil : Delimited [] := by simp [Delimited]

theorem delimited_cons {c : Char} (h : c = ',' ∨ c = ']' ∨ c = '\x7d') (s : List Char) :
    Delimited (c :: s) := by simpa [Delimited] using h

theorem Reads.mapped {read : Reader α} {x : α} {text : List Char} (h : Reads read x text)
    (f : α → β) : Reads (mapped f read) (f x) text := by
  intro rest hrest
  rw [Json.mapped, h rest hrest]
  rfl

theorem Reads.checked {read : Reader α} {x : α} {text : List Char} (h : Reads read x text)
    {convert : α → Option β} {y : β} (hconvert : convert x = some y) :
    Reads (checked read convert) y text := by
  intro rest hrest
  rw [Json.checked, h rest hrest]
  simp only [bind, Except.bind, hconvert]
  rfl

theorem skipBlank_of_head {c : Char} (h : isBlank c = false) (s : List Char) :
    skipBlank (c :: s) = c :: s := by
  rw [skipBlank, List.dropWhile_cons, h]
  rfl

/-! ## Parts of numerals -/

/-- What the reader takes, it also takes before a delimiter, and it leaves the rest as it is. -/
def Splits (read : Reader α) : Prop :=
  ∀ s x left, read s = .ok (x, left) →
    left <:+ s ∧ ∀ rest, Delimited rest → read (s ++ rest) = .ok (x, left ++ rest)

private theorem splits_pure (x : α) : Splits fun s => .ok (x, s) := by
  intro s y left h
  cases h
  exact ⟨List.suffix_rfl, fun _ _ => rfl⟩

theorem Splits.bind {read : Reader α} {next : α → Reader β} (h : Splits read)
    (hnext : ∀ x, Splits (next x)) : Splits (fun s => do let (x, s) ← read s; next x s) := by
  intro s y left hread
  cases hfirst : read s with
  | error e =>
    simp only [hfirst, Bind.bind, Except.bind] at hread
    cases hread
  | ok found =>
    obtain ⟨x, middle⟩ := found
    simp only [hfirst, Bind.bind, Except.bind] at hread
    obtain ⟨hmiddle, hbefore⟩ := h s x middle hfirst
    obtain ⟨hleft, hbehind⟩ := hnext x middle y left hread
    refine ⟨hleft.trans hmiddle, ?_⟩
    intro rest hrest
    simp only [Bind.bind, Except.bind, hbefore rest hrest, hbehind rest hrest]

private theorem not_isDigit_of_delimited {c : Char} {s : List Char} (h : Delimited (c :: s)) :
    c.isDigit = false := by
  rcases h c rfl with rfl | rfl | rfl <;> decide

private theorem digits_append (s : List Char) {rest : List Char} (hrest : Delimited rest) :
    digits (s ++ rest) = ((digits s).1, (digits s).2 ++ rest) := by
  have htake : rest.takeWhile Char.isDigit = [] := by
    cases rest with
    | nil => rfl
    | cons c rest => simp [not_isDigit_of_delimited hrest]
  have hdrop : rest.dropWhile Char.isDigit = rest := by
    cases rest with
    | nil => rfl
    | cons c rest => simp [not_isDigit_of_delimited hrest]
  rw [digits, digits, List.takeWhile_append, List.dropWhile_append, htake, hdrop]
  congr 1
  · split
    · rename_i hall
      rw [List.append_nil, (List.takeWhile_prefix _).eq_of_length hall]
    · rfl
  · split
    · rename_i hempty
      rw [List.isEmpty_iff.mp hempty, List.nil_append]
    · rfl

private theorem splits_digits : Splits fun s => .ok (digits s) := by
  intro s ds left h
  have hdigits : digits s = (ds, left) := Except.ok.inj h
  refine ⟨?_, ?_⟩
  · have hsuffix : (digits s).2 <:+ s := List.dropWhile_suffix _
    rwa [hdigits] at hsuffix
  · intro rest hrest
    have happend := digits_append s hrest
    rw [hdigits] at happend
    exact congrArg Except.ok happend

private theorem splits_someDigits (atEnd : Fault) : Splits (someDigits atEnd) := by
  intro s ds left h
  cases s with
  | nil => cases h
  | cons c s =>
    rw [someDigits] at h
    split at h
    · rename_i hdigit
      obtain ⟨hsuffix, hbefore⟩ := splits_digits (c :: s) ds left h
      refine ⟨hsuffix, ?_⟩
      intro rest hrest
      rw [List.cons_append, someDigits, if_pos hdigit]
      exact hbefore rest hrest
    · cases h

theorem wholeDigits_of_ne (atEnd : Fault) {c : Char} (h : c ≠ '0') (s : List Char) :
    wholeDigits atEnd (c :: s) =
      if c.isDigit then .ok (digits (c :: s)) else .error .malformed := by
  unfold wholeDigits
  split
  · rename_i heq
    cases heq
  · rename_i heq
    cases heq
    exact absurd rfl h
  · rename_i heq
    cases heq
    rfl

private theorem splits_wholeDigits (atEnd : Fault) : Splits (wholeDigits atEnd) := by
  intro s ds left h
  unfold wholeDigits at h
  split at h
  · cases h
  · rename_i s
    split at h
    · rename_i c s
      split at h
      · cases h
      · rename_i hdigit
        cases h
        refine ⟨List.suffix_cons _ _, ?_⟩
        intro rest _
        simp [wholeDigits, hdigit]
    · cases h
      refine ⟨List.suffix_cons _ _, ?_⟩
      intro rest hrest
      cases rest with
      | nil => rfl
      | cons c rest => simp [wholeDigits, not_isDigit_of_delimited hrest]
  · rename_i c s hzero
    split at h
    · rename_i hdigit
      obtain ⟨hsuffix, hbefore⟩ := splits_digits (c :: s) ds left h
      refine ⟨hsuffix, ?_⟩
      intro rest hrest
      rw [List.cons_append, wholeDigits_of_ne atEnd hzero, if_pos hdigit]
      exact hbefore rest hrest
    · cases h

private theorem splits_fractionDigits (atEnd : Fault) : Splits (fractionDigits atEnd) := by
  intro s ds left h
  unfold fractionDigits at h
  split at h
  · rename_i s
    obtain ⟨hsuffix, hbefore⟩ := splits_someDigits atEnd s ds left h
    exact ⟨hsuffix.trans (List.suffix_cons _ _), hbefore⟩
  · rename_i hpoint
    cases h
    refine ⟨List.suffix_rfl, ?_⟩
    intro rest hrest
    unfold fractionDigits
    split
    · rename_i tail heq
      cases s with
      | nil =>
        rw [List.nil_append] at heq
        subst heq
        exact absurd (hrest '.' rfl) (by decide)
      | cons c s =>
        cases heq
        exact absurd rfl (hpoint s)
    · rfl

def powerDigits (atEnd : Fault) (sign : Int → Int) (s : List Char) :
    Except Fault (Option Int × List Char) := do
  let (ds, s) ← someDigits atEnd s
  return (some (sign (ds.foldl (fun (n : Nat) d => n * 10 + d) 0 : Nat)), s)

private theorem splits_powerDigits (atEnd : Fault) (sign : Int → Int) :
    Splits (powerDigits atEnd sign) :=
  (splits_someDigits atEnd).bind fun ds =>
    splits_pure (some (sign (ds.foldl (fun (n : Nat) d => n * 10 + d) 0 : Nat)))

def exponentDigits (atEnd : Fault) : List Char → Except Fault (Option Int × List Char)
  | '-' :: s => powerDigits atEnd Neg.neg s
  | '+' :: s => powerDigits atEnd id s
  | s => powerDigits atEnd id s

private theorem exponentPart_cons (atEnd : Fault) (c : Char) (s : List Char) :
    exponentPart atEnd (c :: s) =
      if c = 'e' ∨ c = 'E' then exponentDigits atEnd s else .ok (none, c :: s) := by
  unfold exponentPart exponentDigits
  rfl

private theorem exponentDigits_of_ne (atEnd : Fault) {c : Char} (hminus : c ≠ '-') (hplus : c ≠ '+')
    (s : List Char) : exponentDigits atEnd (c :: s) = powerDigits atEnd id (c :: s) := by
  unfold exponentDigits
  split
  · rename_i heq
    cases heq
    exact absurd rfl hminus
  · rename_i heq
    cases heq
    exact absurd rfl hplus
  · rfl

private theorem splits_exponentDigits (atEnd : Fault) : Splits (exponentDigits atEnd) := by
  intro s x left h
  match s with
  | [] => cases h
  | c :: s =>
    by_cases hminus : c = '-'
    · subst hminus
      obtain ⟨hsuffix, hbefore⟩ := splits_powerDigits atEnd Neg.neg s x left h
      exact ⟨hsuffix.trans (List.suffix_cons _ _), hbefore⟩
    · by_cases hplus : c = '+'
      · subst hplus
        obtain ⟨hsuffix, hbefore⟩ := splits_powerDigits atEnd id s x left h
        exact ⟨hsuffix.trans (List.suffix_cons _ _), hbefore⟩
      · rw [exponentDigits_of_ne atEnd hminus hplus] at h
        obtain ⟨hsuffix, hbefore⟩ := splits_powerDigits atEnd id (c :: s) x left h
        refine ⟨hsuffix, ?_⟩
        intro rest hrest
        rw [List.cons_append, exponentDigits_of_ne atEnd hminus hplus]
        exact hbefore rest hrest

private theorem splits_exponentPart (atEnd : Fault) : Splits (exponentPart atEnd) := by
  intro s x left h
  cases s with
  | nil =>
    cases h
    refine ⟨List.suffix_rfl, ?_⟩
    intro rest hrest
    cases rest with
    | nil => rfl
    | cons c rest =>
      have hletter : ¬ (c = 'e' ∨ c = 'E') := by
        rcases hrest c rfl with rfl | rfl | rfl <;> decide
      rw [List.nil_append, exponentPart_cons, if_neg hletter]
  | cons c s =>
    rw [exponentPart_cons] at h
    by_cases hletter : c = 'e' ∨ c = 'E'
    · rw [if_pos hletter] at h
      obtain ⟨hsuffix, hbefore⟩ := splits_exponentDigits atEnd s x left h
      refine ⟨hsuffix.trans (List.suffix_cons _ _), ?_⟩
      intro rest hrest
      rw [List.cons_append, exponentPart_cons, if_pos hletter]
      exact hbefore rest hrest
    · rw [if_neg hletter] at h
      cases h
      refine ⟨List.suffix_rfl, ?_⟩
      intro rest _
      rw [List.cons_append, exponentPart_cons, if_neg hletter]

def unsigned (atEnd : Fault) (negative : Bool) (s : List Char) :
    Except Fault (Numeral × List Char) := do
  let (whole, s) ← wholeDigits atEnd s
  let (fraction, s) ← fractionDigits atEnd s
  let (exponent, s) ← exponentPart atEnd s
  return (⟨negative, whole, fraction, exponent⟩, s)

private theorem splits_unsigned (atEnd : Fault) (negative : Bool) :
    Splits (unsigned atEnd negative) :=
  (splits_wholeDigits atEnd).bind fun whole => (splits_fractionDigits atEnd).bind fun fraction =>
    (splits_exponentPart atEnd).bind fun exponent =>
      splits_pure (⟨negative, whole, fraction, exponent⟩ : Numeral)

theorem numeral_of_ne (atEnd : Fault) {c : Char} (h : c ≠ '-') (s : List Char) :
    numeral atEnd (c :: s) = unsigned atEnd false (c :: s) := by
  unfold numeral
  split
  rename_i heq
  split at heq
  · rename_i hcons
    cases hcons
    exact absurd rfl h
  · cases heq
    rfl

private theorem splits_numeral (atEnd : Fault) : Splits (numeral atEnd) := by
  intro s n left h
  cases s with
  | nil => cases h
  | cons c s =>
    by_cases hminus : c = '-'
    · subst hminus
      obtain ⟨hsuffix, hbefore⟩ := splits_unsigned atEnd true s n left h
      exact ⟨hsuffix.trans (List.suffix_cons _ _), hbefore⟩
    · rw [numeral_of_ne atEnd hminus] at h
      obtain ⟨hsuffix, hbefore⟩ := splits_unsigned atEnd false (c :: s) n left h
      refine ⟨hsuffix, ?_⟩
      intro rest hrest
      rw [List.cons_append, numeral_of_ne atEnd hminus]
      exact hbefore rest hrest

private theorem splits_toNumber (n : Numeral) : Splits (fun s => match n.toNumber with
    | some x => .ok (x, s)
    | none => .error .malformed) := by
  cases n.toNumber with
  | none =>
    intro s x left h
    cases h
  | some x => exact splits_pure x

theorem splits_number : Splits number := by
  have hnumberOf : Splits numberOf := (splits_numeral .truncated).bind splits_toNumber
  intro s x left h
  rw [number] at h
  split at h
  · rename_i c t hskip
    have hsuffix : c :: t <:+ s := hskip ▸ List.dropWhile_suffix _
    have happend : ∀ rest, skipBlank (s ++ rest) = c :: t ++ rest := by
      intro rest
      have hne : (List.dropWhile isBlank s).isEmpty = false := by
        change (skipBlank s).isEmpty = false
        rw [hskip]
        rfl
      rw [skipBlank, List.dropWhile_append, hne, if_neg Bool.false_ne_true]
      exact congrArg (· ++ rest) hskip
    split at h
    · rename_i hstart
      obtain ⟨hleft, hbefore⟩ := hnumberOf (c :: t) x left h
      refine ⟨hleft.trans hsuffix, ?_⟩
      intro rest hrest
      simp only [number, happend rest, List.cons_append, if_pos hstart]
      exact hbefore rest hrest
    · cases h
  · cases h

theorem splits_float : Splits float := splits_number.bind fun n => splits_pure n.toFloat

theorem startsNumeral_of_number {s left : List Char} {x : Number} (h : number s = .ok (x, left)) :
    ∃ c t, skipBlank s = c :: t ∧ startsNumeral c := by
  rw [number] at h
  split at h
  · rename_i c t hskip
    split at h
    · rename_i hstart
      exact ⟨c, t, hskip, hstart⟩
    · cases h
  · cases h

end SlowRequest.Json
