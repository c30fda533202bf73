import SlowRequest.Hex
import SlowRequest.Json.Number
import SlowRequest.Tally
/-!
# Reading JSON

Readers take a value off the front of a text and know the shape they want, so the first thing
wrong in a text decides its fault. Members that no field asks for are skipped: their numbers may
be out of range and their escapes may name half a surrogate pair.
-/
namespace SlowRequest.Json

abbrev Reader (α : Type) := List Char → Except Fault (α × List Char)

def isBlank (c : Char) : Bool := c == ' ' || c == '\n' || c == '\t' || c == '\r'

def skipBlank (s : List Char) : List Char := s.dropWhile isBlank

def keyword : List Char → List Char → Except Fault (List Char)
  | [], s => .ok s
  | _ :: _, [] => .error .truncated
  | w :: ws, c :: s => if c = w then keyword ws s else .error .malformed

/-! ## Strings -/

def hexUnit? (a b c d : Char) : Option Nat := do
  let a ← hexValue? a
  let b ← hexValue? b
  let c ← hexValue? c
  let d ← hexValue? d
  return ((a * 16 + b) * 16 + c) * 16 + d

def isLeadingUnit (n : Nat) : Bool := 0xD800 ≤ n && n ≤ 0xDBFF

def isTrailingUnit (n : Nat) : Bool := 0xDC00 ≤ n && n ≤ 0xDFFF

def simpleEscape? : Char → Option Char
  | '"' => some '"'
  | '\\' => some '\\'
  | '/' => some '/'
  | 'b' => some '\x08'
  | 'f' => some '\x0c'
  | 'n' => some '\n'
  | 'r' => some '\r'
  | 't' => some '\t'
  | _ => none

/-- Four bytes after a `\u` are judged as digits; fewer mean that the text ended. -/
def shortUnit (s : List Char) : Fault :=
  if 4 ≤ tally (s.map Char.utf8Size) then .malformed else .truncated

/-- The rest of a string whose quote is open. A strict reading refuses lone surrogates. -/
def quoted (strict : Bool) (read : List Char) : Reader String
  | [] => .error .truncated
  | '"' :: s => .ok (String.ofList read.reverse, s)
  | '\\' :: 'u' :: a :: b :: c :: d :: s =>
    match hexUnit? a b c d with
    | none => .error .malformed
    | some n =>
      if strict && isTrailingUnit n then .error .malformed
      else if strict && isLeadingUnit n then
        match s with
        | [] | ['\\'] => .error .truncated
        | '\\' :: 'u' :: a :: b :: c :: d :: s =>
          match hexUnit? a b c d with
          | some m =>
            if isTrailingUnit m then
              quoted strict
                (Char.ofNat (0x10000 + (n - 0xD800) * 0x400 + (m - 0xDC00)) :: read) s
            else .error .malformed
          | none => .error .malformed
        | '\\' :: 'u' :: s => .error (shortUnit s)
        | _ => .error .malformed
      else quoted strict (Char.ofNat n :: read) s
  | '\\' :: 'u' :: s => .error (shortUnit s)
  | ['\\'] => .error .truncated
  | '\\' :: c :: s =>
    match simpleEscape? c with
    | some c => quoted strict (c :: read) s
    | none => .error .malformed
  | c :: s => if c < ' ' then .error .malformed else quoted strict (c :: read) s

/-! ## Numerals -/

def digits (s : List Char) : List Nat × List Char :=
  ((s.takeWhile Char.isDigit).map fun c => c.toNat - '0'.toNat, s.dropWhile Char.isDigit)

/-- At least one digit; `atEnd` is the fault of a text that ends instead. -/
def someDigits (atEnd : Fault) : Reader (List Nat)
  | [] => .error atEnd
  | c :: s => if c.isDigit then .ok (digits (c :: s)) else .error .malformed

/-- Zero stands alone; any other whole part has no leading zero. -/
def wholeDigits (atEnd : Fault) : Reader (List Nat)
  | [] => .error atEnd
  | '0' :: s =>
    match s with
    | c :: _ => if c.isDigit then .error .malformed else .ok ([0], s)
    | [] => .ok ([0], s)
  | c :: s => if c.isDigit then .ok (digits (c :: s)) else .error .malformed

def fractionDigits (atEnd : Fault) : Reader (List Nat)
  | '.' :: s => someDigits atEnd s
  | s => .ok ([], s)

def exponentPart (atEnd : Fault) (s : List Char) : Except Fault (Option Int × List Char) :=
  let value := fun (ds : List Nat) => ds.foldl (fun (n : Nat) d => n * 10 + d) 0
  match s with
  | c :: s =>
    if c = 'e' ∨ c = 'E' then
      match s with
      | '-' :: s => do
        let (ds, s) ← someDigits atEnd s
        return (some (-(value ds : Int)), s)
      | '+' :: s => do
        let (ds, s) ← someDigits atEnd s
        return (some (value ds : Int), s)
      | s => do
        let (ds, s) ← someDigits atEnd s
        return (some (value ds : Int), s)
    else .ok (none, c :: s)
  | [] => .ok (none, [])

def numeral (atEnd : Fault) (s : List Char) : Except Fault (Numeral × List Char) := do
  let (negative, s) := match s with
    | '-' :: s => (true, s)
    | s => (false, s)
  let (whole, s) ← wholeDigits atEnd s
  let (fraction, s) ← fractionDigits atEnd s
  let (exponent, s) ← exponentPart atEnd s
  return (⟨negative, whole, fraction, exponent⟩, s)

def startsNumeral (c : Char) : Bool := c == '-' || c.isDigit

def numberOf (s : List Char) : Except Fault (Number × List Char) := do
  let (n, s) ← numeral .truncated s
  match n.toNumber with
  | some x => return (x, s)
  | none => .error .malformed

/-! ## Skipping -/

/-- Brackets that a skipped value has opened, innermost first. -/
inductive Bracket where
  | list
  | object
  deriving DecidableEq, Repr

inductive Expecting where
  | value
  | memberName
  /-- Right after an opening bracket, where it may close at once. -/
  | first
  | next
  deriving DecidableEq, Repr

/-- One token of a skipped value: what is expected then, which brackets are open, and the rest. -/
def skipToken (expecting : Expecting) (opened : List Bracket) (s : List Char) :
    Except Fault (Expecting × List Bracket × List Char) :=
  match expecting, opened, skipBlank s with
  | .value, _, s => skipValue opened s
  | .first, .list :: opened, ']' :: s => .ok (.next, opened, s)
  | .first, .list :: opened, s =>
    if s.isEmpty then .error .truncated else .ok (.value, .list :: opened, s)
  | .first, .object :: opened, '}' :: s => .ok (.next, opened, s)
  | .first, .object :: opened, s =>
    if s.isEmpty then .error .truncated else .ok (.memberName, .object :: opened, s)
  | .memberName, opened, '"' :: s => do
    let (_, s) ← quoted false [] s
    match skipBlank s with
    | ':' :: s => return (.value, opened, s)
    | [] => .error .truncated
    | _ => .error .malformed
  | .next, .list :: opened, ',' :: s => .ok (.value, .list :: opened, s)
  | .next, .list :: opened, ']' :: s => .ok (.next, opened, s)
  | .next, .object :: opened, ',' :: s => .ok (.memberName, .object :: opened, s)
  | .next, .object :: opened, '}' :: s => .ok (.next, opened, s)
  | _, _, [] => .error .truncated
  | _, _, _ => .error .malformed
where
  skipValue (opened : List Bracket) :
      List Char → Except Fault (Expecting × List Bracket × List Char)
    | [] => .error .truncated
    | '"' :: s => do
      let (_, s) ← quoted false [] s
      return (.next, opened, s)
    | '[' :: s => .ok (.first, .list :: opened, s)
    | '{' :: s => .ok (.first, .object :: opened, s)
    | 'n' :: s => do return (.next, opened, ← keyword ['u', 'l', 'l'] s)
    | 't' :: s => do return (.next, opened, ← keyword ['r', 'u', 'e'] s)
    | 'f' :: s => do return (.next, opened, ← keyword ['a', 'l', 's', 'e'] s)
    | c :: s =>
      if startsNumeral c then do
        let (_, s) ← numeral .malformed (c :: s)
        return (.next, opened, s)
      else .error .malformed

/-- A step that takes no character is followed by one that does, so the fuel of a skip is twice
the length of its text. -/
def skipTokens : Nat → Expecting → List Bracket → List Char → Except Fault (List Char)
  | _, .next, [], s => .ok s
  | 0, _, _, _ => .error .truncated
  | fuel + 1, expecting, opened, s => do
    let (expecting, opened, s) ← skipToken expecting opened s
    skipTokens fuel expecting opened s

def skip (s : List Char) : Except Fault (List Char) := skipTokens (2 * s.length + 2) .value [] s

/-! ## Values of a wanted shape -/

def foreign : List Char → Fault
  | [] => .truncated
  | '[' :: _ | '{' :: _ => .mismatch
  | '"' :: s => faultOf (quoted true [] s)
  | 'n' :: s => faultOf (keyword ['u', 'l', 'l'] s)
  | 't' :: s => faultOf (keyword ['r', 'u', 'e'] s)
  | 'f' :: s => faultOf (keyword ['a', 'l', 's', 'e'] s)
  | c :: s => if startsNumeral c then faultOf (numberOf (c :: s)) else .malformed
where
  faultOf {α : Type} : Except Fault α → Fault
    | .ok _ => .mismatch
    | .error e => e

def number : Reader Number := fun s =>
  match skipBlank s with
  | c :: s => if startsNumeral c then numberOf (c :: s) else .error (foreign (c :: s))
  | [] => .error .truncated

def float : Reader Float := fun s => do
  let (n, s) ← number s
  return (n.toFloat, s)

def natural (limit : Nat) : Reader Nat := fun s => do
  match ← number s with
  | (.natural n, s) => if n < limit then return (n, s) else .error .mismatch
  | _ => .error .mismatch

def word64 : Reader UInt64 := fun s => do
  let (n, s) ← natural Word.limit64 s
  return (UInt64.ofNat n, s)

def word32 : Reader UInt32 := fun s => do
  let (n, s) ← natural Word.limit32 s
  return (UInt32.ofNat n, s)

def string : Reader String := fun s =>
  match skipBlank s with
  | '"' :: s => quoted true [] s
  | s => .error (foreign s)

def nullable {α : Type} (read : Reader α) : Reader (Option α) := fun s =>
  match skipBlank s with
  | 'n' :: s => do return (none, ← keyword ['u', 'l', 'l'] s)
  | s => do
    let (x, s) ← read s
    return (some x, s)

def mapped {α β : Type} (f : α → β) (read : Reader α) : Reader β := fun s => do
  let (x, s) ← read s
  return (f x, s)

def checked {α β : Type} (read : Reader α) (convert : α → Option β) : Reader β := fun s => do
  let (x, s) ← read s
  match convert x with
  | some y => return (y, s)
  | none => .error .mismatch

def nextElement (first : Bool) (s : List Char) : Except Fault (Bool × List Char) :=
  match skipBlank s with
  | [] => .error .truncated
  | ']' :: s => .ok (false, ']' :: s)
  | c :: s =>
    if first then .ok (true, c :: s)
    else if c = ',' then
      match skipBlank s with
      | [] => .error .truncated
      | ']' :: _ => .error .malformed
      | s => .ok (true, s)
    else .error .malformed

/-- Each element takes a character, so the fuel of a list is the length of its text. -/
def elements {α : Type} (read : Reader α) :
    Nat → Bool → Array α → List Char → Except Fault (Array α × List Char)
  | 0, _, _, _ => .error .truncated
  | fuel + 1, first, xs, s => do
    let (more, s) ← nextElement first s
    if more then
      let (x, s) ← read s
      elements read fuel false (xs.push x) s
    else return (xs, s.drop 1)

def nestingLimit : Nat := 127

def list {α : Type} (room : Nat) (read : Reader α) : Reader (Array α) := fun s =>
  match skipBlank s with
  | '[' :: s => if room = 0 then .error .malformed else elements read (s.length + 1) true #[] s
  | s => .error (foreign s)

def nextMember (first : Bool) (s : List Char) : Except Fault (Bool × List Char) :=
  match skipBlank s with
  | [] => .error .truncated
  | '}' :: s => .ok (false, s)
  | c :: s =>
    if first then
      if c = '"' then .ok (true, s) else .error .malformed
    else if c = ',' then
      match skipBlank s with
      | [] => .error .truncated
      | '"' :: s => .ok (true, s)
      | _ => .error .malformed
    else .error .malformed

def colon (s : List Char) : Except Fault (List Char) :=
  match skipBlank s with
  | ':' :: s => .ok s
  | [] => .error .truncated
  | _ => .error .malformed

def numericName (limit : Nat) (s : List Char) : Except Fault (Nat × List Char) :=
  match s with
  | c :: _ =>
    if startsNumeral c then do
      let (n, s) ← natural limit s
      match s with
      | '"' :: s => return (n, s)
      | _ => .error .malformed
    else .error .malformed
  | [] => .error .malformed

/-- Members by number; of two with one number the later counts. -/
def numericMembers {α : Type} (limit : Nat) (read : Reader α) :
    Nat → Bool → List (Nat × α) → List Char → Except Fault (List (Nat × α) × List Char)
  | 0, _, _, _ => .error .truncated
  | fuel + 1, first, ms, s => do
    let (more, s) ← nextMember first s
    if more then
      let (n, s) ← numericName limit s
      let (x, s) ← read (← colon s)
      numericMembers limit read fuel false (ms ++ [(n, x)]) s
    else return (ms, s)

def numericMap {α : Type} (room limit : Nat) (read : Reader α) : Reader (List (Nat × α)) :=
  fun s =>
    match skipBlank s with
    | '{' :: s =>
      if room = 0 then .error .malformed else numericMembers limit read (s.length + 1) true [] s
    | s => .error (foreign s)

def parse {α : Type} (read : Reader α) (text : String) : Except Fault α := do
  let (x, s) ← read text.toList
  if (skipBlank s).isEmpty then return x else .error .malformed

end SlowRequest.Json
