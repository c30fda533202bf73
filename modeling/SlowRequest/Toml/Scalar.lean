import SlowRequest.Decimal.Nearest
import SlowRequest.Hex
import SlowRequest.Toml.Value
import SlowRequest.Word
namespace SlowRequest.Toml

abbrev Reader (α : Type) := List Char → Option (α × List Char)

/-! ## Strings -/

def isSpace (c : Char) : Bool := c == ' ' || c == '\t'

def skipSpace (s : List Char) : List Char := s.dropWhile isSpace

def isPrintable (c : Char) : Bool := c == '\t' || (' ' ≤ c && c != '\x7f')

def newline? : List Char → Option (List Char)
  | '\n' :: s => some s
  | '\r' :: '\n' :: s => some s
  | _ => none

def codePoint (width : Nat) : Reader Char := fun s => do
  let ds ← (s.take width).mapM hexValue?
  let n := ds.foldl (fun n d => n * 16 + d) 0
  if ds.length = width ∧ n.isValidChar then some (Char.ofNat n, s.drop width) else none

def escape : Reader Char
  | 'b' :: s => some ('\x08', s)
  | 't' :: s => some ('\t', s)
  | 'n' :: s => some ('\n', s)
  | 'f' :: s => some ('\x0c', s)
  | 'r' :: s => some ('\r', s)
  | '"' :: s => some ('"', s)
  | '\\' :: s => some ('\\', s)
  | 'u' :: s => codePoint 4 s
  | 'U' :: s => codePoint 8 s
  | _ => none

/-- The rest of a string of one line, with escapes. Each step takes a character, so the fuel is
the length of the text. -/
def basic : Nat → List Char → Reader String
  | 0, _, _ => none
  | fuel + 1, read, s =>
    match s with
    | '"' :: s => some (String.ofList read.reverse, s)
    | '\\' :: s => do
      let (c, s) ← escape s
      basic fuel (c :: read) s
    | c :: s => if isPrintable c then basic fuel (c :: read) s else none
    | [] => none

def literal (read : List Char) : Reader String
  | '\'' :: s => some (String.ofList read.reverse, s)
  | c :: s => if isPrintable c then literal (c :: read) s else none
  | [] => none

/-- Three quotes close a string; one or two more before them belong to it. -/
def closing? (quote : Char) (s : List Char) : Option (List Char × List Char) :=
  let quotes := (s.takeWhile (· == quote)).length
  if quotes < 3 then none
  else
    let inside := min (quotes - 3) 2
    some (List.replicate inside quote, s.drop (inside + 3))

/-- Blanks and line breaks; a carriage return alone is no line break. -/
def skipBreaks : List Char → List Char
  | '\n' :: s => skipBreaks s
  | '\r' :: '\n' :: s => skipBreaks s
  | c :: s => if isSpace c then skipBreaks s else c :: s
  | [] => []

def continued? (s : List Char) : Option (List Char) := (newline? (skipSpace s)).map skipBreaks

def lines (escapes : Bool) (quote : Char) : Nat → List Char → Reader String
  | 0, _, _ => none
  | fuel + 1, read, s =>
    match closing? quote s with
    | some (inside, s) => some (String.ofList (read.reverse ++ inside), s)
    | none =>
      match s, newline? s with
      | _, some s => lines escapes quote fuel ('\n' :: read) s
      | '\\' :: s, none =>
        if escapes then
          match continued? s with
          | some s => lines escapes quote fuel read s
          | none => do
            let (c, s) ← escape s
            lines escapes quote fuel (c :: read) s
        else lines escapes quote fuel ('\\' :: read) s
      | c :: s, none => if isPrintable c then lines escapes quote fuel (c :: read) s else none
      | [], none => none

/-- A line break right behind the opening quotes does not count. -/
def afterOpening (s : List Char) : List Char := (newline? s).getD s

def string : Reader String
  | '"' :: '"' :: '"' :: s => lines true '"' (s.length + 1) [] (afterOpening s)
  | '"' :: s => basic (s.length + 1) [] s
  | '\'' :: '\'' :: '\'' :: s => lines false '\'' (s.length + 1) [] (afterOpening s)
  | '\'' :: s => literal [] s
  | _ => none

/-! ## Numbers -/

def digitRun (digit? : Char → Option Nat) : List Char → List Nat → Option (List Nat × List Char)
  | [], ds => some (ds.reverse, [])
  | '_' :: c :: s, ds => do
    let d ← digit? c
    digitRun digit? s (d :: ds)
  | c :: s, ds =>
    match digit? c with
    | some d => digitRun digit? s (d :: ds)
    | none => if c = '_' then none else some (ds.reverse, c :: s)

def digits (digit? : Char → Option Nat) : Reader (List Nat)
  | c :: s => do
    let d ← digit? c
    digitRun digit? s [d]
  | [] => none

def below (base : Nat) (c : Char) : Option Nat := (hexValue? c).filter (· < base)

/-- Zero stands alone; any other whole part has no leading zero. -/
def wholePart : Reader (List Nat)
  | '0' :: s => some ([0], s)
  | s => digits (below 10) s

def valueOf (base : Nat) (ds : List Nat) : Nat := ds.foldl (fun n d => n * base + d) 0

/-- Whole numbers have 64 bits and a sign. -/
def integerOf (n : Int) : Option Value :=
  if -(Word.signBit : Int) ≤ n ∧ n < Word.signBit then some (.integer n) else none

def based (base : Nat) : Reader Value := fun s => do
  let (ds, s) ← digits (below base) s
  return (← integerOf (valueOf base ds), s)

def signOf : List Char → Bool × List Char
  | '-' :: s => (true, s)
  | '+' :: s => (false, s)
  | s => (false, s)

def fractionPart : Reader (Option (List Nat))
  | '.' :: s => do
    let (ds, s) ← digits (below 10) s
    return (some ds, s)
  | s => some (none, s)

def exponentPart : Reader (Option Int)
  | [] => some (none, [])
  | c :: s =>
    if c = 'e' ∨ c = 'E' then do
      let (negative, s) := signOf s
      let (ds, s) ← digits (below 10) s
      let n : Int := valueOf 10 ds
      return (some (if negative then -n else n), s)
    else some (none, c :: s)

def signedFloat (negative : Bool) (x : Float) : Float := if negative then -x else x

/-- A decimal number; one that rounds to positive infinity is refused. -/
def decimal (negative : Bool) : Reader Value := fun s => do
  let (whole, s) ← wholePart s
  let (fraction, s) ← fractionPart s
  let (exponent, s) ← exponentPart s
  match fraction, exponent with
  | none, none =>
    let n : Int := valueOf 10 whole
    return (← integerOf (if negative then -n else n), s)
  | _, _ =>
    let behind := fraction.getD []
    let magnitude :=
      Decimal.nearest (valueOf 10 (whole ++ behind)) (exponent.getD 0 - behind.length)
    if magnitude.isInf ∧ !negative then none
    else return (.float (signedFloat negative magnitude), s)

def special (negative : Bool) : Reader Value
  | 'i' :: 'n' :: 'f' :: s => some (.float (signedFloat negative (1.0 / 0.0)), s)
  | 'n' :: 'a' :: 'n' :: s => some (.float (0.0 / 0.0), s)
  | _ => none

def number : Reader Value
  | '0' :: 'x' :: s => based 16 s
  | '0' :: 'o' :: s => based 8 s
  | '0' :: 'b' :: s => based 2 s
  | s =>
    let (negative, s) := signOf s
    (special negative s).or (decimal negative s)

def boolean : Reader Value
  | 't' :: 'r' :: 'u' :: 'e' :: s => some (.boolean true, s)
  | 'f' :: 'a' :: 'l' :: 's' :: 'e' :: s => some (.boolean false, s)
  | _ => none

end SlowRequest.Toml
