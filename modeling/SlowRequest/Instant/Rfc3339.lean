import SlowRequest.Blank
import SlowRequest.Instant
import SlowRequest.Instant.Calendar
/-!
# Instants as RFC 3339 text

Instants are written in UTC with as few digits behind the second as are exact, in groups of
three. Any offset is read; blanks may stand around the fields, and a blank in the place of the T.
-/
namespace SlowRequest.Instant

def padded (width n : Nat) : List Char :=
  let ds := (toString n).toList
  List.replicate (width - ds.length) '0' ++ ds

/-- Four digits; years beyond them carry their sign. -/
def writeYear (year : Int) : List Char :=
  if 0 ≤ year ∧ year ≤ 9999 then padded 4 year.toNat
  else (if year < 0 then '-' else '+') :: padded 4 year.natAbs

def writeFraction (nanos : Nat) : List Char :=
  if nanos = 0 then []
  else if nanos % 1000000 = 0 then '.' :: padded 3 (nanos / 1000000)
  else if nanos % 1000 = 0 then '.' :: padded 6 (nanos / 1000)
  else '.' :: padded 9 nanos

def secondsPerDay : Nat := 86400

def write (i : Instant) : List Char :=
  let date := Calendar.ofDays (i.seconds / secondsPerDay)
  let time := (i.seconds % secondsPerDay).toNat
  let (leap, nanos) :=
    if i.nanos < nanosPerSecond then (0, i.nanos) else (1, i.nanos - nanosPerSecond)
  writeYear date.year ++ '-' :: (padded 2 date.month ++ '-' :: (padded 2 date.day ++ 'T' ::
    (padded 2 (time / 3600) ++ ':' :: (padded 2 (time / 60 % 60) ++ ':' ::
      (padded 2 (time % 60 + leap) ++ writeFraction nanos ++ ['Z'])))))

def text (i : Instant) : String := String.ofList i.write

def skipBlanks (s : List Char) : List Char := s.dropWhile isBlankChar

/-- Up to `width` digits, one at least. -/
def digits? (width : Nat) (s : List Char) : Option (Nat × List Char) :=
  let ds := (s.take width).takeWhile Char.isDigit
  if ds.isEmpty then none
  else some (ds.foldl (fun n c => n * 10 + (c.toNat - '0'.toNat)) 0, s.drop ds.length)

/-- A year of up to four digits, or of any number of them behind a sign. -/
def year? (s : List Char) : Option (Int × List Char) :=
  match skipBlanks s with
  | '-' :: s => (digits? s.length s).map fun (n, s) => (-(n : Int), s)
  | '+' :: s => (digits? s.length s).map fun (n, s) => ((n : Int), s)
  | s => (digits? 4 s).map fun (n, s) => ((n : Int), s)

def field? (s : List Char) : Option (Nat × List Char) := digits? 2 (skipBlanks s)

def mark? (c : Char) (s : List Char) : Option (List Char) :=
  match skipBlanks s with
  | d :: s => if d = c then some s else none
  | [] => none

/-- Nine digits behind the point count. -/
def fraction? : List Char → Option (Nat × List Char)
  | '.' :: s => do
    let (n, rest) ← digits? 9 s
    return (n * Nat.pow 10 (9 - (s.length - rest.length)), rest.dropWhile Char.isDigit)
  | s => some (0, s)

def twoDigits? : List Char → Option (Nat × List Char)
  | a :: b :: s => if a.isDigit ∧ b.isDigit then digits? 2 (a :: b :: s) else none
  | _ => none

def offset? (s : List Char) : Option (Int × List Char) :=
  let utc := (s.take 3).map Char.toUpper
  if utc = ['U', 'T', 'C'] then some (0, s.drop 3)
  else
    match s with
    | [] => none
    | c :: s =>
      if c = 'Z' ∨ c = 'z' then some (0, s)
      else if c = '+' ∨ c = '-' ∨ c = '\u2212' then do
        let (hours, s) ← twoDigits? s
        let (minutes, s) ← twoDigits? (s.dropWhile fun c => c == ':' || isBlankChar c)
        if 60 ≤ minutes then none
        else
          let seconds : Int := hours * 3600 + minutes * 60
          return (if c = '+' then seconds else -seconds, s)
      else none

def yearInRange (year : Int) : Bool := -262143 ≤ year && year ≤ 262142

def ofFields? (date : Calendar.Date) (hour minute second nanos : Nat) (offset : Int) :
    Option Instant :=
  if date.isValid ∧ yearInRange date.year ∧ hour < 24 ∧ minute < 60 ∧ second ≤ 60
      ∧ offset.natAbs < secondsPerDay then
    let (second, leap) := if second = 60 then (59, nanosPerSecond) else (second, 0)
    let clock := date.toDays * secondsPerDay + (hour * 3600 + minute * 60 + second : Nat)
    let seconds := clock - offset
    if yearInRange (Calendar.ofDays (seconds / secondsPerDay)).year then
      some ⟨seconds, nanos + leap⟩
    else none
  else none

def read? (s : List Char) : Option Instant := do
  let (year, s) ← year? s
  let s ← mark? '-' s
  let (month, s) ← field? s
  let s ← mark? '-' s
  let (day, s) ← field? s
  let s ← match s with
    | c :: s => if c = 'T' ∨ c = 't' ∨ c = ' ' then some s else none
    | [] => none
  let (hour, s) ← field? s
  let s ← mark? ':' s
  let (minute, s) ← field? s
  let s ← mark? ':' s
  let (second, s) ← field? s
  let (nanos, s) ← fraction? s
  let (offset, s) ← offset? (skipBlanks s)
  if (skipBlanks s).isEmpty then ofFields? ⟨year, month, day⟩ hour minute second nanos offset
  else none

def ofText? (s : String) : Option Instant := read? s.toList

end SlowRequest.Instant
