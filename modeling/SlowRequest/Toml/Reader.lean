import SlowRequest.Toml.Document
import SlowRequest.Toml.Scalar
namespace SlowRequest.Toml

/-- Levels of arrays and inline tables, and parts of a dotted key, stay below this. -/
def nestingLimit : Nat := 80

def isBareKeyChar (c : Char) : Bool :=
  ('a' ≤ c && c ≤ 'z') || ('A' ≤ c && c ≤ 'Z') || c.isDigit || c == '_' || c == '-'

def simpleKey : Reader String
  | '"' :: s => basic (s.length + 1) [] s
  | '\'' :: s => literal [] s
  | s =>
    match s.takeWhile isBareKeyChar with
    | [] => none
    | cs => some (String.ofList cs, s.dropWhile isBareKeyChar)

def keyParts : Nat → Reader (List String)
  | 0, _ => none
  | fuel + 1, s => do
    let (part, s) ← simpleKey (skipSpace s)
    match skipSpace s with
    | '.' :: s => do
      let (parts, s) ← keyParts fuel s
      return (part :: parts, s)
    | s => return ([part], s)

def key (s : List Char) : Option ((List String × String) × List Char) := do
  let (parts, s) ← keyParts (nestingLimit - 1) s
  match parts.reverse with
  | [] => none
  | name :: path => return ((path.reverse, name), s)

def comment (s : List Char) : List Char :=
  match s with
  | '#' :: s => s.dropWhile isPrintable
  | s => s

def skipBetween : Nat → List Char → List Char
  | 0, s => s
  | fuel + 1, s =>
    let s := comment (skipSpace s)
    match newline? s with
    | some s => skipBetween fuel s
    | none => s

def skipLines (s : List Char) : List Char := skipBetween s.length s

def elements (value : Reader Value) : Nat → List Value → Reader (List Value)
  | 0, _, _ => none
  | fuel + 1, xs, s =>
    match skipLines s with
    | ']' :: s => some (xs.reverse, s)
    | s => do
      let (x, s) ← value s
      match skipLines s with
      | ',' :: s => elements value fuel (x :: xs) s
      | ']' :: s => some ((x :: xs).reverse, s)
      | _ => none

def assignment (value : Reader Value) : Reader ((List String × String) × Value) := fun s => do
  let (k, s) ← key s
  match s with
  | '=' :: s =>
    let (v, s) ← value (skipSpace s)
    return ((k, v), s)
  | _ => none

/-- The assignments of an open inline table, on one line and without a comma at the end. -/
def inlineItems (value : Reader Value) : Nat → Items → Reader Items
  | 0, _, _ => none
  | fuel + 1, items, s => do
    let (((path, name), v), s) ← assignment value s
    let items ← assign [] path name v items
    match skipSpace s with
    | ',' :: s => inlineItems value fuel items s
    | '\x7d' :: s => return (items, s)
    | _ => none

def value : Nat → Reader Value
  | 0, s => scalar s
  | room + 1, s =>
    match s with
    | '[' :: s => do
      let (xs, s) ← elements (value room) (s.length + 1) [] s
      return (.array xs, s)
    | '\x7b' :: s =>
      match skipSpace s with
      | '\x7d' :: s => some (.table [], s)
      | s => do
        let (items, s) ← inlineItems (value room) (s.length + 1) [] s
        return (.table (itemsToValues items), s)
    | s => scalar s
where
  scalar : Reader Value := fun s =>
    match s with
    | c :: _ =>
      if c = '"' ∨ c = '\'' then (string s).map fun (t, s) => (.string t, s)
      else (boolean s).or (number s)
    | [] => none

def endLine (s : List Char) : Option (List Char) :=
  match comment (skipSpace s) with
  | [] => some []
  | s => newline? s

/-- A document as read so far, with the path of the table that assignments go to. -/
structure Progress where
  items : Items
  header : List String

def headerLine (p : Progress) (repeated : Bool) (s : List Char) :
    Option (Progress × List Char) := do
  let ((path, name), s) ← key s
  let s ← match repeated, s with
    | false, ']' :: s => some s
    | true, ']' :: ']' :: s => some s
    | _, _ => none
  let opened := if repeated then openRepeated name else openTable name
  let items ← changeAt .passedThrough opened path .header p.items
  return (⟨items, path ++ [name]⟩, s)

def line (p : Progress) (s : List Char) : Option (Progress × List Char) := do
  match skipSpace s with
  | [] => some (p, [])
  | '#' :: s => return (p, ← endLine ('#' :: s))
  | '[' :: '[' :: s =>
    let (p, s) ← headerLine p true s
    return (p, ← endLine s)
  | '[' :: s =>
    let (p, s) ← headerLine p false s
    return (p, ← endLine s)
  | s =>
    match newline? s with
    | some s => return (p, s)
    | none =>
      let (((path, name), v), s) ← assignment (value (nestingLimit - 1)) s
      let items ← assign p.header path name v p.items
      return ({ p with items }, ← endLine s)

/-- Each line takes a character, so the fuel is the length of the text. -/
def allLines : Nat → Progress → List Char → Option Progress
  | _, p, [] => some p
  | 0, _, _ => none
  | fuel + 1, p, s => do
    let (p, s) ← line p s
    allLines fuel p s

def read? (text : String) : Option (List (String × Value)) := do
  let s := text.toList
  let s := if s.head? = some '\ufeff' then s.drop 1 else s
  let p ← allLines (s.length + 1) ⟨[], []⟩ s
  return itemsToValues p.items

end SlowRequest.Toml
