import SlowRequest.Alphanumeric
import SlowRequest.Blank
import SlowRequest.Hex
import SlowRequest.Pattern.Basic
/-!
# Reading patterns

Readers take a part of a pattern off the front of a text; a text that is no pattern has no reading.
Where a pattern is spaced out, blanks and comments are passed over between its signs. A brace opens
nothing, as counted repetitions are not known, and neither are properties of characters by name.
-/
namespace SlowRequest.Pattern

abbrev Reader (α : Type) := List Char → Option (α × List Char)

/-- A text from the first character on that counts. A comment ends with its line. -/
def skipGap (spaced inComment : Bool) : List Char → List Char
  | [] => []
  | c :: s =>
    if !spaced then c :: s
    else if inComment then skipGap spaced (c != '\n') s
    else if isBlankChar c then skipGap spaced false s
    else if c == '#' then skipGap spaced true s
    else c :: s

def next (spaced : Bool) (s : List Char) : List Char := skipGap spaced false s

/-! ## Escapes -/

def hexNumber (spaced : Bool) : Nat → Nat → Reader Nat
  | 0, n, s => some (n, next spaced s)
  | count + 1, n, s => do
    match next spaced s with
    | c :: s => hexNumber spaced count (16 * n + (← hexValue? c)) s
    | [] => none

def numbered (spaced : Bool) (digits : Nat) (s : List Char) : Option (Pattern × List Char) := do
  let (n, s) ← hexNumber spaced digits 0 s
  if n.isValidChar then some (literal ⟨Char.ofNat n, digits == 2⟩, s) else none

def controlEscape? : Char → Option Char
  | 'a' => some '\x07'
  | 'f' => some '\x0c'
  | 't' => some '\t'
  | 'n' => some '\n'
  | 'r' => some '\r'
  | 'v' => some '\x0b'
  | _ => none

/-- What a character behind a backslash stands for: a sign for itself, and some letters for more. -/
def escapeOf? (c : Char) : Option Pattern :=
  if ['d', 's', 'w'].contains c then some (shorthand false)
  else if ['D', 'S', 'W'].contains c then some (shorthand true)
  else if ['A', 'z'].contains c then some (edge false)
  else if ['b', 'B', '<', '>'].contains c then some (edge true)
  else if c.isAlphanum then (controlEscape? c).map fun c => literal ⟨c, false⟩
  else if c ≤ '\x7f' then some (literal ⟨c, false⟩)
  else none

def escape (spaced : Bool) : Reader Pattern
  | 'x' :: s => numbered spaced 2 s
  | 'u' :: s => numbered spaced 4 s
  | 'U' :: s => numbered spaced 8 s
  | c :: s => (escapeOf? c).map (·, s)
  | [] => none

/-! ## Classes -/

def classNames : List String :=
  ["alnum", "alpha", "ascii", "blank", "cntrl", "digit", "graph", "lower", "print", "punct",
    "space", "upper", "word", "xdigit"]

def namedClass? : Reader CharClass
  | ':' :: s =>
    let (negated, s) := match s with
      | '^' :: s => (true, s)
      | s => (false, s)
    let name := String.ofList (s.takeWhile (· != ':'))
    match s.dropWhile (· != ':') with
    | ':' :: ']' :: s => if classNames.contains name then some (.named negated, s) else none
    | _ => none
  | _ => none

def classItem (spaced : Bool) : Reader Pattern
  | '\\' :: s => escape spaced s
  | c :: s => some (literal ⟨c, false⟩, s)
  | [] => none

def asClass? : Pattern → Option CharClass
  | literal l => some (.single l)
  | shorthand negated => some (.shorthand negated)
  | _ => none

def range? : Pattern → Pattern → Option CharClass
  | literal first, literal last =>
    if first.char ≤ last.char then some (.range first last) else none
  | _, _ => none

/-- The character behind a dash. The sign of a comment is passed over like a blank, but not the
comment. -/
def behindDash (spaced : Bool) (s : List Char) : Option Char :=
  if spaced then
    match s.dropWhile isBlankChar with
    | '#' :: s => (s.dropWhile isBlankChar).head?
    | s => s.head?
  else s.head?

/-- A dash spans a range, unless the class ends or another dash follows. -/
def classRange (spaced : Bool) (s : List Char) : Option (CharClass × List Char) := do
  let (x, s) ← classItem spaced s
  match next spaced s with
  | '-' :: s =>
    if [some ']', some '-'].contains (behindDash spaced s) then return (← asClass? x, '-' :: s)
    else
      let (y, s) ← classItem spaced (next spaced s)
      return (← range? x y, s)
  | s => return (← asClass? x, s)

/-- A class so far: what stands before its last operator, and the items behind that, last first. -/
structure OpenClass where
  left : Option CharClass
  items : List CharClass

namespace OpenClass

def start : OpenClass := ⟨none, []⟩

def push (o : OpenClass) (x : CharClass) : OpenClass := { o with items := x :: o.items }

def close (o : OpenClass) : CharClass :=
  let right := CharClass.ofItems o.items.reverse
  o.left.elim right (.combined · right)

end OpenClass

def caret (spaced : Bool) (s : List Char) : Bool × List Char :=
  match next spaced s with
  | '^' :: s => (true, s)
  | s => (false, s)

/-- The rest of a class, with its closing bracket. Right behind the opening one, dashes stand for
themselves, and without dashes so does a closing bracket. Each step takes a character, so the fuel
is the length of the text. -/
def classRest (spaced : Bool) : Nat → Bool → OpenClass → Reader CharClass
  | 0, _, _, _ => none
  | fuel + 1, first, o, s =>
    match first, next spaced s with
    | true, '-' :: s => classRest spaced fuel true (o.push (.single ⟨'-', false⟩)) s
    | first, ']' :: s =>
      if first && o.items.isEmpty then
        classRest spaced fuel false (o.push (.single ⟨']', false⟩)) s
      else some (o.close, s)
    | _, '&' :: '&' :: s | _, '-' :: '-' :: s | _, '~' :: '~' :: s =>
      classRest spaced fuel false ⟨some o.close, []⟩ s
    | _, '[' :: s =>
      match namedClass? s with
      | some (x, s) => classRest spaced fuel false (o.push x) s
      | none => do
        let (negated, s) := caret spaced s
        let (inner, s) ← classRest spaced fuel true .start s
        classRest spaced fuel false (o.push (.bracketed negated inner)) s
    | _, s => do
      let (x, s) ← classRange spaced s
      classRest spaced fuel false (o.push x) s

def charClass (spaced : Bool) (s : List Char) : Option (Pattern × List Char) := do
  let (negated, s) := caret spaced s
  let (inner, s) ← classRest spaced s.length true .start s
  return (bracketed negated inner, s)

/-! ## Groups -/

def flagOf? : Char → Option Flag
  | 'i' => some .caseless
  | 'm' => some .multiline
  | 's' => some .dotAll
  | 'U' => some .swapGreed
  | 'u' => some .unicode
  | 'R' => some .crlf
  | 'x' => some .spaced
  | _ => none

/-- Flags up to a colon or a closing bracket, and whether it is a bracket. Behind a minus they are
turned off, and there has to be one at least. -/
def flagChanges (on : Bool) (changes : FlagChanges) : Reader (FlagChanges × Bool)
  | [] => none
  | ':' :: s => some ((changes, false), s)
  | ')' :: s => some ((changes, true), s)
  | '-' :: s =>
    match s with
    | ':' :: _ | ')' :: _ => none
    | s => if on then flagChanges false changes s else none
  | c :: s => do
    let flag ← flagOf? c
    if (changes.lookup flag).isSome then none else flagChanges on (changes ++ [(flag, on)]) s

def beginsName (c : Char) : Bool := c == '_' || isAlphabeticChar c

def inName (c : Char) : Bool := ['_', '.', '[', ']'].contains c || isAlphanumericChar c

def groupName (s : List Char) : Option (String × List Char) :=
  match s.takeWhile (· != '>'), s.dropWhile (· != '>') with
  | c :: name, '>' :: s =>
    if beginsName c && name.all inName then some (String.ofList (c :: name), s) else none
  | _, _ => none

inductive Opening where
  | group (name : Option String) (changes : FlagChanges)
  /-- Flags for the group around. -/
  | changes (changes : FlagChanges)

def opening (spaced : Bool) (s : List Char) : Option (Opening × List Char) := do
  match next spaced s with
  | '?' :: 'P' :: '<' :: s | '?' :: '<' :: s =>
    let (name, s) ← groupName s
    return (.group (some name) [], s)
  | '?' :: s =>
    match ← flagChanges true [] s with
    | (([], true), _) => none
    | ((changes, true), s) => return (.changes changes, s)
    | ((changes, false), s) => return (.group none changes, s)
  | s => return (.group none [], s)

def addName? (names : List String) : Option String → Option (List String)
  | none => some names
  | some name => if names.contains name then none else some (name :: names)

/-! ## Patterns -/

/-- A pattern so far: its finished branches and the parts of the last one, last first. -/
structure OpenPattern where
  branches : List Pattern
  parts : List Pattern

namespace OpenPattern

def start : OpenPattern := ⟨[], []⟩

def push (o : OpenPattern) (p : Pattern) : OpenPattern := { o with parts := p :: o.parts }

def lastBranch (o : OpenPattern) : Pattern := ofParts o.parts.reverse

def branch (o : OpenPattern) : OpenPattern := ⟨o.lastBranch :: o.branches, []⟩

def close (o : OpenPattern) : Pattern :=
  if o.branches.isEmpty then o.lastBranch else choice (o.lastBranch :: o.branches).reverse

/-- Repeats the last part; flags cannot be repeated. -/
def repeatLast? (o : OpenPattern) : Option OpenPattern :=
  match o.parts with
  | [] | flags _ :: _ => none
  | p :: ps => some { o with parts := repeated p :: ps }

end OpenPattern

def dropLazy : List Char → List Char
  | '?' :: s => s
  | s => s

def simplePart (spaced : Bool) : Reader Pattern
  | '[' :: s => charClass spaced s
  | '\\' :: s => escape spaced s
  | '.' :: s => some (anyChar, s)
  | '^' :: s | '$' :: s => some (edge false, s)
  | c :: s => some (literal ⟨c, false⟩, s)
  | [] => none

/-- The rest of a pattern or of a group, with its closing bracket, and the names of all groups so
far. Each step takes a character, so the fuel is one more than the length of the text. -/
def patternRest : Nat → Bool → Bool → List String → OpenPattern → Reader (Pattern × List String)
  | 0, _, _, _, _, _ => none
  | fuel + 1, inGroup, spaced, names, o, s =>
    match next spaced s with
    | [] => if inGroup then none else some ((o.close, names), [])
    | ')' :: s => if inGroup then some ((o.close, names), s) else none
    | '|' :: s => patternRest fuel inGroup spaced names o.branch s
    | '?' :: s | '*' :: s | '+' :: s => do
      patternRest fuel inGroup spaced names (← o.repeatLast?) (dropLazy s)
    | '\x7b' :: _ => none
    | '(' :: s => do
      match ← opening spaced s with
      | (.changes changes, s) =>
        let spaced := (changes.lookup .spaced).getD spaced
        patternRest fuel inGroup spaced names (o.push (flags changes)) s
      | (.group name changes, s) =>
        let within := (changes.lookup .spaced).getD spaced
        let ((inner, names), s) ←
          patternRest fuel true within (← addName? names name) .start s
        patternRest fuel inGroup spaced names (o.push (group changes inner)) s
    | s => do
      let (p, s) ← simplePart spaced s
      patternRest fuel inGroup spaced names (o.push p) s

def read? (s : List Char) : Option Pattern := do
  let ((p, _), _) ← patternRest (s.length + 1) false false [] .start s
  return p

end SlowRequest.Pattern
