import SlowRequest.Alphanumeric
import SlowRequest.Blank
import SlowRequest.Pattern.Matchable
import SlowRequest.Pattern.Reader
/-!
# Filter directives

A directive `target[scope{field=value}]=level` lets through so much detail of what it speaks of. A
level alone is meant for everything, and a directive without a level for all levels.
-/
namespace SlowRequest.Log

inductive Wanted where
  | anything
  | number (n : UInt64)
  /-- Something that is no natural number. The fields of scopes hold nothing else. -/
  | other
  deriving DecidableEq, Repr

structure FieldTest where
  name : String
  wanted : Wanted
  deriving DecidableEq, Repr

structure Directive where
  target : Option String
  scope : Option String
  field : Option FieldTest
  /-- The most detail that is let through; zero lets nothing through. -/
  detail : Nat
  deriving DecidableEq, Repr

inductive DirectiveFault where
  | senseless
  /-- A part of the directive would begin or end inside a character. -/
  | split
  deriving DecidableEq, Repr

abbrev DirectiveReader (α : Type) := Except DirectiveFault α

/-! ## Parts -/

def byteCount : List Char → Nat
  | [] => 0
  | c :: s => c.utf8Size + byteCount s

/-- A text without its first bytes; `none` where that splits a character. -/
def dropBytes? : Nat → List Char → Option (List Char)
  | 0, s => some s
  | _ + 1, [] => none
  | n + 1, c :: s => if c.utf8Size ≤ n + 1 then dropBytes? (n + 1 - c.utf8Size) s else none

def takeBytes? : Nat → List Char → Option (List Char)
  | 0, _ => some []
  | _ + 1, [] => none
  | n + 1, c :: s =>
    if c.utf8Size ≤ n + 1 then (takeBytes? (n + 1 - c.utf8Size) s).map (c :: ·) else none

def whole {α : Type} (part : Option α) : DirectiveReader α :=
  match part with
  | some x => .ok x
  | none => .error .split

def sensible {α : Type} (part : Option α) : DirectiveReader α :=
  match part with
  | some x => .ok x
  | none => .error .senseless

def partAt (s : List Char) (position : Nat) (like : List Char) : DirectiveReader (List Char) := do
  whole (takeBytes? (byteCount like) (← whole (dropBytes? position s)))

def trimmed (s : List Char) : List Char :=
  ((s.dropWhile isBlankChar).reverse.dropWhile isBlankChar).reverse

/-! ## Levels and values -/

/-- A natural number; it may have a plus sign. -/
def natural? (s : List Char) : Option Nat :=
  let ds := match s with
    | '+' :: ds => ds
    | ds => ds
  if !ds.isEmpty && ds.all Char.isDigit then
    some (ds.foldl (fun n c => 10 * n + (c.toNat - '0'.toNat)) 0)
  else none

def levelName? (s : List Char) : Option Nat :=
  match String.ofList (s.map Char.toLower) with
  | "off" => some 0
  | "error" => some 1
  | "warn" => some 2
  | "info" => some 3
  | "debug" => some 4
  | "trace" => some 5
  | _ => none

def detail? (s : List Char) : Option Nat :=
  match natural? s with
  | some n => if n ≤ 5 then some n else none
  | none => levelName? s

def dropSign (s : List Char) : List Char :=
  match s with
  | '+' :: s => s
  | '-' :: s => s
  | s => s

def isExponent : List Char → Bool
  | [] => true
  | e :: s =>
    (e == 'e' || e == 'E') && !(dropSign s).isEmpty && (dropSign s).all Char.isDigit

def isNumber (s : List Char) : Bool :=
  let s := dropSign s
  let digits := s.takeWhile Char.isDigit
  let (fraction, rest) := match s.dropWhile Char.isDigit with
    | '.' :: s => (s.takeWhile Char.isDigit, s.dropWhile Char.isDigit)
    | s => ([], s)
  ["inf", "infinity", "nan"].contains (String.ofList (s.map Char.toLower))
    || (!(digits ++ fraction).isEmpty && isExponent rest)

def isPattern (s : List Char) : Bool := (Pattern.read? s).any (·.isMatchable)

def Wanted.read? (s : List Char) : Option Wanted :=
  match (natural? s).filter (· < UInt64.size) with
  | some n => some (.number (UInt64.ofNat n))
  | none => if isNumber s || isPattern s then some .other else none

def FieldTest.read? (s : List Char) : Option FieldTest :=
  let beforeEquals := List.takeWhile (· != '=')
  let name := String.ofList (beforeEquals s)
  match s, s.dropWhile (· != '=') with
  | [], _ => none
  | _, '=' :: value => (Wanted.read? (beforeEquals value)).map (⟨name, ·⟩)
  | _, _ => some ⟨name, .anything⟩

/-! ## Directives -/

namespace Directive

def levelAt (s : List Char) (position : Nat) : List Char → DirectiveReader Nat
  | [] => .ok 5
  | '=' :: _ => do
    match ← whole (dropBytes? (position + 1) s) with
    | [] => return 5
    | level => sensible (detail? level)
  | _ => .error .senseless

def scopeAt (s : List Char) (target : Option String) (position : Nat) (rest : List Char) :
    DirectiveReader Directive := do
  let inName := fun c => c != ']' && c != '\x7b'
  let name := rest.takeWhile inName
  let after := position + byteCount name + 1
  match rest.dropWhile inName with
  | ']' :: rest =>
    let scope ← partAt s position name
    return ⟨target, some (String.ofList scope), none, ← levelAt s after rest⟩
  | '\x7b' :: rest =>
    let scope ← partAt s position name
    let scope := if scope.isEmpty then none else some (String.ofList scope)
    let field := rest.takeWhile (· != '\x7d')
    match rest.dropWhile (· != '\x7d') with
    | '\x7d' :: rest =>
      let test ← sensible (FieldTest.read? (← partAt s after field))
      match rest with
      | ']' :: rest =>
        return ⟨target, scope, some test, ← levelAt s (after + byteCount field + 2) rest⟩
      | _ => .error .senseless
    | _ => .error .senseless
  | _ => .error .senseless

def beginsTarget (c : Char) : Bool := ['-', ':', '_'].contains c || isAlphanumericChar c

/-- The parts of a directive are found in its text without the blanks around it, and cut at the
same distances from the start of the text with them. -/
def read (s : List Char) : DirectiveReader Directive := do
  let inTarget := fun c => c != '=' && c != '['
  let rest := trimmed s
  let target := rest.takeWhile inTarget
  match target, rest.dropWhile inTarget with
  | [], '[' :: rest => scopeAt s none 1 rest
  | c :: _, rest =>
    if !beginsTarget c then .error .senseless
    else
      match rest with
      | [] =>
        match detail? s with
        | some n => return ⟨none, none, none, n⟩
        | none => return ⟨some (String.ofList s), none, none, 5⟩
      | '[' :: rest =>
        let cut ← partAt s 0 target
        scopeAt s (some (String.ofList cut)) (byteCount target + 1) rest
      | rest =>
        let cut ← partAt s 0 target
        return ⟨some (String.ofList cut), none, none, ← levelAt s (byteCount target) rest⟩
  | [], _ => .error .senseless

end Directive
end SlowRequest.Log
