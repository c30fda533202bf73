import SlowRequest.Log.Directive
import SlowRequest.Log.Event
/-!
# Log filters

A filter is a list of directives. Of those that speak of an event by its source and fields, the
narrowest decides. Directives that speak of a scope let more detail through inside it.
-/
namespace SlowRequest.Log

namespace Directive

def covers (d : Directive) (source : Source) : Bool :=
  d.target.all fun t => t.toList.isPrefixOf source.target.toList

/-- Whether a directive holds at all times, and not only inside a scope. -/
def isLasting (d : Directive) : Bool :=
  d.scope.isNone && d.field.all fun f => f.wanted == .anything

def speaksOf (d : Directive) (e : Event) : Bool :=
  d.isLasting && d.covers e.source && d.field.all fun f => e.fieldNames.contains f.name

/-- Whether a directive speaks of a scope, whatever the fields of the scope hold. -/
def concerns (d : Directive) (s : Scope) : Bool :=
  (d.scope.isSome || d.field.isSome) && d.covers s.source && d.scope.all (· == s.name)
    && d.field.all fun f => (s.fields.lookup f.name).isSome

def accepts (d : Directive) (s : Scope) : Bool :=
  d.field.all fun f =>
    match f.wanted with
    | .anything => true
    | .number n => s.fields.lookup f.name == some n
    | .other => false

def letsThrough (d : Directive) (l : Level) : Bool := decide (l.detail ≤ d.detail)

/-- By the length of its target, then by the field it asks for. -/
def isNarrower (d other : Directive) : Bool :=
  let width := fun d : Directive => d.target.elim 0 fun t => t.length + 1
  width other < width d
    || (width other == width d
      && match d.field, other.field with
        | some f, some g => decide (g.name < f.name)
        | some _, none => true
        | none, _ => false)

def narrowest? : List Directive → Option Directive
  | [] => none
  | d :: ds =>
    match narrowest? ds with
    | none => some d
    | some later => some (if d.isNarrower later then d else later)

def asksSame (d other : Directive) : Bool :=
  d.target == other.target && d.scope == other.scope && d.field == other.field

/-- The directives without those that a later one takes back. -/
def standing : List Directive → List Directive
  | [] => []
  | d :: ds => if ds.any d.asksSame then standing ds else d :: standing ds

def mostDetail (ds : List Directive) : Nat := (ds.map (·.detail)).foldr max 0

end Directive

abbrev Filter := List Directive

namespace Filter

def readAll : List (List Char) → Option Filter
  | [] => some []
  | s :: rest =>
    match Directive.read s with
    | .ok d => (readAll rest).map (d :: ·)
    | .error .senseless => readAll rest
    | .error .split => none

/-- Without any directives, only errors are let through. A filter cannot be read if one of its
directives would be cut inside a character. -/
def read? (s : String) : Option Filter :=
  (readAll ((s.splitOn ",").map String.toList)).map fun f =>
    if f.isEmpty then [⟨none, none, none, 1⟩] else f

/-- The most detail that could be let through anywhere. Where the fields of a scope decide, that is
not known beforehand. -/
def ceiling (f : Filter) : Nat :=
  if f.any fun d => d.field.any fun t => t.wanted != .anything then 5
  else Directive.mostDetail f

def follows (f : Filter) (s : Scope) : Bool :=
  let lasting := f.filter fun d => d.isLasting && d.covers s.source
  decide (s.level.detail ≤ f.ceiling)
    && (f.any (·.concerns s)
      || (Directive.narrowest? lasting).any (·.letsThrough s.level))

/-- The detail let through inside a scope, whatever its sources. -/
def detailWithin (f : Filter) (s : Scope) : Nat :=
  if f.follows s then
    Directive.mostDetail ((Directive.standing f).filter fun d => d.concerns s && d.accepts s)
  else 0

def passes (f : Filter) (e : Event) (within : Option Scope) : Bool :=
  (Directive.narrowest? (f.filter (·.speaksOf e))).any (·.letsThrough e.level)
    || within.any fun s => decide (e.level.detail ≤ f.detailWithin s)

end Filter
end SlowRequest.Log
