import SlowRequest.Pattern.Basic
/-!
# Patterns that can be matched

A matcher knows ASCII characters alone by their properties: which of them are letters, digits or
blanks, and which differ in their case only. It works on texts, so outside the Unicode mode a set
may not reach beyond ASCII, where single bytes are no characters.
-/
namespace SlowRequest

structure MatchMode where
  caseless : Bool
  unicode : Bool
  deriving DecidableEq, Repr

namespace MatchMode

def standard : MatchMode := ⟨false, true⟩

def after (m : MatchMode) (changes : FlagChanges) : MatchMode where
  caseless := (changes.lookup .caseless).getD m.caseless
  unicode := (changes.lookup .unicode).getD m.unicode

def foldsUnicode (m : MatchMode) : Bool := m.caseless && m.unicode

def isAscii (c : Char) : Bool := decide (c.toNat ≤ 0x7F)

def admits (m : MatchMode) (l : Literal) : Bool :=
  if m.unicode then !m.caseless else !l.isByte || isAscii l.char

def admitsInClass (m : MatchMode) (l : Literal) : Bool :=
  if m.unicode then !m.caseless else isAscii l.char

/-- The complement of a set reaches beyond ASCII. -/
def admitsComplement (m : MatchMode) (negated : Bool) : Bool := m.unicode || !negated

def admitsShorthand (m : MatchMode) (negated : Bool) : Bool := !m.unicode && !negated

end MatchMode

mutual

def CharClass.isMatchable (m : MatchMode) : CharClass → Bool
  | .empty => true
  | .single l => m.admitsInClass l
  | .range first last => m.admitsInClass first && m.admitsInClass last
  | .named negated => !m.foldsUnicode && m.admitsComplement negated
  | .shorthand negated => m.admitsShorthand negated
  | .bracketed negated inner => inner.isMatchable m && m.admitsComplement negated
  | .union items => CharClass.areMatchable m items
  | .combined left right => left.isMatchable m && right.isMatchable m

def CharClass.areMatchable (m : MatchMode) : List CharClass → Bool
  | [] => true
  | x :: xs => x.isMatchable m && CharClass.areMatchable m xs

end

namespace Pattern

mutual

/-- The mode behind a part of a pattern, if the part can be matched. A group leaves the mode as it
was before, the branches of a choice do not. -/
def modeAfter? (m : MatchMode) : Pattern → Option MatchMode
  | empty => some m
  | flags changes => some (m.after changes)
  | literal l => if m.admits l then some m else none
  | anyChar => if m.unicode then some m else none
  | edge ofWord => if ofWord && m.unicode then none else some m
  | shorthand negated => if m.admitsShorthand negated then some m else none
  | bracketed negated inner =>
    if inner.isMatchable m && m.admitsComplement negated then some m else none
  | repeated inner => modeAfter? m inner
  | group changes inner => (modeAfter? (m.after changes) inner).map fun _ => m
  | sequence parts => modeAfterAll? m parts
  | choice branches => modeAfterAll? m branches

def modeAfterAll? (m : MatchMode) : List Pattern → Option MatchMode
  | [] => some m
  | p :: ps =>
    match modeAfter? m p with
    | some m => modeAfterAll? m ps
    | none => none

end

def depthLimit : Nat := 250

def isMatchable (p : Pattern) : Bool :=
  decide (p.depth ≤ depthLimit) && (p.modeAfter? .standard).isSome

end Pattern
end SlowRequest
