namespace SlowRequest

inductive Flag where
  | caseless
  | multiline
  | dotAll
  | swapGreed
  | unicode
  | crlf
  /-- Blanks and comments in the pattern count for nothing. -/
  | spaced
  deriving DecidableEq, Repr

abbrev FlagChanges := List (Flag × Bool)

structure Literal where
  char : Char
  /-- Whether it is written as a byte, by two hexadecimal digits. -/
  isByte : Bool
  deriving DecidableEq, Repr

inductive CharClass where
  | empty
  | single (l : Literal)
  | range (first last : Literal)
  /-- A set with a name, such as the letters; all of them hold ASCII characters only. -/
  | named (negated : Bool)
  /-- The digits, blanks or word characters, by one letter behind a backslash. -/
  | shorthand (negated : Bool)
  | bracketed (negated : Bool) (inner : CharClass)
  | union (items : List CharClass)
  /-- What two sets have in common, or what sets them apart. -/
  | combined (left right : CharClass)
  deriving Repr

inductive Pattern where
  | empty
  /-- Flags for the rest of the group around. -/
  | flags (changes : FlagChanges)
  | literal (l : Literal)
  | anyChar
  /-- The edge of a text or line, or of a word. -/
  | edge (ofWord : Bool)
  | shorthand (negated : Bool)
  | bracketed (negated : Bool) (inner : CharClass)
  | repeated (inner : Pattern)
  | group (changes : FlagChanges) (inner : Pattern)
  | sequence (parts : List Pattern)
  | choice (branches : List Pattern)
  deriving Repr

namespace CharClass

def ofItems : List CharClass → CharClass
  | [] => empty
  | [x] => x
  | xs => union xs

mutual

/-- How deep sets lie inside each other; a single character has no depth. -/
def depth : CharClass → Nat
  | bracketed _ inner => inner.depth + 1
  | union items => depthOfAll items + 1
  | combined left right => max left.depth right.depth + 1
  | _ => 0

def depthOfAll : List CharClass → Nat
  | [] => 0
  | x :: xs => max x.depth (depthOfAll xs)

end

end CharClass

namespace Pattern

def ofParts : List Pattern → Pattern
  | [] => empty
  | [p] => p
  | ps => sequence ps

mutual

def depth : Pattern → Nat
  | bracketed _ inner => inner.depth + 1
  | repeated inner => inner.depth + 1
  | group _ inner => inner.depth + 1
  | sequence parts => depthOfAll parts + 1
  | choice branches => depthOfAll branches + 1
  | _ => 0

def depthOfAll : List Pattern → Nat
  | [] => 0
  | p :: ps => max p.depth (depthOfAll ps)

end

end Pattern
end SlowRequest
