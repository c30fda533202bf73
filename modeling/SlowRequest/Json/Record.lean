import SlowRequest.Json.Reader
/-!
# Reading records

A record is an object whose members name its fields, in any order and at most once, or a list
that gives the fields in their own order. Records with alternatives are read by their tag.
-/
namespace SlowRequest.Json

inductive Presence where
  | required
  /-- Of an object only. -/
  | optional
  | defaulted
  deriving DecidableEq, Repr

/-- A field of `R`: its value, once read, is put into a record that starts from defaults. -/
structure RecordField (R : Type) where
  name : String
  presence : Presence
  read : Reader (R → R)

namespace RecordField

variable {R α : Type}

def ofReader (presence : Presence) (name : String) (read : Reader α) (set : α → R → R) :
    RecordField R where
  name := name
  presence := presence
  read s := do
    let (x, s) ← read s
    return (set x, s)

def required (name : String) (read : Reader α) (set : α → R → R) : RecordField R :=
  ofReader .required name read set

def optional (name : String) (read : Reader α) (set : α → R → R) : RecordField R :=
  ofReader .optional name read set

def defaulted (name : String) (read : Reader α) (set : α → R → R) : RecordField R :=
  ofReader .defaulted name read set

end RecordField

/-- The members of an open object; `seen` holds the fields met so far. -/
def members {R : Type} (fields : List (RecordField R)) :
    Nat → Bool → List String → R → List Char → Except Fault (R × List Char)
  | 0, _, _, _, _ => .error .truncated
  | fuel + 1, first, seen, r, s => do
    let (more, s) ← nextMember first s
    if more then
      let (name, s) ← quoted true [] s
      match fields.find? (·.name == name) with
      | some field =>
        if seen.contains name then .error .mismatch
        else
          let (set, s) ← field.read (← colon s)
          members fields fuel false (name :: seen) (set r) s
      | none => members fields fuel false seen r (← skip (← colon s))
    else if fields.any fun f => f.presence == .required && !seen.contains f.name then
      .error .mismatch
    else return (r, s)

def positional {R : Type} :
    List (RecordField R) → Bool → R → List Char → Except Fault (R × List Char)
  | [], _, r, s =>
    match skipBlank s with
    | [] => .error .truncated
    | ']' :: s => .ok (r, s)
    | _ => .error .malformed
  | field :: fields, first, r, s => do
    let (more, s) ← nextElement first s
    if more then
      let (set, s) ← field.read s
      positional fields false (set r) s
    else if field.presence == .defaulted then positional fields first r s
    else .error .mismatch

def record {R : Type} (room : Nat) (fields : List (RecordField R)) (start : R) : Reader R :=
  fun s =>
    match skipBlank s with
    | '{' :: s =>
      if room = 0 then .error .malformed else members fields (s.length + 1) true [] start s
    | '[' :: s => if room = 0 then .error .malformed else positional fields true start s
    | s => .error (foreign s)

/-- One alternative of a tagged value: alone, or with a value of its own. -/
inductive Alternative (α : Type) where
  | bare (x : α)
  | carrying (read : Reader α)

/-- A tagged value: the bare tag as a string, or an object of one member named by the tag. A bare
tag in the place of a member name carries `null`. -/
def tagged {α : Type} (alternatives : List (String × Alternative α)) : Reader α := fun s =>
  match skipBlank s with
  | [] => .error .truncated
  | '"' :: s => do
    let (tag, s) ← quoted true [] s
    match alternatives.lookup tag with
    | some (.bare x) => return (x, s)
    | _ => .error .mismatch
  | '{' :: s => do
    let (tag, s) ← memberName s
    match alternatives.lookup tag with
    | none => .error .mismatch
    | some alternative =>
      let (x, s) ← match alternative with
        | .bare x => bareValue x (← colon s)
        | .carrying read => read (← colon s)
      match skipBlank s with
      | '}' :: s => return (x, s)
      | [] => .error .truncated
      | _ => .error .malformed
  | _ => .error .malformed
where
  memberName (s : List Char) : Except Fault (String × List Char) :=
    match skipBlank s with
    | [] => .error .truncated
    | '"' :: s => quoted true [] s
    | _ => .error .malformed
  bareValue (x : α) (s : List Char) : Except Fault (α × List Char) :=
    match skipBlank s with
    | 'n' :: s => do return (x, ← keyword ['u', 'l', 'l'] s)
    | s => .error (foreign s)

end SlowRequest.Json
