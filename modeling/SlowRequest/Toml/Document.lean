import SlowRequest.Toml.Value
/-!
# TOML documents

A document under construction: tables that are still open to new keys, beside finished values.
A table may be written once, by its header or by dotted keys; tables that a header only passes
through may still be written later.
-/
namespace SlowRequest.Toml

inductive Origin where
  | header
  /-- On the way to the table of a longer header. -/
  | passedThrough
  | dottedKey
  deriving DecidableEq, Repr

inductive Item where
  | value (v : Value)
  | table (origin : Origin) (items : List (String × Item))
  /-- The tables of one repeated header; the last one is open. -/
  | tables (all : List (List (String × Item)))

abbrev Items := List (String × Item)

def setItem (key : String) (item : Item) : Items → Items
  | [] => [(key, item)]
  | (k, i) :: rest => if k = key then (k, item) :: rest else (k, i) :: setItem key item rest

/-- Changes the table at the end of a path. New tables on the way get the origin `fresh`; dotted
keys do not pass through tables that have a header. -/
def changeAt (fresh : Origin) (change : Origin → Items → Option Items) :
    List String → Origin → Items → Option Items
  | [], origin, items => change origin items
  | key :: path, _, items =>
    match items.lookup key with
    | none => do
      let inner ← changeAt fresh change path fresh []
      return items ++ [(key, .table fresh inner)]
    | some (.value _) => none
    | some (.table origin inner) =>
      if fresh = .dottedKey ∧ origin = .header then none
      else do
        let inner ← changeAt fresh change path origin inner
        return setItem key (.table origin inner) items
    | some (.tables all) =>
      match all.reverse with
      | [] => none
      | last :: earlier => do
        let inner ← changeAt fresh change path .header last
        return setItem key (.tables (earlier.reverse ++ [inner])) items

/-- Gives a value to a new key. A dotted key adds to a table of dotted keys only, and a plain key
to any other table. -/
def addValue (dotted : Bool) (key : String) (v : Value) (origin : Origin) (items : Items) :
    Option Items :=
  if (origin == .dottedKey) != dotted || (items.lookup key).isSome then none
  else some (items ++ [(key, .value v)])

def assign (header path : List String) (key : String) (v : Value) (items : Items) :
    Option Items :=
  changeAt .passedThrough
    (changeAt .dottedKey (addValue (!path.isEmpty) key v) path) header .header items

def openTable (key : String) (_ : Origin) (items : Items) : Option Items :=
  match items.lookup key with
  | none => some (items ++ [(key, .table .header [])])
  | some (.table .passedThrough inner) => some (setItem key (.table .header inner) items)
  | some _ => none

def openRepeated (key : String) (_ : Origin) (items : Items) : Option Items :=
  match items.lookup key with
  | none => some (items ++ [(key, .tables [[]])])
  | some (.tables all) => some (setItem key (.tables (all ++ [[]])) items)
  | some _ => none

mutual

def Item.toValue : Item → Value
  | .value v => v
  | .table _ items => .table (itemsToValues items)
  | .tables all => .array (allToValues all)

def itemsToValues : List (String × Item) → List (String × Value)
  | [] => []
  | (key, item) :: rest => (key, item.toValue) :: itemsToValues rest

def allToValues : List (List (String × Item)) → List Value
  | [] => []
  | items :: rest => .table (itemsToValues items) :: allToValues rest

end

end SlowRequest.Toml
