import SlowRequest.Engine.Rule
/-!
# Facts and their lineage

The facts of one session in the order written, each with its own position, and an index of them by
tag. Every fact but the root names the older fact it was derived from, so lineages end at the root.
A forest that is cleared keeps the tags of its index, with nothing under them.
-/
namespace SlowRequest

abbrev FactId := Nat

structure Fact (V : Type) where
  tag : Tag
  value : V
  parent : Option FactId
  deriving Repr, DecidableEq

abbrev TagIndex := List (Tag × List FactId)

namespace TagIndex

def bucket (x : TagIndex) (tag : Tag) : List FactId := (x.lookup tag).getD []

def add (tag : Tag) (id : FactId) : TagIndex → TagIndex
  | [] => [(tag, [id])]
  | (t, ids) :: rest => if tag = t then (t, ids ++ [id]) :: rest else (t, ids) :: add tag id rest

/-- Empties all buckets and keeps them. -/
def clear (x : TagIndex) : TagIndex := x.map fun entry => (entry.1, [])

theorem bucket_cons (t tag : Tag) (ids : List FactId) (rest : TagIndex) :
    bucket ((t, ids) :: rest) tag = if tag = t then ids else bucket rest tag := by
  rw [bucket, List.lookup_cons]
  by_cases h : tag = t
  · simp [h]
  · rw [if_neg h, beq_eq_false_iff_ne.mpr h, bucket]

theorem bucket_add (tag other : Tag) (id : FactId) (x : TagIndex) :
    bucket (add tag id x) other = bucket x other ++ if tag = other then [id] else [] := by
  induction x with
  | nil =>
    rw [add, bucket_cons]
    by_cases h : tag = other <;> simp [h, bucket, eq_comm]
  | cons entry rest ih =>
    obtain ⟨t, ids⟩ := entry
    rw [add]
    by_cases ht : tag = t
    · subst ht
      rw [if_pos rfl, bucket_cons, bucket_cons]
      by_cases h : other = tag
      · simp [h]
      · simp [h, Ne.symm h]
    · rw [if_neg ht, bucket_cons, bucket_cons, ih]
      by_cases h : other = t
      · subst h
        simp [ht]
      · simp [h]

theorem bucket_clear (x : TagIndex) (tag : Tag) : bucket (clear x) tag = [] := by
  induction x with
  | nil => rfl
  | cons entry rest ih =>
    obtain ⟨t, ids⟩ := entry
    change bucket ((t, []) :: clear rest) tag = []
    rw [bucket_cons, ih, ite_self]

end TagIndex

def Fact.positions {V : Type} (facts : Array (Fact V)) (tag : Tag) : List FactId :=
  (List.range facts.size).filter fun id => facts[id]?.any (·.tag == tag)

theorem Fact.positions_push {V : Type} (facts : Array (Fact V)) (fact : Fact V) (tag : Tag) :
    positions (facts.push fact) tag =
      positions facts tag ++ if fact.tag = tag then [facts.size] else [] := by
  have hold : ∀ id ∈ List.range facts.size, (facts.push fact)[id]?.any (·.tag == tag) =
      facts[id]?.any (·.tag == tag) := by
    intro id hid
    have hne : id ≠ facts.size := Nat.ne_of_lt (List.mem_range.mp hid)
    rw [Array.getElem?_push, if_neg hne]
  rw [positions, Array.size_push, List.range_succ, List.filter_append, List.filter_congr hold]
  congr 1
  by_cases h : fact.tag = tag <;> simp [h]

structure StoredFact (V : Type) extends Fact V where
  id : FactId
  deriving Repr, DecidableEq

structure FactForest (V : Type) where
  stored : Array (StoredFact V)
  index : TagIndex
  /-- Facts stand at their own positions. -/
  numbered : stored.toList.map StoredFact.id = List.range stored.size
  /-- The index tells the facts of every tag. -/
  indexed : ∀ tag, index.bucket tag =
    Fact.positions (stored.toList.map StoredFact.toFact).toArray tag
  deriving Repr

namespace FactForest

variable {V : Type}

def empty : FactForest V := ⟨#[], [], rfl, fun _ => rfl⟩

def size (f : FactForest V) : Nat := f.stored.size

def isEmpty (f : FactForest V) : Bool := f.stored.isEmpty

def facts (f : FactForest V) : Array (Fact V) := (f.stored.toList.map StoredFact.toFact).toArray

def stored? (f : FactForest V) (id : FactId) : Option (StoredFact V) := f.stored[id]?

def get? (f : FactForest V) (id : FactId) : Option (Fact V) := (f.stored? id).map StoredFact.toFact

theorem get?_eq_getElem? (f : FactForest V) (id : FactId) :
    f.get? id = f.facts.toList[id]? := by
  rw [facts, List.getElem?_map, Array.getElem?_toList, get?, stored?]

theorem size_eq_length (f : FactForest V) : f.size = f.facts.toList.length := by
  rw [facts, List.length_map, Array.length_toList, size]

def root? (f : FactForest V) : Option (Fact V) := f.get? 0

def insert (f : FactForest V) (tag : Tag) (value : V) (parent : Option FactId) : FactForest V where
  stored := f.stored.push { tag, value, parent, id := f.size }
  index := f.index.add tag f.size
  numbered := by
    rw [Array.toList_push, List.map_append, f.numbered, Array.size_push, List.range_succ]
    rfl
  indexed other := by
    rw [TagIndex.bucket_add, Array.toList_push, List.map_append, List.map_singleton,
      ← List.push_toArray, Fact.positions_push, f.indexed, size_eq_length]
    rfl

theorem facts_insert (f : FactForest V) (tag : Tag) (value : V) (parent : Option FactId) :
    (f.insert tag value parent).facts = f.facts.push ⟨tag, value, parent⟩ := by
  rw [facts, insert, Array.toList_push, List.map_append, List.map_singleton, facts,
    List.push_toArray]

def insertAll (f : FactForest V) (tag : Tag) (parent : FactId) (values : List V) : FactForest V :=
  values.foldl (fun f v => f.insert tag v (some parent)) f

def clear (f : FactForest V) : FactForest V := ⟨#[], f.index.clear, rfl, f.index.bucket_clear⟩

def ids (f : FactForest V) (tag : Tag) : List FactId := f.index.bucket tag

theorem ids_eq (f : FactForest V) (tag : Tag) :
    f.ids tag = (List.range f.size).filter fun id => (f.get? id).any (·.tag == tag) := by
  simp only [get?_eq_getElem?, size_eq_length, Array.getElem?_toList]
  exact f.indexed tag

def entries (f : FactForest V) (tag : Tag) : List (StoredFact V) := (f.ids tag).filterMap f.stored?

def ofTag (f : FactForest V) (tag : Tag) : List (Fact V) :=
  (f.entries tag).map StoredFact.toFact

theorem ofTag_eq (f : FactForest V) (tag : Tag) : f.ofTag tag = (f.ids tag).filterMap f.get? := by
  rw [ofTag, entries, List.map_filterMap]
  rfl

def values (f : FactForest V) (tag : Tag) : List V := (f.ofTag tag).map Fact.value

def ascend (f : FactForest V) (next : Option FactId) : Option (StoredFact V × Option FactId) :=
  (next.bind f.stored?).map fun fact => (fact, fact.parent)

/-- From a fact up to the root, the fact itself first. A link to a fact that is not older ends
the walk. -/
def lineage (f : FactForest V) (id : FactId) : List FactId :=
  match f.ascend (some id) with
  | none => []
  | some (fact, none) => [fact.id]
  | some (fact, some p) => fact.id :: if p < id then f.lineage p else []
termination_by id

/-- The nearest fact of a tag on the lineage of `id`. -/
def nearest? (f : FactForest V) (id : FactId) (tag : Tag) : Option FactId :=
  (f.lineage id).find? fun id => (f.get? id).any (·.tag == tag)

end FactForest
end SlowRequest
