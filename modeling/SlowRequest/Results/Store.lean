import SlowRequest.Occurrence.Basic
namespace SlowRequest

/-- A choice of occurrences; what is not asked for matches. -/
structure OccurrenceQuery where
  application : Option UInt32
  businessTransaction : Option UInt32
  /-- The earliest time that matches. -/
  earliest : Option Instant
  /-- The latest time that matches. -/
  latest : Option Instant
  deriving DecidableEq, Repr, Inhabited

def OccurrenceQuery.accepts (q : OccurrenceQuery) (o : Occurrence) : Bool :=
  q.application.all (· == o.application)
    && q.businessTransaction.all (· == o.businessTransaction)
    && q.earliest.all (·.le o.timestamp)
    && q.latest.all (o.timestamp.le ·)

structure OccurrenceStore where
  capacity : Nat
  occurrences : List Occurrence
  capacity_pos : 0 < capacity
  length_le : occurrences.length ≤ capacity

namespace OccurrenceStore

/-- An empty store; a capacity of zero counts as one. -/
def new (capacity : Nat) : OccurrenceStore where
  capacity := max capacity 1
  occurrences := []
  capacity_pos := by omega
  length_le := Nat.zero_le _

def size (s : OccurrenceStore) : Nat := s.occurrences.length

def isEmpty (s : OccurrenceStore) : Bool := s.occurrences.isEmpty

def isFull (s : OccurrenceStore) : Bool := s.size == s.capacity

/-- The occurrence that leaves when another one is stored: the oldest one of a full store. -/
def evicted? (s : OccurrenceStore) : Option Occurrence :=
  if s.isFull then s.occurrences.head? else none

def kept (s : OccurrenceStore) : List Occurrence :=
  if s.isFull then s.occurrences.tail else s.occurrences

theorem length_kept_lt (s : OccurrenceStore) : s.kept.length < s.capacity := by
  have hpos := s.capacity_pos
  have hle := s.length_le
  rw [kept]
  split
  · rw [List.length_tail]
    omega
  · rename_i hfull
    rw [isFull, beq_iff_eq, size] at hfull
    omega

def insert (s : OccurrenceStore) (o : Occurrence) : OccurrenceStore where
  capacity := s.capacity
  occurrences := s.kept ++ [o]
  capacity_pos := s.capacity_pos
  length_le := by
    rw [List.length_append, List.length_singleton]
    exact s.length_kept_lt

def query (s : OccurrenceStore) (q : OccurrenceQuery) : List Occurrence :=
  s.occurrences.filter q.accepts

def clear (s : OccurrenceStore) : OccurrenceStore :=
  { s with occurrences := [], length_le := Nat.zero_le _ }

end OccurrenceStore
end SlowRequest
