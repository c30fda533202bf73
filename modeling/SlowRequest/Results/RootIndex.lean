import SlowRequest.Occurrence.Basic
namespace SlowRequest

structure RootIndex where
  /-- Root invocations with their occurrence, in the order met. -/
  entries : List (UInt64 × UInt64)
  deriving DecidableEq, Repr

namespace RootIndex

def empty : RootIndex := ⟨[]⟩

def get? (x : RootIndex) (invocation : UInt64) : Option UInt64 := x.entries.lookup invocation

def size (x : RootIndex) : Nat := x.entries.length

def isEmpty (x : RootIndex) : Bool := x.entries.isEmpty

def insert (x : RootIndex) (o : Occurrence) : RootIndex :=
  match x.get? o.requestRoot.invocationId with
  | some _ => x
  | none => ⟨x.entries ++ [(o.requestRoot.invocationId, o.id)]⟩

end RootIndex
end SlowRequest
