namespace SlowRequest

/-- Puts a name in the place of the one that its key has, or at the end. -/
def rename {κ : Type} [DecidableEq κ] (key : κ) (name : String) :
    List (κ × String) → List (κ × String)
  | [] => [(key, name)]
  | (k, n) :: rest => if k = key then (k, name) :: rest else (k, n) :: rename key name rest

structure NameTable where
  methods : List (UInt64 × String)
  applications : List (UInt32 × String)
  /-- By application and business transaction. -/
  businessTransactions : List ((UInt32 × UInt32) × String)
  deriving DecidableEq, Repr

namespace NameTable

def empty : NameTable := ⟨[], [], []⟩

def insertMethod (t : NameTable) (method : UInt64) (name : String) : NameTable :=
  { t with methods := rename method name t.methods }

def insertApplication (t : NameTable) (application : UInt32) (name : String) : NameTable :=
  { t with applications := rename application name t.applications }

def insertBusinessTransaction (t : NameTable) (application transaction : UInt32)
    (name : String) : NameTable :=
  { t with businessTransactions := rename (application, transaction) name t.businessTransactions }

def method? (t : NameTable) (method : UInt64) : Option String := t.methods.lookup method

def application? (t : NameTable) (application : UInt32) : Option String :=
  t.applications.lookup application

def businessTransaction? (t : NameTable) (application transaction : UInt32) : Option String :=
  t.businessTransactions.lookup (application, transaction)

def size (t : NameTable) : Nat :=
  t.methods.length + t.applications.length + t.businessTransactions.length

def isEmpty (t : NameTable) : Bool := t.size == 0

end NameTable
end SlowRequest
