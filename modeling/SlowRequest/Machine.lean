namespace SlowRequest

structure Machine where
  /-- The bytes of an occurrence in the store. -/
  occurrenceSize : Nat
  /-- The bytes of a place in the queue. -/
  placeSize : Nat
  /-- The bytes of the handle of a worker. -/
  handleSize : Nat
  /-- The bytes of the largest block that can be asked for. -/
  largestBlock : Nat
  /-- Whether there is memory for the first of these blocks beside the others. -/
  hasRoom : List Nat → Bool
  /-- The blocks made so far, latest first. -/
  held : List Nat
  /-- Why the thread of a worker is not started, when it is not. -/
  refusal? : Nat → Option String

inductive BlockFault where
  | tooLarge
  | outOfMemory (bytes : Nat)
  deriving DecidableEq, Repr

def BlockFault.message : BlockFault → String
  | tooLarge => "capacity overflow"
  | outOfMemory bytes => "memory allocation of " ++ toString bytes ++ " bytes failed"

namespace Machine

def holding (m : Machine) (bytes : Nat) : Machine := { m with held := bytes :: m.held }

/-- Why a block is not made; one of no bytes takes no memory. -/
def blockFault? (m : Machine) (bytes : Nat) : Option BlockFault :=
  if m.largestBlock < bytes then some .tooLarge
  else if bytes = 0 || m.hasRoom (bytes :: m.held) then none
  else some (.outOfMemory bytes)

/-- Why the first of these blocks that is not made is not made. -/
def fault? : Machine → List Nat → Option BlockFault
  | _, [] => none
  | m, bytes :: blocks => (m.blockFault? bytes).or ((m.holding bytes).fault? blocks)

end Machine
end SlowRequest
