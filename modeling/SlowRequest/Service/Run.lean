import SlowRequest.Service.Basic
import SlowRequest.Tally
/-! # Running the service -/
namespace SlowRequest.Service

def workerStep? (holdsBack : Outcome → Bool) (s : Service) (i : Nat) : Option Step :=
  match s.workers[i]? with
  | some ⟨_, .idle⟩ =>
    if !s.queue.isEmpty then some (.take i)
    else if s.hasSenders then none else some (.leave i)
  | some ⟨_, .holding _⟩ => some (.diagnose i)
  | some ⟨_, .telling _ outcome⟩ => if holdsBack outcome then none else some (.tell i)
  | some ⟨_, .gone⟩ | none => none

def nextStep? (holdsBack : Outcome → Bool) (s : Service) : Option Step :=
  (List.range s.workers.length).findSome? (s.workerStep? holdsBack)

def Task.stepsLeft : Task → Nat
  | .idle => 1
  | .holding _ => 3
  | .telling .. => 2
  | .gone => 0

def stepsLeft (s : Service) : Nat :=
  3 * s.queue.length + tally (s.workers.map fun w => Task.stepsLeft w.task)

def advance (holdsBack : Outcome → Bool) : Nat → Service → Service
  | 0, s => s
  | fuel + 1, s =>
    match (s.nextStep? holdsBack).bind s.step with
    | some s => advance holdsBack fuel s
    | none => s

def settle (holdsBack : Outcome → Bool) (s : Service) : Service :=
  s.advance holdsBack s.stepsLeft

def wait (place : Nat) : Nat → Service → Service
  | 0, s => s
  | n + 1, s =>
    match s.step (.retry place) with
    | some s => wait place n s
    | none => s

/-- Offers a request and waits for the answer; tells whether it was admitted. -/
def submit (s : Service) (r : DiagnosisRequest) : Service × Bool :=
  let place := s.offered.length
  let s := (s.step (.offer r)).getD s
  match s.step (.send place) with
  | some s => ((s.step (.confirm place)).getD s, true)
  | none =>
    let s := s.wait place s.attempts
    ((s.step (.turnAway place)).getD s, false)

def process (s : Service) (r : DiagnosisRequest) : Service × Bool :=
  if r.isSlow then s.submit r
  else
    (s.speak [⟨.trace, .processor, "Trace below baseline, skipped",
      [("baseline", .float r.baseline)]⟩], false)

/-- Closes the queue, lets the workers empty it and waits for them. -/
def shutdown (s : Service) : Service :=
  match s.step .close with
  | none => s
  | some s =>
    let s := s.settle fun _ => false
    (s.step .join).getD s

end SlowRequest.Service
