import SlowRequest.Proofs.Service.Moves
import SlowRequest.Service.Start
namespace SlowRequest

namespace Service

variable {m : Machine} {session : DiagnosisSession} {n : Nat} {s u : Service} {reason : String}

theorem hire_eq_ok_iff : s.hire m session n = .ok u ↔
    (∀ i ∈ List.range' s.workers.length n, m.refusal? i = none) ∧
      u = { s with workers := s.workers ++ List.replicate n ⟨session, .idle⟩ } := by
  induction n generalizing s with
  | zero => simp [hire, eq_comm]
  | succ n ih =>
    rw [hire, List.range'_succ, List.forall_mem_cons]
    cases hfirst : m.refusal? s.workers.length with
    | some reason => simp
    | none =>
      dsimp only
      rw [ih, List.length_append, List.length_singleton, List.append_assoc, List.replicate_succ]
      simp

/-- The first worker that is refused ends the hiring, and those before it are dismissed. -/
theorem hire_refused (session : DiagnosisSession) {k : Nat} (hk : k < n)
    (hbefore : ∀ i ∈ List.range' s.workers.length k, m.refusal? i = none)
    (hrefused : m.refusal? (s.workers.length + k) = some reason) :
    let hired : Service := { s with workers := s.workers ++ List.replicate k ⟨session, .idle⟩ }
    s.hire m session n = .error (hired.dismiss, reason) := by
  induction k generalizing s n with
  | zero =>
    obtain ⟨n, rfl⟩ := Nat.exists_eq_add_one.mpr hk
    rw [Nat.add_zero] at hrefused
    simp [hire, hrefused]
  | succ k ih =>
    obtain ⟨n, rfl⟩ := Nat.exists_eq_add_one.mpr (Nat.zero_lt_of_lt hk)
    rw [List.range'_succ, List.forall_mem_cons] at hbefore
    have hrest := @ih n { s with workers := s.workers ++ [⟨session, .idle⟩] }
      (Nat.lt_of_succ_lt_succ hk) (by simpa using hbefore.2)
      (by simpa [Nat.add_assoc, Nat.add_comm 1] using hrefused)
    simp only [List.append_assoc, List.singleton_append] at hrest
    rw [hire, hbefore.1, List.replicate_succ]
    exact hrest

variable {settings : ServiceSettings} {rules : List DiagnosisRule} {audience : Audience}

theorem start_of_definition {e : DefinitionError}
    (hg : RuleGraph.register Tag.root rules = .error e) :
    start m settings rules audience = .error (.definition e) := by
  rw [start, hg]
  rfl

theorem start_of_blockFault {g : DiagnosisGraph} {e : BlockFault}
    (hg : RuleGraph.register Tag.root rules = .ok g)
    (hblocks : m.fault? (blocks m settings) = some e) :
    start m settings rules audience = .error (.block e) := by
  rw [start, hg, hblocks]
  rfl

/-- Once its rules are registered and its blocks made, a service starts as its workers do. -/
theorem start_of_blocks {g : DiagnosisGraph} (hg : RuleGraph.register Tag.root rules = .ok g)
    (hblocks : m.fault? (blocks m settings) = none) :
    start m settings rules audience =
      match ((unmanned settings audience).speak (g.registered rules)).hire m (.new g)
        settings.workers with
      | .error refused => .error (.spawn refused.2)
      | .ok s => .ok (s.speak [started settings]) := by
  have hstart : start m settings rules audience =
      (((unmanned settings audience).speak (g.registered rules)).hire m (.new g)
        settings.workers).mapError (.spawn ·.2) >>= fun s => .ok (s.speak [started settings]) := by
    rw [start, hg, hblocks]
    rfl
  rw [hstart]
  cases ((unmanned settings audience).speak (g.registered rules)).hire m (.new g)
    settings.workers <;> rfl

theorem start_of_register {g : DiagnosisGraph} (hg : RuleGraph.register Tag.root rules = .ok g)
    (hblocks : m.fault? (blocks m settings) = none) :
    start m settings rules audience = .ok s ↔
      (∀ i < settings.workers, m.refusal? i = none) ∧
        s = (ofGraph settings g audience).speak (g.registered rules ++ [started settings]) := by
  let opened := (unmanned settings audience).speak (g.registered rules)
  have hopened : opened.workers.length = 0 := rfl
  have hhire := fun u => @hire_eq_ok_iff m (.new g) settings.workers opened u
  simp only [hopened, ← List.range_eq_range', List.mem_range] at hhire
  have hmanned : ({ opened with
      workers := opened.workers ++ List.replicate settings.workers ⟨.new g, .idle⟩ } :
        Service).speak [started settings] =
      (ofGraph settings g audience).speak (g.registered rules ++ [started settings]) := by
    simp [opened, speak, unmanned, ofGraph]
  rw [start_of_blocks hg hblocks]
  cases hhired : opened.hire m (.new g) settings.workers with
  | error e =>
    refine iff_of_false (fun h => by cases h) ?_
    rintro ⟨hall, -⟩
    have hok := (hhire _).mpr ⟨hall, rfl⟩
    rw [hhired] at hok
    cases hok
  | ok u =>
    obtain ⟨hall, rfl⟩ := (hhire u).mp hhired
    rw [← hmanned]
    constructor
    · intro h
      cases h
      exact ⟨hall, rfl⟩
    · rintro ⟨-, rfl⟩
      rfl

theorem start_refused {g : DiagnosisGraph} {k : Nat}
    (hg : RuleGraph.register Tag.root rules = .ok g)
    (hblocks : m.fault? (blocks m settings) = none) (hk : k < settings.workers)
    (hbefore : ∀ i < k, m.refusal? i = none) (hrefused : m.refusal? k = some reason) :
    start m settings rules audience = .error (.spawn reason) := by
  let opened := (unmanned settings audience).speak (g.registered rules)
  have hhire := hire_refused (s := opened) (.new g) hk
    (by simpa [opened, speak, unmanned, ← List.range_eq_range'] using hbefore)
    (by simpa [opened, speak, unmanned] using hrefused)
  rw [start_of_blocks hg hblocks, hhire]

/-- A service starts if its rules can be registered, its blocks made and its workers started. -/
theorem start_eq_ok_iff : start m settings rules audience = .ok s ↔
    ∃ g, RuleGraph.register Tag.root rules = .ok g ∧ m.fault? (blocks m settings) = none ∧
      (∀ i < settings.workers, m.refusal? i = none) ∧
      s = (ofGraph settings g audience).speak (g.registered rules ++ [started settings]) := by
  cases hg : RuleGraph.register Tag.root rules with
  | error e => simp [start_of_definition hg]
  | ok g =>
    cases hblocks : m.fault? (blocks m settings) with
    | some e => simp [start_of_blockFault hg hblocks]
    | none => simp [start_of_register hg hblocks]

end Service
end SlowRequest
