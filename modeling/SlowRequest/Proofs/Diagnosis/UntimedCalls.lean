import SlowRequest.Proofs.Diagnosis.Causes
import SlowRequest.Proofs.Engine.Derivation
/-!
# Causes among calls without timing data

The greedy pass refuses a call that is not timed. The run after the pass does not ask: it reads the
time of such a call as zero, and takes the call if neither zero nor a time ahead of it in the run
is at or below the lower bound. With a bound of zero or more, all calls of a cause are timed.
-/
namespace SlowRequest

private theorem exists_mem_takeWhile_iff {α : Type} {p : α → Bool} {q : α → Prop} {l : List α} :
    (∃ x ∈ l.takeWhile p, q x) ↔
      ∃ ahead x rest, l = ahead ++ x :: rest ∧ q x ∧ p x = true ∧ ∀ y ∈ ahead, p y = true := by
  induction l with
  | nil => simp
  | cons a l ih =>
    constructor
    · rintro ⟨x, hx, hq⟩
      by_cases ha : p a = true
      · rw [List.takeWhile_cons_of_pos ha] at hx
        rcases List.mem_cons.mp hx with rfl | hx
        · exact ⟨[], x, l, rfl, hq, ha, by simp⟩
        · obtain ⟨ahead, y, rest, rfl, hy, hpass, hahead⟩ := ih.mp ⟨x, hx, hq⟩
          exact ⟨a :: ahead, y, rest, rfl, hy, hpass, List.forall_mem_cons.mpr ⟨ha, hahead⟩⟩
      · rw [List.takeWhile_cons_of_neg ha] at hx
        cases hx
    · rintro ⟨ahead, x, rest, hl, hq, hpass, hahead⟩
      refine ⟨x, ?_, hq⟩
      rw [hl, List.takeWhile_append_of_pos hahead, List.takeWhile_cons_of_pos hpass]
      exact List.mem_append_right _ List.mem_cons_self

namespace Attribution

variable {t : CallTree} {sigmaFactor : Float} {candidates : List NodeId} {k : Nat}

/-- The run after the first `k` candidates takes a call that is not timed: zero is above the lower
bound or does not compare with it, and so is every time ahead of that call in the run. -/
def Admits (t : CallTree) (sigmaFactor : Float) (candidates : List NodeId) (k : Nat) : Prop :=
  1 < k ∧ ¬ 0.0 ≤ lower sigmaFactor ((candidates.take k).map t.exclusiveTime) ∧
    ∃ ahead id rest, candidates.drop k = ahead ++ id :: rest ∧ ¬ t.Timed id ∧
      ∀ x ∈ ahead,
        ¬ t.exclusiveTime x ≤ lower sigmaFactor ((candidates.take k).map t.exclusiveTime)

/-- What the search for a cause makes of calls that are not timed, `k` being the least count of
candidates that suffices. -/
structure Asks (th : Thresholds) (t : CallTree) (candidates : List NodeId) (duration : Float)
    (result : Except DiagnosisError Aggregate) (k : Nat) : Prop where
  least : IsLeast {k | Suffices (th.proportion * duration) (candidates.map t.exclusiveTime) k} k
  refuses : ∀ id, result = .error (.missingTimingData id) ↔
    t.untimed? (candidates.take k) = some id
  finds : (∃ found, result = .ok found) ↔ ∀ id ∈ candidates.take k, t.Timed id
  admits : ∀ found, result = .ok found →
    ((∃ id ∈ found.members.toList, ¬ t.Timed id) ↔ Admits t th.sigmaFactor candidates k)

private theorem exists_untimed_runAbove_iff {bound : Float} {ids : List NodeId} :
    (∃ id ∈ runAbove t bound ids, ¬ t.Timed id) ↔
      ¬ 0.0 ≤ bound ∧ ∃ ahead id rest, ids = ahead ++ id :: rest ∧ ¬ t.Timed id ∧
        ∀ x ∈ ahead, ¬ t.exclusiveTime x ≤ bound := by
  rw [runAbove, exists_mem_takeWhile_iff]
  simp only [Bool.not_eq_true', decide_eq_false_iff_not]
  constructor
  · rintro ⟨ahead, id, rest, hids, huntimed, hpass, hahead⟩
    rw [CallTree.exclusiveTime_of_untimed huntimed] at hpass
    exact ⟨hpass, ahead, id, rest, hids, huntimed, hahead⟩
  · rintro ⟨hpass, ahead, id, rest, hids, huntimed, hahead⟩
    rw [← CallTree.exclusiveTime_of_untimed huntimed] at hpass
    exact ⟨ahead, id, rest, hids, huntimed, hpass, hahead⟩

private theorem exists_untimed_share_iff (htimed : ∀ id ∈ candidates.take k, t.Timed id) :
    (∃ id ∈ share t sigmaFactor candidates k, ¬ t.Timed id) ↔
      Admits t sigmaFactor candidates k := by
  rw [Admits, ← exists_untimed_runAbove_iff, share]
  constructor
  · rintro ⟨id, hid, huntimed⟩
    rcases List.mem_append.mp hid with hid | hid
    · exact absurd (htimed id hid) huntimed
    · split at hid
      · rename_i hrun
        exact ⟨hrun.1, id, hid, huntimed⟩
      · cases hid
  · rintro ⟨hseveral, id, hid, huntimed⟩
    have hmore : k < candidates.length := by
      have hdrop : id ∈ candidates.drop k := (List.takeWhile_prefix _).subset hid
      have hlength := List.length_pos_of_mem hdrop
      rw [List.length_drop] at hlength
      omega
    refine ⟨id, List.mem_append_right _ ?_, huntimed⟩
    rw [if_pos ⟨hseveral, hmore⟩]
    exact hid

private theorem asks_cause (th : Thresholds) (duration : Float) (hne : candidates ≠ [])
    (hcalls : ∀ id ∈ candidates, t.contains id) :
    ∃ k, Asks th t candidates duration (cause th t candidates duration) k := by
  obtain ⟨key, k, -, hleast, hcause⟩ := cause_eq_of_contains th duration hne hcalls
  rw [hcause]
  refine ⟨k, ?_⟩
  cases hfirst : t.untimed? (candidates.take k) with
  | some id =>
    have hid : id ∈ candidates.take k := CallTree.mem_of_untimed? hfirst
    have huntimed := CallTree.not_timed_of_untimed? hfirst
    simp only [CallTree.untimedFault_of_contains (hcalls id (List.mem_of_mem_take hid))]
    exact {
      least := hleast
      refuses := fun x => by simp [hfirst]
      finds := ⟨fun ⟨found, h⟩ => (by cases h), fun h => absurd (h id hid) huntimed⟩
      admits := fun found h => by cases h }
  | none =>
    have htimed := CallTree.untimed?_eq_none.mp hfirst
    exact {
      least := hleast
      refuses := fun x => by simp [hfirst]
      finds := ⟨fun _ => htimed, fun _ => ⟨_, rfl⟩⟩
      admits := fun found h => by
        cases h
        exact exists_untimed_share_iff htimed }

def Answers (th : Thresholds) (t : CallTree) (candidates : List NodeId) (duration : Float)
    (result : Except DiagnosisError Aggregate) : Prop :=
  candidates = [] ∧ result = .error .emptyCause ∨ ∃ k, Asks th t candidates duration result k

private theorem answers_cause (th : Thresholds) (duration : Float)
    (hcalls : ∀ id ∈ candidates, t.contains id) :
    Answers th t candidates duration (cause th t candidates duration) := by
  by_cases hne : candidates = []
  · left
    rw [hne]
    exact ⟨rfl, rfl⟩
  · exact .inr (asks_cause th duration hne hcalls)

end Attribution

/-- Where the rules for the cause of a cluster look: nowhere, if the context is foreign. Otherwise a
call without timing data is refused if it is among the fewest candidates that suffice, and taken
exactly if the run after them admits it. -/
theorem rootCause_asks (th : Thresholds) (t : CallTree) {c : Cluster}
    (hcalls : ∀ id ∈ c.invocations, t.contains id) :
    (¬ t.contains c.context →
      ProblemCause.rootCause th t c = .error (.missingNode c.context) ∧
        NPlusOne.rootCause th t c = .error (.missingNode c.context)) ∧
    (t.contains c.context →
      Attribution.Answers th t c.invocations (t.duration c.context)
          (ProblemCause.rootCause th t c) ∧
        ∃ caller calls, NPlusOne.scope t c = .ok caller ∧
          NPlusOne.candidates th t caller c = .ok calls ∧
          Attribution.Answers th t calls (t.duration caller) (NPlusOne.rootCause th t c)) := by
  constructor
  · intro hforeign
    -- A lone call that is its own context would be a call of the tree.
    have hseveral : c.invocations ≠ [c.context] := by
      intro h
      exact hforeign (hcalls c.context (by rw [h]; exact List.mem_singleton_self _))
    refine ⟨?_, ?_⟩
    · rw [ProblemCause.rootCause, CallTree.diagnosedNode_of_foreign hforeign]
      rfl
    · rw [NPlusOne.rootCause, NPlusOne.scope, if_neg hseveral]
      simp only [bind, Except.bind, NPlusOne.candidates, CallTree.diagnosedNode_of_foreign hforeign]
  · intro hcontext
    constructor
    · obtain ⟨n, hn⟩ := CallTree.exists_get? hcontext
      rw [ProblemCause.rootCause, CallTree.diagnosedNode_of_get? hn, CallTree.duration_of_get? hn]
      exact Attribution.answers_cause th n.duration hcalls
    · obtain ⟨caller, hscope, hcaller⟩ := NPlusOne.scope_ok hcontext
      obtain ⟨calls, hcandidates, -, hfrom⟩ := NPlusOne.candidates_ok th c hcaller
      obtain ⟨n, hn⟩ := CallTree.exists_get? hcaller
      have hknown : ∀ id ∈ calls, t.contains id := by
        intro id hid
        rcases hfrom id hid with hid | hid
        · exact hcalls id hid
        · exact (NPlusOne.timed_of_repeats hid).contains
      refine ⟨caller, calls, hscope, hcandidates, ?_⟩
      rw [NPlusOne.rootCause, hscope, CallTree.duration_of_get? hn]
      simp only [bind, Except.bind, hcandidates, CallTree.diagnosedNode_of_get? hn]
      exact Attribution.answers_cause th n.duration hknown

def gappedCalls : CallTree.Builder :=
  CallTree.Builder.grow (.ofRoot (Call.timed 1 1200.0 200.0))
    [(0, Call.timed 7 900.0 900.0), (0, Call.timed 7 100.0 100.0),
      (0, { Call.timed 7 50.0 0.0 with measurement := .none })]

/-- Two calls of uneven times, and one of the same method without timing data. -/
def gapped : CallTree where
  nodes := gappedCalls.nodes
  consistent := gappedCalls.consistent
  nonempty := by decide +kernel

def gappedCluster : Cluster := ⟨[⟨1⟩, ⟨2⟩, ⟨3⟩], ⟨0⟩, 1000.0⟩

theorem rootCause_asks_gapped :
    (∀ id ∈ gappedCluster.invocations, gapped.contains id) ∧
      gapped.contains gappedCluster.context ∧
      Attribution.Answers .default gapped gappedCluster.invocations
          (gapped.duration gappedCluster.context)
          (ProblemCause.rootCause .default gapped gappedCluster) ∧
        ∃ caller calls, NPlusOne.scope gapped gappedCluster = .ok caller ∧
          NPlusOne.candidates .default gapped caller gappedCluster = .ok calls ∧
          Attribution.Answers .default gapped calls (gapped.duration caller)
            (NPlusOne.rootCause .default gapped gappedCluster) := by
  have hcalls : ∀ id ∈ gappedCluster.invocations, gapped.contains id := by decide +kernel
  have hcontext : gapped.contains gappedCluster.context := by decide +kernel
  exact ⟨hcalls, hcontext, (rootCause_asks .default gapped hcalls).2 hcontext⟩

/-- The two timed calls explain the limit, and their times are so far apart that the lower bound is
negative. -/
theorem gapped_rootCause_untimed :
    ¬ gapped.Timed ⟨3⟩ ∧
      (∃ found, ProblemCause.rootCause .default gapped gappedCluster = .ok found ∧
        ⟨3⟩ ∈ found.members.toList) ∧
      ∃ found, NPlusOne.rootCause .default gapped gappedCluster = .ok found ∧
        ⟨3⟩ ∈ found.members.toList := by
  have hcause : ((ProblemCause.rootCause .default gapped gappedCluster).toOption.map
      fun found => found.members.toList) = some [⟨1⟩, ⟨2⟩, ⟨3⟩] := by decide +kernel
  have hrepeated : ((NPlusOne.rootCause .default gapped gappedCluster).toOption.map
      fun found => found.members.toList) = some [⟨1⟩, ⟨2⟩, ⟨3⟩] := by decide +kernel
  obtain ⟨found, hfound, hmembers⟩ := Option.map_eq_some_iff.mp hcause
  obtain ⟨found', hfound', hmembers'⟩ := Option.map_eq_some_iff.mp hrepeated
  refine ⟨by decide +kernel, ⟨found, Except.eq_ok_of_toOption hfound, ?_⟩,
    ⟨found', Except.eq_ok_of_toOption hfound', ?_⟩⟩
  · rw [hmembers]
    decide
  · rw [hmembers']
    decide

end SlowRequest
