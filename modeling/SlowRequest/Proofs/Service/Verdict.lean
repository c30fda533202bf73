import SlowRequest.Proofs.Engine.Reuse
import SlowRequest.Service.Diagnosis
/-! # What a request gets -/
namespace SlowRequest

def Occurrence.anonymous (o : Occurrence) : Occurrence := { o with id := 0 }

private theorem cases_of_map_eq {α β ε : Type} {f : α → β} {x y : Except ε α}
    (h : x.map f = y.map f) :
    (∃ e, x = .error e ∧ y = .error e) ∨ ∃ a b, x = .ok a ∧ y = .ok b ∧ f a = f b := by
  cases x with
  | error e =>
    cases y with
    | error e' => exact .inl ⟨e, rfl, congrArg Except.error (Except.error.inj h).symm⟩
    | ok b => cases h
  | ok a =>
    cases y with
    | error e => cases h
    | ok b => exact .inr ⟨a, b, rfl, rfl, Except.ok.inj h⟩

section Collecting

variable {f g : FactForest Finding} {t : CallTree} {root : Node} {id : FactId}

private theorem Narrowing.of_congr (h : f.facts = g.facts) (hid : id < f.size) :
    Narrowing.of g id = Narrowing.of f id := by
  have hgrow := FactForest.grows_of_facts_eq h
  have hget : g.get? id = f.get? id := hgrow.get? hid
  have hline : ∀ tag, Narrowing.onLineage g id tag = Narrowing.onLineage f id tag := by
    intro tag
    rw [Narrowing.onLineage, Narrowing.onLineage, hgrow.nearest? hid]
    cases ha : f.nearest? id tag with
    | none => rfl
    | some a =>
      obtain ⟨x, hx, -⟩ := FactForest.exists_of_nearest? ha
      rw [Option.bind_some, Option.bind_some, hgrow.get? (FactForest.lt_size_of_get? hx)]
  simp only [Narrowing.of, hget, hline]

private theorem Narrowing.anonymous_occurrence (n : Narrowing) (t : CallTree) (root : Node)
    (a b : UInt64) : (n.occurrence t root a).map Occurrence.anonymous =
      (n.occurrence t root b).map Occurrence.anonymous := by
  rw [Narrowing.occurrence, Narrowing.occurrence]
  cases CallReference.of t t.root with
  | error e => rfl
  | ok requestRoot =>
    cases CallReference.of t n.globalContext with
    | error e => rfl
    | ok globalContext =>
      cases CallReference.of t n.cluster.context with
      | error e => rfl
      | ok problemContext =>
        cases CauseReference.of t n.cause with
        | error e => rfl
        | ok rootCause => rfl

private theorem Occurrence.assemble_congr {ids : List FactId} (h : f.facts = g.facts)
    (hids : ∀ id ∈ ids, id < f.size) (a b : UInt64) :
    (assemble f t root ids a).1.map (List.map anonymous) =
      (assemble g t root ids b).1.map (List.map anonymous) := by
  induction ids generalizing a b with
  | nil => rfl
  | cons id ids ih =>
    rw [assemble, assemble, Narrowing.of_congr h (hids id List.mem_cons_self)]
    cases Narrowing.of f id with
    | error e => rfl
    | ok found =>
      have hrest := ih (fun i hi => hids i (List.mem_cons_of_mem _ hi)) (a + 1) (b + 1)
      dsimp only
      rcases cases_of_map_eq (found.anonymous_occurrence t root a b) with
        ⟨e, hx, hy⟩ | ⟨x, y, hx, hy, hxy⟩
      · rw [hx, hy]
      · rw [hx, hy]
        dsimp only
        rcases cases_of_map_eq hrest with ⟨e, hxs, hys⟩ | ⟨xs, ys, hxs, hys, hlist⟩
        · rw [hxs, hys]
          rfl
        · rw [hxs, hys]
          change Except.ok ((x :: xs).map anonymous) = Except.ok ((y :: ys).map anonymous)
          rw [List.map_cons, List.map_cons, hxy, hlist]

private theorem Occurrence.collect_congr (h : f.facts = g.facts) (a b : UInt64) :
    (collect f a).1.map (List.map anonymous) = (collect g b).1.map (List.map anonymous) := by
  have hroot : f.root? = g.root? := by
    rw [FactForest.root?, FactForest.root?, FactForest.get?_eq_getElem?,
      FactForest.get?_eq_getElem?, h]
  rw [collect, collect, hroot, FactForest.map_id_entries, FactForest.map_id_entries,
    FactForest.ids_congr h]
  cases g.root? with
  | none => rfl
  | some rootFact =>
    dsimp only
    split
    · rfl
    · apply assemble_congr h
      intro id hid
      rw [← FactForest.ids_congr h] at hid
      exact FactForest.lt_size_of_mem_ids hid

end Collecting

/-- An outcome without the numbers of its occurrences. -/
def Outcome.anonymous : Outcome → Outcome
  | diagnosed occurrences => .diagnosed (occurrences.map Occurrence.anonymous)
  | unassembled e => .unassembled e
  | failed e => .failed e

def Outcome.ofCollected : Except DiagnosisError (List Occurrence) → Outcome
  | .ok occurrences => .diagnosed occurrences
  | .error e => .unassembled e

private theorem Outcome.anonymous_ofCollected (found : Except DiagnosisError (List Occurrence)) :
    (ofCollected found).anonymous = ofCollected (found.map (List.map Occurrence.anonymous)) := by
  cases found <;> rfl

namespace DiagnosisSession

variable {g : DiagnosisGraph} {s t : DiagnosisSession}

private theorem graph_activate {active : DiagnosisSession} {root : Finding} {vars : Variables}
    (h : s.activate root vars = .ok active) : active.graph = s.graph := by
  rw [Session.activate] at h
  split at h
  · cases h
    rfl
  · cases h

theorem rested_diagnose (h : s.graph = g) (next : UInt64) (r : DiagnosisRequest) :
    (s.diagnose next r).session.Same (Session.new g) := by
  rw [diagnose]
  cases hactive : s.activate (.request r.tree) (baselineOnly r.baseline) with
  | error e => exact Session.passivate_same h
  | ok active =>
    have hcalled : active.call.1.graph = g :=
      (Session.graph_call active).trans ((graph_activate hactive).trans h)
    dsimp only
    cases active.call.2 with
    | error e => exact Session.passivate_same hcalled
    | ok n => exact Session.passivate_same hcalled

theorem anonymous_diagnose (h : s.Same t) (hidle : t.state = .idle) (a b : UInt64)
    (r : DiagnosisRequest) :
    (s.diagnose a r).outcome.anonymous = (t.diagnose b r).outcome.anonymous := by
  obtain ⟨x, y, hx, hy, hxy⟩ := h.activate hidle (.request r.tree) (baselineOnly r.baseline)
  obtain ⟨hsame, hresult⟩ := hxy.call
  rw [diagnose, diagnose, hx, hy]
  dsimp only
  rw [hresult]
  cases y.call.2 with
  | error e => rfl
  | ok n =>
    change (Outcome.ofCollected (Occurrence.collect x.call.1.facts a).1).anonymous =
      (Outcome.ofCollected (Occurrence.collect y.call.1.facts b).1).anonymous
    rw [Outcome.anonymous_ofCollected, Outcome.anonymous_ofCollected,
      Occurrence.collect_congr hsame.facts a b]

end DiagnosisSession

/-- What a new session finds in a request. -/
def DiagnosisRequest.verdict (g : DiagnosisGraph) (r : DiagnosisRequest) : Outcome :=
  (DiagnosisSession.diagnose (Session.new g) 0 r).outcome.anonymous

/-- A session at rest gives every request its verdict. -/
theorem DiagnosisSession.anonymous_diagnose_eq_verdict {g : DiagnosisGraph}
    {s : DiagnosisSession} (h : s.Same (Session.new g)) (next : UInt64) (r : DiagnosisRequest) :
    (s.diagnose next r).outcome.anonymous = r.verdict g :=
  anonymous_diagnose h rfl next 0 r

end SlowRequest
