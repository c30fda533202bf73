import SlowRequest.Proofs.Service.Verdict
namespace SlowRequest

private theorem add_ofNat_length_cons {α : Type} (next : UInt64) (x : α) (xs : List α) :
    next + UInt64.ofNat (x :: xs).length = next + 1 + UInt64.ofNat xs.length := by
  rw [List.length_cons, UInt64.ofNat_add, UInt64.add_assoc, UInt64.add_comm 1]
  rfl

namespace Occurrence

def numbered : UInt64 → List Occurrence → List Occurrence
  | _, [] => []
  | next, o :: os => { o with id := next } :: numbered (next + 1) os

theorem numbered_append (next : UInt64) (os rest : List Occurrence) :
    numbered next (os ++ rest) =
      numbered next os ++ numbered (next + UInt64.ofNat os.length) rest := by
  induction os generalizing next with
  | nil => simp [numbered]
  | cons o os ih =>
    rw [List.cons_append, numbered, ih, add_ofNat_length_cons]
    rfl

theorem numbered_map_anonymous (next : UInt64) (os : List Occurrence) :
    numbered next (os.map anonymous) = numbered next os := by
  induction os generalizing next with
  | nil => rfl
  | cons o os ih =>
    rw [List.map_cons, numbered, numbered, ih]
    rfl

end Occurrence

variable {f : FactForest Finding} {t : CallTree} {root : Node} {next last : UInt64}
  {os : List Occurrence}

private theorem Narrowing.of_occurrence {n : Narrowing} {o : Occurrence}
    (h : n.occurrence t root next = .ok o) :
    o.id = next ∧ CallReference.of t t.root = .ok o.requestRoot := by
  rw [occurrence] at h
  cases hroot : CallReference.of t t.root with
  | error e => simp [hroot, bind, Except.bind] at h
  | ok requestRoot =>
    cases hglobal : CallReference.of t n.globalContext with
    | error e => simp [hroot, hglobal, bind, Except.bind] at h
    | ok globalContext =>
      cases hcontext : CallReference.of t n.cluster.context with
      | error e => simp [hroot, hglobal, hcontext, bind, Except.bind] at h
      | ok problemContext =>
        cases hcause : CauseReference.of t n.cause with
        | error e => simp [hroot, hglobal, hcontext, hcause, bind, Except.bind] at h
        | ok rootCause =>
          rw [hroot, hglobal, hcontext, hcause] at h
          cases h
          exact ⟨rfl, rfl⟩

namespace Occurrence

private theorem assemble_cons_eq_ok {id : FactId} {ids : List FactId}
    (h : assemble f t root (id :: ids) next = (.ok os, last)) :
    ∃ (n : Narrowing) (o : Occurrence) (rest : List Occurrence),
      n.occurrence t root next = .ok o ∧
      assemble f t root ids (next + 1) = (.ok rest, last) ∧ os = o :: rest := by
  rw [assemble] at h
  cases hfound : Narrowing.of f id with
  | error e => simp [hfound] at h
  | ok n =>
    cases ho : n.occurrence t root next with
    | error e => simp [hfound, ho] at h
    | ok o =>
      simp only [hfound, ho] at h
      obtain ⟨hrest, hlast⟩ := Prod.mk.inj h
      cases hassembled : (assemble f t root ids (next + 1)).1 with
      | error e => simp [hassembled, Except.map] at hrest
      | ok rest =>
        rw [hassembled] at hrest
        cases hrest
        exact ⟨n, o, rest, ho, Prod.ext hassembled hlast, rfl⟩

private theorem assemble_numbered {ids : List FactId}
    (h : assemble f t root ids next = (.ok os, last)) :
    os = numbered next os ∧ last = next + UInt64.ofNat os.length := by
  induction ids generalizing next os with
  | nil =>
    cases h
    exact ⟨rfl, (UInt64.add_zero _).symm⟩
  | cons id ids ih =>
    obtain ⟨n, o, rest, ho, hrest, rfl⟩ := assemble_cons_eq_ok h
    obtain ⟨hnumbered, hlast⟩ := ih hrest
    rw [numbered, ← hnumbered, ← (Narrowing.of_occurrence ho).1, add_ofNat_length_cons]
    exact ⟨rfl, (Narrowing.of_occurrence ho).1 ▸ hlast⟩

theorem assemble_requestRoot {ids : List FactId} {o : Occurrence}
    (h : assemble f t root ids next = (.ok os, last)) (ho : o ∈ os) :
    CallReference.of t t.root = .ok o.requestRoot := by
  induction ids generalizing next os with
  | nil =>
    cases h
    cases ho
  | cons id ids ih =>
    obtain ⟨n, first, rest, hfirst, hrest, rfl⟩ := assemble_cons_eq_ok h
    rcases List.mem_cons.mp ho with rfl | ho
    · exact (Narrowing.of_occurrence hfirst).2
    · exact ih hrest ho

private theorem collect_numbered (h : collect f next = (.ok os, last)) :
    os = numbered next os ∧ last = next + UInt64.ofNat os.length := by
  rw [collect] at h
  split at h
  · cases h
    exact ⟨rfl, (UInt64.add_zero _).symm⟩
  · dsimp only at h
    split at h
    · cases h
    · exact assemble_numbered h

end Occurrence

theorem DiagnosisSession.diagnose_numbered {s : DiagnosisSession} {r : DiagnosisRequest}
    (h : (s.diagnose next r).outcome = .diagnosed os) :
    os = Occurrence.numbered next os ∧
      (s.diagnose next r).next = next + UInt64.ofNat os.length := by
  rw [diagnose] at h ⊢
  cases hactive : s.activate (.request r.tree) (baselineOnly r.baseline) with
  | error e => simp [hactive] at h
  | ok active =>
    simp only [hactive] at h ⊢
    cases hcalled : active.call.2 with
    | error e => simp [hcalled] at h
    | ok n =>
      simp only [hcalled] at h ⊢
      cases hcollected : (Occurrence.collect active.call.1.facts next).1 with
      | error e => simp [hcollected] at h
      | ok occurrences =>
        simp only [hcollected] at h ⊢
        cases h
        exact Occurrence.collect_numbered (Prod.ext hcollected rfl)

end SlowRequest
