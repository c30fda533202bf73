import SlowRequest.Proofs.Diagnosis.LoneStatement
/-! # The queue of a lone statement -/
namespace SlowRequest

namespace CallTree

def statement? (t : CallTree) (id : NodeId) : Option (UInt64 × String) :=
  (t.get? id).bind fun n => n.measurement.statement?.map (n.method, ·)

/-- The statements of `ids`, in the order in which they first occur. -/
def statements (t : CallTree) (ids : List NodeId) : List (UInt64 × String) :=
  (ids.filterMap t.statement?).eraseDups

/-- Those of `ids` that run the statement. -/
def runsOf (t : CallTree) (ids : List NodeId) (s : UInt64 × String) : List NodeId :=
  ids.filter fun id => t.statement? id == some s

/-- The runs of each statement that occurs more than `minCalls` times among `ids`. -/
def repeatedRuns (t : CallTree) (minCalls : Nat) (ids : List NodeId) : List NodeId :=
  ((t.statements ids).filter fun s => decide (minCalls < (t.runsOf ids s).length)).flatMap
    (t.runsOf ids)

variable {t : CallTree} {ids : List NodeId} {id : NodeId} {minCalls : Nat}

def statementKey (s : UInt64 × String) : OperationKey := ⟨s.1, some s.2, none⟩

private theorem statementKey_injective : Function.Injective statementKey := by
  rintro ⟨method, text⟩ ⟨method', text'⟩ h
  injection h with hmethod htext
  injection htext with htext
  exact Prod.ext hmethod htext

private theorem filter_key? (t : CallTree) (id : NodeId) :
    (t.key? id).filter OperationKey.isSql = (t.statement? id).map statementKey := by
  rw [key?, statement?]
  cases t.get? id with
  | none => rfl
  | some n =>
    simp only [Option.map_some, Option.bind_some, OperationKey.of]
    cases n.measurement <;> rfl

private theorem key?_eq_statementKey {s : UInt64 × String} :
    t.key? id = some (statementKey s) ↔ t.statement? id = some s := by
  have hsql : t.key? id = some (statementKey s) ↔
      (t.key? id).filter OperationKey.isSql = some (statementKey s) := by
    rw [Option.filter_eq_some_iff]
    exact (and_iff_left rfl).symm
  rw [hsql, filter_key?, ← Option.map_some,
    (Option.map_injective statementKey_injective).eq_iff]

private theorem callsOf_statementKey (t : CallTree) (ids : List NodeId) (s : UInt64 × String) :
    t.callsOf ids (statementKey s) = t.runsOf ids s := by
  apply List.filter_congr
  intro id _
  rw [Bool.eq_iff_iff, beq_iff_eq, beq_iff_eq, key?_eq_statementKey]

private theorem filter_operations (t : CallTree) (ids : List NodeId) :
    (t.operations ids).filter OperationKey.isSql = (t.statements ids).map statementKey := by
  rw [operations, ← eraseDups_filter, List.filter_filterMap]
  simp only [filter_key?]
  rw [← List.map_filterMap, eraseDups_map statementKey_injective, statements]

private theorem repeatedCalls_eq (t : CallTree) (minCalls : Nat) (caller : NodeId) :
    t.repeatedCalls minCalls caller = t.repeatedRuns minCalls (t.children caller) := by
  rw [repeatedCalls, ← List.filter_filter, List.filter_comm, filter_operations, List.filter_map,
    List.flatMap_map]
  simp only [callsOf_statementKey, Function.comp_def, repeatedRuns]

private theorem mem_runsOf {s : UInt64 × String} :
    id ∈ t.runsOf ids s ↔ id ∈ ids ∧ t.statement? id = some s := by
  rw [runsOf, List.mem_filter, beq_iff_eq]

private theorem hasSql_of_statement? {s : UInt64 × String} (h : t.statement? id = some s) :
    (t.get? id).any Node.hasSql = true := by
  obtain ⟨n, hn, hs⟩ := Option.bind_eq_some_iff.mp h
  obtain ⟨text, htext, -⟩ := Option.map_eq_some_iff.mp hs
  rw [hn]
  exact Option.isSome_of_eq_some htext

private theorem mem_repeatedRuns :
    id ∈ t.repeatedRuns minCalls ids ↔ id ∈ ids ∧ ∃ s, t.statement? id = some s ∧
      minCalls < (t.runsOf ids s).length := by
  simp only [repeatedRuns, List.mem_flatMap, List.mem_filter, decide_eq_true_eq, mem_runsOf]
  constructor
  · rintro ⟨s, ⟨-, hoften⟩, hid, hs⟩
    exact ⟨hid, s, hs, hoften⟩
  · rintro ⟨hid, s, hs, hoften⟩
    have hmet : s ∈ t.statements ids :=
      List.mem_eraseDups.mpr (List.mem_filterMap.mpr ⟨id, hid, hs⟩)
    exact ⟨s, ⟨hmet, hoften⟩, hid, hs⟩

private theorem nodup_repeatedRuns (hids : ids.Nodup) : (t.repeatedRuns minCalls ids).Nodup := by
  rw [repeatedRuns, List.nodup_flatMap]
  refine ⟨fun s _ => hids.filter _, ?_⟩
  apply ((nodup_eraseDups _).filter _).imp
  intro s s' hne id hs hs'
  have hsame := (mem_runsOf.mp hs).2.symm.trans (mem_runsOf.mp hs').2
  exact hne (Option.some.inj hsame)

end CallTree

namespace NPlusOne

variable {t : CallTree} {q : NodeId} {minCalls : Nat}

theorem queue_eq (t : CallTree) (minCalls : Nat) (q : NodeId) :
    queue t minCalls q =
      if q ∈ t.repeatedRuns minCalls (t.children (searched t q)) then
        t.repeatedRuns minCalls (t.children (searched t q))
      else t.repeatedRuns minCalls (t.children (searched t q)) ++ [q] := by
  rw [queue, CallTree.repeatedCalls_eq]

theorem nodup_queue (t : CallTree) (minCalls : Nat) (q : NodeId) : (queue t minCalls q).Nodup := by
  have hruns : (t.repeatedRuns minCalls (t.children (searched t q))).Nodup :=
    CallTree.nodup_repeatedRuns (t.nodup_children (searched t q))
  rw [queue_eq]
  split
  · exact hruns
  · rename_i hnew
    exact hruns.append (List.nodup_singleton q) (List.disjoint_singleton.mpr hnew)

private theorem hasSql_of_mem_queue {id : NodeId} (hq : (t.get? q).any Node.hasSql = true)
    (hid : id ∈ queue t minCalls q) : (t.get? id).any Node.hasSql = true := by
  rcases repeated_or_eq_of_mem_queue hid with hid | rfl
  · rw [CallTree.repeatedCalls_eq] at hid
    obtain ⟨-, s, hs, -⟩ := CallTree.mem_repeatedRuns.mp hid
    exact CallTree.hasSql_of_statement? hs
  · exact hq

private theorem queue_of_few
    (h : ∀ s, (t.runsOf (t.children (searched t q)) s).length ≤ minCalls) :
    queue t minCalls q = [q] := by
  have hnone : t.repeatedRuns minCalls (t.children (searched t q)) = [] := by
    rw [List.eq_nil_iff_forall_not_mem]
    intro id hid
    obtain ⟨-, s, -, hoften⟩ := CallTree.mem_repeatedRuns.mp hid
    exact absurd hoften (Nat.not_lt.mpr (h s))
  rw [queue_eq, hnone]
  rfl

private theorem parent?_searched (hq : t.contains q) :
    t.parent? q = some (searched t q) ∨ q = t.root ∧ searched t q = q := by
  rw [searched]
  cases hparent : t.parent? q with
  | some caller => exact .inl rfl
  | none => exact .inr ⟨(CallTree.parent?_eq_none hq).mp hparent, rfl⟩

/-- The candidates for the cause of a lone statement are the runs of every statement that its
caller repeats, each once and statement after statement, and then the lone call unless it is one
of them. If nothing is repeated they are the lone call. -/
theorem candidates_of_statement (th : Thresholds) (t : CallTree) (q : NodeId) (exclusive : Float)
    (hq : (t.get? q).any Node.hasSql = true) :
    ∃ caller found, (t.parent? q = some caller ∨ q = t.root ∧ caller = q) ∧
      scope t ⟨[q], q, exclusive⟩ = .ok caller ∧
      candidates th t caller ⟨[q], q, exclusive⟩ = .ok found ∧
      (found = if q ∈ t.repeatedRuns th.minCallsNPlusOne (t.children caller) then
          t.repeatedRuns th.minCallsNPlusOne (t.children caller)
        else t.repeatedRuns th.minCallsNPlusOne (t.children caller) ++ [q]) ∧
      found.Nodup ∧ found.count q = 1 ∧ (∀ id ∈ found, (t.get? id).any Node.hasSql = true) ∧
      ((∀ s, (t.runsOf (t.children caller) s).length ≤ th.minCallsNPlusOne) → found = [q]) := by
  have hin : t.contains q := (CallTree.timed_of_hasSql hq).contains
  have hnodup : (queue t th.minCallsNPlusOne q).Nodup := nodup_queue t th.minCallsNPlusOne q
  exact ⟨searched t q, queue t th.minCallsNPlusOne q, parent?_searched hin,
    scope_lone exclusive hin, candidates_lone th exclusive hin, queue_eq t th.minCallsNPlusOne q,
    hnodup, List.count_eq_one_of_mem hnodup (mem_queue t th.minCallsNPlusOne q),
    fun id => hasSql_of_mem_queue hq, queue_of_few⟩

theorem candidates_of_statement_crowded :
    (crowded.get? ⟨13⟩).any Node.hasSql = true ∧
      ∃ caller found, (crowded.parent? ⟨13⟩ = some caller ∨ ⟨13⟩ = crowded.root ∧ caller = ⟨13⟩) ∧
        scope crowded ⟨[⟨13⟩], ⟨13⟩, 25.0⟩ = .ok caller ∧
        candidates .default crowded caller ⟨[⟨13⟩], ⟨13⟩, 25.0⟩ = .ok found ∧
        found = (List.range 12).map (⟨· + 2⟩) := by
  have hq : (crowded.get? ⟨13⟩).any Node.hasSql = true := by decide +kernel
  obtain ⟨caller, found, hcaller, hscope, hfound, heq, -⟩ :=
    candidates_of_statement .default crowded ⟨13⟩ 25.0 hq
  refine ⟨hq, caller, found, hcaller, hscope, hfound, ?_⟩
  obtain rfl : caller = ⟨1⟩ := by
    rcases hcaller with hparent | ⟨hroot, -⟩
    · have hcall : crowded.parent? ⟨13⟩ = some ⟨1⟩ := by decide +kernel
      exact Option.some.inj (hparent.symm.trans hcall)
    · exact absurd hroot (by decide +kernel)
  rw [heq]
  decide +kernel

end NPlusOne
end SlowRequest
