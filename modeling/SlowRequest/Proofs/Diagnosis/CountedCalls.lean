import SlowRequest.Proofs.Diagnosis.Grouping
import SlowRequest.Proofs.Diagnosis.Nesting
/-!
# Which calls count as recurring

A key with a statement or a route covers the calls that are grouped under it. A key with neither
asks for a timer alone, and an HTTP call has one: it covers every HTTP call of its method as well,
although each of them is grouped under the route it serves.
-/
namespace SlowRequest

namespace OperationKey

/-- The key asks for no route, but the call of its method serves one. -/
def SkipsRoute (key : OperationKey) (n : Node) : Prop :=
  key.statement = none ∧ key.uri = none ∧ n.method = key.method ∧ n.hasHttp = true

private theorem ne_of_skipsRoute {key : OperationKey} {n : Node} (h : key.SkipsRoute n) :
    of n ≠ key := by
  obtain ⟨-, huri, -, hhttp⟩ := h
  intro heq
  rw [← heq] at huri
  rw [Node.hasHttp, show n.measurement.uri? = none from huri] at hhttp
  cases hhttp

/-- A call has a statement or a route but never both, so a key of a call decides by one of them. -/
theorem covers_iff {key : OperationKey} {n : Node} (hkey : ∃ m, key = of m) :
    key.covers n = true ↔
      n.measurement.timer?.isSome = true ∧ of n = key ∨ key.SkipsRoute n := by
  obtain ⟨m, rfl⟩ := hkey
  cases hm : m.measurement <;> cases hn : n.measurement <;>
    simp [covers, of, SkipsRoute, Node.hasTimer, Node.hasHttp, Measurement.timer?,
      Measurement.statement?, Measurement.uri?, hm, hn]

end OperationKey

namespace Recurrence

/-- A timed call of the operation, or one that serves a route the key does not ask for. -/
def Counts (t : CallTree) (key : OperationKey) (id : NodeId) : Prop :=
  t.Timed id ∧ t.key? id = some key ∨ ∃ n, t.get? id = some n ∧ key.SkipsRoute n

variable {t : CallTree} {key : OperationKey} {context id : NodeId}

theorem covers_iff_counts (hkey : ∃ m, key = .of m) :
    (t.get? id).any key.covers = true ↔ Counts t key id := by
  cases hn : t.get? id with
  | none => simp [Counts, CallTree.Timed, hn]
  | some n => simp [Counts, CallTree.Timed, CallTree.key?, hn, OperationKey.covers_iff hkey]

theorem Counts.apart_iff (h : Counts t key id) :
    t.key? id ≠ some key ↔ ∃ n, t.get? id = some n ∧ key.SkipsRoute n := by
  constructor
  · exact fun hapart => h.resolve_left fun hsame => hapart hsame.2
  · rintro ⟨n, hn, hskips⟩ hsame
    rw [CallTree.key?_of_get? hn] at hsame
    exact OperationKey.ne_of_skipsRoute hskips (Option.some.inj hsame)

theorem mem_counted_iff (hkey : ∃ m, key = .of m) :
    id ∈ counted t key context none ↔
      t.contains context ∧ t.Encloses context id ∧ Counts t key id := by
  rw [counted, within, List.mem_filter, CallTree.mem_map_depthFirst, covers_iff_counts hkey,
    and_assoc]

/-- A cause of several calls nests as deep as the counted calls do, those that the budget allows.
Counted are the timed calls of its operation in the context, and with them only those that serve a
route while its key has neither a statement nor a route. -/
theorem classify_counts (th : Thresholds) (t : CallTree) (context : NodeId) {cause : Aggregate}
    (hsize : 2 ≤ cause.size) (hkey : ∃ m, cause.key = .of m) :
    ∃ depth calls,
      classify th t context cause = .ok ⟨causeType cause.key.isSql (1 < depth), depth⟩ ∧
        t.IsNesting (within th.recursionCallBudget calls) depth ∧
        calls.Sublist ((t.depthFirst context).map Prod.fst) ∧
        (∀ id, id ∈ calls ↔
          t.contains context ∧ t.Encloses context id ∧ Counts t cause.key id) ∧
        ∀ id ∈ calls, t.key? id ≠ some cause.key ↔
          ∃ n, t.get? id = some n ∧ cause.key.SkipsRoute n := by
  obtain ⟨depth, hclassify, hnesting⟩ := classify_of_several th t context hsize
  refine ⟨depth, counted t cause.key context none, hclassify, hnesting, List.filter_sublist,
    fun id => mem_counted_iff hkey, ?_⟩
  intro id hid
  exact ((mem_counted_iff hkey).mp hid).2.2.apart_iff

def routedCalls : CallTree.Builder :=
  CallTree.Builder.grow
    (.ofRoot { Call.timed 5 1000.0 200.0 with
      measurement := .http ⟨1000.0, some 200.0, 0.0, 1⟩ "/orders" "GET" })
    [(0, Call.timed 5 400.0 400.0), (0, Call.timed 5 400.0 400.0)]

/-- A route whose method calls itself twice, one call after the other. -/
def routed : CallTree where
  nodes := routedCalls.nodes
  consistent := routedCalls.consistent
  nonempty := by decide +kernel

def routedCause : Aggregate :=
  ⟨⟨5, none, none⟩, #[⟨1⟩, ⟨2⟩], #[400.0, 400.0], 800.0, 800.0⟩

theorem classify_counts_routed :
    2 ≤ routedCause.size ∧ (∃ m, routedCause.key = .of m) ∧
      ∃ depth calls,
        classify .default routed ⟨0⟩ routedCause =
            .ok ⟨causeType routedCause.key.isSql (1 < depth), depth⟩ ∧
          routed.IsNesting (within Thresholds.default.recursionCallBudget calls) depth ∧
          calls.Sublist ((routed.depthFirst ⟨0⟩).map Prod.fst) ∧
          (∀ id, id ∈ calls ↔ routed.contains ⟨0⟩ ∧ routed.Encloses ⟨0⟩ id ∧
            Counts routed routedCause.key id) ∧
          ∀ id ∈ calls, routed.key? id ≠ some routedCause.key ↔
            ∃ n, routed.get? id = some n ∧ routedCause.key.SkipsRoute n := by
  have hsize : 2 ≤ routedCause.size := by decide
  have hkey : ∃ m, routedCause.key = .of m :=
    ⟨{ Call.timed 5 400.0 400.0 with parent := none, children := #[] }, rfl⟩
  exact ⟨hsize, hkey, classify_counts .default routed ⟨0⟩ hsize hkey⟩

/-- The call that serves the route is of another operation than the two calls below it, yet it is
counted with them. None of the two encloses the other, yet they count as recursive. -/
theorem routed_counts_apart :
    (∀ id ∈ routedCause.members.toList,
        routed.Timed id ∧ routed.key? id = some routedCause.key) ∧
      routed.key? ⟨0⟩ ≠ some routedCause.key ∧
      ⟨0⟩ ∈ counted routed routedCause.key ⟨0⟩ Thresholds.default.recursionCallBudget ∧
      (∀ a ∈ routedCause.members.toList, ∀ b ∈ routedCause.members.toList,
        routed.Encloses a b → a = b) ∧
      (classify .default routed ⟨0⟩ routedCause).toOption = some ⟨.recursive, 2⟩ := by
  decide +kernel

end Recurrence
end SlowRequest
