import Mathlib.Data.List.Lex
import Mathlib.Data.List.Nodup
import Mathlib.Data.List.Sort
import SlowRequest.Proofs.CallTree.Traversal
import SlowRequest.Proofs.Trace.Growth
import SlowRequest.Trace.File
/-!
# Where spans come to lie

A place in a span is a path of child positions. In lexicographic order, which puts a call before
the calls below it and these before the next call beside it, the places of a span are its calls in
pre-order.
-/
namespace SlowRequest

open CallTree.Builder (numbered)

private theorem NodeId.eq_of_ascending {ids ids' : List NodeId}
    (h : ids.Pairwise (·.index < ·.index))
    (h' : ids'.Pairwise (·.index < ·.index)) (hmem : ∀ id, id ∈ ids ↔ id ∈ ids') : ids = ids' := by
  have hantisymm : Std.Antisymm fun a b : NodeId => a.index < b.index :=
    ⟨fun _ _ hab hba => absurd hab (Nat.lt_asymm hba)⟩
  have hirrefl : Std.Irrefl fun a b : NodeId => a.index < b.index := ⟨fun _ => Nat.lt_irrefl _⟩
  exact h.eq_of_mem_iff h' hmem

namespace Span

/-- The span at the end of a path of child positions, counted from zero. -/
def at? : Span → List Nat → Option Span
  | s, [] => some s
  | s, k :: path => s.children[k]?.bind fun c => c.at? path

mutual

/-- The places in a span, in pre-order. -/
def places : Span → List (List Nat)
  | mk _ cs => [] :: placesFrom 0 cs

def placesFrom (k : Nat) : List Span → List (List Nat)
  | [] => []
  | s :: ss => s.places.map (k :: ·) ++ placesFrom (k + 1) ss

end

/-- The number of a place, which is the handle of the call there. -/
def number (s : Span) (path : List Nat) : NodeId := ⟨s.places.idxOf path⟩

def offset : Span → List Nat → Nat
  | _, [] => 0
  | s, k :: path => sizeAll (s.children.take k) + s.children[k]?.elim 0 (·.offset path) + 1

variable {now : Instant} {s c : Span} {cs ss : List Span} {r : SpanRecord} {path : List Nat}
  {k : Nat}

/-! ## Places -/

theorem at?_concat (s : Span) (path : List Nat) (k : Nat) :
    s.at? (path ++ [k]) = (s.at? path).bind fun c => c.children[k]? := by
  induction path generalizing s with
  | nil =>
    rw [List.nil_append, at?, at?, Option.bind_some]
    cases s.children[k]? <;> rfl
  | cons j path ih =>
    rw [List.cons_append, at?, at?, Option.bind_assoc]
    simp only [ih]

private theorem at?_child {d : Span} (h : s.at? path = some c) (hd : c.children[k]? = some d) :
    s.at? (path ++ [k]) = some d := by
  rw [at?_concat, h, Option.bind_some, hd]

mutual

theorem length_places (s : Span) : s.places.length = s.size := by
  cases s with
  | mk r cs => rw [places, List.length_cons, length_placesFrom, size]

private theorem length_placesFrom (k : Nat) (ss : List Span) :
    (placesFrom k ss).length = sizeAll ss := by
  cases ss with
  | nil => rw [placesFrom, sizeAll, List.length_nil]
  | cons s ss =>
    rw [placesFrom, List.length_append, List.length_map, length_places, length_placesFrom, sizeAll]

end

mutual

theorem mem_places (s : Span) (path : List Nat) : path ∈ s.places ↔ ∃ c, s.at? path = some c := by
  cases s with
  | mk r cs =>
    rw [places, List.mem_cons, mem_placesFrom]
    cases path with
    | nil => simp [at?]
    | cons k path =>
      simp only [at?, children, Option.bind_eq_some_iff]
      constructor
      · rintro (h | ⟨j, q, h, c, hc, c', hc'⟩)
        · cases h
        · rw [Nat.zero_add] at h
          cases h
          exact ⟨c', c, hc, hc'⟩
      · rintro ⟨c', c, hc, hc'⟩
        exact .inr ⟨k, path, by rw [Nat.zero_add], c, hc, c', hc'⟩

private theorem mem_placesFrom (k : Nat) (ss : List Span) (path : List Nat) :
    path ∈ placesFrom k ss ↔
      ∃ j q, path = (k + j) :: q ∧ ∃ c, ss[j]? = some c ∧ ∃ c', c.at? q = some c' := by
  cases ss with
  | nil => simp [placesFrom]
  | cons s ss =>
    rw [placesFrom, List.mem_append, List.mem_map, mem_placesFrom]
    constructor
    · rintro (⟨q, hq, rfl⟩ | ⟨j, q, rfl, c, hc, hq⟩)
      · exact ⟨0, q, rfl, s, rfl, (mem_places s q).mp hq⟩
      · exact ⟨j + 1, q, by rw [Nat.add_right_comm, Nat.add_assoc], c, hc, hq⟩
    · rintro ⟨j, q, rfl, c, hc, hq⟩
      cases j with
      | zero =>
        cases hc
        exact .inl ⟨q, (mem_places s q).mpr hq, rfl⟩
      | succ j => exact .inr ⟨j, q, by rw [Nat.add_right_comm, Nat.add_assoc], c, hc, hq⟩

end

mutual

theorem pairwise_places (s : Span) : s.places.Pairwise (· < ·) := by
  cases s with
  | mk r cs =>
    rw [places, List.pairwise_cons]
    refine ⟨?_, pairwise_placesFrom 0 cs⟩
    intro path hpath
    obtain ⟨j, q, rfl, -⟩ := (mem_placesFrom 0 cs path).mp hpath
    exact List.nil_lt_cons _ q

private theorem pairwise_placesFrom (k : Nat) (ss : List Span) :
    (placesFrom k ss).Pairwise (· < ·) := by
  cases ss with
  | nil => exact List.Pairwise.nil
  | cons s ss =>
    rw [placesFrom]
    refine List.pairwise_append.mpr ⟨?_, pairwise_placesFrom (k + 1) ss, ?_⟩
    · rw [List.pairwise_map]
      exact (pairwise_places s).imp fun h => List.cons_lt_cons_iff.mpr (.inr ⟨rfl, h⟩)
    · intro path hpath path' hpath'
      obtain ⟨q, -, rfl⟩ := List.mem_map.mp hpath
      obtain ⟨j, q', rfl, -⟩ := (mem_placesFrom (k + 1) ss path').mp hpath'
      exact List.cons_lt_cons_iff.mpr (.inl (by omega))

end

theorem nodup_places (s : Span) : s.places.Nodup :=
  (pairwise_places s).imp fun h => ne_of_lt h

/-! ## Numbers -/

theorem size_pos (s : Span) : 0 < s.size := by
  cases s with
  | mk r cs =>
    rw [size]
    exact Nat.succ_pos _

private theorem sizeAll_take_lt (ss : List Span) {j : Nat} (hjk : j < k) (hk : k ≤ ss.length) :
    sizeAll (ss.take j) < sizeAll (ss.take k) := by
  induction ss generalizing j k with
  | nil => exact absurd (Nat.lt_of_lt_of_le hjk hk) (Nat.not_lt_zero _)
  | cons s ss ih =>
    obtain ⟨k, rfl⟩ : ∃ m, k = m + 1 := ⟨k - 1, by omega⟩
    rw [List.take_succ_cons, sizeAll]
    cases j with
    | zero =>
      have hpos := size_pos s
      rw [List.take_zero, sizeAll]
      omega
    | succ j =>
      have hlt := ih (Nat.lt_of_succ_lt_succ hjk) (Nat.le_of_succ_le_succ hk)
      rw [List.take_succ_cons, sizeAll]
      omega

private theorem offset_cons (hc : s.children[k]? = some c) (path : List Nat) :
    s.offset (k :: path) = sizeAll (s.children.take k) + c.offset path + 1 := by
  rw [offset, hc, Option.elim_some]

private theorem offset_concat (h : s.at? path = some c) (hk : k < c.children.length) :
    s.offset (path ++ [k]) = s.offset path + sizeAll (c.children.take k) + 1 := by
  induction path generalizing s with
  | nil =>
    cases h
    rw [List.nil_append, offset_cons (List.getElem?_eq_getElem hk), offset, offset]
    omega
  | cons j path ih =>
    obtain ⟨d, hd, h⟩ := Option.bind_eq_some_iff.mp h
    rw [List.cons_append, offset_cons hd, offset_cons hd, ih h]
    omega

private theorem getElem?_placesFrom {i j : Nat} (hc : ss[k]? = some c)
    (hj : c.places[j]? = some path) :
    (placesFrom i ss)[sizeAll (ss.take k) + j]? = some ((i + k) :: path) := by
  induction ss generalizing i k with
  | nil => cases hc
  | cons s ss ih =>
    rw [placesFrom]
    cases k with
    | zero =>
      cases hc
      obtain ⟨hlt, -⟩ := List.getElem?_eq_some_iff.mp hj
      rw [List.take_zero, sizeAll, Nat.zero_add, List.getElem?_append_left (by simpa using hlt),
        List.getElem?_map, hj]
      rfl
    | succ k =>
      have hlength : (s.places.map (i :: ·)).length = s.size := by
        rw [List.length_map, length_places]
      rw [List.take_succ_cons, sizeAll, List.getElem?_append_right (by omega), hlength,
        show s.size + sizeAll (ss.take k) + j - s.size = sizeAll (ss.take k) + j by omega, ih hc,
        Nat.add_right_comm, Nat.add_assoc]

private theorem getElem?_places (h : s.at? path = some c) :
    s.places[s.offset path]? = some path := by
  induction path generalizing s with
  | nil =>
    cases s with
    | mk r cs => rfl
  | cons k path ih =>
    cases s with
    | mk r cs =>
      obtain ⟨d, hd, hpath⟩ := Option.bind_eq_some_iff.mp h
      rw [offset_cons hd, places, List.getElem?_cons_succ]
      rw [children] at hd ⊢
      rw [getElem?_placesFrom hd (ih hpath), Nat.zero_add]

private theorem number_eq (h : s.at? path = some c) : s.number path = ⟨s.offset path⟩ := by
  obtain ⟨hlt, heq⟩ := List.getElem?_eq_some_iff.mp (getElem?_places h)
  have hidx := (nodup_places s).idxOf_getElem (s.offset path) hlt
  rw [heq] at hidx
  rw [number, hidx]

private theorem index_number_concat (h : s.at? path = some c) (hk : k < c.children.length) :
    (s.number (path ++ [k])).index =
      (s.number path).index + sizeAll (c.children.take k) + 1 := by
  rw [number_eq (at?_child h (List.getElem?_eq_getElem hk)), number_eq h, offset_concat h hk]

theorem exists_number {i : Nat} (h : i < s.places.length) :
    ∃ path c, s.at? path = some c ∧ s.number path = ⟨i⟩ := by
  obtain ⟨c, hc⟩ := (mem_places s _).mp (List.getElem_mem h)
  exact ⟨s.places[i], c, hc, congrArg NodeId.mk ((nodup_places s).idxOf_getElem i h)⟩

theorem number_inj {path' : List Nat} (h : path ∈ s.places)
    (heq : s.number path = s.number path') : path = path' :=
  List.idxOf_inj h |>.mp (congrArg NodeId.index heq)

/-! ## Nodes -/

theorem getElem?_callsBelow {i j : Nat} {parent : NodeId} {x : Call × Option NodeId}
    (hc : ss[k]? = some c)
    (hj : (callsAt now (some parent) (i + sizeAll (ss.take k)) c)[j]? = some x) :
    (callsBelow now parent i ss)[sizeAll (ss.take k) + j]? = some x := by
  induction ss generalizing i k with
  | nil => cases hc
  | cons s ss ih =>
    rw [callsBelow]
    cases k with
    | zero =>
      cases hc
      rw [List.take_zero, sizeAll, Nat.add_zero] at hj
      obtain ⟨hlt, -⟩ := List.getElem?_eq_some_iff.mp hj
      rw [List.take_zero, sizeAll, Nat.zero_add, List.getElem?_append_left hlt, hj]
    | succ k =>
      rw [List.take_succ_cons, sizeAll, ← Nat.add_assoc] at hj
      rw [List.take_succ_cons, sizeAll, List.getElem?_append_right (by rw [length_callsAt]; omega),
        length_callsAt,
        show s.size + sizeAll (ss.take k) + j - s.size = sizeAll (ss.take k) + j by omega, ih hc hj]

private theorem getElem?_callsAt (now : Instant) (parent : Option NodeId) (i : Nat)
    (h : s.at? path = some c) :
    (callsAt now parent i s)[s.offset path]? =
      some (numbered (c.call.toCall now) (i + s.offset path),
        if path = [] then parent else some ⟨i + s.offset path.dropLast⟩) := by
  induction path generalizing s parent i with
  | nil =>
    cases h
    cases c with
    | mk r cs => rfl
  | cons k path ih =>
    cases s with
    | mk r cs =>
      obtain ⟨d, hd, hpath⟩ := Option.bind_eq_some_iff.mp h
      -- the calls of child `k` come after its caller's and those of the earlier children
      have hcall := ih (some ⟨i⟩) (i + 1 + sizeAll (cs.take k)) hpath
      have hplace : i + 1 + sizeAll (cs.take k) + d.offset path =
          i + (mk r cs).offset (k :: path) := by
        rw [offset_cons hd, children]
        omega
      have hparent : (if path = [] then some (NodeId.mk i) else
          some ⟨i + 1 + sizeAll (cs.take k) + d.offset path.dropLast⟩) =
          some ⟨i + (mk r cs).offset (k :: path).dropLast⟩ := by
        cases path with
        | nil => rfl
        | cons j path =>
          rw [if_neg (List.cons_ne_nil j path), List.dropLast_cons_cons, offset_cons hd, children]
          congr 2
          omega
      have hskip : (callsAt now parent i (mk r cs))[(mk r cs).offset (k :: path)]? =
          (callsBelow now ⟨i⟩ (i + 1) cs)[sizeAll (cs.take k) + d.offset path]? := by
        rw [offset_cons hd, callsAt, List.getElem?_cons_succ, children]
      rw [hplace, hparent] at hcall
      rw [hskip, if_neg (List.cons_ne_nil k path)]
      exact getElem?_callsBelow hd hcall

private theorem exists_node (now : Instant) (h : s.at? path = some c) :
    ∃ n, (s.tree now).get? (s.number path) = some n ∧
      n.toCall = numbered (c.call.toCall now) (s.number path).index ∧
      n.parent = if path = [] then none else some (s.number path.dropLast) := by
  have hcall := getElem?_callsAt now none 0 h
  rw [← entries_tree, List.getElem?_map, Array.getElem?_toList, Option.map_eq_some_iff] at hcall
  obtain ⟨n, hn, hentry⟩ := hcall
  rw [Nat.zero_add] at hentry
  refine ⟨n, ?_, ?_, ?_⟩
  · rw [number_eq h]
    exact hn
  · rw [number_eq h]
    exact congrArg Prod.fst hentry
  · have hparent := congrArg Prod.snd hentry
    change n.parent = _ at hparent
    rcases path.eq_nil_or_concat' with rfl | ⟨above, k, rfl⟩
    · exact hparent
    · rw [at?_concat] at h
      obtain ⟨d, hd, -⟩ := Option.bind_eq_some_iff.mp h
      rw [if_neg (List.append_ne_nil_of_right_ne_nil _ (List.cons_ne_nil k []))] at hparent ⊢
      rw [hparent, Nat.zero_add, List.dropLast_concat, number_eq hd]

private theorem parent?_number (now : Instant) (h : s.at? path = some c) :
    (s.tree now).parent? (s.number path) =
      if path = [] then none else some (s.number path.dropLast) := by
  obtain ⟨n, hn, -, hparent⟩ := exists_node now h
  change ((s.tree now).get? (s.number path)).bind Node.parent = _
  rw [hn, Option.bind_some, hparent]

theorem size_tree (now : Instant) (s : Span) : (s.tree now).size = s.places.length := by
  have hlength := congrArg List.length (entries_tree now s)
  rwa [List.length_map, Array.length_toList, length_callsAt, ← length_places] at hlength

theorem parent?_number_concat (now : Instant) {d : Span} (h : s.at? path = some c)
    (hd : c.children[k]? = some d) :
    (s.tree now).parent? (s.number (path ++ [k])) = some (s.number path) := by
  rw [parent?_number now (at?_child h hd), List.dropLast_concat,
    if_neg (List.append_ne_nil_of_right_ne_nil _ (List.cons_ne_nil k []))]

theorem children_number (now : Instant) (h : s.at? path = some c) :
    (s.tree now).children (s.number path) =
      (List.range c.children.length).map fun k => s.number (path ++ [k]) := by
  -- both lists ascend, so it is enough that they hold the same calls
  have hascending : ((List.range c.children.length).map fun k => s.number (path ++ [k])).Pairwise
      (·.index < ·.index) := by
    rw [List.pairwise_map]
    apply List.pairwise_lt_range.imp_of_mem
    intro j k hj hk hjk
    rw [List.mem_range] at hj hk
    have hlt := sizeAll_take_lt c.children hjk (Nat.le_of_lt hk)
    rw [index_number_concat h hj, index_number_concat h hk]
    omega
  have hmem : ∀ id, id ∈ (s.tree now).children (s.number path) ↔
      id ∈ (List.range c.children.length).map fun k => s.number (path ++ [k]) := by
    intro id
    rw [CallTree.mem_children, List.mem_map]
    constructor
    · intro hparent
      have hid := CallTree.contains_iff.mp (CallTree.contains_of_parent? hparent)
      rw [← CallTree.size, size_tree] at hid
      obtain ⟨q, d, hq, rfl⟩ : ∃ q d, s.at? q = some d ∧ s.number q = id := exists_number hid
      rcases q.eq_nil_or_concat' with rfl | ⟨above, k, rfl⟩
      · rw [parent?_number now hq, if_pos rfl] at hparent
        cases hparent
      · obtain ⟨b, hb, hk⟩ := Option.bind_eq_some_iff.mp ((at?_concat s above k).symm.trans hq)
        rw [parent?_number_concat now hb hk, Option.some.injEq] at hparent
        obtain rfl := number_inj ((mem_places s above).mpr ⟨b, hb⟩) hparent
        rw [h] at hb
        cases hb
        obtain ⟨hlt, -⟩ := List.getElem?_eq_some_iff.mp hk
        exact ⟨k, List.mem_range.mpr hlt, rfl⟩
    · rintro ⟨k, hk, rfl⟩
      exact parent?_number_concat now h (List.getElem?_eq_getElem (List.mem_range.mp hk))
  exact NodeId.eq_of_ascending ((s.tree now).pairwise_children _) hascending hmem

/-! ## Walks -/

mutual

/-- A walk from the call at a place visits the calls from there on, as deep as they are nested. -/
theorem preOrder_number (now : Instant) (c : Span) {path : List Nat} (d : Nat)
    (h : s.at? path = some c) :
    (s.tree now).preOrder (s.number path) d =
      (c.places.zipIdx (s.number path).index).map fun (q, i) => (⟨i⟩, d + q.length) := by
  cases c with
  | mk r cs =>
    have hchildren : ∀ j c, cs[j]? = some c → s.at? (path ++ [0 + j]) = some c ∧
        (s.number (path ++ [0 + j])).index =
          (s.number path).index + 1 + sizeAll (cs.take j) := by
      intro j c hc
      obtain ⟨hlt, -⟩ := List.getElem?_eq_some_iff.mp hc
      rw [Nat.zero_add]
      refine ⟨at?_child h hc, ?_⟩
      rw [index_number_concat h hlt, children, Nat.add_right_comm]
    have hbelow := preOrder_children now cs d hchildren
    rw [CallTree.preOrder_eq, children_number now h, List.range_eq_range', List.flatMap_map,
      children, hbelow, places, List.zipIdx_cons, List.map_cons]
    rfl

private theorem preOrder_children (now : Instant) (ss : List Span) {path : List Nat} {k i : Nat}
    (d : Nat) (h : ∀ j c, ss[j]? = some c → s.at? (path ++ [k + j]) = some c ∧
      (s.number (path ++ [k + j])).index = i + sizeAll (ss.take j)) :
    (List.range' k ss.length).flatMap
        (fun k => (s.tree now).preOrder (s.number (path ++ [k])) (d + 1)) =
      ((placesFrom k ss).zipIdx i).map fun (q, i) => (⟨i⟩, d + q.length) := by
  cases ss with
  | nil => rfl
  | cons c ss =>
    obtain ⟨hat, hindex⟩ := h 0 c rfl
    rw [Nat.add_zero] at hat hindex
    rw [List.take_zero, sizeAll, Nat.add_zero] at hindex
    have hlater : ∀ j b, ss[j]? = some b → s.at? (path ++ [k + 1 + j]) = some b ∧
        (s.number (path ++ [k + 1 + j])).index = i + c.size + sizeAll (ss.take j) := by
      intro j b hb
      have hb := h (j + 1) b hb
      rwa [List.take_succ_cons, sizeAll, ← Nat.add_assoc, ← Nat.add_assoc,
        Nat.add_right_comm k j 1] at hb
    rw [List.length_cons, List.range'_succ, List.flatMap_cons, preOrder_number now c (d + 1) hat,
      preOrder_children now ss d hlater, hindex, placesFrom, List.zipIdx_append, List.length_map,
      length_places, List.zipIdx_map, List.map_append, List.map_map]
    congr 1
    apply List.map_congr_left
    intro p _
    simp only [Function.comp_apply, Prod.map_fst, Prod.map_snd, List.length_cons, id,
      Nat.add_assoc, Nat.add_comm 1]

end

private theorem number_nil (s : Span) : s.number [] = ⟨0⟩ := by
  rw [number_eq (show s.at? [] = some s by rw [at?]), offset]

theorem depthFirst_tree (now : Instant) (s : Span) :
    (s.tree now).depthFirst (s.tree now).root =
      s.places.zipIdx.map fun (path, i) => (⟨i⟩, path.length) := by
  have hwalk := preOrder_number now s 0 (show s.at? [] = some s by rw [at?])
  have hroot : (s.tree now).contains (s.tree now).root :=
    CallTree.contains_iff.mpr (s.tree now).nonempty
  rw [number_nil] at hwalk
  rw [CallTree.depthFirst_eq_preOrder hroot, CallTree.root, hwalk]
  simp only [Nat.zero_add]

end Span

/-- The span of a trace file grows into a tree of all its calls. The calls are the nodes in the
order of their places, which is pre-order; each is linked to the call that encloses it and to its
children in the order of the file, and a call that tells no invocation is given its position counted
from one. A walk from the root comes by the nodes in their order, at the depths of the places. -/
theorem TraceFile.toTree_preOrder (f : TraceFile) (now : Instant) :
    ∃ t, f.root.toTree now = .ok t ∧ t.size = f.root.places.length ∧
      f.root.places.Pairwise (· < ·) ∧
      (∀ path, path ∈ f.root.places ↔ ∃ c, f.root.at? path = some c) ∧
      (∀ i path, f.root.places[i]? = some path → f.root.number path = ⟨i⟩ ∧
        ∃ r cs n, f.root.at? path = some (.mk r cs) ∧ t.get? ⟨i⟩ = some n ∧
          n.toCall = numbered (r.toCall now) i ∧
          n.parent = (if path = [] then none else some (f.root.number path.dropLast)) ∧
          n.children.toList =
            (List.range cs.length).map (fun k => f.root.number (path ++ [k])) ∧
          (t.size < Word.limit32 → r.invocationId = none ∨ r.invocationId = some 0 →
            n.invocationId.toNat = i + 1)) ∧
      t.depthFirst t.root = f.root.places.zipIdx.map fun (path, i) => (⟨i⟩, path.length) := by
  refine ⟨f.root.tree now, f.root.toTree_eq now, f.root.size_tree now, f.root.pairwise_places,
    f.root.mem_places, ?_, f.root.depthFirst_tree now⟩
  intro i path hplace
  obtain ⟨hlt, hpath⟩ := List.getElem?_eq_some_iff.mp hplace
  have hnumber : f.root.number path = ⟨i⟩ := by
    rw [Span.number, ← hpath, f.root.nodup_places.idxOf_getElem i hlt]
  obtain ⟨⟨r, cs⟩, hat⟩ := (f.root.mem_places path).mp (List.mem_of_getElem? hplace)
  obtain ⟨n, hn, hcall, hparent⟩ := Span.exists_node now hat
  have hchildren := Span.children_number now hat
  rw [CallTree.children, hn] at hchildren
  rw [hnumber] at hn
  have hnode : n.toCall = numbered (r.toCall now) i := by
    rw [hcall, hnumber, Span.call]
  refine ⟨hnumber, r, cs, n, hat, hn, hnode, hparent, hchildren, ?_⟩
  intro hsize hinvocation
  rw [Span.size_tree, Word.limit32] at hsize
  have hzero : r.invocationId.getD 0 = 0 := by
    rcases hinvocation with h | h <;> rw [h] <;> rfl
  have hposition : n.invocationId = UInt64.ofNat (i + 1) := by
    rw [hnode, numbered, if_pos (show (r.toCall now).invocationId = 0 from hzero)]
  rw [hposition, UInt64.toNat_ofNat', Nat.mod_eq_of_lt (by omega)]

end SlowRequest
