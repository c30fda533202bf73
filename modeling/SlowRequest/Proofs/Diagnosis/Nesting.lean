import Mathlib.Data.List.Chain
import Mathlib.Order.Bounds.Basic
import SlowRequest.Diagnosis.Recurrence
import SlowRequest.Proofs.Clustering.Rounds
/-!
# How deep a cause nests

While a walk goes through the problem context, its stack holds the depths of the counted calls
around the current one. The largest stack is therefore the most of the counted calls that lie on
one chain of callers, and a budget shortens the list of counted calls alone.
-/
namespace SlowRequest

private theorem dropWhile_eq_filter_of_falling {l : List Nat} (h : l.Pairwise (· > ·)) (d : Nat) :
    l.dropWhile (d ≤ ·) = l.filter (· < d) := by
  induction l with
  | nil => rfl
  | cons a l ih =>
    obtain ⟨ha, hl⟩ := List.pairwise_cons.mp h
    by_cases hd : d ≤ a
    · rw [List.dropWhile_cons_of_pos (by simpa using hd),
        List.filter_cons_of_neg (by simpa using hd)]
      exact ih hl
    · have hall : ∀ b ∈ a :: l, decide (b < d) = true := by
        intro b hb
        rw [decide_eq_true_eq]
        rcases List.mem_cons.mp hb with rfl | hb
        · exact Nat.lt_of_not_le hd
        · exact (ha b hb).trans (Nat.lt_of_not_le hd)
      rw [List.dropWhile_cons_of_neg (by simpa using hd), List.filter_eq_self.mpr hall]

namespace CallTree

variable {t : CallTree} {start : NodeId}

/-- The calls above one call form a chain. -/
theorem Encloses.total {a b v : NodeId} (ha : t.Encloses a v) (hb : t.Encloses b v) :
    t.Encloses a b ∨ t.Encloses b a := by
  obtain ⟨m, hm⟩ := ha
  obtain ⟨n, hn⟩ := hb
  rcases Nat.le_total m n with h | h
  · obtain ⟨k, rfl⟩ := Nat.exists_eq_add_of_le h
    exact .inr ⟨k, ancestor_rest hm hn⟩
  · obtain ⟨k, rfl⟩ := Nat.exists_eq_add_of_le h
    exact .inl ⟨k, ancestor_rest hn hm⟩

private theorem contains_of_mem_depthFirst {p : NodeId × Nat} (h : p ∈ t.depthFirst start) :
    t.contains p.1 := by
  obtain ⟨hstart, hp⟩ := mem_depthFirst.mp h
  cases hd : p.2 with
  | zero =>
    rw [hd, ancestor_zero] at hp
    cases hp
    exact hstart
  | succ d =>
    rw [hd] at hp
    obtain ⟨q, hq, -⟩ := ancestor_succ.mp hp
    exact contains_of_parent? hq

private theorem ancestor_of_encloses {a v : NodeId × Nat} (ha : a ∈ t.depthFirst start)
    (hv : v ∈ t.depthFirst start) (h : t.Encloses a.1 v.1) :
    a.2 ≤ v.2 ∧ t.ancestor v.1 (v.2 - a.2) = .ok a.1 := by
  obtain ⟨k, hk⟩ := h
  have hsum := ancestor_trans hk (mem_depthFirst.mp ha).2
  have hlinks := ancestor_injective hsum (mem_depthFirst.mp hv).2
  refine ⟨by omega, ?_⟩
  rw [show v.2 - a.2 = k by omega]
  exact hk

private theorem depth_lt_of_encloses {a v : NodeId × Nat} (ha : a ∈ t.depthFirst start)
    (hv : v ∈ t.depthFirst start) (h : t.Encloses a.1 v.1) (hnew : ¬ t.Encloses v.1 a.1) :
    a.2 < v.2 := by
  obtain ⟨hdepth, hlinks⟩ := ancestor_of_encloses ha hv h
  refine Nat.lt_of_le_of_ne hdepth fun heq => hnew ?_
  rw [heq, Nat.sub_self, ancestor_zero] at hlinks
  rw [Except.ok.inj hlinks]
  exact Encloses.refl a.1

/-- What encloses the next call of a walk, and is not that call, is what encloses the current one
at a smaller depth than the next one has. -/
theorem encloses_next_iff {a u v : NodeId × Nat} (ha : a ∈ t.depthFirst start)
    (hu : u ∈ t.depthFirst start) (hv : v ∈ t.depthFirst start) (hstep : t.WalkStep u v)
    (hnew : ¬ t.Encloses v.1 a.1) :
    t.Encloses a.1 v.1 ↔ t.Encloses a.1 u.1 ∧ a.2 < v.2 := by
  obtain ⟨hpos, hle, c, hc, hanc⟩ := hstep
  constructor
  · intro h
    have hlt := depth_lt_of_encloses ha hv h hnew
    rcases h.eq_or_parent hc with heq | hac
    · rw [heq] at hnew
      exact absurd (Encloses.refl v.1) hnew
    · exact ⟨hac.trans ⟨_, hanc⟩, hlt⟩
  · rintro ⟨h, hlt⟩
    obtain ⟨hdepth, hlinks⟩ := ancestor_of_encloses ha hu h
    rw [show u.2 - a.2 = u.2 + 1 - v.2 + (v.2 - 1 - a.2) by omega] at hlinks
    exact Encloses.trans ⟨_, ancestor_rest hanc hlinks⟩ (encloses_of_parent? hc)

/-- How many of `ids` lie on the chain from `v` up to the root. -/
def onChain (t : CallTree) (ids : List NodeId) (v : NodeId) : Nat :=
  ids.countP fun x => t.Encloses x v

/-- `k` is the largest number of `ids` that lie on one chain of callers. -/
def IsNesting (t : CallTree) (ids : List NodeId) (k : Nat) : Prop :=
  IsGreatest {n | ∃ v, t.contains v ∧ t.onChain ids v = n} k

variable {ids : List NodeId} {k k' : Nat} {w : NodeId}

private theorem isNesting_nil (t : CallTree) : t.IsNesting [] 0 :=
  ⟨⟨t.root, contains_iff.mpr t.nonempty, rfl⟩, fun _ ⟨_, _, hn⟩ => hn ▸ Nat.le_refl 0⟩

theorem IsNesting.le_of_sublist {ids' : List NodeId} (h : t.IsNesting ids k)
    (h' : t.IsNesting ids' k') (hsub : ids.Sublist ids') : k ≤ k' := by
  obtain ⟨v, hv, rfl⟩ := h.1
  exact hsub.countP_le.trans (h'.2 ⟨v, hv, rfl⟩)

private theorem isNesting_reverse : t.IsNesting ids.reverse k ↔ t.IsNesting ids k := by
  simp only [IsNesting, onChain, List.countP_reverse]

/-- Below a call that encloses none of `ids`, the chains meet the same of them as above it. -/
theorem onChain_eq_of_encloses {v : NodeId} (h : t.Encloses w v)
    (hlater : ∀ a ∈ ids, ¬ t.Encloses w a) : t.onChain ids v = t.onChain ids w := by
  apply List.countP_congr
  intro a ha
  rw [decide_eq_true_eq, decide_eq_true_eq]
  constructor
  · intro hav
    exact (hav.total h).resolve_right (hlater a ha)
  · exact fun haw => haw.trans h

private theorem onChain_cons_of_encloses {v : NodeId} (h : t.Encloses w v) :
    t.onChain (w :: ids) v = t.onChain ids v + 1 :=
  List.countP_cons_of_pos (decide_eq_true h)

private theorem onChain_cons_of_not_encloses {v : NodeId} (h : ¬ t.Encloses w v) :
    t.onChain (w :: ids) v = t.onChain ids v :=
  List.countP_cons_of_neg (by simpa using h)

/-- A call that encloses none of the others lengthens the chain that ends in it. -/
theorem IsNesting.cons (h : t.IsNesting ids k) (hw : t.contains w)
    (hlater : ∀ a ∈ ids, ¬ t.Encloses w a) :
    t.IsNesting (w :: ids) (max k (t.onChain ids w + 1)) := by
  constructor
  · rcases Nat.le_total k (t.onChain ids w + 1) with hle | hle
    · exact ⟨w, hw, by rw [onChain_cons_of_encloses (Encloses.refl w), Nat.max_eq_right hle]⟩
    · obtain ⟨v, hv, rfl⟩ := h.1
      refine ⟨v, hv, ?_⟩
      rw [Nat.max_eq_left hle]
      apply onChain_cons_of_not_encloses
      intro hwv
      have := onChain_eq_of_encloses hwv hlater
      omega
  · rintro _ ⟨v, hv, rfl⟩
    by_cases hwv : t.Encloses w v
    · rw [onChain_cons_of_encloses hwv, onChain_eq_of_encloses hwv hlater]
      exact Nat.le_max_right ..
    · rw [onChain_cons_of_not_encloses hwv]
      exact (h.2 ⟨v, hv, rfl⟩).trans (Nat.le_max_left ..)

/-- The stack tells the depths of those of `seen` that enclose `v`, the innermost first. -/
structure Tells (t : CallTree) (seen : List (NodeId × Nat)) (v : NodeId × Nat)
    (stack : List Nat) : Prop where
  depths : stack = (seen.filter fun a => t.Encloses a.1 v.1).map Prod.snd
  falling : stack.Pairwise (· > ·)

variable {seen : List (NodeId × Nat)} {u v : NodeId × Nat} {stack : List Nat}

theorem Tells.length (h : t.Tells seen v stack) :
    stack.length = t.onChain (seen.map Prod.fst) v.1 := by
  rw [h.depths, List.length_map, onChain, List.countP_map, List.countP_eq_length_filter]
  rfl

/-- Depths that the next call is not below are dropped when the walk goes on to it. -/
theorem Tells.next (h : t.Tells seen u stack) (hseen : ∀ a ∈ seen, a ∈ t.depthFirst start)
    (hu : u ∈ t.depthFirst start) (hv : v ∈ t.depthFirst start) (hstep : t.WalkStep u v)
    (hnew : ∀ a ∈ seen, ¬ t.Encloses v.1 a.1) : t.Tells seen v (stack.dropWhile (v.2 ≤ ·)) where
  depths := by
    rw [dropWhile_eq_filter_of_falling h.falling, h.depths, List.filter_map, List.filter_filter]
    congr 1
    apply List.filter_congr
    intro a ha
    rw [Bool.eq_iff_iff, Bool.and_eq_true, Function.comp_apply, decide_eq_true_eq,
      decide_eq_true_eq, decide_eq_true_eq, and_comm]
    exact (encloses_next_iff (hseen a ha) hu hv hstep (hnew a ha)).symm
  falling := h.falling.sublist (List.dropWhile_sublist _)

theorem Tells.push (h : t.Tells seen v stack) (hseen : ∀ a ∈ seen, a ∈ t.depthFirst start)
    (hv : v ∈ t.depthFirst start) (hnew : ∀ a ∈ seen, ¬ t.Encloses v.1 a.1) :
    t.Tells (v :: seen) v (v.2 :: stack) where
  depths := by
    rw [List.filter_cons, if_pos (decide_eq_true (Encloses.refl v.1)), List.map_cons, h.depths]
  falling := by
    refine List.pairwise_cons.mpr ⟨?_, h.falling⟩
    intro d hd
    rw [h.depths] at hd
    obtain ⟨a, ha, rfl⟩ := List.mem_map.mp hd
    obtain ⟨ha, henc⟩ := List.mem_filter.mp ha
    exact depth_lt_of_encloses (hseen a ha) hv (of_decide_eq_true henc) (hnew a ha)

end CallTree

namespace Recurrence

open CallTree (Encloses)

/-- The first calls that a budget allows; all of them without a budget. -/
def within (budget : Option Nat) (ids : List NodeId) : List NodeId :=
  match budget with
  | none => ids
  | some b => ids.take b

private theorem within_zero (ids : List NodeId) : within (some 0) ids = [] := rfl

private theorem within_cons {budget : Option Nat} (h : budget ≠ some 0) (id : NodeId)
    (ids : List NodeId) : within budget (id :: ids) = id :: within (budget.map (· - 1)) ids := by
  match budget with
  | none => rfl
  | some 0 => exact absurd rfl h
  | some (b + 1) => rfl

private theorem within_of_nil (budget : Option Nat) : within budget [] = [] := by
  cases budget <;> simp [within]

variable {t : CallTree} {start : NodeId} {covers : NodeId → Bool}

/-- From a stack that tells what is around the next call, a walk finds the nesting of the calls
counted before and on the way. -/
theorem nesting_isNesting {walk : List (NodeId × Nat)} {budget : Option Nat} {stack : List Nat}
    {deepest : Nat} {seen : List (NodeId × Nat)} (hwalk : walk <:+ t.depthFirst start)
    (hseen : ∀ a ∈ seen, a ∈ t.depthFirst start)
    (hnew : ∀ v ∈ walk, ∀ a ∈ seen, ¬ t.Encloses v.1 a.1)
    (hstack : ∀ v ∈ walk.head?, t.Tells seen v (stack.dropWhile (v.2 ≤ ·)))
    (hdeepest : t.IsNesting (seen.map Prod.fst) deepest) :
    t.IsNesting ((within budget ((walk.map Prod.fst).filter covers)).reverse ++ seen.map Prod.fst)
      (nesting covers walk budget stack deepest) := by
  induction walk generalizing budget stack deepest seen with
  | nil =>
    rw [List.map_nil, List.filter_nil, within_of_nil]
    exact hdeepest
  | cons v walk ih =>
    by_cases hspent : budget = some 0
    · rw [nesting, if_pos hspent, hspent, within_zero, List.reverse_nil, List.nil_append]
      exact hdeepest
    · have hv : v ∈ t.depthFirst start := hwalk.subset List.mem_cons_self
      have htail : walk <:+ t.depthFirst start := (List.suffix_cons v walk).trans hwalk
      have hchain := (CallTree.isChain_depthFirst t start).suffix hwalk
      have horder := (CallTree.pairwise_depthFirst t start).sublist hwalk.sublist
      have htells := hstack v rfl
      have hvnew := hnew v List.mem_cons_self
      have hlater := fun w hw => hnew w (List.mem_cons_of_mem v hw)
      have hstep : ∀ w ∈ walk.head?, t.WalkStep v w ∧ w ∈ walk := by
        intro w hw
        obtain ⟨rest, rfl⟩ := List.head?_eq_some_iff.mp hw
        exact ⟨(List.isChain_cons_cons.mp hchain).1, List.mem_cons_self⟩
      rw [nesting, if_neg hspent]
      by_cases hcovers : covers v.1 = true
      · rw [if_pos hcovers, List.map_cons, List.filter_cons_of_pos hcovers, within_cons hspent,
          List.reverse_cons, List.append_assoc, List.singleton_append]
        have hseen' : ∀ a ∈ v :: seen, a ∈ t.depthFirst start := by
          intro a ha
          rcases List.mem_cons.mp ha with rfl | ha
          · exact hv
          · exact hseen a ha
        have hnew' : ∀ w ∈ walk, ∀ a ∈ v :: seen, ¬ t.Encloses w.1 a.1 := by
          intro w hw a ha
          rcases List.mem_cons.mp ha with rfl | ha
          · exact (List.pairwise_cons.mp horder).1 w hw
          · exact hlater w hw a ha
        have hpush := htells.push hseen hv hvnew
        change t.IsNesting (_ ++ (v :: seen).map Prod.fst) _
        refine ih htail hseen' hnew' ?_ ?_
        · intro w hw
          obtain ⟨hvw, hmem⟩ := hstep w hw
          exact hpush.next hseen' hv (htail.subset hmem) hvw (hnew' w hmem)
        · rw [htells.length]
          apply hdeepest.cons (CallTree.contains_of_mem_depthFirst hv)
          intro a ha
          obtain ⟨b, hb, rfl⟩ := List.mem_map.mp ha
          exact hvnew b hb
      · rw [if_neg hcovers, List.map_cons, List.filter_cons_of_neg hcovers]
        refine ih htail hseen hlater ?_ hdeepest
        intro w hw
        obtain ⟨hvw, hmem⟩ := hstep w hw
        exact htells.next hseen hv (htail.subset hmem) hvw (hlater w hmem)

/-- The calls below `context` that count for a cause of the key: those it covers, in pre-order,
as far as the budget goes. -/
def counted (t : CallTree) (key : OperationKey) (context : NodeId) (budget : Option Nat) :
    List NodeId :=
  within budget
    (((t.depthFirst context).map Prod.fst).filter fun id => (t.get? id).any key.covers)

private theorem nesting_counted (t : CallTree) (key : OperationKey) (context : NodeId)
    (budget : Option Nat) :
    t.IsNesting (counted t key context budget)
      (nesting (fun id => (t.get? id).any key.covers) (t.depthFirst context) budget [] 0) := by
  rw [counted, ← CallTree.isNesting_reverse, ← List.append_nil (List.reverse _)]
  change t.IsNesting (_ ++ ([] : List (NodeId × Nat)).map Prod.fst) _
  apply nesting_isNesting List.suffix_rfl
  · simp
  · simp
  · exact fun v _ => ⟨rfl, List.Pairwise.nil⟩
  · exact CallTree.isNesting_nil t

theorem classify_of_several {cause : Aggregate} (th : Thresholds) (t : CallTree)
    (context : NodeId) (hsize : 2 ≤ cause.size) :
    ∃ depth, classify th t context cause = .ok ⟨causeType cause.key.isSql (1 < depth), depth⟩ ∧
      t.IsNesting (counted t cause.key context th.recursionCallBudget) depth := by
  refine ⟨_, ?_, nesting_counted t cause.key context th.recursionCallBudget⟩
  rw [classify]
  split
  · omega
  · omega
  · rfl

theorem causeType_recursive_iff {database nested : Bool} :
    causeType database nested = .recursive ∨ causeType database nested = .recursiveDatabase ↔
      nested = true := by
  cases database <;> cases nested <;> decide

theorem causeType_iterative_iff {database nested : Bool} :
    causeType database nested = .iterative ∨ causeType database nested = .iterativeDatabase ↔
      nested = false := by
  cases database <;> cases nested <;> decide

private theorem isDatabase_causeType (database nested : Bool) :
    (causeType database nested).isDatabase = database := by
  cases database <;> cases nested <;> rfl

theorem counted_sublist (t : CallTree) (key : OperationKey) (context : NodeId) (b : Nat) :
    (counted t key context (some b)).Sublist (counted t key context none) :=
  List.take_sublist b _

private theorem counted_sublist_of_le (t : CallTree) (key : OperationKey) (context : NodeId)
    {b b' : Nat}
    (h : b ≤ b') : (counted t key context (some b)).Sublist (counted t key context (some b')) :=
  (List.take_prefix_take_left h).sublist

private theorem counted_of_length_le {t : CallTree} {key : OperationKey} {context : NodeId}
    {b : Nat} (h : (counted t key context none).length ≤ b) :
    counted t key context (some b) = counted t key context none :=
  List.take_of_length_le h

/-- A cause of several calls nests as deep as the most of the counted calls that lie on one chain
of callers. It is recursive if that is more than one, and counting more calls never lowers it. -/
theorem classify_nests (th : Thresholds) (t : CallTree) (context : NodeId) {cause : Aggregate}
    (hsize : 2 ≤ cause.size) :
    ∃ depth : Option Nat → Nat,
      (∀ budget, ∃ found,
        classify { th with recursionCallBudget := budget } t context cause = .ok found ∧
          found.depth = depth budget ∧
          t.IsNesting (counted t cause.key context budget) found.depth ∧
          (found.type = .recursive ∨ found.type = .recursiveDatabase ↔ 1 < found.depth) ∧
          (found.type = .iterative ∨ found.type = .iterativeDatabase ↔ found.depth ≤ 1) ∧
          (found.type.isDatabase = true ↔ cause.key.isSql = true)) ∧
      (∀ b b', b ≤ b' → depth (some b) ≤ depth (some b')) ∧
      (∀ b, depth (some b) ≤ depth none) ∧
      ∀ b, (counted t cause.key context none).length ≤ b → depth (some b) = depth none := by
  choose depth hclassify hnesting using fun budget =>
    classify_of_several { th with recursionCallBudget := budget } t context hsize
  refine ⟨depth, ?_, ?_, ?_, ?_⟩
  · intro budget
    refine ⟨_, hclassify budget, rfl, hnesting budget, ?_, ?_, ?_⟩
    · rw [causeType_recursive_iff, decide_eq_true_eq]
    · rw [causeType_iterative_iff, decide_eq_false_iff_not, Nat.not_lt]
    · rw [isDatabase_causeType]
  · intro b b' hle
    exact (hnesting (some b)).le_of_sublist (hnesting (some b'))
      (counted_sublist_of_le t cause.key context hle)
  · intro b
    exact (hnesting (some b)).le_of_sublist (hnesting none)
      (counted_sublist t cause.key context b)
  · intro b hall
    have hcapped : t.IsNesting (counted t cause.key context (some b)) (depth (some b)) :=
      hnesting (some b)
    rw [counted_of_length_le hall] at hcapped
    exact hcapped.unique (hnesting none)

def nestedCalls : CallTree.Builder :=
  CallTree.Builder.grow (.ofRoot (Call.timed 1 1000.0 100.0))
    [(0, Call.timed 5 900.0 200.0), (1, Call.timed 5 700.0 200.0),
      (2, Call.timed 5 500.0 200.0), (3, Call.timed 5 300.0 300.0)]

def nested : CallTree where
  nodes := nestedCalls.nodes
  consistent := nestedCalls.consistent
  nonempty := by decide +kernel

def nestedCause : Aggregate :=
  ⟨⟨5, none, none⟩, #[⟨1⟩, ⟨2⟩, ⟨3⟩, ⟨4⟩], #[200.0, 200.0, 200.0, 300.0], 900.0, 2400.0⟩

theorem classify_nests_nested :
    2 ≤ nestedCause.size ∧
      ∃ depth : Option Nat → Nat,
        (∀ budget, ∃ found,
          classify { Thresholds.default with recursionCallBudget := budget } nested ⟨0⟩ nestedCause
              = .ok found ∧
            found.depth = depth budget ∧
            nested.IsNesting (counted nested nestedCause.key ⟨0⟩ budget) found.depth ∧
            (found.type = .recursive ∨ found.type = .recursiveDatabase ↔ 1 < found.depth) ∧
            (found.type = .iterative ∨ found.type = .iterativeDatabase ↔ found.depth ≤ 1) ∧
            (found.type.isDatabase = true ↔ nestedCause.key.isSql = true)) ∧
        (∀ b b', b ≤ b' → depth (some b) ≤ depth (some b')) ∧
        (∀ b, depth (some b) ≤ depth none) ∧
        ∀ b, (counted nested nestedCause.key ⟨0⟩ none).length ≤ b →
          depth (some b) = depth none := by
  have hsize : 2 ≤ nestedCause.size := by decide
  exact ⟨hsize, classify_nests .default nested ⟨0⟩ hsize⟩

example : (classify { Thresholds.default with recursionCallBudget := some 2 } nested ⟨0⟩
    nestedCause).toOption = some ⟨.recursive, 2⟩ := by decide +kernel

end Recurrence
end SlowRequest
