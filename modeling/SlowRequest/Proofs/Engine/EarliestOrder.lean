import SlowRequest.Proofs.Engine.Derivation
import Mathlib.Order.Bounds.Basic
/-!
# The earliest order of rules

Many orders let every rule follow the producers of its inputs. Registration takes at each place the
rule registered first among those whose producers have all been taken, and so comes to the one
order that stands before all others when orders are compared place by place.
-/
namespace SlowRequest

section Orders

variable {ds : List Descriptor} {taken waiting rest rest' order : List Nat} {i j k : Nat}

/-- The rule at position `i` declares an input, optional or not, that the one at position `j`
produces. -/
def ReadsFrom (ds : List Descriptor) (i j : Nat) : Prop :=
  ∃ consumer producer, ds[i]? = some consumer ∧ ds[j]? = some producer ∧
    ∃ input ∈ consumer.inputs, input.name = producer.output

/-- Each rule stands behind all producers of its inputs. -/
structure IsFiringOrder (ds : List Descriptor) (order : List Nat) : Prop where
  perm : order.Perm (List.range ds.length)
  follows : ∀ before i after, order = before ++ i :: after → ∀ j, ReadsFrom ds i j → j ∈ before

/-- The rule at position `i` could come next: it has not been taken, and all its producers have. -/
structure Ready (ds : List Descriptor) (taken : List Nat) (i : Nat) : Prop where
  registered : i < ds.length
  untaken : i ∉ taken
  produced : ∀ j, ReadsFrom ds i j → j ∈ taken

/-- Of the rules that could come next the first one is taken each time. -/
def Earliest (ds : List Descriptor) : List Nat → List Nat → Prop
  | _, [] => True
  | taken, i :: rest => IsLeast {k | Ready ds taken k} i ∧ Earliest ds (taken ++ [i]) rest

structure Awaits (ds : List Descriptor) (taken waiting : List Nat) : Prop where
  ascending : waiting.Pairwise (· < ·)
  mem : ∀ i, i ∈ waiting ↔ i < ds.length ∧ i ∉ taken

theorem readsFrom_iff : ReadsFrom ds i j ↔ feeds ds j i = true := by
  rw [ReadsFrom, feeds]
  cases ds[j]? with
  | none => simp
  | some producer =>
    cases ds[i]? with
    | none => simp
    | some consumer => simp [Descriptor.reads]

theorem ReadsFrom.lt (h : ReadsFrom ds i j) : j < ds.length := by
  obtain ⟨-, producer, -, hj, -⟩ := h
  exact (List.getElem?_eq_some_iff.mp hj).1

namespace Awaits

theorem initial (ds : List Descriptor) : Awaits ds [] (List.range ds.length) where
  ascending := List.pairwise_lt_range
  mem i := by simp

theorem take (h : Awaits ds taken waiting) (i : Nat) :
    Awaits ds (taken ++ [i]) (waiting.erase i) where
  ascending := h.ascending.sublist List.erase_sublist
  mem k := by
    have hnodup : waiting.Nodup := h.ascending.imp Nat.ne_of_lt
    rw [hnodup.mem_erase_iff, h.mem, List.mem_append, List.mem_singleton, not_or]
    tauto

private theorem ready_iff (h : Awaits ds taken waiting) :
    Ready ds taken k ↔ k ∈ waiting ∧ (!waiting.any fun j => feeds ds j k) = true := by
  rw [h.mem]
  simp only [Bool.not_eq_true', List.any_eq_false]
  constructor
  · rintro ⟨hk, hnot, hproduced⟩
    refine ⟨⟨hk, hnot⟩, fun j hj hfeeds => ?_⟩
    exact ((h.mem j).mp hj).2 (hproduced j (readsFrom_iff.mpr hfeeds))
  · rintro ⟨⟨hk, hnot⟩, hfree⟩
    refine ⟨hk, hnot, fun j hj => ?_⟩
    by_contra hwaits
    exact hfree j ((h.mem j).mpr ⟨hj.lt, hwaits⟩) (readsFrom_iff.mp hj)

private theorem isLeast_of_find? (h : Awaits ds taken waiting)
    (hfind : (waiting.find? fun i => !waiting.any fun j => feeds ds j i) = some i) :
    IsLeast {k | Ready ds taken k} i := by
  obtain ⟨hi, before, after, hsplit, hbefore⟩ := List.find?_eq_some_iff_append.mp hfind
  refine ⟨h.ready_iff.mpr ⟨List.mem_of_find?_eq_some hfind, hi⟩, fun k hk => ?_⟩
  obtain ⟨hwaiting, hfree⟩ := h.ready_iff.mp hk
  have hascending := h.ascending
  rw [hsplit] at hwaiting hascending
  rcases List.mem_append.mp hwaiting with hk | hk
  · have hfed := hbefore k hk
    rw [hfree] at hfed
    cases hfed
  · rcases List.mem_cons.mp hk with rfl | hk
    · exact Nat.le_refl _
    · have hlater := (List.pairwise_append.mp hascending).2.1
      exact Nat.le_of_lt ((List.pairwise_cons.mp hlater).1 k hk)

end Awaits

private theorem earliest_schedule (hawaits : Awaits ds taken waiting) {stuck : List Nat}
    (h : schedule ds taken waiting = (order, stuck)) :
    ∃ rest, order = taken ++ rest ∧ Earliest ds taken rest := by
  induction hn : waiting.length using Nat.strongRecOn generalizing taken waiting with
  | ind n ih =>
    cases hfind : waiting.find? fun i => !waiting.any fun j => feeds ds j i with
    | none =>
      rw [schedule_of_none hfind] at h
      cases h
      exact ⟨[], by simp, trivial⟩
    | some i =>
      rw [schedule_of_some hfind] at h
      have hi := List.mem_of_find?_eq_some hfind
      have hpos := List.length_pos_of_mem hi
      have hlen : (waiting.erase i).length < n := by
        rw [List.length_erase_of_mem hi, hn]
        omega
      obtain ⟨rest, horder, hrest⟩ := ih _ hlen (hawaits.take i) h rfl
      refine ⟨i :: rest, ?_, hawaits.isLeast_of_find? hfind, hrest⟩
      rw [horder, List.append_assoc, List.singleton_append]

theorem Earliest.isLeast (h : Earliest ds taken rest) {before after : List Nat}
    (hrest : rest = before ++ i :: after) : IsLeast {k | Ready ds (taken ++ before) k} i := by
  induction before generalizing taken rest with
  | nil =>
    subst hrest
    rw [List.append_nil]
    exact h.1
  | cons b before ih =>
    subst hrest
    rw [List.append_cons]
    exact ih h.2 rfl

/-- No order of the same rules in which each could come at its place stands before the earliest
one: where the two part, that one takes the first rule that could come. -/
theorem Earliest.eq_or_lex (h : Earliest ds taken rest) (hperm : rest.Perm rest')
    (hready : ∀ before i after, rest' = before ++ i :: after → Ready ds (taken ++ before) i) :
    rest = rest' ∨ List.Lex (· < ·) rest rest' := by
  induction rest generalizing taken rest' with
  | nil => exact .inl hperm.nil_eq
  | cons i rest ih =>
    cases rest' with
    | nil => exact absurd hperm.length_eq (by simp)
    | cons j rest' =>
      obtain ⟨hleast, hrest⟩ := h
      have hj : Ready ds taken j := by
        have hfirst := hready [] j rest' rfl
        rwa [List.append_nil] at hfirst
      rcases Nat.lt_or_eq_of_le (hleast.2 hj) with hlt | rfl
      · exact .inr (.rel hlt)
      · have hlater : ∀ before k after, rest' = before ++ k :: after →
            Ready ds (taken ++ [i] ++ before) k := by
          intro before k after hsplit
          rw [List.append_assoc]
          exact hready (i :: before) k after (by rw [hsplit]; rfl)
        rcases ih hrest hperm.cons_inv hlater with rfl | hlex
        · exact .inl rfl
        · exact .inr (.cons hlex)

theorem IsFiringOrder.ready (h : IsFiringOrder ds order) {before after : List Nat}
    (hsplit : order = before ++ i :: after) : Ready ds before i where
  registered := List.mem_range.mp (h.perm.subset (by simp [hsplit]))
  untaken := by
    have hnodup := h.perm.nodup_iff.mpr List.nodup_range
    rw [hsplit, List.nodup_append] at hnodup
    exact fun hi => hnodup.2.2 i hi i List.mem_cons_self rfl
  produced := h.follows before i after hsplit

end Orders

namespace RuleGraph

variable {V E : Type} {root : Tag} {rules : List (Rule V E)} {g : RuleGraph V E}

/-- A graph holds the registered rules behind their producers, in the order that stands before all
others of this kind: at each place the rule registered first of those that could come there. -/
theorem register_earliest (h : register root rules = .ok g) :
    (g.rules.map (·.toRule)).Perm rules ∧
      ∃ order, (g.rules.map (·.toRule) = order.filterMap fun i => rules[i]?) ∧
        IsFiringOrder (rules.map Rule.descriptor) order ∧
        (∀ order', IsFiringOrder (rules.map Rule.descriptor) order' →
          order = order' ∨ List.Lex (· < ·) order order') ∧
        ∀ before i after, order = before ++ i :: after →
          IsLeast {k | Ready (rules.map Rule.descriptor) before k} i := by
  obtain ⟨-, hrules, -⟩ := inOrder_of_register h
  obtain ⟨-, -, order, hschedule, rfl⟩ := register_eq_ok h
  obtain ⟨rest, horder, hearliest⟩ := earliest_schedule (Awaits.initial _) hschedule
  obtain ⟨rest', horder', hscheduled⟩ := schedule_spec hschedule
  rw [List.nil_append] at horder horder'
  subst horder
  subst horder'
  have hperm := hscheduled.perm
  rw [List.append_nil] at hperm
  have hleast : ∀ before i after, order = before ++ i :: after →
      IsLeast {k | Ready (rules.map Rule.descriptor) before k} i := fun before i after hsplit =>
    hearliest.isLeast hsplit
  refine ⟨hrules, order, ?_, ⟨hperm, ?_⟩, ?_, hleast⟩
  · apply map_zipWith_anchor
    rw [length_anchors, List.length_map]
  · exact fun before i after hsplit => (hleast before i after hsplit).1.produced
  · intro order' horder'
    exact hearliest.eq_or_lex (hperm.trans horder'.perm.symm)
      fun _ _ _ hsplit => horder'.ready hsplit

end RuleGraph

def idle (name : String) (inputs : List Input) (output : Tag) : Rule Nat String where
  descriptor := ⟨name, inputs, [], output, .single⟩
  condition _ := true
  action _ := .ok .nothing
  report _ := []

/-- The first rule may read what the fourth writes, and two rules write what the second needs. -/
def sharedRules : List (Rule Nat String) :=
  [idle "digest" [.needed "root", ⟨"left", true⟩] "digest",
    idle "report" [.needed "left", .needed "right"] "report",
    idle "right" [.needed "root"] "right",
    idle "left" [.needed "root"] "left",
    idle "echo" [.needed "root"] "right"]

/-- Once the fourth rule is taken the first one goes before the fifth, and the second goes last. -/
theorem sharedRules_earliest :
    ∃ g : RuleGraph Nat String, RuleGraph.register "root" sharedRules = .ok g ∧
      g.order = ["right", "left", "digest", "echo", "report"] ∧
      (g.rules.map (·.toRule)).Perm sharedRules ∧
      ∃ order, (g.rules.map (·.toRule) = order.filterMap fun i => sharedRules[i]?) ∧
        IsFiringOrder (sharedRules.map Rule.descriptor) order ∧
        (∀ order', IsFiringOrder (sharedRules.map Rule.descriptor) order' →
          order = order' ∨ List.Lex (· < ·) order order') ∧
        ∀ before i after, order = before ++ i :: after →
          IsLeast {k | Ready (sharedRules.map Rule.descriptor) before k} i := by
  have hrun : (RuleGraph.register "root" sharedRules).toOption.map RuleGraph.order =
      some ["right", "left", "digest", "echo", "report"] := by decide +kernel
  obtain ⟨g, hg, horder⟩ := Option.map_eq_some_iff.mp hrun
  have hregister := Except.eq_ok_of_toOption hg
  exact ⟨g, hregister, horder, RuleGraph.register_earliest hregister⟩

end SlowRequest
