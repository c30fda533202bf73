import SlowRequest.Proofs.Engine.Schedule
import Mathlib.Data.Fintype.Pigeonhole
import Mathlib.Logic.Function.Iterate
import Mathlib.Logic.Relation
/-! # Registration -/
namespace SlowRequest

open Relation

section Declarations

variable {root : Tag} {d : Descriptor} {ds : List Descriptor}

structure Descriptor.Sound (root : Tag) (d : Descriptor) : Prop where
  inputs : d.inputs ≠ []
  output : d.output ≠ root
  tags : (d.inputs.map Input.name).Nodup
  parameters : (d.parameters.map Input.name).Nodup
  apart : ∀ i ∈ d.inputs, ∀ v ∈ d.parameters, i.name ≠ v.name

/-- Declarations are sound one by one, and every required input is the root or written by one. -/
structure Declared (root : Tag) (ds : List Descriptor) : Prop where
  names : (ds.map Descriptor.name).Nodup
  sound : ∀ d ∈ ds, d.Sound root
  produced : ∀ d ∈ ds, ∀ i ∈ d.inputs, i.isOptional = false →
    i.name = root ∨ ∃ e ∈ ds, e.output = i.name

private theorem firstRepeated?_eq_none {α : Type} [DecidableEq α] {seen xs : List α} :
    firstRepeated? seen xs = none ↔ xs.Nodup ∧ ∀ x ∈ xs, x ∉ seen := by
  induction xs generalizing seen with
  | nil => simp [firstRepeated?]
  | cons x xs ih =>
    rw [firstRepeated?]
    by_cases hx : x ∈ seen
    · simp [hx]
    · rw [if_neg hx, ih, List.nodup_cons, List.forall_mem_cons]
      simp only [List.mem_cons, not_or]
      constructor
      · rintro ⟨hnodup, hnew⟩
        exact ⟨⟨fun hmem => (hnew x hmem).1 rfl, hnodup⟩, hx, fun y hy => (hnew y hy).2⟩
      · rintro ⟨⟨hnot, hnodup⟩, -, hnew⟩
        exact ⟨hnodup, fun y hy => ⟨fun heq => hnot (heq ▸ hy), hnew y hy⟩⟩

private theorem Descriptor.variableFault?_eq_none {seen vs : List String} :
    d.variableFault? seen vs = none ↔
      (∀ v ∈ vs, d.reads v = false) ∧ firstRepeated? seen vs = none := by
  induction vs generalizing seen with
  | nil => simp [variableFault?, firstRepeated?]
  | cons v vs ih =>
    rw [variableFault?, firstRepeated?, List.forall_mem_cons]
    cases d.reads v with
    | true => simp
    | false =>
      by_cases hv : v ∈ seen
      · simp [hv]
      · simp [hv, ih]

private theorem Descriptor.reads_eq_false {tag : Tag} :
    d.reads tag = false ↔ ∀ i ∈ d.inputs, i.name ≠ tag := by
  simp [reads]

private theorem Descriptor.fault?_eq_none : d.fault? root = none ↔ d.Sound root := by
  have hapart : (∀ v ∈ d.parameters.map Input.name, d.reads v = false) ↔
      ∀ i ∈ d.inputs, ∀ v ∈ d.parameters, i.name ≠ v.name := by
    rw [List.forall_mem_map]
    simp only [reads_eq_false]
    exact ⟨fun h i hi v hv => h v hv i hi, fun h v hv i hi => h i hi v hv⟩
  rw [fault?]
  by_cases hinputs : d.inputs = []
  · rw [if_pos (List.isEmpty_iff.mpr hinputs)]
    exact ⟨fun h => absurd h (Option.some_ne_none _), fun h => absurd hinputs h.inputs⟩
  rw [if_neg (fun h => hinputs (List.isEmpty_iff.mp h))]
  by_cases houtput : d.output = root
  · rw [if_pos houtput]
    exact ⟨fun h => absurd h (Option.some_ne_none _), fun h => absurd houtput h.output⟩
  rw [if_neg houtput]
  cases hfirst : firstRepeated? [] (d.inputs.map Input.name) with
  | some tag =>
    refine ⟨fun h => absurd h (Option.some_ne_none _), fun h => ?_⟩
    rw [firstRepeated?_eq_none.mpr ⟨h.tags, by simp⟩] at hfirst
    cases hfirst
  | none =>
    have htags := (firstRepeated?_eq_none.mp hfirst).1
    change d.variableFault? [] _ = none ↔ _
    rw [variableFault?_eq_none, hapart, firstRepeated?_eq_none]
    constructor
    · rintro ⟨hapart, hparameters, -⟩
      exact ⟨hinputs, houtput, htags, hparameters, hapart⟩
    · intro h
      exact ⟨h.apart, h.parameters, by simp⟩

private theorem declarationFault?_eq_none {names : List String} :
    declarationFault? root names ds = none ↔
      firstRepeated? names (ds.map Descriptor.name) = none ∧ ∀ d ∈ ds, d.Sound root := by
  induction ds generalizing names with
  | nil => simp [declarationFault?, firstRepeated?]
  | cons d ds ih =>
    rw [declarationFault?, List.map_cons, firstRepeated?, List.forall_mem_cons]
    by_cases hname : d.name ∈ names
    · simp [hname]
    · rw [if_neg hname, if_neg hname, ← Descriptor.fault?_eq_none]
      cases d.fault? root with
      | some e => simp
      | none => simpa using ih

private theorem producerFault?_eq_none :
    producerFault? root ds = none ↔ ∀ d ∈ ds, ∀ i ∈ d.inputs, i.isOptional = false →
      i.name = root ∨ ∃ e ∈ ds, e.output = i.name := by
  rw [producerFault?, List.findSome?_eq_none_iff]
  apply forall₂_congr
  intro d _
  rw [Option.map_eq_none_iff, List.find?_eq_none, Descriptor.requiredInputs, List.forall_mem_map]
  simp only [List.mem_filter, and_imp]
  apply forall₂_congr
  intro i _
  simp [or_iff_not_imp_left]

private theorem Descriptor.variableFault?_ne_cycle {names seen vs : List String} :
    d.variableFault? seen vs ≠ some (.cycle names) := by
  induction vs generalizing seen with
  | nil => simp [variableFault?]
  | cons v vs ih =>
    rw [variableFault?]
    split
    · simp
    · split
      · simp
      · exact ih

private theorem Descriptor.fault?_ne_cycle {names : List String} :
    d.fault? root ≠ some (.cycle names) := by
  rw [fault?]
  split
  · simp
  · split
    · simp
    · split
      · simp
      · exact variableFault?_ne_cycle

private theorem declarationFault?_ne_cycle {names seen : List String} :
    declarationFault? root seen ds ≠ some (.cycle names) := by
  induction ds generalizing seen with
  | nil => simp [declarationFault?]
  | cons d ds ih =>
    rw [declarationFault?]
    split
    · simp
    · split
      · rename_i e hfault
        rintro hcycle
        cases hcycle
        exact Descriptor.fault?_ne_cycle hfault
      · exact ih

private theorem producerFault?_ne_cycle {names : List String} :
    producerFault? root ds ≠ some (.cycle names) := by
  rw [producerFault?]
  intro h
  obtain ⟨d, -, hd⟩ := List.exists_of_findSome?_eq_some h
  simp at hd

theorem declared_iff :
    declarationFault? root [] ds = none ∧ producerFault? root ds = none ↔ Declared root ds := by
  rw [declarationFault?_eq_none, producerFault?_eq_none, firstRepeated?_eq_none]
  constructor
  · rintro ⟨⟨⟨hnames, -⟩, hsound⟩, hproduced⟩
    exact ⟨hnames, hsound, hproduced⟩
  · intro h
    exact ⟨⟨⟨h.names, by simp⟩, h.sound⟩, h.produced⟩

end Declarations

section Cycles

variable {ds : List Descriptor} {d e : Descriptor}

/-- `d` declares an input, optional or not, that `e` produces. -/
def DependsOn (ds : List Descriptor) (d e : Descriptor) : Prop :=
  d ∈ ds ∧ e ∈ ds ∧ ∃ i ∈ d.inputs, i.name = e.output

/-- `d` depends on itself, through any number of rules. -/
def OnCycle (ds : List Descriptor) (d : Descriptor) : Prop := TransGen (DependsOn ds) d d

/-- `d` lies on a cycle or depends on a rule that does, through any number of rules. -/
def MeetsCycle (ds : List Descriptor) (d : Descriptor) : Prop :=
  ∃ e, ReflTransGen (DependsOn ds) d e ∧ OnCycle ds e

theorem dependsOn_iff :
    DependsOn ds d e ↔ d ∈ ds ∧ e ∈ ds ∧ d.reads e.output = true := by
  rw [DependsOn, Descriptor.reads, List.any_eq_true]
  simp only [beq_iff_eq]

theorem OnCycle.mem (h : OnCycle ds d) : d ∈ ds := by
  obtain ⟨e, hde, -⟩ := TransGen.head'_iff.mp h
  exact hde.1

/-- Where everything depends on something, everything meets a cycle. -/
theorem meetsCycle_of_waits {stuck : List Descriptor}
    (hwaits : ∀ d ∈ stuck, ∃ e ∈ stuck, DependsOn ds d e) : ∀ d ∈ stuck, MeetsCycle ds d := by
  intro d hd
  choose! next hnext hdepends using hwaits
  have hmem : ∀ k, next^[k] d ∈ stuck := by
    intro k
    induction k with
    | zero => exact hd
    | succ k ih =>
      rw [Function.iterate_succ_apply']
      exact hnext _ ih
  have hstep : ∀ k, DependsOn ds (next^[k] d) (next^[k + 1] d) := by
    intro k
    rw [Function.iterate_succ_apply']
    exact hdepends _ (hmem k)
  have hchain : ∀ k n, ReflTransGen (DependsOn ds) (next^[k] d) (next^[k + n] d) := by
    intro k n
    induction n with
    | zero => exact ReflTransGen.refl
    | succ n ih => exact ih.tail (hstep (k + n))
  -- The walk along `next` stays in a finite list, so it comes to a rule twice.
  obtain ⟨a, b, hne, heq⟩ := Finite.exists_ne_map_eq_of_infinite
    fun k => (⟨next^[k] d, hmem k⟩ : {e // e ∈ stuck})
  have heq : next^[a] d = next^[b] d := congrArg Subtype.val heq
  have hreturn : ∀ k m, k < m → next^[k] d = next^[m] d → MeetsCycle ds d := by
    intro k m hlt hsame
    obtain ⟨n, rfl⟩ := Nat.exists_eq_add_of_lt hlt
    refine ⟨next^[k] d, ?_, ?_⟩
    · have := hchain 0 k
      rwa [Nat.zero_add] at this
    · have hlast := TransGen.tail' (hchain k n) (hstep (k + n))
      rwa [← hsame] at hlast
  rcases Nat.lt_or_gt_of_ne hne with hlt | hlt
  · exact hreturn a b hlt heq
  · exact hreturn b a hlt heq.symm

/-- Rules that depend only on earlier ones of their list meet no cycle. -/
theorem not_meetsCycle_of_earlier {ordered : List Descriptor}
    (hearlier : ∀ d ∈ ordered, ∀ e, DependsOn ds d e →
      e ∈ ordered ∧ ordered.idxOf e < ordered.idxOf d) :
    ∀ d ∈ ordered, ¬ MeetsCycle ds d := by
  have hdescends : ∀ {d e}, TransGen (DependsOn ds) d e → d ∈ ordered →
      e ∈ ordered ∧ ordered.idxOf e < ordered.idxOf d := by
    intro d e hde hd
    induction hde with
    | single hde => exact hearlier d hd _ hde
    | tail _ hstep ih =>
      obtain ⟨hmem, hlt⟩ := hearlier _ ih.1 _ hstep
      exact ⟨hmem, hlt.trans ih.2⟩
  rintro d hd ⟨e, hde, hcycle⟩
  have he : e ∈ ordered := by
    rcases reflTransGen_iff_eq_or_transGen.mp hde with rfl | hde
    · exact hd
    · exact (hdescends hde hd).1
  exact Nat.lt_irrefl _ (hdescends hcycle he).2

/-- What a schedule leaves are the declarations that meet a cycle. -/
theorem Scheduled.mem_stuck_iff {ordered stuck : List Descriptor}
    (h : Scheduled (fun e d => d.reads e.output) ds ordered stuck) (hd : d ∈ ds) :
    d ∈ stuck ↔ MeetsCycle ds d := by
  constructor
  · apply meetsCycle_of_waits
    intro x hx
    obtain ⟨y, hy, hreads⟩ := h.waits x hx
    have hsub := h.stuck_sublist.subset
    exact ⟨y, hy, dependsOn_iff.mpr ⟨hsub hx, hsub hy, hreads⟩⟩
  · intro hcycle
    rcases List.mem_append.mp (h.perm.symm.subset hd) with hd | hd
    · refine absurd hcycle (not_meetsCycle_of_earlier ?_ d hd)
      intro x hx y hxy
      obtain ⟨-, hy, hreads⟩ := dependsOn_iff.mp hxy
      exact h.earlier hx hy hreads
    · exact hd

end Cycles

namespace RuleGraph

variable {V E : Type} {root : Tag} {rules : List (Rule V E)} {ds : List Descriptor}

theorem topologicalOrder_spec (ds : List Descriptor) :
    (∃ order, topologicalOrder ds = .ok order ∧ ∀ d, ¬ OnCycle ds d) ∨
      ∃ stuck : List Descriptor, topologicalOrder ds = .error (.cycle (stuck.map Descriptor.name)) ∧
        (∃ d, OnCycle ds d) ∧ stuck.Sublist ds ∧ ∀ d ∈ ds, d ∈ stuck ↔ MeetsCycle ds d := by
  cases hs : schedule ds [] (List.range ds.length) with
  | mk order left =>
    have hscheduled := scheduled_of_schedule id (List.map_id ds) hs
    rw [topologicalOrder_eq hs]
    by_cases hleft : left = []
    · rw [if_pos hleft]
      refine .inl ⟨order, rfl, ?_⟩
      intro d hcycle
      have hmem := (hscheduled.mem_stuck_iff hcycle.mem).mpr ⟨d, .refl, hcycle⟩
      rw [hleft] at hmem
      cases hmem
    · rw [if_neg hleft]
      refine .inr ⟨left.filterMap fun i => ds[i]?, ?_, ?_, hscheduled.stuck_sublist,
        fun d hd => hscheduled.mem_stuck_iff hd⟩
      · rw [List.map_filterMap]
      · obtain ⟨i, hi⟩ := List.exists_mem_of_ne_nil left hleft
        obtain ⟨rest, -, hpositions⟩ := schedule_spec hs
        have hlt := List.mem_range.mp (hpositions.stuck_sublist.subset hi)
        have hmem : ds[i] ∈ left.filterMap fun i => ds[i]? :=
          List.mem_filterMap.mpr ⟨i, hi, List.getElem?_eq_getElem hlt⟩
        obtain ⟨d, -, hcycle⟩ :=
          (hscheduled.mem_stuck_iff (List.getElem_mem hlt)).mp hmem
        exact ⟨d, hcycle⟩

theorem register_of_declared (h : Declared root (rules.map Rule.descriptor)) :
    ∃ build : List Nat → RuleGraph V E,
      register root rules = (topologicalOrder (rules.map Rule.descriptor)).map build := by
  obtain ⟨hchecked, hproduced⟩ := declared_iff.mpr h
  refine ⟨fun order =>
    let ordered := order.filterMap fun i => rules[i]?
    ⟨root, ordered.zipWith (fun r a => ⟨r, a⟩)
      (anchors root [(root, 0)] (ordered.map Rule.descriptor))⟩, ?_⟩
  rw [register, hchecked]
  dsimp only
  rw [hproduced]
  cases topologicalOrder (rules.map Rule.descriptor) with
  | error e => rfl
  | ok order => rfl

theorem register_of_not_declared (h : ¬ Declared root (rules.map Rule.descriptor)) :
    ∃ e, register root rules = .error e ∧ ∀ names, e ≠ .cycle names := by
  rw [register]
  cases hchecked : declarationFault? root [] (rules.map Rule.descriptor) with
  | some e =>
    refine ⟨e, rfl, ?_⟩
    rintro names rfl
    exact declarationFault?_ne_cycle hchecked
  | none =>
    cases hproduced : producerFault? root (rules.map Rule.descriptor) with
    | some e =>
      refine ⟨e, rfl, ?_⟩
      rintro names rfl
      exact producerFault?_ne_cycle hproduced
    | none => exact absurd (declared_iff.mp ⟨hchecked, hproduced⟩) h

theorem exists_register (h : Declared root (rules.map Rule.descriptor))
    (hacyclic : ∀ d, ¬ OnCycle (rules.map Rule.descriptor) d) :
    ∃ g, register root rules = .ok g := by
  obtain ⟨build, hregister⟩ := register_of_declared h
  rcases topologicalOrder_spec (rules.map Rule.descriptor) with ⟨order, horder, -⟩ |
    ⟨-, -, ⟨d, hcycle⟩, -⟩
  · rw [hregister, horder]
    exact ⟨_, rfl⟩
  · exact absurd hcycle (hacyclic d)

theorem acyclic_of_register {g : RuleGraph V E} (h : register root rules = .ok g) :
    Declared root (rules.map Rule.descriptor) ∧
      ∀ d, ¬ OnCycle (rules.map Rule.descriptor) d := by
  obtain ⟨hchecked, hproduced, -⟩ := register_eq_ok h
  have hdeclared := declared_iff.mp ⟨hchecked, hproduced⟩
  obtain ⟨build, hregister⟩ := register_of_declared hdeclared
  rcases topologicalOrder_spec (rules.map Rule.descriptor) with ⟨-, -, hacyclic⟩ |
    ⟨stuck, horder, -⟩
  · exact ⟨hdeclared, hacyclic⟩
  · rw [hregister, horder] at h
    cases h

/-- Registration succeeds exactly for sound declarations without a dependency cycle, and reports a
cycle exactly for sound declarations with one. It then names, in their order, the rules that lie on
a cycle or depend on one that does. -/
theorem register_iff_acyclic (root : Tag) (rules : List (Rule V E)) :
    let ds := rules.map Rule.descriptor
    ((∃ g, register root rules = .ok g) ↔ Declared root ds ∧ ∀ d, ¬ OnCycle ds d) ∧
      (Declared root ds ∧ (∃ d, OnCycle ds d) ↔ ∃ stuck : List Descriptor,
        register root rules = .error (.cycle (stuck.map Descriptor.name)) ∧
          stuck.Sublist ds ∧ ∀ d ∈ ds, d ∈ stuck ↔ MeetsCycle ds d) := by
  intro ds
  by_cases hdeclared : Declared root ds
  · obtain ⟨build, hregister⟩ := register_of_declared hdeclared
    rw [hregister]
    rcases topologicalOrder_spec ds with ⟨order, horder, hacyclic⟩ |
      ⟨stuck, horder, ⟨d, hcycle⟩, hsublist, hstuck⟩
    · rw [horder]
      constructor
      · exact ⟨fun _ => ⟨hdeclared, hacyclic⟩, fun _ => ⟨_, rfl⟩⟩
      · constructor
        · rintro ⟨-, d, hcycle⟩
          exact absurd hcycle (hacyclic d)
        · rintro ⟨stuck, herror, -⟩
          cases herror
    · rw [horder]
      constructor
      · constructor
        · rintro ⟨g, hg⟩
          cases hg
        · rintro ⟨-, hacyclic⟩
          exact absurd hcycle (hacyclic d)
      · exact ⟨fun _ => ⟨stuck, rfl, hsublist, hstuck⟩, fun _ => ⟨hdeclared, d, hcycle⟩⟩
  · obtain ⟨e, herror, hne⟩ := register_of_not_declared hdeclared
    rw [herror]
    constructor
    · constructor
      · rintro ⟨g, hg⟩
        cases hg
      · rintro ⟨h, -⟩
        exact absurd h hdeclared
    · constructor
      · rintro ⟨h, -⟩
        exact absurd h hdeclared
      · rintro ⟨stuck, hcycle, -⟩
        cases hcycle
        exact absurd rfl (hne _)

end RuleGraph

end SlowRequest
