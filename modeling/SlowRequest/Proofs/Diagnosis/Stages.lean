import SlowRequest.Diagnosis.RuleSet
import SlowRequest.Proofs.Clustering.Rounds
import SlowRequest.Proofs.Diagnosis.Causes
import SlowRequest.Proofs.Engine.Progress
/-!
# Stages of a diagnosis

The facts of a diagnosis come in stages, each derived from the one before it. Every rule finds on
the lineage of a fact of its anchor what it needs, and what it writes fits its own stage, so no
rule ever fails.
-/
namespace SlowRequest

inductive Stage where
  | root
  | globalContext
  | operations
  | problemContext
  | problemCause
  | problemCauseNPlusOne
  | causeStructure
  deriving DecidableEq, Repr

namespace Stage

def tag : Stage → Tag
  | root => Tag.root
  | globalContext => Tag.globalContext
  | operations => Tag.operations
  | problemContext => Tag.problemContext
  | problemCause => Tag.problemCause
  | problemCauseNPlusOne => Tag.problemCauseNPlusOne
  | causeStructure => Tag.causeStructure

private theorem tag_injective : Function.Injective tag := by
  intro a b h
  cases a <;> cases b <;> first | rfl | exact absurd h (by decide)

def all : List Stage :=
  [root, globalContext, operations, problemContext, problemCause, problemCauseNPlusOne,
    causeStructure]

private theorem mem_all (stage : Stage) : stage ∈ all := by
  cases stage <;> decide

def under : Stage → List Stage
  | root => []
  | globalContext => [root]
  | operations => [globalContext]
  | problemContext => [operations]
  | problemCause => [problemContext]
  | problemCauseNPlusOne => [problemContext]
  | causeStructure => [problemCause, problemCauseNPlusOne]

def Fits (t : CallTree) (baseline : Float) : Stage → Finding → Prop
  | root, v => v = .request t
  | globalContext, v => v = .node (SlowRequest.globalContext t baseline)
  | operations, v =>
    ∃ a, v = .aggregate a ∧ a.Gathers t (timedCalls t (SlowRequest.globalContext t baseline))
  | problemContext, v => ∃ c, v = .cluster c ∧ c.Timed t
  | problemCause, v => ∃ a, v = .aggregate a ∧ a.Within t
  | problemCauseNPlusOne, v => ∃ a, v = .aggregate a ∧ a.Within t
  | causeStructure, v => ∃ s, v = .causeStructure s

end Stage

/-- `id` holds a finding of a stage and was derived from `p`. -/
structure Hangs (f : FactForest Finding) (stage : Stage) (v : Finding) (id p : FactId) : Prop where
  fact : f.get? id = some ⟨stage.tag, v, some p⟩
  older : p < id

/-- After the root, every fact fits a stage and hangs on one of a stage under it. -/
structure Staged (t : CallTree) (baseline : Float) (f : FactForest Finding) : Prop where
  root : f.root? = some ⟨Tag.root, .request t, none⟩
  hangs : ∀ id, 0 < id → id < f.size → ∃ stage v p above, Hangs f stage v id p ∧
    stage.Fits t baseline v ∧ above ∈ stage.under ∧ p ∈ f.ids above.tag

namespace Hangs

variable {f : FactForest Finding} {stage : Stage} {v w : Finding} {id p : FactId}

theorem parent? (h : Hangs f stage v id p) : f.parent? id = some p := by
  rw [FactForest.parent?, h.fact]
  rfl

theorem lineage (h : Hangs f stage v id p) : f.lineage id = id :: f.lineage p :=
  FactForest.lineage_of_parent h.fact rfl h.older

theorem nearest? (h : Hangs f stage v id p) (other : Stage) (hne : stage ≠ other) :
    f.nearest? id other.tag = f.nearest? p other.tag :=
  FactForest.nearest?_above h.fact rfl h.older fun heq => hne (Stage.tag_injective heq)

theorem finds (h : Hangs f stage v id p) : f.Finds id stage.tag v :=
  FactForest.finds_here h.fact

theorem above (h : Hangs f stage v id p) (other : Stage) (hne : stage ≠ other)
    (hfinds : f.Finds p other.tag w) : f.Finds id other.tag w := by
  obtain ⟨j, x, hj, hx, hw⟩ := hfinds
  exact ⟨j, x, (h.nearest? other hne).trans hj, hx, hw⟩

end Hangs

namespace Staged

variable {t : CallTree} {baseline : Float} {f : FactForest Finding} {id : FactId}

theorem initial (t : CallTree) (baseline : Float) :
    Staged t baseline (FactForest.empty.insert Tag.root (.request t) none) where
  root := rfl
  hangs _ hpos hlt := absurd hpos (Nat.not_lt.mpr (Nat.lt_one_iff.mp hlt).le)

theorem step (hf : Staged t baseline f) (stage : Stage) (hstage : stage ≠ .root)
    (hid : id ∈ f.ids stage.tag) :
    ∃ v p above, Hangs f stage v id p ∧ stage.Fits t baseline v ∧ above ∈ stage.under ∧
      p ∈ f.ids above.tag := by
  obtain ⟨x, hx, htag⟩ := FactForest.mem_ids.mp hid
  have hpos : 0 < id := by
    apply Nat.pos_of_ne_zero
    rintro rfl
    have hroot := hf.root
    rw [FactForest.root?, hx, Option.some.injEq] at hroot
    rw [hroot] at htag
    exact hstage (Stage.tag_injective htag.symm)
  obtain ⟨stage', v, p, above, hhangs, hfits, habove, hp⟩ :=
    hf.hangs id hpos (FactForest.lt_size_of_mem_ids hid)
  have hsame : stage' = stage := by
    apply Stage.tag_injective
    rw [← htag]
    rw [hhangs.fact, Option.some.injEq] at hx
    rw [← hx]
  subst hsame
  exact ⟨v, p, above, hhangs, hfits, habove, hp⟩

theorem insertAll (hf : Staged t baseline f) {stage above : Stage} (habove : above ∈ stage.under)
    (hid : id ∈ f.ids above.tag) {values : List Finding}
    (hvalues : ∀ v ∈ values, stage.Fits t baseline v) :
    Staged t baseline (f.insertAll stage.tag id values) := by
  have hgrow := FactForest.grows_of_insertAll f stage.tag id values
  have hnonempty : 0 < f.size := Nat.zero_lt_of_lt (FactForest.lt_size_of_mem_ids hid)
  constructor
  · rw [FactForest.root?, hgrow.get? hnonempty]
    exact hf.root
  · intro j hpos hj
    by_cases hold : j < f.size
    · obtain ⟨stage', v, p, above', hhangs, hfits, habove', hp⟩ := hf.hangs j hpos hold
      refine ⟨stage', v, p, above', ⟨?_, hhangs.older⟩, hfits, habove', hgrow.mem_ids hp⟩
      rw [hgrow.get? hold]
      exact hhangs.fact
    · have hle : f.size ≤ j := Nat.not_lt.mp hold
      obtain ⟨x, hx⟩ := Option.isSome_iff_exists.mp (FactForest.get?_isSome_iff.mpr hj)
      have hlast := hx
      rw [FactForest.get?_eq_getElem?, FactForest.toList_insertAll,
        List.getElem?_append_right (by rwa [← FactForest.size_eq_length])] at hlast
      obtain ⟨v, hv, rfl⟩ := List.mem_map.mp (List.mem_of_getElem? hlast)
      exact ⟨stage, v, id, above, ⟨hx, (FactForest.lt_size_of_mem_ids hid).trans_le hle⟩,
        hvalues v hv, habove, hgrow.mem_ids hid⟩

private theorem eq_zero_of_mem_root (hf : Staged t baseline f) (hid : id ∈ f.ids Tag.root) :
    id = 0 := by
  by_contra hne
  obtain ⟨x, hx, htag⟩ := FactForest.mem_ids.mp hid
  obtain ⟨stage, v, p, above, hhangs, -, habove, -⟩ :=
    hf.hangs id (Nat.pos_of_ne_zero hne) (FactForest.lt_size_of_get? hx)
  rw [hhangs.fact, Option.some.injEq] at hx
  rw [← hx] at htag
  have hstage : stage = .root := Stage.tag_injective htag
  rw [hstage] at habove
  cases habove

theorem size_eq (hf : Staged t baseline f) :
    f.size = tally (Stage.all.map fun stage => (f.ids stage.tag).length) := by
  rw [FactForest.size_eq_tally_ids (Stage.all.map Stage.tag), List.map_map]
  · rfl
  · exact List.Nodup.map Stage.tag_injective (by decide)
  · intro x hx
    obtain ⟨id, hid⟩ := List.getElem?_of_mem hx
    rw [← FactForest.get?_eq_getElem?] at hid
    by_cases hzero : id = 0
    · have hroot := hf.root
      rw [FactForest.root?, ← hzero, hid, Option.some.injEq] at hroot
      rw [hroot]
      exact List.mem_map_of_mem (Stage.mem_all .root)
    · obtain ⟨stage, v, p, above, hhangs, -⟩ :=
        hf.hangs id (Nat.pos_of_ne_zero hzero) (FactForest.lt_size_of_get? hid)
      rw [hhangs.fact, Option.some.injEq] at hid
      rw [← hid]
      exact List.mem_map_of_mem (Stage.mem_all stage)

theorem hangs_globalContext (hf : Staged t baseline f) (hid : id ∈ f.ids Tag.globalContext) :
    Hangs f .globalContext (.node (globalContext t baseline)) id 0 := by
  obtain ⟨_, p, above, hhangs, rfl, habove, hp⟩ :=
    hf.step .globalContext (by decide) hid
  rw [List.mem_singleton.mp habove] at hp
  rw [hf.eq_zero_of_mem_root hp] at hhangs
  exact hhangs

theorem hangs_operation (hf : Staged t baseline f) (hid : id ∈ f.ids Tag.operations) :
    ∃ a p, Hangs f .operations (.aggregate a) id p ∧
      a.Gathers t (timedCalls t (globalContext t baseline)) ∧ p ∈ f.ids Tag.globalContext := by
  obtain ⟨_, p, above, hhangs, ⟨a, rfl, ha⟩, habove, hp⟩ :=
    hf.step .operations (by decide) hid
  rw [List.mem_singleton.mp habove] at hp
  exact ⟨a, p, hhangs, ha, hp⟩

theorem hangs_problemContext (hf : Staged t baseline f) (hid : id ∈ f.ids Tag.problemContext) :
    ∃ c p, Hangs f .problemContext (.cluster c) id p ∧ c.Timed t ∧
      p ∈ f.ids Tag.operations := by
  obtain ⟨_, p, above, hhangs, ⟨c, rfl, hc⟩, habove, hp⟩ :=
    hf.step .problemContext (by decide) hid
  rw [List.mem_singleton.mp habove] at hp
  exact ⟨c, p, hhangs, hc, hp⟩

theorem hangs_cause (hf : Staged t baseline f) {stage : Stage}
    (hstage : stage ∈ Stage.causeStructure.under) (hid : id ∈ f.ids stage.tag) :
    ∃ a p, Hangs f stage (.aggregate a) id p ∧ a.Within t ∧ p ∈ f.ids Tag.problemContext := by
  have hkind : stage = .problemCause ∨ stage = .problemCauseNPlusOne := by
    simpa [Stage.under] using hstage
  obtain ⟨v, p, above, hhangs, hfits, habove, hp⟩ :=
    hf.step stage (by rcases hkind with rfl | rfl <;> decide) hid
  have hfound : (∃ a, v = .aggregate a ∧ a.Within t) ∧ above = .problemContext := by
    rcases hkind with rfl | rfl <;> exact ⟨hfits, List.mem_singleton.mp habove⟩
  obtain ⟨⟨a, rfl, ha⟩, rfl⟩ := hfound
  exact ⟨a, p, hhangs, ha, hp⟩

theorem hangs_causeStructure (hf : Staged t baseline f) (hid : id ∈ f.ids Tag.causeStructure) :
    ∃ s p stage, Hangs f .causeStructure (.causeStructure s) id p ∧
      stage ∈ Stage.causeStructure.under ∧ p ∈ f.ids stage.tag := by
  obtain ⟨_, p, stage, hhangs, ⟨s, rfl⟩, hstage, hp⟩ :=
    hf.step .causeStructure (by decide) hid
  exact ⟨s, p, stage, hhangs, hstage, hp⟩

theorem finds_root (hf : Staged t baseline f) (hid : id ∈ f.ids Tag.root) :
    f.Finds id Tag.root (.request t) := by
  rw [hf.eq_zero_of_mem_root hid]
  exact FactForest.finds_here hf.root

theorem finds_operation (hf : Staged t baseline f) (hid : id ∈ f.ids Tag.operations) :
    ∃ a, a.Gathers t (timedCalls t (globalContext t baseline)) ∧
      f.Finds id Tag.operations (.aggregate a) ∧
      f.Finds id Tag.globalContext (.node (globalContext t baseline)) := by
  obtain ⟨a, p, hhangs, ha, hp⟩ := hf.hangs_operation hid
  have hcontext := (hf.hangs_globalContext hp).finds
  exact ⟨a, ha, hhangs.finds, hhangs.above .globalContext (by decide) hcontext⟩

theorem finds_cause (hf : Staged t baseline f) (stage : Stage)
    (hstage : stage ∈ Stage.causeStructure.under) (hid : id ∈ f.ids stage.tag) :
    ∃ a c, a.Within t ∧ f.Finds id stage.tag (.aggregate a) ∧
      f.Finds id Tag.problemContext (.cluster c) := by
  obtain ⟨a, p, hhangs, ha, hp⟩ := hf.hangs_cause hstage hid
  obtain ⟨c, q, hcontext, -⟩ := hf.hangs_problemContext hp
  have hne : stage ≠ .problemContext := by
    rintro rfl
    simp [Stage.under] at hstage
  exact ⟨a, c, ha, hhangs.finds, hhangs.above .problemContext hne hcontext.finds⟩

end Staged

end SlowRequest
