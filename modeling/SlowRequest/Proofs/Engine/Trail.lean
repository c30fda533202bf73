import SlowRequest.Proofs.Engine.Derivation
/-!
# Trails

The tags and values on the lineage of a fact. Of the fact that a rule fires at it sees nothing but
the trail; of the other facts it sees the root value and, for an optional input off the trail, the
first value of the tag.
-/
namespace SlowRequest

variable {V E : Type}

def Fact.under (σ : FactId → FactId) (x : Fact V) : Fact V := { x with parent := x.parent.map σ }

theorem Fact.under_of_root {x : Fact V} (σ : FactId → FactId) (h : x.parent = none) :
    x.under σ = x := by
  obtain ⟨tag, value, parent⟩ := x
  obtain rfl : parent = none := h
  rfl

theorem Fact.under_congr {σ τ : FactId → FactId} {x : Fact V}
    (h : ∀ p, x.parent = some p → σ p = τ p) : x.under σ = x.under τ := by
  obtain ⟨tag, value, parent⟩ := x
  cases parent with
  | none => rfl
  | some p => rw [under, under, Option.map_some, Option.map_some, h p rfl]

namespace FactForest

variable {f g : FactForest V} {id a b : FactId} {tag : Tag} {x : Fact V}

def trail (f : FactForest V) (id : FactId) : List (Tag × V) :=
  (f.lineage id).filterMap fun i => (f.get? i).map fun x => (x.tag, x.value)

def line (f : FactForest V) (id : FactId) : List Tag := (f.trail id).map Prod.fst

theorem trail_eq (hold : f.Older) (hx : f.get? id = some x) :
    f.trail id = (x.tag, x.value) :: x.parent.elim [] f.trail := by
  rw [trail, lineage_eq hx, List.filterMap_cons, hx]
  cases hp : x.parent with
  | none => rfl
  | some p =>
    rw [Option.elim_some, if_pos (hold id x p hx hp)]
    rfl

theorem line_eq (hold : f.Older) (hx : f.get? id = some x) :
    f.line id = x.tag :: x.parent.elim [] f.line := by
  rw [line, trail_eq hold hx, List.map_cons]
  cases x.parent <;> rfl

/-- Facts have the trails of the facts that they correspond to, if their parents correspond. -/
theorem trail_of_copies {σ : FactId → FactId} {P : FactId → Prop} (hf : f.Older) (hg : g.Older)
    (hfact : ∀ id, P id → ∃ x, f.get? id = some x ∧ g.get? (σ id) = some (x.under σ) ∧
      ∀ p, x.parent = some p → P p) (hid : P id) : g.trail (σ id) = f.trail id := by
  induction id using Nat.strong_induction_on with
  | _ id ih =>
    obtain ⟨x, hx, himage, hparent⟩ := hfact id hid
    rw [trail_eq hf hx, trail_eq hg himage, Fact.under]
    cases hp : x.parent with
    | none => rfl
    | some p =>
      rw [Option.map_some, Option.elim_some, Option.elim_some,
        ih p (hf id x p hx hp) (hparent p hp)]

theorem lookup_trail (f : FactForest V) (id : FactId) (tag : Tag) :
    (f.trail id).lookup tag = ((f.nearest? id tag).bind f.get?).map Fact.value := by
  rw [trail, nearest?]
  induction f.lineage id with
  | nil => rfl
  | cons i rest ih =>
    rw [List.filterMap_cons, List.find?_cons]
    cases hx : f.get? i with
    | none => exact ih
    | some x =>
      rw [Option.map_some, List.lookup_cons, Option.any_some]
      by_cases htag : x.tag = tag
      · rw [beq_iff_eq.mpr htag, beq_iff_eq.mpr htag.symm, Option.bind_some, hx]
        rfl
      · rw [beq_eq_false_iff_ne.mpr htag, beq_eq_false_iff_ne.mpr (Ne.symm htag)]
        exact ih

theorem nearest?_isSome : (f.nearest? id tag).isSome ↔ tag ∈ f.line id := by
  have hlookup : (f.nearest? id tag).isSome = ((f.trail id).lookup tag).isSome := by
    rw [lookup_trail]
    cases hnear : f.nearest? id tag with
    | none => rfl
    | some i =>
      obtain ⟨x, hx, -⟩ := exists_of_nearest? hnear
      rw [Option.bind_some, hx]
      rfl
  rw [hlookup, List.lookup_isSome_iff, line, List.mem_map]
  simp only [beq_iff_eq, eq_comm (a := tag)]

theorem mem_ids_iff_line (hold : f.Older) : id ∈ f.ids tag ↔ (f.line id).head? = some tag := by
  rw [mem_ids]
  cases hx : f.get? id with
  | none =>
    rw [line, trail, lineage_of_foreign hx]
    simp
  | some x =>
    rw [line_eq hold hx]
    simp

private theorem bound?_isSome {input : Input} :
    (f.bound? id input).isSome ↔ (input.isOptional = false → input.name ∈ f.line id) := by
  rw [← nearest?_isSome, bound?]
  cases hoptional : input.isOptional with
  | true => cases f.bindInput id input <;> simp
  | false =>
    cases hinput : f.bindInput id input with
    | none => simp [bindInput_eq_none hoptional hinput]
    | some v =>
      have hsupplies := supplies_bindInput f id input (.inr (by simp [hinput]))
      rw [hinput] at hsupplies
      cases hsupplies with
      | lineage near _ => simp [near]
      | anywhere _ optional _ => simp [hoptional] at optional

/-- A rule has a binding at exactly the facts whose lineage has all the tags it requires. -/
theorem bind?_isSome {d : Descriptor} {vars : Variables} (hroot : f.root?.isSome) :
    (f.bind? d.inputs vars id).isSome ↔ d.requiredInputs ⊆ f.line id := by
  obtain ⟨root, hroot⟩ := Option.isSome_iff_exists.mp hroot
  have hbind : (f.bind? d.inputs vars id).isSome = (d.inputs.mapM (f.bound? id)).isSome := by
    rw [bind?, hroot]
    cases d.inputs.mapM (f.bound? id) <;> rfl
  rw [hbind, mapM_option_isSome]
  simp only [bound?_isSome, Descriptor.requiredInputs, List.subset_def, List.forall_mem_map,
    List.mem_filter, Bool.not_eq_true', and_imp]

theorem bindInput_eq (f : FactForest V) (id : FactId) (input : Input) :
    f.bindInput id input =
      if input.isOptional then
        ((f.trail id).lookup input.name).or ((f.ofTag input.name).head?.map Fact.value)
      else (f.trail id).lookup input.name := by
  rw [lookup_trail, bindInput]
  split
  · exact Option.map_or
  · rfl

/-- At facts with one trail the inputs are bound to the same values, in whatever forests. -/
theorem bind?_of_trail {inputs : List Input} {vars : Variables}
    (hroot : f.root?.map Fact.value = g.root?.map Fact.value) (htrail : f.trail a = g.trail b)
    (hfirst : ∀ i ∈ inputs, i.isOptional = true →
      (f.ofTag i.name).head?.map Fact.value = (g.ofTag i.name).head?.map Fact.value) :
    f.bind? inputs vars a = g.bind? inputs vars b := by
  have hbound : inputs.mapM (f.bound? a) = inputs.mapM (g.bound? b) := by
    apply mapM_option_congr
    intro i hi
    have hinput : f.bindInput a i = g.bindInput b i := by
      rw [bindInput_eq, bindInput_eq, htrail]
      split
      · rename_i hoptional
        rw [hfirst i hi hoptional]
      · rfl
    rw [bound?, bound?, hinput]
  rw [bind?, bind?, hbound]
  cases hf : f.root? with
  | none =>
    rw [hf] at hroot
    rw [Option.map_eq_none_iff.mp hroot.symm]
  | some x =>
    rw [hf] at hroot
    obtain ⟨y, hy, hvalue⟩ := Option.map_eq_some_iff.mp hroot.symm
    rw [hy, Option.bind_eq_bind, Option.bind_eq_bind, Option.bind_some, Option.bind_some, hvalue]

end FactForest

theorem ScheduledRule.fireAt_of_trail {r : ScheduledRule V E} {vars : Variables}
    {f g : FactForest V} {a b : FactId} (hroot : f.root?.map Fact.value = g.root?.map Fact.value)
    (htrail : f.trail a = g.trail b)
    (hfirst : ∀ i ∈ r.descriptor.inputs, i.isOptional = true →
      (f.ofTag i.name).head?.map Fact.value = (g.ofTag i.name).head?.map Fact.value) :
    r.fireAt vars f a = r.fireAt vars g b := by
  rw [fireAt, fireAt, FactForest.bind?_of_trail hroot htrail hfirst]

end SlowRequest
