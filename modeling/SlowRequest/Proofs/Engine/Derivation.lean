import SlowRequest.Proofs.Engine.Growth
import SlowRequest.Proofs.Engine.Schedule
/-!
# Derivation forests

What a finished session holds, said of its last forest alone. A rule sees an older forest when it
fires, but by then all facts of the tags it reads have been written.
-/
namespace SlowRequest

variable {V E : Type}

theorem Except.eq_ok_of_toOption {ε α : Type} {x : Except ε α} {a : α}
    (h : x.toOption = some a) : x = .ok a := by
  cases x with
  | error e => cases h
  | ok b => rw [Option.some.inj h]

/-- The value that a declared input has at a fact: that of the nearest fact on the lineage, else,
for an optional input, that of the first fact anywhere, if there is one. -/
inductive FactForest.Supplies (f : FactForest V) (anchor : FactId) (input : Input) :
    Option V → Prop where
  | lineage {id : FactId} {x : Fact V} (near : f.nearest? anchor input.name = some id)
      (fact : f.get? id = some x) : Supplies f anchor input (some x.value)
  | anywhere {x : Fact V} {rest : List (Fact V)} (far : f.nearest? anchor input.name = none)
      (optional : input.isOptional = true) (first : f.ofTag input.name = x :: rest) :
      Supplies f anchor input (some x.value)
  | unbound (far : f.nearest? anchor input.name = none) (optional : input.isOptional = true)
      (nowhere : f.ofTag input.name = []) : Supplies f anchor input none

/-- `b` is what a rule with these inputs is given at `anchor`. -/
structure FactForest.Binds (f : FactForest V) (inputs : List Input) (vars : Variables)
    (anchor : FactId) (b : Binding V) : Prop where
  root : f.root?.map Fact.value = some b.root
  vars : b.vars = vars
  inputs : List.Forall₂
    (fun input entry => entry.1 = input.name ∧ f.Supplies anchor input entry.2) inputs b.inputs

/-- The values that a rule writes at `anchor`. -/
inductive ScheduledRule.Writes (r : ScheduledRule V E) (vars : Variables) (f : FactForest V)
    (anchor : FactId) : List V → Prop where
  | missing {input : Input} (declared : input ∈ r.descriptor.inputs)
      (required : input.isOptional = false) (far : f.nearest? anchor input.name = none) :
      Writes r vars f anchor []
  | refused {b : Binding V} (binds : f.Binds r.descriptor.inputs vars anchor b)
      (condition : r.condition b = false) : Writes r vars f anchor []
  | fired {b : Binding V} {out : Output V} (binds : f.Binds r.descriptor.inputs vars anchor b)
      (condition : r.condition b = true) (action : r.action b = .ok out) :
      Writes r vars f anchor out.values

/-- One evaluation of a rule with the values it wrote. -/
structure Evaluation (V E : Type) where
  rule : ScheduledRule V E
  anchor : FactId
  values : List V

def Evaluation.facts (e : Evaluation V E) : List (Fact V) :=
  e.values.map fun v => ⟨e.rule.descriptor.output, v, some e.anchor⟩

def ScheduledRule.evaluateEach (r : ScheduledRule V E) (vars : Variables) :
    List FactId → FactForest V → List (Evaluation V E)
  | [], _ => []
  | anchor :: rest, f =>
    match r.fireAt vars f anchor with
    | .error _ => []
    | .ok values =>
      ⟨r, anchor, values⟩ ::
        r.evaluateEach vars rest (f.insertAll r.descriptor.output anchor values)

def evaluateAll (vars : Variables) :
    List (ScheduledRule V E) → FactForest V → List (Evaluation V E)
  | [], _ => []
  | r :: rs, f =>
    r.evaluateEach vars (f.ids r.anchor) f ++
      match r.fire vars f with
      | (f, none) => evaluateAll vars rs f
      | (_, some _) => []

/-- The evaluations of a call. -/
def Session.evaluations (s : Session V E) : List (Evaluation V E) :=
  if s.state = .activated then evaluateAll s.vars s.graph.rules s.facts else []

namespace FactForest

variable {f : FactForest V} {anchor : FactId} {input : Input}

theorem supplies_bindInput (f : FactForest V) (anchor : FactId) (input : Input)
    (h : input.isOptional = true ∨ f.bindInput anchor input ≠ none) :
    f.Supplies anchor input (f.bindInput anchor input) := by
  rw [bindInput] at h ⊢
  cases hnear : f.nearest? anchor input.name with
  | some id =>
    obtain ⟨x, hx, -⟩ := exists_of_nearest? hnear
    have hfound : (some id).bind f.get? = some x := hx
    rw [hfound]
    split
    · exact .lineage hnear hx
    · exact .lineage hnear hx
  | none =>
    rw [hnear] at h
    cases hopt : input.isOptional with
    | false => simp [hopt] at h
    | true =>
      rw [if_pos rfl, Option.bind_none, Option.none_or]
      cases hfirst : f.ofTag input.name with
      | nil => exact .unbound hnear hopt hfirst
      | cons x rest => exact .anywhere hnear hopt hfirst

theorem bindInput_eq_none (hopt : input.isOptional = false)
    (h : f.bindInput anchor input = none) : f.nearest? anchor input.name = none := by
  cases hnear : f.nearest? anchor input.name with
  | none => rfl
  | some id =>
    obtain ⟨x, hx, -⟩ := exists_of_nearest? hnear
    rw [bindInput, hnear] at h
    simp [hopt, hx] at h

private theorem supplies_of_bound? {entry : Tag × Option V}
    (h : f.bound? anchor input = some entry) :
    entry.1 = input.name ∧ f.Supplies anchor input entry.2 := by
  rw [bound?] at h
  split at h
  · rename_i v hv
    cases h
    refine ⟨rfl, ?_⟩
    have := supplies_bindInput f anchor input (.inr (by simp [hv]))
    rwa [hv] at this
  · rename_i hv
    split at h
    · rename_i hopt
      cases h
      refine ⟨rfl, ?_⟩
      have := supplies_bindInput f anchor input (.inl hopt)
      rwa [hv] at this
    · cases h

theorem binds_of_bind? {inputs : List Input} {vars : Variables} {b : Binding V}
    (h : f.bind? inputs vars anchor = some b) : f.Binds inputs vars anchor b := by
  rw [bind?] at h
  obtain ⟨root, hroot, h⟩ := Option.bind_eq_some_iff.mp h
  obtain ⟨bound, hbound, h⟩ := Option.bind_eq_some_iff.mp h
  cases h
  refine ⟨by rw [hroot]; rfl, rfl, ?_⟩
  exact (forall₂_of_mapM hbound).imp fun _ _ => supplies_of_bound?

private theorem bound?_of_supplies {value : Option V} (h : f.Supplies anchor input value) :
    f.bound? anchor input = some (input.name, value) := by
  cases h with
  | @lineage id x near fact =>
    have hinput : f.bindInput anchor input = some x.value := by
      rw [bindInput, near, Option.bind_some, fact]
      split <;> rfl
    rw [bound?, hinput]
  | @anywhere x rest far optional first =>
    have hinput : f.bindInput anchor input = some x.value := by
      rw [bindInput, far, if_pos optional, first]
      rfl
    rw [bound?, hinput]
  | unbound far optional nowhere =>
    have hinput : f.bindInput anchor input = none := by
      rw [bindInput, far, if_pos optional, nowhere]
      rfl
    rw [bound?, hinput]
    exact if_pos optional

theorem bind?_of_binds {inputs : List Input} {vars : Variables} {b : Binding V}
    (h : f.Binds inputs vars anchor b) : f.bind? inputs vars anchor = some b := by
  obtain ⟨root, hroot, hvalue⟩ := Option.map_eq_some_iff.mp h.root
  have hbound : inputs.mapM (f.bound? anchor) = some b.inputs := by
    apply mapM_of_forall₂
    apply h.inputs.imp
    rintro input entry ⟨hname, hsupplies⟩
    rw [bound?_of_supplies hsupplies, ← hname]
  rw [bind?, hroot, hbound, Option.bind_eq_bind, Option.bind_some, hvalue, ← h.vars]
  rfl

private theorem missing_of_bind? {inputs : List Input} {vars : Variables} (hroot : f.root?.isSome)
    (h : f.bind? inputs vars anchor = none) :
    ∃ input ∈ inputs, input.isOptional = false ∧ f.nearest? anchor input.name = none := by
  obtain ⟨root, hroot⟩ := Option.isSome_iff_exists.mp hroot
  have hbound : inputs.mapM (f.bound? anchor) = none := by
    cases hb : inputs.mapM (f.bound? anchor) with
    | none => rfl
    | some bound => simp [bind?, hroot, hb] at h
  obtain ⟨input, hmem, hnone⟩ := exists_of_mapM_eq_none hbound
  rw [bound?] at hnone
  split at hnone
  · cases hnone
  · rename_i hv
    cases hopt : input.isOptional with
    | true => simp [hopt] at hnone
    | false => exact ⟨input, hmem, hopt, bindInput_eq_none hopt hv⟩

end FactForest

namespace ScheduledRule

variable {r : ScheduledRule V E} {vars : Variables} {f : FactForest V} {anchor : FactId}
  {values : List V}

theorem writes_of_fireAt (hroot : f.root?.isSome) (h : r.fireAt vars f anchor = .ok values) :
    r.Writes vars f anchor values := by
  rw [fireAt] at h
  split at h
  · rename_i b hb
    have hbinds := FactForest.binds_of_bind? hb
    rw [fireWith] at h
    split at h
    · cases h
    · split at h
      · rename_i hcond
        cases hact : r.action b with
        | error e =>
          rw [hact] at h
          cases h
        | ok out =>
          rw [hact] at h
          change (if r.descriptor.quantity = .single ∧ 1 < out.values.length then
              Except.error (ActionError.tooMany r.descriptor.output out.values.length)
            else Except.ok out.values) = .ok values at h
          split at h
          · cases h
          · cases h
            exact .fired hbinds hcond hact
      · rename_i hcond
        cases h
        exact .refused hbinds (by simpa using hcond)
  · rename_i hb
    cases h
    obtain ⟨input, hmem, hopt, hfar⟩ := FactForest.missing_of_bind? hroot hb
    exact .missing hmem hopt hfar

end ScheduledRule

/-- `f` is what `rules` derive from one root fact, by the evaluations `log`. -/
structure Derivation (rules : List (ScheduledRule V E)) (vars : Variables) (root : Fact V)
    (log : List (Evaluation V E)) (f : FactForest V) : Prop where
  /-- Every rule is evaluated once at every fact of its anchor. -/
  once : log.map (fun e => (e.rule, e.anchor)) =
    rules.flatMap fun r => (f.ids r.anchor).map fun id => (r, id)
  writes : ∀ e ∈ log, e.rule.Writes vars f e.anchor e.values
  facts : f.facts.toList = root :: log.flatMap Evaluation.facts
  older : f.Older

section Runs

variable {vars : Variables} {new : Tag → Prop} {r : ScheduledRule V E} {f g F : FactForest V}
  {anchors : List FactId} {root : Tag} {rules : List (ScheduledRule V E)}
  {failure : Option (SessionError E)}

theorem ScheduledRule.fireEach_cons_cases {anchor : FactId} {rest : List FactId}
    (h : r.fireEach vars (anchor :: rest) f = (g, failure)) :
    (∃ cause, r.fireAt vars f anchor = .error cause ∧ f = g ∧
        failure = some (.ruleExecution r.descriptor.name cause)) ∨
      ∃ values, r.fireAt vars f anchor = .ok values ∧
        r.fireEach vars rest (f.insertAll r.descriptor.output anchor values) = (g, failure) := by
  rw [fireEach] at h
  split at h
  · rename_i cause hcause
    cases h
    exact .inl ⟨cause, hcause, rfl, rfl⟩
  · rename_i values hvalues
    exact .inr ⟨values, hvalues, h⟩

theorem ScheduledRule.fireEach_cons {anchor : FactId} {rest : List FactId}
    (h : r.fireEach vars (anchor :: rest) f = (g, none)) :
    ∃ values, r.fireAt vars f anchor = .ok values ∧
      r.fireEach vars rest (f.insertAll r.descriptor.output anchor values) = (g, none) := by
  rcases fireEach_cons_cases h with ⟨cause, -, -, hfailure⟩ | hvalues
  · cases hfailure
  · exact hvalues

theorem fireAll_cons_cases (h : fireAll vars (r :: rules) f = (F, failure)) :
    (∃ e, r.fire vars f = (F, some e) ∧ failure = some e) ∨
      ∃ g, r.fire vars f = (g, none) ∧ fireAll vars rules g = (F, failure) := by
  rw [fireAll] at h
  split at h
  · rename_i g hg
    exact .inr ⟨g, hg, h⟩
  · rename_i g e hg
    cases h
    exact .inl ⟨e, hg, rfl⟩

theorem fireAll_cons (h : fireAll vars (r :: rules) f = (F, none)) :
    ∃ g, r.fire vars f = (g, none) ∧ fireAll vars rules g = (F, none) := by
  rcases fireAll_cons_cases h with ⟨e, -, hfailure⟩ | hrest
  · cases hfailure
  · exact hrest

private theorem toList_fireEach (h : r.fireEach vars anchors f = (g, failure)) :
    g.facts.toList =
      f.facts.toList ++ (r.evaluateEach vars anchors f).flatMap Evaluation.facts := by
  induction anchors generalizing f with
  | nil =>
    cases h
    simp [ScheduledRule.evaluateEach]
  | cons anchor rest ih =>
    rcases ScheduledRule.fireEach_cons_cases h with ⟨cause, hcause, rfl, -⟩ | ⟨values, hvalues, h⟩
    · simp [ScheduledRule.evaluateEach, hcause]
    · rw [ih h, FactForest.toList_insertAll, ScheduledRule.evaluateEach, hvalues,
        List.append_assoc]
      rfl

theorem toList_fireAll (h : fireAll vars rules f = (F, failure)) :
    F.facts.toList = f.facts.toList ++ (evaluateAll vars rules f).flatMap Evaluation.facts := by
  induction rules generalizing f with
  | nil =>
    cases h
    simp [evaluateAll]
  | cons r rules ih =>
    rcases fireAll_cons_cases h with ⟨e, hF, -⟩ | ⟨g, hg, h⟩
    · rw [toList_fireEach hF, evaluateAll, hF, List.append_nil]
    · rw [ih h, toList_fireEach hg, evaluateAll, hg, List.flatMap_append, List.append_assoc]

private theorem ScheduledRule.grows_fireEach (hnew : new r.descriptor.output)
    (h : r.fireEach vars anchors f = (g, failure)) : f.Grows new g := by
  induction anchors generalizing f with
  | nil =>
    cases h
    exact FactForest.Grows.refl new _
  | cons anchor rest ih =>
    rcases fireEach_cons_cases h with ⟨cause, -, rfl, -⟩ | ⟨values, -, h⟩
    · exact FactForest.Grows.refl new _
    · exact (FactForest.grows_insertAll f anchor values hnew).trans (ih h)

theorem grows_fireAll (new : Tag → Prop) (hnew : ∀ s ∈ rules, new s.descriptor.output)
    (h : fireAll vars rules f = (F, failure)) : f.Grows new F := by
  induction rules generalizing f with
  | nil =>
    cases h
    exact FactForest.Grows.refl new _
  | cons r rules ih =>
    rcases fireAll_cons_cases h with ⟨e, hF, -⟩ | ⟨g, hg, h⟩
    · exact ScheduledRule.grows_fireEach (hnew r List.mem_cons_self) hF
    · have hfg := ScheduledRule.grows_fireEach (hnew r List.mem_cons_self) hg
      exact hfg.trans (ih (fun s hs => hnew s (List.mem_cons_of_mem _ hs)) h)

private theorem ScheduledRule.older_fireEach (hf : f.Older) (hlt : ∀ a ∈ anchors, a < f.size)
    (h : r.fireEach vars anchors f = (g, failure)) : g.Older := by
  induction anchors generalizing f with
  | nil =>
    cases h
    exact hf
  | cons anchor rest ih =>
    rcases fireEach_cons_cases h with ⟨cause, -, rfl, -⟩ | ⟨values, -, h⟩
    · exact hf
    · apply ih (hf.insertAll _ values (hlt anchor List.mem_cons_self)) ?_ h
      intro a ha
      have hgrow := FactForest.grows_of_insertAll f r.descriptor.output anchor values
      exact (hlt a (List.mem_cons_of_mem _ ha)).trans_le hgrow.size_le

theorem older_fireAll (hf : f.Older) (h : fireAll vars rules f = (F, failure)) : F.Older := by
  induction rules generalizing f with
  | nil =>
    cases h
    exact hf
  | cons r rules ih =>
    rcases fireAll_cons_cases h with ⟨e, hF, -⟩ | ⟨g, hg, h⟩
    · exact ScheduledRule.older_fireEach hf (fun _ => FactForest.lt_size_of_mem_ids) hF
    · exact ih (ScheduledRule.older_fireEach hf (fun _ => FactForest.lt_size_of_mem_ids) hg) h

private theorem ScheduledRule.map_evaluateEach (h : r.fireEach vars anchors f = (g, none)) :
    (r.evaluateEach vars anchors f).map (fun e => (e.rule, e.anchor)) =
      anchors.map fun a => (r, a) := by
  induction anchors generalizing f with
  | nil => rfl
  | cons anchor rest ih =>
    obtain ⟨values, hvalues, h⟩ := fireEach_cons h
    rw [evaluateEach, hvalues]
    simp only [List.map_cons, ih h]

/-- A rule that reads nothing of what is written from then on has fired as it would fire at the
end. -/
theorem ScheduledRule.fireAt_of_mem_evaluateEach (hnew : new r.descriptor.output)
    (hreads : ∀ i ∈ r.descriptor.inputs, ¬ new i.name) (hlt : ∀ a ∈ anchors, a < f.size)
    (h : r.fireEach vars anchors f = (g, none)) (hgF : g.Grows new F) :
    ∀ e ∈ r.evaluateEach vars anchors f, e.rule.fireAt vars F e.anchor = .ok e.values := by
  induction anchors generalizing f with
  | nil => simp [evaluateEach]
  | cons anchor rest ih =>
    have hfg := grows_fireEach hnew h
    obtain ⟨values, hvalues, h⟩ := fireEach_cons h
    have hgrow := FactForest.grows_insertAll f anchor values hnew
    intro e he
    rw [evaluateEach, hvalues] at he
    rcases List.mem_cons.mp he with rfl | he
    · rw [← hvalues]
      exact fireAt_of_grows (hfg.trans hgF) (hlt anchor List.mem_cons_self) hreads
    · refine ih ?_ h e he
      intro a ha
      exact (hlt a (List.mem_cons_of_mem _ ha)).trans_le hgrow.size_le

private theorem ScheduledRule.fireEach_failed {e : SessionError E}
    (h : r.fireEach vars anchors f = (g, some e)) :
    ∃ before anchor after cause, anchors = before ++ anchor :: after ∧
      r.fireEach vars before f = (g, none) ∧
      r.evaluateEach vars anchors f = r.evaluateEach vars before f ∧
      r.fireAt vars g anchor = .error cause ∧ e = .ruleExecution r.descriptor.name cause := by
  induction anchors generalizing f with
  | nil => cases h
  | cons anchor rest ih =>
    rcases fireEach_cons_cases h with ⟨cause, hcause, rfl, hfailure⟩ | ⟨values, hvalues, h⟩
    · refine ⟨[], anchor, rest, cause, rfl, rfl, ?_, hcause, Option.some.inj hfailure⟩
      simp only [evaluateEach, hcause]
    · obtain ⟨before, failing, after, cause, rfl, hbefore, hlog, hcause, he⟩ := ih h
      refine ⟨anchor :: before, failing, after, cause, rfl, ?_, ?_, hcause, he⟩
      · rw [fireEach, hvalues]
        exact hbefore
      · simp only [evaluateEach, hvalues, hlog]

/-- The firings that rules come to, in their order: each rule once at every fact of its anchor. -/
def firings (rules : List (ScheduledRule V E)) (f : FactForest V) :
    List (ScheduledRule V E × FactId) :=
  rules.flatMap fun r => (f.ids r.anchor).map fun id => (r, id)

theorem mem_firings {anchor : FactId} :
    (r, anchor) ∈ firings rules f ↔ r ∈ rules ∧ anchor ∈ f.ids r.anchor := by
  rw [firings, List.mem_flatMap]
  constructor
  · rintro ⟨s, hs, hmem⟩
    obtain ⟨a, ha, heq⟩ := List.mem_map.mp hmem
    cases heq
    exact ⟨hs, ha⟩
  · rintro ⟨hr, ha⟩
    exact ⟨r, hr, List.mem_map_of_mem ha⟩

/-- How far a run got in its firings: through all of them, or to the first one that fails. -/
inductive Reached (vars : Variables) (f : FactForest V) (log : List (Evaluation V E))
    (planned : List (ScheduledRule V E × FactId)) : Option (SessionError E) → Prop where
  | finished (all : log.map (fun e => (e.rule, e.anchor)) = planned) :
      Reached vars f log planned none
  | failed {r : ScheduledRule V E} {anchor : FactId} {cause : ActionError E}
      (later : List (ScheduledRule V E × FactId))
      (first : planned = log.map (fun e => (e.rule, e.anchor)) ++ (r, anchor) :: later)
      (fails : r.fireAt vars f anchor = .error cause) :
      Reached vars f log planned (some (.ruleExecution r.descriptor.name cause))

theorem Reached.append {log : List (Evaluation V E)} {ran : List (Evaluation V E)}
    {planned : List (ScheduledRule V E × FactId)} (h : Reached vars f log planned failure) :
    Reached vars f (ran ++ log) (ran.map (fun e => (e.rule, e.anchor)) ++ planned) failure := by
  cases h with
  | finished all =>
    subst all
    exact .finished (List.map_append ..)
  | failed later first fails =>
    subst first
    refine .failed later ?_ fails
    rw [List.map_append, List.append_assoc]

theorem Reached.mem_planned {log : List (Evaluation V E)}
    {planned : List (ScheduledRule V E × FactId)} {e : Evaluation V E}
    (h : Reached vars f log planned failure) (he : e ∈ log) : (e.rule, e.anchor) ∈ planned := by
  have hmem : (e.rule, e.anchor) ∈ log.map fun e => (e.rule, e.anchor) := List.mem_map_of_mem he
  cases h with
  | finished all =>
    rw [← all]
    exact hmem
  | failed later first fails =>
    rw [first]
    exact List.mem_append_left _ hmem

/-- Rules fired in order come to each of their firings once, with the facts that their anchors have
in the end, and fire as they would fire at the end. -/
theorem evaluateAll_reached (horder : InOrder root rules)
    (h : fireAll vars rules f = (F, failure)) :
    Reached vars F (evaluateAll vars rules f) (firings rules F) failure ∧
      ∀ e ∈ evaluateAll vars rules f, e.rule.fireAt vars F e.anchor = .ok e.values := by
  induction rules generalizing f with
  | nil =>
    cases h
    exact ⟨.finished rfl, by simp [evaluateAll]⟩
  | cons r rules ih =>
    have hown : r.Ignores r.descriptor.output := horder.ignores List.mem_cons_self
    have hlt : ∀ a ∈ f.ids r.anchor, a < f.size := fun _ => FactForest.lt_size_of_mem_ids
    have hfF : f.Grows r.Ignores F := grows_fireAll r.Ignores (fun s hs => horder.ignores hs) h
    have hids : F.ids r.anchor = f.ids r.anchor := hfF.ids r.not_ignores_anchor
    rw [firings, List.flatMap_cons, hids]
    change Reached vars F _ (_ ++ firings rules F) failure ∧ _
    rcases fireAll_cons_cases h with ⟨e, hF, rfl⟩ | ⟨g, hg, hF⟩
    · obtain ⟨before, anchor, after, cause, hsplit, hbefore, hlog, hcause, rfl⟩ :=
        ScheduledRule.fireEach_failed hF
      rw [evaluateAll, hF, List.append_nil, hlog, hsplit]
      constructor
      · refine .failed (after.map (fun a => (r, a)) ++ firings rules F) ?_ hcause
        rw [ScheduledRule.map_evaluateEach hbefore, List.map_append, List.append_assoc]
        rfl
      · apply ScheduledRule.fireAt_of_mem_evaluateEach hown r.not_ignores_input ?_ hbefore
          (FactForest.Grows.refl _ F)
        intro a ha
        exact hlt a (hsplit ▸ List.mem_append_left _ ha)
    · obtain ⟨hreached, hfired⟩ := ih horder.tail hF
      have hgF : g.Grows r.Ignores F :=
        grows_fireAll r.Ignores (fun s hs => horder.ignores (List.mem_cons_of_mem _ hs)) hF
      rw [evaluateAll, hg, ← ScheduledRule.map_evaluateEach hg]
      refine ⟨hreached.append, ?_⟩
      intro e he
      rcases List.mem_append.mp he with he | he
      · exact ScheduledRule.fireAt_of_mem_evaluateEach hown r.not_ignores_input hlt hg hgF e he
      · exact hfired e he

theorem evaluateAll_spec (horder : InOrder root rules) (h : fireAll vars rules f = (F, none)) :
    (evaluateAll vars rules f).map (fun e => (e.rule, e.anchor)) =
        rules.flatMap (fun r => (F.ids r.anchor).map fun id => (r, id)) ∧
      ∀ e ∈ evaluateAll vars rules f, e.rule.fireAt vars F e.anchor = .ok e.values := by
  obtain ⟨hreached, hfired⟩ := evaluateAll_reached horder h
  cases hreached with
  | finished all => exact ⟨all, hfired⟩

private theorem Session.activate_new {g : RuleGraph V E} {value : V} {s : Session V E}
    (h : (Session.new g).activate value vars = .ok s) :
    s = ⟨g, .activated, FactForest.empty.insert g.rootTag value none, vars⟩ := by
  rw [activate, new, if_pos rfl] at h
  cases h
  simp

private theorem older_root (tag : Tag) (value : V) :
    (FactForest.empty.insert tag value none).Older := by
  intro id y p hy hp
  rw [FactForest.get?_eq_getElem?] at hy
  rw [List.mem_singleton.mp (List.mem_of_getElem? hy)] at hp
  cases hp

end Runs

namespace RuleGraph

variable {rules : List (Rule V E)} {root : Tag} {g : RuleGraph V E} {value : V}
  {vars : Variables} {s s' : Session V E} {n : Nat}

/-- A call that succeeds leaves the derivation forest of the registered rules. -/
theorem call_derivation (hregister : register root rules = .ok g)
    (hactivate : (Session.new g).activate value vars = .ok s) (hcall : s.call = (s', .ok n)) :
    (g.rules.map (·.toRule)).Perm rules ∧
      (∀ r ∈ g.rules, r.anchor = root ∨ r.anchor ∈ r.descriptor.requiredInputs) ∧
      Derivation g.rules vars ⟨root, value, none⟩ s.evaluations s'.facts := by
  obtain ⟨hroot, hperm, horder⟩ := inOrder_of_register hregister
  have hs := Session.activate_new hactivate
  subst hs
  rw [hroot] at hcall ⊢
  rw [Session.call, if_pos rfl] at hcall
  generalize hrun : fireAll vars g.rules (FactForest.empty.insert root value none) = result at hcall
  obtain ⟨F, failure⟩ := result
  cases failure with
  | some e => cases hcall
  | none =>
    cases hcall
    obtain ⟨honce, hfired⟩ := evaluateAll_spec horder hrun
    have hfacts := toList_fireAll hrun
    have hfirst : F.root?.isSome := by
      rw [FactForest.root?, FactForest.get?_eq_getElem?, hfacts]
      rfl
    refine ⟨hperm, horder.anchor, ?_⟩
    constructor
    · exact honce
    · intro e he
      exact ScheduledRule.writes_of_fireAt hfirst (hfired e he)
    · exact hfacts
    · exact older_fireAll (older_root root value) hrun

end RuleGraph

/-- Splits a number in two, and marks the even parts with the excess of the number over ten. -/
def partRules : List (Rule Nat Empty) :=
  [{ descriptor := ⟨"mark", [.needed "part", ⟨"excess", true⟩], [], "mark", .single⟩
     condition := fun b => (b.get? "part").any (· % 2 == 0)
     action := fun b => do
       return .single ((← b.require "part") + ((b.get? "excess").getD 0))
     report := fun _ => [] },
   { descriptor := ⟨"split", [.needed "number"], [], "part", .multiple⟩
     condition := fun _ => true
     action := fun b => return .multiple [b.root / 2, b.root - b.root / 2]
     report := fun _ => [] },
   { descriptor := ⟨"compare", [.needed "number"], [], "excess", .single⟩
     condition := fun b => 10 < b.root
     action := fun b => return .single (b.root - 10)
     report := fun _ => [] }]

theorem partRules_derivation :
    ∃ g s s' n, RuleGraph.register "number" partRules = .ok g ∧
      (Session.new g).activate 13 [] = .ok s ∧ s.call = (s', .ok n) ∧
      s'.facts.facts = #[⟨"number", 13, none⟩, ⟨"part", 6, some 0⟩, ⟨"part", 7, some 0⟩,
        ⟨"excess", 3, some 0⟩, ⟨"mark", 9, some 1⟩] ∧
      (g.rules.map (·.toRule)).Perm partRules ∧
      (∀ r ∈ g.rules, r.anchor = "number" ∨ r.anchor ∈ r.descriptor.requiredInputs) ∧
      Derivation g.rules [] ⟨"number", 13, none⟩ s.evaluations s'.facts := by
  have hrun : ((RuleGraph.register "number" partRules).toOption.bind fun g =>
      ((Session.new g).activate 13 []).toOption.bind fun s =>
        s.call.2.toOption.map fun _ => s.call.1.facts.facts) =
      some #[⟨"number", 13, none⟩, ⟨"part", 6, some 0⟩, ⟨"part", 7, some 0⟩,
        ⟨"excess", 3, some 0⟩, ⟨"mark", 9, some 1⟩] := by decide +kernel
  obtain ⟨g, hg, hrun⟩ := Option.bind_eq_some_iff.mp hrun
  obtain ⟨s, hs, hrun⟩ := Option.bind_eq_some_iff.mp hrun
  obtain ⟨n, hn, hfacts⟩ := Option.map_eq_some_iff.mp hrun
  have hregister := Except.eq_ok_of_toOption hg
  have hactivate := Except.eq_ok_of_toOption hs
  have hcall : s.call = (s.call.1, .ok n) := by
    rw [← Except.eq_ok_of_toOption hn]
  exact ⟨g, s, s.call.1, n, hregister, hactivate, hcall, hfacts,
    RuleGraph.call_derivation hregister hactivate hcall⟩

end SlowRequest
