import SlowRequest.Proofs.Engine.Reuse
namespace SlowRequest

variable {V E : Type}

/-- One run of `rules` over a forest that holds the fact `first` alone. It leaves the forest
`last`, by the evaluations `log`, and the failure if there is one. -/
structure Run (rules : List (ScheduledRule V E)) (vars : Variables) (first : Fact V)
    (log : List (Evaluation V E)) (last : FactForest V)
    (failure : Option (SessionError E)) : Prop where
  started : ∃ f : FactForest V, f.facts.toList = [first] ∧
    fireAll vars rules f = (last, failure) ∧ evaluateAll vars rules f = log

namespace Run

variable {rules : List (ScheduledRule V E)} {vars : Variables} {first : Fact V}
  {log : List (Evaluation V E)} {last : FactForest V} {failure : Option (SessionError E)}
  {root : Tag}

theorem toList (h : Run rules vars first log last failure) :
    last.facts.toList = first :: log.flatMap Evaluation.facts := by
  obtain ⟨f, hf, hrun, rfl⟩ := h.started
  rw [toList_fireAll hrun, hf]
  rfl

theorem get?_zero (h : Run rules vars first log last failure) : last.get? 0 = some first := by
  rw [FactForest.get?_eq_getElem?, h.toList]
  rfl

theorem root?_isSome (h : Run rules vars first log last failure) : last.root?.isSome := by
  rw [FactForest.root?, h.get?_zero]
  rfl

theorem map_root? (h : Run rules vars first log last failure) :
    last.root?.map Fact.value = some first.value := by
  rw [FactForest.root?, h.get?_zero]
  rfl

theorem size_pos (h : Run rules vars first log last failure) : 0 < last.size :=
  FactForest.lt_size_of_get? h.get?_zero

theorem older (h : Run rules vars first log last failure) (hfirst : first.parent = none) :
    last.Older := by
  obtain ⟨f, hf, hrun, rfl⟩ := h.started
  refine older_fireAll ?_ hrun
  intro id x p hx hp
  rw [FactForest.get?_eq_getElem?, hf] at hx
  rw [List.mem_singleton.mp (List.mem_of_getElem? hx), hfirst] at hp
  cases hp

theorem reached (h : Run rules vars first log last failure) (horder : InOrder root rules) :
    Reached vars last log (firings rules last) failure := by
  obtain ⟨f, hf, hrun, rfl⟩ := h.started
  exact (evaluateAll_reached horder hrun).1

/-- Every evaluation is as it would be in the end. -/
theorem fireAt_eq (h : Run rules vars first log last failure) (horder : InOrder root rules) :
    ∀ e ∈ log, e.rule.fireAt vars last e.anchor = .ok e.values := by
  obtain ⟨f, hf, hrun, rfl⟩ := h.started
  exact (evaluateAll_reached horder hrun).2

theorem mem_rules {e : Evaluation V E} (h : Run rules vars first log last failure)
    (horder : InOrder root rules) (he : e ∈ log) :
    e.rule ∈ rules ∧ e.anchor ∈ last.ids e.rule.anchor :=
  mem_firings.mp ((h.reached horder).mem_planned he)

theorem exists_evaluation {r : ScheduledRule V E} {a : FactId}
    (h : Run rules vars first log last none) (horder : InOrder root rules) (hr : r ∈ rules)
    (ha : a ∈ last.ids r.anchor) : ∃ e ∈ log, e.rule = r ∧ e.anchor = a := by
  cases h.reached horder with
  | finished all =>
    have hmem : (r, a) ∈ firings rules last := mem_firings.mpr ⟨hr, ha⟩
    rw [← all] at hmem
    obtain ⟨e, he, heq⟩ := List.mem_map.mp hmem
    cases heq
    exact ⟨e, he, rfl, rfl⟩

/-- A run stores its first fact and what its evaluations write. -/
theorem get?_cases {id : FactId} {x : Fact V} (h : Run rules vars first log last failure)
    (hx : last.get? id = some x) :
    (id = 0 ∧ x = first) ∨ ∃ e ∈ log, x ∈ e.facts := by
  rw [FactForest.get?_eq_getElem?, h.toList] at hx
  cases id with
  | zero => exact .inl ⟨rfl, (Option.some.inj hx).symm⟩
  | succ k =>
    rw [List.getElem?_cons_succ] at hx
    exact .inr (List.mem_flatMap.mp (List.mem_of_getElem? hx))

theorem exists_get? {e : Evaluation V E} {x : Fact V} (h : Run rules vars first log last failure)
    (he : e ∈ log) (hx : x ∈ e.facts) : ∃ id, last.get? id = some x := by
  have hmem : x ∈ last.facts.toList := by
    rw [h.toList]
    exact List.mem_cons_of_mem _ (List.mem_flatMap.mpr ⟨e, he, hx⟩)
  obtain ⟨id, hid⟩ := List.mem_iff_getElem?.mp hmem
  exact ⟨id, (last.get?_eq_getElem? id).trans hid⟩

end Run

namespace Session

variable {g : RuleGraph V E} {value : V} {vars : Variables} {s s' : Session V E}

/-- `s` is a session of `g` that has just been activated, whatever was done with it before. -/
def Activated (g : RuleGraph V E) (value : V) (vars : Variables) (s : Session V E) : Prop :=
  ∃ moves : List (Move V), (moves.foldl after (new g)).activate value vars = .ok s

private theorem activated_of_new (h : (new g).activate value vars = .ok s) :
    s.Activated g value vars := ⟨[], h⟩

theorem exists_activated {rules : List (Rule V E)} {root : Tag}
    {result : Except (SessionError E) Nat} {facts : Array (Fact V)}
    (h : ((RuleGraph.register root rules).toOption.bind fun g =>
      ((new g).activate value vars).toOption.map fun s => (s.call.2, s.call.1.facts.facts)) =
        some (result, facts)) :
    ∃ (g : RuleGraph V E) (s : Session V E), RuleGraph.register root rules = .ok g ∧
      s.Activated g value vars ∧ s.call = (s.call.1, result) ∧ s.call.1.facts.facts = facts := by
  obtain ⟨g, hg, h⟩ := Option.bind_eq_some_iff.mp h
  obtain ⟨s, hs, h⟩ := Option.map_eq_some_iff.mp h
  obtain ⟨rfl, rfl⟩ := Prod.mk.injEq .. ▸ h
  exact ⟨g, s, Except.eq_ok_of_toOption hg, activated_of_new (Except.eq_ok_of_toOption hs),
    rfl, rfl⟩

theorem Activated.exists_eq (h : s.Activated g value vars) :
    ∃ f : FactForest V, f.facts.toList = [⟨g.rootTag, value, none⟩] ∧
      s = ⟨g, .activated, f, vars⟩ := by
  obtain ⟨moves, hactivate⟩ := h
  have hclean := (clean_new g).run moves
  generalize moves.foldl after (new g) = t at hclean hactivate
  rw [activate] at hactivate
  split at hactivate
  · rename_i hidle
    have hrested := hclean.rested hidle
    cases hactivate
    refine ⟨t.facts.insert t.graph.rootTag value none, ?_, ?_⟩
    · rw [FactForest.facts_insert, hrested.facts, hclean.graph]
      rfl
    · rw [hclean.graph, hrested.vars]
      simp [new]
  · cases hactivate

theorem Activated.call (h : s.Activated g value vars) :
    ∃ F failure, Run g.rules vars ⟨g.rootTag, value, none⟩ s.evaluations F failure ∧
      s.call = (⟨g, .processed, F, vars⟩,
        match failure with
        | none => .ok F.size
        | some e => .error e) := by
  obtain ⟨f, hf, rfl⟩ := h.exists_eq
  cases hrun : fireAll vars g.rules f with
  | mk F failure =>
    refine ⟨F, failure, ⟨f, hf, hrun, ?_⟩, ?_⟩
    · rw [evaluations, if_pos rfl]
    · cases failure <;> simp [Session.call, hrun]

theorem Activated.call_ok {n : Nat} (h : s.Activated g value vars) (hcall : s.call = (s', .ok n)) :
    Run g.rules vars ⟨g.rootTag, value, none⟩ s.evaluations s'.facts none := by
  obtain ⟨F, failure, hrun, heq⟩ := h.call
  rw [heq] at hcall
  cases failure with
  | none =>
    cases hcall
    exact hrun
  | some e => cases hcall

theorem Activated.call_error {e : SessionError E} (h : s.Activated g value vars)
    (hcall : s.call = (s', .error e)) :
    Run g.rules vars ⟨g.rootTag, value, none⟩ s.evaluations s'.facts (some e) ∧
      s'.graph = g ∧ s'.state = .processed := by
  obtain ⟨F, failure, hrun, heq⟩ := h.call
  rw [heq] at hcall
  cases failure with
  | none => cases hcall
  | some e =>
    cases hcall
    exact ⟨hrun, rfl, rfl⟩

end Session

end SlowRequest
