import SlowRequest.Proofs.Engine.Activation
import SlowRequest.Proofs.Engine.Registration
/-!
# Calls that fail

A firing fails when a session variable is missing, when its action fails, or when it writes more
than it declared. A call ends at the first such firing, in the order of the rules and, for one
rule, of its anchor facts. It keeps what was written before, and the session can only be passivated.
-/
namespace SlowRequest

variable {V E : Type}

def Descriptor.Supplied (d : Descriptor) (vars : Variables) : Prop :=
  ∀ v ∈ d.parameters, v.isOptional = false → vars.lookup v.name ≠ none

/-- Why the firing of a rule at `anchor` fails. -/
inductive ScheduledRule.Fails (r : ScheduledRule V E) (vars : Variables) (f : FactForest V)
    (anchor : FactId) : ActionError E → Prop where
  | unset {b : Binding V} {v : Input} {earlier later : List Input}
      (binds : f.Binds r.descriptor.inputs vars anchor b)
      (declared : r.descriptor.parameters = earlier ++ v :: later)
      (required : v.isOptional = false) (missing : vars.lookup v.name = none)
      (first : ∀ w ∈ earlier, w.isOptional = false → vars.lookup w.name ≠ none) :
      Fails r vars f anchor (.missingVariable v.name)
  | action {b : Binding V} {cause : ActionError E}
      (binds : f.Binds r.descriptor.inputs vars anchor b) (supplied : r.descriptor.Supplied vars)
      (condition : r.condition b = true) (action : r.action b = .error cause) :
      Fails r vars f anchor cause
  | quantity {b : Binding V} {out : Output V}
      (binds : f.Binds r.descriptor.inputs vars anchor b) (supplied : r.descriptor.Supplied vars)
      (condition : r.condition b = true) (action : r.action b = .ok out)
      (single : r.descriptor.quantity = .single) (many : 1 < out.values.length) :
      Fails r vars f anchor (.tooMany r.descriptor.output out.values.length)

namespace ScheduledRule

variable {r : ScheduledRule V E} {vars : Variables} {f : FactForest V} {anchor : FactId}
  {b : Binding V} {cause : ActionError E}

private theorem missingVariable?_eq_none :
    r.missingVariable? b = none ↔ r.descriptor.Supplied b.vars := by
  rw [missingVariable?, Option.map_eq_none_iff, List.find?_eq_none, Descriptor.Supplied]
  apply forall₂_congr
  intro v _
  cases v.isOptional <;> simp [Binding.variableNamed?]

private theorem missingVariable?_eq_some {name : String} :
    r.missingVariable? b = some name ↔ ∃ earlier v later,
      r.descriptor.parameters = earlier ++ v :: later ∧ v.isOptional = false ∧
        b.vars.lookup v.name = none ∧ v.name = name ∧
        ∀ w ∈ earlier, w.isOptional = false → b.vars.lookup w.name ≠ none := by
  rw [missingVariable?, Option.map_eq_some_iff]
  constructor
  · rintro ⟨v, hv, rfl⟩
    obtain ⟨hfound, earlier, later, hsplit, hearlier⟩ := List.find?_eq_some_iff_append.mp hv
    have hfound : v.isOptional = false ∧ b.vars.lookup v.name = none := by
      simpa [Binding.variableNamed?] using hfound
    refine ⟨earlier, v, later, hsplit, hfound.1, hfound.2, rfl, ?_⟩
    intro w hw hrequired
    have hset := hearlier w hw
    simpa [Binding.variableNamed?, hrequired] using hset
  · rintro ⟨earlier, v, later, hsplit, hrequired, hunset, rfl, hearlier⟩
    refine ⟨v, List.find?_eq_some_iff_append.mpr ⟨?_, earlier, later, hsplit, ?_⟩, rfl⟩
    · simp [Binding.variableNamed?, hrequired, hunset]
    · intro w hw
      cases hoptional : w.isOptional with
      | true => simp
      | false => simpa [Binding.variableNamed?] using hearlier w hw hoptional

theorem fireWith_of_supplied (h : r.descriptor.Supplied b.vars) :
    r.fireWith b =
      if r.condition b then
        match r.action b with
        | .error cause => .error cause
        | .ok out =>
          if r.descriptor.quantity = .single ∧ 1 < out.values.length then
            .error (.tooMany r.descriptor.output out.values.length)
          else .ok out.values
      else .ok [] := by
  rw [fireWith, missingVariable?_eq_none.mpr h]
  cases r.condition b with
  | false => rfl
  | true => cases r.action b <;> rfl

private theorem fails_of_fireWith (hbinds : f.Binds r.descriptor.inputs vars anchor b)
    (h : r.fireWith b = .error cause) : r.Fails vars f anchor cause := by
  have hvars := hbinds.vars
  cases hmissing : r.missingVariable? b with
  | some name =>
    obtain ⟨earlier, v, later, hsplit, hrequired, hunset, rfl, hearlier⟩ :=
      missingVariable?_eq_some.mp hmissing
    rw [hvars] at hunset hearlier
    rw [fireWith, hmissing] at h
    cases h
    exact .unset hbinds hsplit hrequired hunset hearlier
  | none =>
    have hsupplied := missingVariable?_eq_none.mp hmissing
    rw [fireWith_of_supplied hsupplied] at h
    rw [hvars] at hsupplied
    split at h
    · rename_i hcondition
      cases haction : r.action b with
      | error e =>
        rw [haction] at h
        cases h
        exact .action hbinds hsupplied hcondition haction
      | ok out =>
        simp only [haction] at h
        split at h
        · rename_i hmany
          cases h
          exact .quantity hbinds hsupplied hcondition haction hmany.1 hmany.2
        · cases h
    · cases h

theorem fails_iff : r.Fails vars f anchor cause ↔ r.fireAt vars f anchor = .error cause := by
  constructor
  · intro h
    cases h with
    | @unset b v earlier later binds declared required missing first =>
      have hmissing : r.missingVariable? b = some v.name := by
        apply missingVariable?_eq_some.mpr
        rw [binds.vars]
        exact ⟨earlier, v, later, declared, required, missing, rfl, first⟩
      rw [fireAt, FactForest.bind?_of_binds binds]
      simp only [fireWith, hmissing]
    | action binds supplied condition action =>
      rw [← binds.vars] at supplied
      rw [fireAt, FactForest.bind?_of_binds binds]
      simp only [fireWith_of_supplied supplied, condition, action, if_true]
    | quantity binds supplied condition action single many =>
      rw [← binds.vars] at supplied
      rw [fireAt, FactForest.bind?_of_binds binds]
      simp only [fireWith_of_supplied supplied, condition, action, single, many, if_true, and_self]
  · intro h
    rw [fireAt] at h
    split at h
    · rename_i b hb
      exact fails_of_fireWith (FactForest.binds_of_bind? hb) h
    · cases h

end ScheduledRule

/-- `f` is what `rules` derive from one root fact by the evaluations `log`, up to the firing of `r`
at `anchor`, which fails for `cause`. -/
structure Interruption (rules : List (ScheduledRule V E)) (vars : Variables) (root : Fact V)
    (log : List (Evaluation V E)) (r : ScheduledRule V E) (anchor : FactId)
    (cause : ActionError E) (f : FactForest V) : Prop where
  /-- What was evaluated is what comes before the failing firing. -/
  first : ∃ later,
    firings rules f = log.map (fun e => (e.rule, e.anchor)) ++ (r, anchor) :: later
  fails : r.Fails vars f anchor cause
  succeeds : ∀ e ∈ log, ∀ cause, ¬ e.rule.Fails vars f e.anchor cause
  writes : ∀ e ∈ log, e.rule.Writes vars f e.anchor e.values
  facts : f.facts.toList = root :: log.flatMap Evaluation.facts
  /-- The failing firing has written nothing. -/
  unwritten : ∀ e ∈ log, e.rule.descriptor.name = r.descriptor.name → e.anchor ≠ anchor

theorem nodup_firings {rules : List (ScheduledRule V E)}
    (hnames : (rules.map (·.descriptor.name)).Nodup) (f : FactForest V) :
    ((firings rules f).map fun p => (p.1.descriptor.name, p.2)).Nodup := by
  have hnodup : ∀ r : ScheduledRule V E, (f.ids r.anchor).Nodup := by
    intro r
    rw [FactForest.ids_eq]
    exact List.nodup_range.filter _
  rw [firings, List.map_flatMap, List.nodup_flatMap]
  constructor
  · intro r _
    rw [List.map_map]
    apply (hnodup r).map
    intro a b hab
    exact congrArg Prod.snd hab
  · apply (List.pairwise_map.mp hnames).imp
    intro r s hne p hr hs
    simp only [List.map_map, List.mem_map, Function.comp_apply] at hr hs
    obtain ⟨a, -, rfl⟩ := hr
    obtain ⟨b, -, heq⟩ := hs
    exact hne (congrArg Prod.fst heq).symm

theorem Run.interruption {rules : List (ScheduledRule V E)} {vars : Variables} {first : Fact V}
    {log : List (Evaluation V E)} {last : FactForest V} {e : SessionError E} {root : Tag}
    (h : Run rules vars first log last (some e)) (horder : InOrder root rules)
    (hnames : (rules.map (·.descriptor.name)).Nodup) :
    ∃ r ∈ rules, ∃ anchor cause, e = .ruleExecution r.descriptor.name cause ∧
      Interruption rules vars first log r anchor cause last := by
  have hfired := h.fireAt_eq horder
  cases h.reached horder with
  | @failed r anchor cause later hfirst hfails =>
    have hmem : (r, anchor) ∈ firings rules last := by
      rw [hfirst]
      exact List.mem_append_right _ List.mem_cons_self
    refine ⟨r, (mem_firings.mp hmem).1, anchor, cause, rfl, ⟨later, hfirst⟩,
      ScheduledRule.fails_iff.mpr hfails, ?_, ?_, h.toList, ?_⟩
    · intro e he cause hcause
      have hfailed := ScheduledRule.fails_iff.mp hcause
      rw [hfired e he] at hfailed
      cases hfailed
    · intro e he
      exact ScheduledRule.writes_of_fireAt h.root?_isSome (hfired e he)
    · intro e he hname hanchor
      have hnodup := nodup_firings hnames last
      rw [hfirst, List.map_append, List.map_cons] at hnodup
      have hdisjoint := List.disjoint_of_nodup_append hnodup
      refine hdisjoint (a := (r.descriptor.name, anchor)) ?_ List.mem_cons_self
      rw [List.map_map, ← hname, ← hanchor]
      exact List.mem_map_of_mem he

namespace Session

variable {s : Session V E}

private theorem foldl_after_processed (h : s.state = .processed) (moves : List (Move V))
    (hmoves : ∀ m ∈ moves, m ≠ .passivate) : moves.foldl after s = s := by
  induction moves with
  | nil => rfl
  | cons m moves ih =>
    have hkept : s.after m = s := by
      cases m with
      | activate root vars => simp [after, activate, h, Except.toOption]
      | call => simp [after, call, h]
      | passivate => exact absurd rfl (hmoves _ List.mem_cons_self)
    rw [List.foldl_cons, hkept]
    exact ih fun m hm => hmoves m (List.mem_cons_of_mem _ hm)

end Session

namespace RuleGraph

variable {rules : List (Rule V E)} {root : Tag} {g : RuleGraph V E} {value : V}
  {vars : Variables} {s s' : Session V E}

theorem nodup_names_of_register (h : register root rules = .ok g) :
    (g.rules.map (·.descriptor.name)).Nodup := by
  obtain ⟨hdeclared, hproduced, -⟩ := register_eq_ok h
  obtain ⟨-, hperm, -⟩ := inOrder_of_register h
  have hnames := (declared_iff.mp ⟨hdeclared, hproduced⟩).names
  rw [List.map_map] at hnames
  have hgraph := (hperm.map fun r => r.descriptor.name).nodup_iff.mpr hnames
  rwa [List.map_map] at hgraph

/-- A call that fails names the rule of the first firing that fails and leaves the facts written
before it. Then only passivating makes the session usable again, and as good as new. -/
theorem call_interruption {name : String} {cause : ActionError E}
    (hregister : register root rules = .ok g) (hactivated : s.Activated g value vars)
    (hcall : s.call = (s', .error (.ruleExecution name cause))) :
    (∃ r ∈ g.rules, r.descriptor.name = name ∧ ∃ anchor,
      Interruption g.rules vars ⟨root, value, none⟩ s.evaluations r anchor cause s'.facts) ∧
    s'.state = .processed ∧
    (∀ value vars, s'.activate value vars = .error (.illegalState "activate" .processed)) ∧
    s'.call = (s', .error (.illegalState "call" .processed)) ∧
    (∀ moves : List (Session.Move V), (∀ m ∈ moves, m ≠ .passivate) →
      moves.foldl Session.after s' = s') ∧
    s'.passivate.Same (.new g) := by
  obtain ⟨hroot, -, horder⟩ := inOrder_of_register hregister
  obtain ⟨hrun, hgraph, hstate⟩ := hactivated.call_error hcall
  rw [hroot] at hrun
  refine ⟨?_, hstate, ?_, ?_, Session.foldl_after_processed hstate,
    Session.passivate_same hgraph⟩
  · obtain ⟨r, hr, anchor, cause', heq, hinterruption⟩ :=
      hrun.interruption horder (nodup_names_of_register hregister)
    cases heq
    exact ⟨r, hr, rfl, anchor, hinterruption⟩
  · intro value vars
    rw [Session.activate, hstate, if_neg SessionState.noConfusion]
  · rw [Session.call, hstate, if_neg SessionState.noConfusion]

end RuleGraph

def halvingRules : List (Rule Nat String) :=
  [{ descriptor := ⟨"halve", [.needed "part"], [], "half", .single⟩
     condition := fun _ => true
     action := fun b => do
       let part ← b.require "part"
       if part % 2 = 0 then return .single (part / 2) else .error (.rule "odd")
     report := fun _ => [] },
   { descriptor := ⟨"split", [.needed "number"], [], "part", .multiple⟩
     condition := fun _ => true
     action := fun b => return .multiple [b.root / 2, b.root - b.root / 2]
     report := fun _ => [] },
   { descriptor := ⟨"total", [.needed "half"], [], "total", .single⟩
     condition := fun _ => true
     action := fun b => return .single (b.root + 1)
     report := fun _ => [] }]

/-- Of 6 and 7, the parts of 13, only the first is halved. -/
theorem halvingRules_interruption :
    ∃ (g : RuleGraph Nat String) (s s' : Session Nat String),
      RuleGraph.register "number" halvingRules = .ok g ∧ s.Activated g 13 [] ∧
      s.call = (s', .error (.ruleExecution "halve" (.rule "odd"))) ∧
      s'.facts.facts = #[⟨"number", 13, none⟩, ⟨"part", 6, some 0⟩, ⟨"part", 7, some 0⟩,
        ⟨"half", 3, some 1⟩] ∧
      (∃ r ∈ g.rules, r.descriptor.name = "halve" ∧ ∃ anchor,
        Interruption g.rules [] ⟨"number", 13, none⟩ s.evaluations r anchor (.rule "odd")
          s'.facts) ∧
      s'.state = .processed ∧
      (∀ value vars, s'.activate value vars = .error (.illegalState "activate" .processed)) ∧
      s'.call = (s', .error (.illegalState "call" .processed)) ∧
      (∀ moves : List (Session.Move Nat), (∀ m ∈ moves, m ≠ .passivate) →
        moves.foldl Session.after s' = s') ∧
      s'.passivate.Same (.new g) := by
  have hrun : ((RuleGraph.register "number" halvingRules).toOption.bind fun g =>
      ((Session.new g).activate 13 []).toOption.map fun s =>
        (s.call.2, s.call.1.facts.facts)) =
      some (.error (.ruleExecution "halve" (.rule "odd")),
        #[⟨"number", 13, none⟩, ⟨"part", 6, some 0⟩, ⟨"part", 7, some 0⟩,
          ⟨"half", 3, some 1⟩]) := by decide +kernel
  obtain ⟨g, s, hregister, hactivated, hcall, hfacts⟩ := Session.exists_activated hrun
  exact ⟨g, s, s.call.1, hregister, hactivated, hcall, hfacts,
    RuleGraph.call_interruption hregister hactivated hcall⟩

end SlowRequest
