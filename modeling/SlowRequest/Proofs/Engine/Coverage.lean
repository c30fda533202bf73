import SlowRequest.Proofs.Engine.Depth
import SlowRequest.Proofs.Engine.Interruption
import SlowRequest.Proofs.Engine.Trail
/-!
# Which rules fire

Where every firing writes something, the graph alone decides which rules fire: those whose required
inputs lie on one line of producers up to the root. A rule whose inputs come about on different
lines only is skipped, whatever facts its inputs have.
-/
namespace SlowRequest

variable {V E : Type}

/-- With these inputs the rule fires and writes something, one value at most if it declares one. -/
structure ScheduledRule.Productive (r : ScheduledRule V E) (b : Binding V) : Prop where
  supplied : r.descriptor.Supplied b.vars
  condition : r.condition b = true
  output : ∃ out, r.action b = .ok out ∧ out.values ≠ [] ∧
    (r.descriptor.quantity = .single → out.values.length ≤ 1)

/-- The rule fired in this evaluation: its inputs were bound, its condition held, and it wrote what
its action gave. -/
def Evaluation.Fired (e : Evaluation V E) (vars : Variables) (f : FactForest V) : Prop :=
  ∃ b out, f.Binds e.rule.descriptor.inputs vars e.anchor b ∧ e.rule.condition b = true ∧
    e.rule.action b = .ok out ∧ e.values = out.values

def Session.Fires (s : Session V E) (r : ScheduledRule V E) : Prop :=
  ∃ e ∈ s.evaluations, e.rule = r ∧ e.Fired s.vars s.call.1.facts

/-- Tags that lead up to the root: each but the last is written by a rule whose anchor comes next
and whose required inputs all follow. -/
inductive RuleGraph.Line (g : RuleGraph V E) : List Tag → Prop where
  | root : Line g [g.rootTag]
  | next {r : ScheduledRule V E} {above : List Tag} (line : Line g (r.anchor :: above))
      (rule : r ∈ g.rules) (covered : r.descriptor.requiredInputs ⊆ r.anchor :: above) :
      Line g (r.descriptor.output :: r.anchor :: above)

namespace ScheduledRule

variable {r : ScheduledRule V E} {vars : Variables} {f : FactForest V} {a : FactId}

theorem Productive.fireAt {b : Binding V} (h : r.Productive b)
    (hbinds : f.Binds r.descriptor.inputs vars a b) :
    ∃ out, r.action b = .ok out ∧ out.values ≠ [] ∧ r.fireAt vars f a = .ok out.values := by
  obtain ⟨out, haction, hvalues, hsingle⟩ := h.output
  refine ⟨out, haction, hvalues, ?_⟩
  have hfew : ¬ (r.descriptor.quantity = .single ∧ 1 < out.values.length) := by
    rintro ⟨hquantity, hmany⟩
    exact Nat.not_lt.mpr (hsingle hquantity) hmany
  rw [ScheduledRule.fireAt, FactForest.bind?_of_binds hbinds]
  simp only [fireWith_of_supplied h.supplied, h.condition, haction, if_true, if_neg hfew]

private theorem fireAt_of_unbound (h : f.bind? r.descriptor.inputs vars a = none) :
    r.fireAt vars f a = .ok [] := by
  rw [ScheduledRule.fireAt, h]

end ScheduledRule

namespace RuleGraph.Line

variable {g : RuleGraph V E} {line above below : List Tag} {tag : Tag} {depth : Tag → Nat}

private theorem root_mem (h : g.Line line) : g.rootTag ∈ line := by
  induction h with
  | root => exact List.mem_cons_self
  | next _ _ _ ih => exact List.mem_cons_of_mem _ ih

private theorem from_tag (h : g.Line line) (hline : line = below ++ tag :: above) :
    g.Line (tag :: above) := by
  induction h generalizing below with
  | root =>
    cases below with
    | nil =>
      rw [List.nil_append] at hline
      exact hline ▸ .root
    | cons t below => simp at hline
  | next line rule covered ih =>
    cases below with
    | nil =>
      rw [List.nil_append] at hline
      exact hline ▸ .next line rule covered
    | cons t below => exact ih (List.cons.inj hline).2

private theorem pairwise (h : g.Line line)
    (hdeep : ∀ r ∈ g.rules, depth r.anchor < depth r.descriptor.output) :
    line.Pairwise fun t u => depth u < depth t := by
  induction h with
  | root => exact List.pairwise_singleton ..
  | @next r above _ rule _ ih =>
    apply List.Pairwise.cons ?_ ih
    intro t ht
    rcases List.mem_cons.mp ht with rfl | ht
    · exact hdeep r rule
    · exact ((List.pairwise_cons.mp ih).1 t ht).trans (hdeep r rule)

/-- A line with all inputs that a rule requires has them all from its anchor on: of the tags on the
line only those before the anchor lie deeper. -/
theorem from_anchor {r : ScheduledRule V E} (h : g.Line line) (hr : r ∈ g.rules)
    (hcovered : r.descriptor.requiredInputs ⊆ line)
    (hanchor : ∀ r ∈ g.rules, r.anchor = g.rootTag ∨ r.anchor ∈ r.descriptor.requiredInputs)
    (hdeep : ∀ r ∈ g.rules, depth r.anchor < depth r.descriptor.output ∧
      ∀ tag ∈ r.descriptor.requiredInputs, depth tag ≤ depth r.anchor) :
    ∃ above, g.Line (r.anchor :: above) ∧ r.descriptor.requiredInputs ⊆ r.anchor :: above := by
  have hmem : r.anchor ∈ line := by
    rcases hanchor r hr with hroot | hrequired
    · exact hroot ▸ h.root_mem
    · exact hcovered hrequired
  have hpairwise := h.pairwise fun r hr => (hdeep r hr).1
  obtain ⟨below, above, hsplit⟩ := List.append_of_mem hmem
  refine ⟨above, h.from_tag hsplit, ?_⟩
  intro tag htag
  have hline := hcovered htag
  rw [hsplit] at hline hpairwise
  rcases List.mem_append.mp hline with hbelow | habove
  · have hlt : depth r.anchor < depth tag :=
      (List.pairwise_append.mp hpairwise).2.2 tag hbelow r.anchor List.mem_cons_self
    exact absurd ((hdeep r hr).2 tag htag) (Nat.not_le.mpr hlt)
  · exact habove

end RuleGraph.Line

namespace Run

variable {g : RuleGraph V E} {vars : Variables} {value : V} {log : List (Evaluation V E)}
  {last : FactForest V} {root : Tag}

theorem failure_eq_none {rules : List (ScheduledRule V E)} {first : Fact V}
    {failure : Option (SessionError E)} (h : Run rules vars first log last failure)
    (horder : InOrder root rules)
    (hproductive : ∀ r ∈ rules, ∀ a ∈ last.ids r.anchor, ∀ b,
      last.Binds r.descriptor.inputs vars a b → r.Productive b) : failure = none := by
  cases h.reached horder with
  | finished _ => rfl
  | @failed r a cause later hfirst hfails =>
    exfalso
    have hmem : (r, a) ∈ firings rules last := by
      rw [hfirst]
      exact List.mem_append_right _ List.mem_cons_self
    obtain ⟨hr, ha⟩ := mem_firings.mp hmem
    cases hbind : last.bind? r.descriptor.inputs vars a with
    | none =>
      rw [ScheduledRule.fireAt_of_unbound hbind] at hfails
      cases hfails
    | some b =>
      have hbinds := FactForest.binds_of_bind? hbind
      obtain ⟨out, -, -, hfire⟩ := (hproductive r hr a ha b hbinds).fireAt hbinds
      rw [hfire] at hfails
      cases hfails

section Productive

variable (h : Run g.rules vars ⟨g.rootTag, value, none⟩ log last none)
  (horder : InOrder root g.rules)
  (hproductive : ∀ r ∈ g.rules, ∀ a ∈ last.ids r.anchor, ∀ b,
    last.Binds r.descriptor.inputs vars a b → r.Productive b)
include h horder hproductive

/-- A rule fires, and then writes something, at exactly the facts of its anchor whose lineage has
all the tags that it requires. -/
theorem fired_iff {e : Evaluation V E} (he : e ∈ log) :
    (e.Fired vars last ↔ e.rule.descriptor.requiredInputs ⊆ last.line e.anchor) ∧
      (e.values ≠ [] ↔ e.rule.descriptor.requiredInputs ⊆ last.line e.anchor) := by
  obtain ⟨hr, ha⟩ := h.mem_rules horder he
  have hfire := h.fireAt_eq horder e he
  rw [← @FactForest.bind?_isSome V last e.anchor e.rule.descriptor vars h.root?_isSome]
  cases hbind : last.bind? e.rule.descriptor.inputs vars e.anchor with
  | none =>
    rw [ScheduledRule.fireAt_of_unbound hbind] at hfire
    have hnone : ¬ e.Fired vars last := by
      rintro ⟨b, out, hbinds, -⟩
      rw [FactForest.bind?_of_binds hbinds] at hbind
      cases hbind
    exact ⟨iff_of_false hnone Bool.noConfusion,
      iff_of_false (fun hvalues => hvalues (Except.ok.inj hfire).symm) Bool.noConfusion⟩
  | some b =>
    have hbinds := FactForest.binds_of_bind? hbind
    have hrule := hproductive e.rule hr e.anchor ha b hbinds
    obtain ⟨out, haction, hvalues, hout⟩ := hrule.fireAt hbinds
    rw [hfire] at hout
    have hwritten : e.values = out.values := Except.ok.inj hout
    exact ⟨iff_of_true ⟨b, out, hbinds, hrule.condition, haction, hwritten⟩ rfl,
      iff_of_true (hwritten ▸ hvalues) rfl⟩

theorem line_of_lt {id : FactId} (hid : id < last.size) : g.Line (last.line id) := by
  have hold := h.older rfl
  induction id using Nat.strong_induction_on with
  | _ id ih =>
    obtain ⟨x, hx⟩ := FactForest.exists_of_lt_size hid
    rw [FactForest.line_eq hold hx]
    rcases h.get?_cases hx with ⟨-, rfl⟩ | ⟨e, he, hfact⟩
    · exact .root
    · obtain ⟨v, hv, rfl⟩ := List.mem_map.mp hfact
      obtain ⟨hr, ha⟩ := h.mem_rules horder he
      obtain ⟨y, hy, htag⟩ := FactForest.mem_ids.mp ha
      have hcovered := (h.fired_iff horder hproductive he).2.mp (List.ne_nil_of_mem hv)
      have hline := ih e.anchor (hold id _ e.anchor hx rfl) (FactForest.lt_size_of_get? hy)
      rw [FactForest.line_eq hold hy, htag] at hcovered hline
      rw [Option.elim_some, FactForest.line_eq hold hy, htag]
      exact .next hline hr hcovered

theorem exists_line {line : List Tag} (hline : g.Line line) :
    ∃ id < last.size, last.line id = line := by
  have hold := h.older rfl
  induction hline with
  | root => exact ⟨0, h.size_pos, FactForest.line_eq hold h.get?_zero⟩
  | @next r above _ hr hcovered ih =>
    obtain ⟨a, -, ha⟩ := ih
    have hmem : a ∈ last.ids r.anchor := (FactForest.mem_ids_iff_line hold).mpr (by rw [ha]; rfl)
    obtain ⟨e, he, rfl, rfl⟩ := h.exists_evaluation horder hr hmem
    rw [← ha] at hcovered ⊢
    have hvalues := (h.fired_iff horder hproductive he).2.mpr hcovered
    obtain ⟨v, hv⟩ := List.exists_mem_of_ne_nil _ hvalues
    obtain ⟨id, hid⟩ := h.exists_get? he (List.mem_map_of_mem hv)
    exact ⟨id, FactForest.lt_size_of_get? hid, FactForest.line_eq hold hid⟩

end Productive

end Run

namespace RuleGraph

variable {rules : List (Rule V E)} {root : Tag} {g : RuleGraph V E} {value : V}
  {vars : Variables} {s : Session V E}

/-- In a registered graph the anchor of a rule lies deepest of what the rule requires, and above
what it writes. -/
theorem exists_deepest (h : register root rules = .ok g) :
    ∃ depth : Tag → Nat, ∀ r ∈ g.rules, depth r.anchor < depth r.descriptor.output ∧
      ∀ tag ∈ r.descriptor.requiredInputs, depth tag ≤ depth r.anchor := by
  obtain ⟨depth, hdepth, -, hroot, hperm, hrules⟩ := exists_depth h
  refine ⟨depth, ?_⟩
  intro r hr
  rw [hrules] at hr
  obtain ⟨q, hq, rfl⟩ := List.mem_map.mp hr
  have hanchor := Descriptor.depth_deepest (d := q.descriptor) hroot
  constructor
  · rw [hanchor]
    exact hdepth.reach_lt (List.mem_map_of_mem (hperm.subset hq))
  · intro tag htag
    rw [hanchor]
    exact Descriptor.depth_le_reach htag

/-- Where every firing writes something, a call succeeds and fires the rules whose required inputs
all lie on the lineage of one fact, which are those whose required inputs all lie on one line of
the graph. -/
theorem call_fires_iff (hregister : register root rules = .ok g)
    (hactivated : s.Activated g value vars)
    (hproductive : ∀ r ∈ g.rules, ∀ a ∈ s.call.1.facts.ids r.anchor, ∀ b,
      s.call.1.facts.Binds r.descriptor.inputs vars a b → r.Productive b) :
    (∃ n, s.call.2 = .ok n) ∧
    ∀ r ∈ g.rules,
      (s.Fires r ↔ ∃ id < s.call.1.facts.size,
        r.descriptor.requiredInputs ⊆ s.call.1.facts.line id) ∧
      (s.Fires r ↔ ∃ line, g.Line line ∧ r.descriptor.requiredInputs ⊆ line) := by
  obtain ⟨hroot, -, horder⟩ := inOrder_of_register hregister
  obtain ⟨depth, hdeep⟩ := exists_deepest hregister
  have hanchor := horder.anchor
  rw [← hroot] at hanchor
  obtain ⟨f, -, hs⟩ := hactivated.exists_eq
  have hvars : s.vars = vars := by rw [hs]
  obtain ⟨last, failure, hrun, hcall⟩ := hactivated.call
  have hlast : s.call.1.facts = last := by rw [hcall]
  rw [hlast] at hproductive ⊢
  obtain rfl := hrun.failure_eq_none horder hproductive
  refine ⟨⟨last.size, by rw [hcall]⟩, ?_⟩
  intro r hr
  have hfires : s.Fires r ↔ ∃ a ∈ last.ids r.anchor,
      r.descriptor.requiredInputs ⊆ last.line a := by
    rw [Session.Fires, hvars, hlast]
    constructor
    · rintro ⟨e, he, rfl, hfired⟩
      exact ⟨e.anchor, (hrun.mem_rules horder he).2,
        (hrun.fired_iff horder hproductive he).1.mp hfired⟩
    · rintro ⟨a, ha, hcovered⟩
      obtain ⟨e, he, rfl, rfl⟩ := hrun.exists_evaluation horder hr ha
      exact ⟨e, he, rfl, (hrun.fired_iff horder hproductive he).1.mpr hcovered⟩
  have hline : s.Fires r ↔ ∃ line, g.Line line ∧ r.descriptor.requiredInputs ⊆ line := by
    rw [hfires]
    constructor
    · rintro ⟨a, ha, hcovered⟩
      exact ⟨_, hrun.line_of_lt horder hproductive (FactForest.lt_size_of_mem_ids ha), hcovered⟩
    · rintro ⟨line, hline, hcovered⟩
      obtain ⟨above, hline, hcovered⟩ := hline.from_anchor hr hcovered hanchor hdeep
      obtain ⟨a, -, ha⟩ := hrun.exists_line horder hproductive hline
      have hmem : a ∈ last.ids r.anchor :=
        (FactForest.mem_ids_iff_line (hrun.older rfl)).mpr (by rw [ha]; rfl)
      exact ⟨a, hmem, ha ▸ hcovered⟩
  refine ⟨?_, hline⟩
  rw [hline]
  constructor
  · rintro ⟨line, hline, hcovered⟩
    obtain ⟨id, hid, rfl⟩ := hrun.exists_line horder hproductive hline
    exact ⟨id, hid, hcovered⟩
  · rintro ⟨id, hid, hcovered⟩
    exact ⟨_, hrun.line_of_lt horder hproductive hid, hcovered⟩

end RuleGraph

def summing (name : String) (inputs : List Tag) (n : Nat) : Rule Nat String where
  descriptor := ⟨name, inputs.map .needed, [], name, .single⟩
  condition _ := true
  action b := .ok (.single (b.inputs.foldl (fun sum entry => sum + entry.2.getD 0) n))
  report _ := []

/-- Two rules read the root and a third one what both of them write. -/
def diamondRules : List (Rule Nat String) :=
  [summing "left" ["root"] 1, summing "right" ["root"] 2, summing "join" ["left", "right"] 0]

private theorem diamondRules_productive {g : RuleGraph Nat String}
    (h : RuleGraph.register "root" diamondRules = .ok g) :
    ∀ r ∈ g.rules, ∀ b, r.Productive b := by
  intro r hr b
  obtain ⟨-, hperm, -⟩ := RuleGraph.inOrder_of_register h
  have hmem : r.toRule ∈ diamondRules := hperm.subset (List.mem_map_of_mem hr)
  obtain ⟨name, inputs, n, hrule⟩ : ∃ name inputs n, r.toRule = summing name inputs n := by
    simp only [diamondRules, List.mem_cons, List.not_mem_nil, or_false] at hmem
    rcases hmem with hmem | hmem | hmem
    · exact ⟨_, _, _, hmem⟩
    · exact ⟨_, _, _, hmem⟩
    · exact ⟨_, _, _, hmem⟩
  constructor
  · rw [hrule]
    simp [Descriptor.Supplied, summing]
  · rw [hrule]
    rfl
  · rw [hrule]
    exact ⟨_, rfl, List.cons_ne_nil _ _, fun _ => Nat.le_refl 1⟩

/-- Both tags that the third rule requires have facts, and it never fires. -/
theorem diamondRules_skip :
    ∃ (g : RuleGraph Nat String) (s s' : Session Nat String),
      RuleGraph.register "root" diamondRules = .ok g ∧ s.Activated g 3 [] ∧
      s.call = (s', .ok 3) ∧
      s'.facts.facts = #[⟨"root", 3, none⟩, ⟨"left", 4, some 0⟩, ⟨"right", 5, some 0⟩] ∧
      (∀ r ∈ g.rules, ∀ b, r.Productive b) ∧
      ∃ r ∈ g.rules, (∀ tag ∈ r.descriptor.requiredInputs, s'.facts.ids tag ≠ []) ∧
        ¬ s.Fires r := by
  have hrun : ((RuleGraph.register "root" diamondRules).toOption.bind fun g =>
      ((Session.new g).activate 3 []).toOption.map fun s => (s.call.2, s.call.1.facts.facts)) =
      some (.ok 3, #[⟨"root", 3, none⟩, ⟨"left", 4, some 0⟩, ⟨"right", 5, some 0⟩]) := by
    decide +kernel
  obtain ⟨g, s, hregister, hactivated, hcall, hfacts⟩ := Session.exists_activated hrun
  have hproductive := diamondRules_productive hregister
  have hget : ∀ id, s.call.1.facts.get? id = #[(⟨"root", 3, none⟩ : Fact Nat),
      ⟨"left", 4, some 0⟩, ⟨"right", 5, some 0⟩][id]? := by
    intro id
    rw [FactForest.get?_eq_getElem?, hfacts, Array.getElem?_toList]
  obtain ⟨-, hperm, -⟩ := RuleGraph.inOrder_of_register hregister
  have hmem : summing "join" ["left", "right"] 0 ∈ g.rules.map (·.toRule) :=
    hperm.symm.subset (by simp [diamondRules])
  obtain ⟨r, hr, hjoin⟩ := List.mem_map.mp hmem
  refine ⟨g, s, s.call.1, hregister, hactivated, hcall, hfacts, hproductive, r, hr, ?_, ?_⟩
  · intro tag htag
    rw [hjoin] at htag
    rcases List.mem_pair.mp htag with rfl | rfl
    · exact List.ne_nil_of_mem (FactForest.mem_ids.mpr ⟨_, hget 1, rfl⟩)
    · exact List.ne_nil_of_mem (FactForest.mem_ids.mpr ⟨_, hget 2, rfl⟩)
  · -- A firing would have written a fact of a tag that the session does not have.
    rintro ⟨e, he, rfl, b, out, -, -, haction, hvalues⟩
    obtain ⟨out', haction', hwritten, -⟩ := (hproductive e.rule hr b).output
    rw [haction, Except.ok.injEq] at haction'
    rw [← haction', ← hvalues] at hwritten
    obtain ⟨v, hv⟩ := List.exists_mem_of_ne_nil _ hwritten
    obtain ⟨id, hid⟩ := (hactivated.call_ok hcall).exists_get? he (List.mem_map_of_mem hv)
    have hfact := List.mem_of_getElem? ((FactForest.get?_eq_getElem? _ id).symm.trans hid)
    rw [hjoin, hfacts] at hfact
    simp [summing] at hfact

theorem diamondRules_fires :
    ∃ (g : RuleGraph Nat String) (s : Session Nat String),
      RuleGraph.register "root" diamondRules = .ok g ∧ s.Activated g 3 [] ∧
      (∃ n, s.call.2 = .ok n) ∧
      ∀ r ∈ g.rules,
        (s.Fires r ↔ ∃ id < s.call.1.facts.size,
          r.descriptor.requiredInputs ⊆ s.call.1.facts.line id) ∧
        (s.Fires r ↔ ∃ line, g.Line line ∧ r.descriptor.requiredInputs ⊆ line) := by
  have hrun : ((RuleGraph.register "root" diamondRules).toOption.bind fun g =>
      ((Session.new g).activate 3 []).toOption.map fun s => (s.call.2, s.call.1.facts.facts)) =
      some (.ok 3, #[⟨"root", 3, none⟩, ⟨"left", 4, some 0⟩, ⟨"right", 5, some 0⟩]) := by
    decide +kernel
  obtain ⟨g, s, hregister, hactivated, -, -⟩ := Session.exists_activated hrun
  exact ⟨g, s, hregister, hactivated, RuleGraph.call_fires_iff hregister hactivated
    fun r hr _ _ b _ => diamondRules_productive hregister r hr b⟩

end SlowRequest
