import SlowRequest.Proofs.Engine.Interruption
/-!
# Well-formed facts

Between any two moves of a session every fact stands at its place, and a walk from any of them
leads to ever older facts and ends at the root.
-/
namespace SlowRequest

variable {V E : Type}

namespace FactForest

variable {f f' : FactForest V} {g : RuleGraph V E} {r : ScheduledRule V E} {id a : FactId}
  {x : Fact V}

/-- The steps of a walk from `next` on, up to the one that cannot be taken. -/
inductive Ascends (f : FactForest V) : Option FactId → List FactId → Prop
  | stop {next : Option FactId} (ends : f.ascend next = none) : Ascends f next []
  | step {next rest : Option FactId} {fact : StoredFact V} {ids : List FactId}
      (climb : f.ascend next = some (fact, rest)) (others : Ascends f rest ids) :
      Ascends f next (fact.id :: ids)

/-- What a session keeps of its facts for later lookups and walks. -/
structure WellFormed (g : RuleGraph V E) (f : FactForest V) : Prop where
  numbered : ∀ id fact, f.stored? id = some fact → fact.id = id
  /-- The first fact and no other has the root tag, and it and no other has no parent. -/
  first : ∀ id fact, f.stored? id = some fact →
    (fact.tag = g.rootTag ↔ id = 0) ∧ (fact.parent = none ↔ id = 0)
  /-- The parent of any other fact is older, and has the tag at which a rule that writes such facts
  is anchored. -/
  derived : ∀ id fact, f.stored? id = some fact → id ≠ 0 →
    ∃ p parent, ∃ r ∈ g.rules, fact.parent = some p ∧ p < id ∧ f.stored? p = some parent ∧
      r.descriptor.output = fact.tag ∧ parent.tag = r.anchor
  tagged : ∀ tag, (f.ids tag).Pairwise (· < ·) ∧
    ∀ id, id ∈ f.ids tag ↔ ∃ fact, f.stored? id = some fact ∧ fact.tag = tag
  /-- Walks take their steps without a guard, and yet they end, at the root. -/
  lineages : ∀ id < f.size, f.Ascends (some id) (f.lineage id) ∧
    (f.lineage id).Pairwise (· > ·) ∧ (f.lineage id).getLast? = some 0

/-- Where a fact may stand: the root fact at the first position, and one that a rule writes behind
a fact of its anchor. -/
inductive Placed (g : RuleGraph V E) (f : FactForest V) : FactId → Fact V → Prop
  | first (value : V) : Placed g f 0 ⟨g.rootTag, value, none⟩
  | written {r : ScheduledRule V E} {id anchor : FactId} (value : V) (rule : r ∈ g.rules)
      (anchored : anchor ∈ f.ids r.anchor) (older : anchor < id) :
      Placed g f id ⟨r.descriptor.output, value, some anchor⟩

def AllPlaced (g : RuleGraph V E) (f : FactForest V) : Prop :=
  ∀ id x, f.get? id = some x → f.Placed g id x

theorem Placed.grows {new : Tag → Prop} (h : f.Placed g id x) (hgrow : f.Grows new f') :
    f'.Placed g id x := by
  cases h with
  | first value => exact .first value
  | written value rule anchored older => exact .written value rule (hgrow.mem_ids anchored) older

private theorem get?_of_empty (hsize : f.size = 0) (id : FactId) : f.get? id = none := by
  rw [← Option.not_isSome_iff_eq_none, get?_isSome_iff, hsize]
  exact Nat.not_lt_zero id

namespace AllPlaced

private theorem of_empty (hsize : f.size = 0) : f.AllPlaced g := by
  intro id x hx
  rw [get?_of_empty hsize] at hx
  cases hx

private theorem insert_root (hsize : f.size = 0) (value : V) :
    (f.insert g.rootTag value none).AllPlaced g := by
  intro id x hx
  rw [get?_insert] at hx
  split at hx
  · rename_i hid
    cases hx
    rw [hid, hsize]
    exact .first value
  · rw [get?_of_empty hsize] at hx
    cases hx

theorem insert (h : f.AllPlaced g) (hr : r ∈ g.rules) (ha : a ∈ f.ids r.anchor) (v : V) :
    (f.insert r.descriptor.output v (some a)).AllPlaced g := by
  have hgrow := grows_insert f r.descriptor.output v a
  intro id x hx
  rw [get?_insert] at hx
  split at hx
  · rename_i hid
    cases hx
    rw [hid]
    exact .written v hr (hgrow.mem_ids ha) (lt_size_of_mem_ids ha)
  · exact (h id x hx).grows hgrow

theorem insertAll (h : f.AllPlaced g) (hr : r ∈ g.rules) (ha : a ∈ f.ids r.anchor)
    (values : List V) : (f.insertAll r.descriptor.output a values).AllPlaced g := by
  induction values generalizing f with
  | nil => exact h
  | cons v vs ih =>
    have hgrow := grows_insert f r.descriptor.output v a
    exact ih (h.insert hr ha v) (hgrow.mem_ids ha)

variable {vars : Variables} {failure : Option (SessionError E)}

theorem fireEach {anchors : List FactId} (h : f.AllPlaced g) (hr : r ∈ g.rules)
    (hanchors : ∀ a ∈ anchors, a ∈ f.ids r.anchor)
    (hfire : r.fireEach vars anchors f = (f', failure)) : f'.AllPlaced g := by
  induction anchors generalizing f with
  | nil =>
    cases hfire
    exact h
  | cons anchor rest ih =>
    rcases ScheduledRule.fireEach_cons_cases hfire with ⟨_, -, rfl, -⟩ | ⟨values, -, hfire⟩
    · exact h
    · -- The facts still to be fired at keep their tag while others are written.
      have hgrow := grows_of_insertAll f r.descriptor.output anchor values
      apply ih (h.insertAll hr (hanchors anchor List.mem_cons_self) values) ?_ hfire
      intro a ha
      exact hgrow.mem_ids (hanchors a (List.mem_cons_of_mem _ ha))

theorem fireAll {rules : List (ScheduledRule V E)} (h : f.AllPlaced g)
    (hrules : ∀ r ∈ rules, r ∈ g.rules) (hfire : fireAll vars rules f = (f', failure)) :
    f'.AllPlaced g := by
  induction rules generalizing f with
  | nil =>
    cases hfire
    exact h
  | cons r rules ih =>
    have hr : r ∈ g.rules := hrules r List.mem_cons_self
    rcases fireAll_cons_cases hfire with ⟨_, hfired, -⟩ | ⟨_, hfired, hfire⟩
    · exact h.fireEach hr (fun _ => id) hfired
    · exact ih (h.fireEach hr (fun _ => id) hfired)
        (fun s hs => hrules s (List.mem_cons_of_mem _ hs)) hfire

end AllPlaced

private theorem Ascends.of_stored? {fact : StoredFact V} {ids : List FactId}
    (hfact : f.stored? id = some fact) (h : f.Ascends fact.parent ids) :
    f.Ascends (some id) (id :: ids) := by
  have hstep : f.ascend (some id) = some (fact, fact.parent) := by
    rw [ascend_some, hfact, Option.map_some]
  have hwalk := Ascends.step hstep h
  rwa [id_of_stored? hfact] at hwalk

theorem AllPlaced.lineage (h : f.AllPlaced g) (hid : id < f.size) :
    f.Ascends (some id) (f.lineage id) ∧ (f.lineage id).Pairwise (· > ·) ∧
      (f.lineage id).getLast? = some 0 := by
  induction id using Nat.strong_induction_on with
  | _ id ih =>
    obtain ⟨fact, hfact⟩ := exists_stored? hid
    have hwalk : ∀ ids, f.Ascends fact.parent ids → f.Ascends (some id) (id :: ids) :=
      fun _ => .of_stored? hfact
    have hplaced := h id fact.toFact (get?_of_stored? hfact)
    rw [lineage_eq (get?_of_stored? hfact)]
    generalize fact.toFact = x at hplaced hwalk ⊢
    cases hplaced with
    | first value => exact ⟨hwalk [] (.stop rfl), List.pairwise_singleton _ 0, rfl⟩
    | @written r _ anchor value _ anchored older =>
      obtain ⟨hrest, hfalls, hends⟩ := ih anchor older (lt_size_of_mem_ids anchored)
      -- The guard of the lineage never holds it up, so it is the walk without one.
      rw [Option.elim_some, if_pos older]
      refine ⟨hwalk _ hrest, List.pairwise_cons.mpr ⟨?_, hfalls⟩, ?_⟩
      · intro b hb
        exact (le_of_mem_lineage hb).trans_lt older
      · rw [List.getLast?_cons, hends, Option.getD_some]

theorem AllPlaced.wellFormed (h : f.AllPlaced g)
    (houtput : ∀ r ∈ g.rules, r.descriptor.output ≠ g.rootTag) : f.WellFormed g where
  numbered _ _ := id_of_stored?
  first id fact hfact := by
    have hplaced := h id fact.toFact (get?_of_stored? hfact)
    generalize fact.toFact = x at hplaced ⊢
    cases hplaced with
    | first value => simp
    | written value rule anchored older =>
      have hne : id ≠ 0 := Nat.ne_zero_of_lt older
      simp [hne, houtput _ rule]
  derived id fact hfact hne := by
    have hplaced := h id fact.toFact (get?_of_stored? hfact)
    generalize fact.toFact = x at hplaced ⊢
    cases hplaced with
    | first value => exact absurd rfl hne
    | @written r _ anchor value rule anchored older =>
      obtain ⟨x, hx, htag⟩ := mem_ids.mp anchored
      obtain ⟨parent, hparent, rfl⟩ := Option.map_eq_some_iff.mp hx
      exact ⟨anchor, parent, r, rule, rfl, older, hparent, rfl, htag⟩
  tagged tag := by
    refine ⟨?_, fun id => ?_⟩
    · rw [ids_eq]
      exact List.pairwise_lt_range.filter _
    · rw [mem_ids, get?]
      simp
  lineages _ := h.lineage

end FactForest

namespace Session

variable {g : RuleGraph V E} {s : Session V E}

/-- What moves keep: facts at their places, and the root fact while the session is in use. -/
structure Kept (g : RuleGraph V E) (s : Session V E) : Prop extends Clean g s where
  placed : s.facts.AllPlaced g
  roots : s.facts.ids g.rootTag = if s.state = .idle then [] else [0]

theorem Clean.empty (h : Clean g s) (hidle : s.state = .idle) : s.facts.size = 0 := by
  rw [FactForest.size_eq_length, (h.rested hidle).facts]
  rfl

private theorem Kept.of_empty (h : Clean g s) (hidle : s.state = .idle) : Kept g s where
  toClean := h
  placed := .of_empty (h.empty hidle)
  roots := by
    rw [if_pos hidle, (h.rested hidle).ids]
    rfl

theorem Kept.activate {s' : Session V E} {root : V} {vars : Variables} (h : Kept g s)
    (hclean : Clean g s') (hactivate : s.activate root vars = .ok s') : Kept g s' := by
  rw [Session.activate] at hactivate
  split at hactivate
  · rename_i hidle
    have hsize := h.empty hidle
    cases hactivate
    refine ⟨hclean, ?_, ?_⟩
    · rw [h.graph]
      exact .insert_root hsize root
    · rw [FactForest.ids_insert, h.roots, if_pos hidle, h.graph, if_pos rfl, hsize]
      rfl
  · cases hactivate

theorem Kept.call (h : Kept g s) (hclean : Clean g s.call.1)
    (houtput : ∀ r ∈ g.rules, r.descriptor.output ≠ g.rootTag) : Kept g s.call.1 := by
  by_cases hstate : s.state = .activated
  · have hrules : s.graph.rules = g.rules := congrArg RuleGraph.rules h.graph
    have hroots : s.facts.ids g.rootTag = [0] := by
      rw [h.roots, hstate]
      rfl
    rw [Session.call, if_pos hstate, hrules] at hclean ⊢
    generalize hfire : fireAll s.vars g.rules s.facts = result at hclean ⊢
    obtain ⟨F, failure⟩ := result
    have hgrow := grows_fireAll (fun tag => tag ≠ g.rootTag) houtput hfire
    refine ⟨hclean, h.placed.fireAll (fun _ => id) hfire, ?_⟩
    exact (hgrow.ids fun hne => hne rfl).trans hroots
  · rwa [Session.call, if_neg hstate]

theorem Kept.after (houtput : ∀ r ∈ g.rules, r.descriptor.output ≠ g.rootTag) (h : Kept g s)
    (m : Move V) : Kept g (s.after m) := by
  have hclean := h.toClean.after m
  cases m with
  | activate root vars =>
    rw [Session.after] at hclean ⊢
    cases hactivate : s.activate root vars with
    | error e => exact h
    | ok s' =>
      rw [hactivate] at hclean
      exact h.activate hclean hactivate
  | call => exact h.call hclean houtput
  | passivate => exact .of_empty hclean rfl

theorem Kept.run (houtput : ∀ r ∈ g.rules, r.descriptor.output ≠ g.rootTag) (h : Kept g s)
    (moves : List (Move V)) : Kept g (moves.foldl Session.after s) := by
  induction moves generalizing s with
  | nil => exact h
  | cons m moves ih => exact ih (h.after houtput m)

end Session

/-- After any moves of a session, whether its calls succeed or fail, its facts are well formed, and
while it is in use they have exactly one root. -/
theorem RuleGraph.wellFormed_after {rules : List (Rule V E)} {root : Tag} {g : RuleGraph V E}
    (hregister : register root rules = .ok g) (moves : List (Session.Move V)) :
    let s := moves.foldl Session.after (Session.new g)
    s.facts.WellFormed g ∧ s.facts.ids g.rootTag = if s.state = .idle then [] else [0] := by
  obtain ⟨hroot, -, horder⟩ := inOrder_of_register hregister
  have houtput : ∀ r ∈ g.rules, r.descriptor.output ≠ g.rootTag := by
    rw [hroot]
    exact horder.output_ne
  have hkept := (Session.Kept.of_empty (Session.clean_new g) rfl).run houtput moves
  exact ⟨hkept.placed.wellFormed houtput, hkept.roots⟩

/-- The first call succeeds, and the second one stops at an odd part. -/
theorem halvingRules_wellFormed :
    ∃ g s, RuleGraph.register "number" halvingRules = .ok g ∧
      [.activate 12 [], .call, .passivate, .activate 13 [], .call].foldl Session.after
        (Session.new g) = s ∧
      s.facts.stored = #[⟨⟨"number", 13, none⟩, 0⟩, ⟨⟨"part", 6, some 0⟩, 1⟩,
        ⟨⟨"part", 7, some 0⟩, 2⟩, ⟨⟨"half", 3, some 1⟩, 3⟩] ∧
      s.facts.lineage 3 = [3, 1, 0] ∧ s.state = .processed ∧
      s.facts.WellFormed g ∧ s.facts.ids g.rootTag = if s.state = .idle then [] else [0] := by
  have hrun : (RuleGraph.register "number" halvingRules).toOption.map (fun g =>
      let s := [.activate 12 [], .call, .passivate, .activate 13 [], .call].foldl Session.after
        (Session.new g)
      (s.facts.stored, s.facts.lineage 3, s.state)) =
      some (#[⟨⟨"number", 13, none⟩, 0⟩, ⟨⟨"part", 6, some 0⟩, 1⟩, ⟨⟨"part", 7, some 0⟩, 2⟩,
        ⟨⟨"half", 3, some 1⟩, 3⟩], [3, 1, 0], .processed) := by decide +kernel
  obtain ⟨g, hg, hfacts⟩ := Option.map_eq_some_iff.mp hrun
  obtain ⟨hstored, hlineage, hstate⟩ := by simpa only [Prod.mk.injEq] using hfacts
  have hregister := Except.eq_ok_of_toOption hg
  exact ⟨g, _, hregister, rfl, hstored, hlineage, hstate, RuleGraph.wellFormed_after hregister _⟩

end SlowRequest
