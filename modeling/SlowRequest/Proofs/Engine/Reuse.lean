import SlowRequest.Proofs.Engine.Derivation
/-!
# Sessions used again

A session carries nothing from one use to the next but the tags of its index, which hold no facts.
Whatever was done with it before, also a call that failed half way, an idle session does what a new
one does.
-/
namespace SlowRequest

variable {V E : Type}

theorem FactForest.grows_of_facts_eq {f g : FactForest V} (h : f.facts = g.facts) :
    FactForest.Grows (fun _ => False) f g :=
  ⟨[], by rw [h, List.append_nil], by simp⟩

private theorem FactForest.facts_insertAll_congr {f g : FactForest V} (h : f.facts = g.facts)
    (tag : Tag) (parent : FactId) (values : List V) :
    (f.insertAll tag parent values).facts = (g.insertAll tag parent values).facts := by
  apply Array.toList_inj.mp
  rw [toList_insertAll, toList_insertAll, h]

section Firing

variable {r : ScheduledRule V E} {rules : List (ScheduledRule V E)} {vars : Variables}
  {f g : FactForest V} {anchors : List FactId}

private theorem ScheduledRule.fireEach_congr (h : f.facts = g.facts)
    (hlt : ∀ a ∈ anchors, a < f.size) :
    (r.fireEach vars anchors f).1.facts = (r.fireEach vars anchors g).1.facts ∧
      (r.fireEach vars anchors f).2 = (r.fireEach vars anchors g).2 := by
  induction anchors generalizing f g with
  | nil => exact ⟨h, rfl⟩
  | cons anchor rest ih =>
    have hfire : r.fireAt vars g anchor = r.fireAt vars f anchor :=
      fireAt_of_grows (FactForest.grows_of_facts_eq h) (hlt anchor List.mem_cons_self) (by simp)
    rw [fireEach, fireEach, hfire]
    cases r.fireAt vars f anchor with
    | error e => exact ⟨h, rfl⟩
    | ok values =>
      apply ih (FactForest.facts_insertAll_congr h _ anchor values)
      intro a ha
      have hgrow := FactForest.grows_of_insertAll f r.descriptor.output anchor values
      exact (hlt a (List.mem_cons_of_mem _ ha)).trans_le hgrow.size_le

theorem FactForest.ids_congr (h : f.facts = g.facts) (tag : Tag) : f.ids tag = g.ids tag :=
  ((grows_of_facts_eq h).ids id).symm

private theorem fireAll_congr (h : f.facts = g.facts) :
    (fireAll vars rules f).1.facts = (fireAll vars rules g).1.facts ∧
      (fireAll vars rules f).2 = (fireAll vars rules g).2 := by
  induction rules generalizing f g with
  | nil => exact ⟨h, rfl⟩
  | cons r rules ih =>
    have hlt : ∀ a ∈ f.ids r.anchor, a < f.size := fun _ => FactForest.lt_size_of_mem_ids
    obtain ⟨hfacts, hfailure⟩ := @ScheduledRule.fireEach_congr V E r vars f g _ h hlt
    rw [fireAll, fireAll, ScheduledRule.fire, ScheduledRule.fire, ← FactForest.ids_congr h]
    generalize r.fireEach vars (f.ids r.anchor) f = first at hfacts hfailure ⊢
    generalize r.fireEach vars (f.ids r.anchor) g = second at hfacts hfailure ⊢
    obtain ⟨f', failure⟩ := first
    obtain ⟨g', failure'⟩ := second
    change failure = failure' at hfailure
    subst hfailure
    cases failure with
    | none => exact ih hfacts
    | some e => exact ⟨hfacts, rfl⟩

end Firing

namespace Session

/-- Sessions that differ at most in the tags that their indexes keep. -/
structure Same (s t : Session V E) : Prop where
  graph : s.graph = t.graph
  state : s.state = t.state
  facts : s.facts.facts = t.facts.facts
  vars : s.vars = t.vars

namespace Same

variable {s t : Session V E}

theorem activate (h : s.Same t) (hidle : t.state = .idle) (root : V) (vars : Variables) :
    ∃ a b, s.activate root vars = .ok a ∧ t.activate root vars = .ok b ∧ a.Same b := by
  rw [Session.activate, Session.activate, if_pos (h.state.trans hidle), if_pos hidle]
  refine ⟨_, _, rfl, rfl, h.graph, rfl, ?_, ?_⟩
  · change (s.facts.insert _ _ _).facts = (t.facts.insert _ _ _).facts
    rw [FactForest.facts_insert, FactForest.facts_insert, h.graph, h.facts]
  · change vars ++ s.vars = vars ++ t.vars
    rw [h.vars]

theorem call (h : s.Same t) : s.call.1.Same t.call.1 ∧ s.call.2 = t.call.2 := by
  obtain ⟨g, state, f, vars⟩ := s
  obtain ⟨g', state', f', vars'⟩ := t
  obtain ⟨rfl, rfl, hfacts, rfl⟩ := h
  change f.facts = f'.facts at hfacts
  obtain ⟨hfired, hfailure⟩ := @fireAll_congr V E g.rules vars f f' hfacts
  rw [Session.call, Session.call]
  split
  · refine ⟨⟨rfl, rfl, hfired, rfl⟩, ?_⟩
    dsimp only
    rw [hfailure, FactForest.size_eq_length, FactForest.size_eq_length, hfired]
  · exact ⟨⟨rfl, rfl, hfacts, rfl⟩, rfl⟩

theorem ids (h : s.Same t) (tag : Tag) : s.facts.ids tag = t.facts.ids tag :=
  FactForest.ids_congr h.facts tag

end Same

variable {g : RuleGraph V E} {s : Session V E}

theorem graph_call (s : Session V E) : s.call.1.graph = s.graph := by
  rw [call]
  split <;> rfl

theorem state_call_ne_idle (h : s.state ≠ .idle) : s.call.1.state ≠ .idle := by
  rw [call]
  split
  · exact SessionState.noConfusion
  · exact h

theorem passivate_same (h : s.graph = g) : s.passivate.Same (new g) := ⟨h, rfl, rfl, rfl⟩

inductive Move (V : Type) where
  | activate (root : V) (vars : Variables)
  | call
  | passivate

/-- The session after a move; one that is refused changes nothing. -/
def after (s : Session V E) : Move V → Session V E
  | .activate root vars => (s.activate root vars).toOption.getD s
  | .call => s.call.1
  | .passivate => s.passivate

/-- What holds of a session between moves: whenever it is idle, it is as good as new. -/
structure Clean (g : RuleGraph V E) (s : Session V E) : Prop where
  graph : s.graph = g
  rested : s.state = .idle → s.Same (new g)

theorem clean_new (g : RuleGraph V E) : Clean g (new g) :=
  ⟨rfl, fun _ => ⟨rfl, rfl, rfl, rfl⟩⟩

theorem Clean.after (h : Clean g s) (m : Move V) : Clean g (s.after m) := by
  cases m with
  | activate root vars =>
    rw [Session.after, activate]
    split
    · exact ⟨h.graph, SessionState.noConfusion⟩
    · exact h
  | call =>
    constructor
    · exact (graph_call s).trans h.graph
    · intro hidle
      by_cases hstate : s.state = .idle
      · have hrefused : s.call.1 = s := by
          rw [call, if_neg]
          rw [hstate]
          exact SessionState.noConfusion
        change s.call.1.Same _
        rw [hrefused]
        exact h.rested hstate
      · exact absurd hidle (state_call_ne_idle hstate)
  | passivate => exact ⟨h.graph, fun _ => passivate_same h.graph⟩

theorem Clean.run (h : Clean g s) (moves : List (Move V)) :
    Clean g (moves.foldl Session.after s) := by
  induction moves generalizing s with
  | nil => exact h
  | cons m moves ih => exact ih (h.after m)

/-- After any moves an idle session is empty and does what a new one does, and a move that the
state of the session does not allow is refused and changes nothing. -/
theorem reuse (g : RuleGraph V E) (moves : List (Move V)) :
    let s := moves.foldl after (new g)
    (s.state = .idle →
      s.facts.facts = #[] ∧ (∀ tag, s.facts.ids tag = []) ∧ s.vars = [] ∧
      ∀ root vars, ∃ a b, s.activate root vars = .ok a ∧ (new g).activate root vars = .ok b ∧
        a.call.2 = b.call.2 ∧ a.call.1.facts.facts = b.call.1.facts.facts ∧
        ∀ tag, a.call.1.facts.ids tag = b.call.1.facts.ids tag) ∧
    (s.state ≠ .idle → ∀ root vars,
      s.activate root vars = .error (.illegalState "activate" s.state) ∧
        s.after (.activate root vars) = s) ∧
    (s.state ≠ .activated → s.call = (s, .error (.illegalState "call" s.state))) := by
  intro s
  have hclean : Clean g s := (clean_new g).run moves
  refine ⟨?_, ?_, ?_⟩
  · intro hidle
    have hsame := hclean.rested hidle
    refine ⟨hsame.facts, hsame.ids, hsame.vars, ?_⟩
    intro root vars
    obtain ⟨a, b, ha, hb, hab⟩ := hsame.activate rfl root vars
    obtain ⟨hcalled, hresult⟩ := hab.call
    exact ⟨a, b, ha, hb, hresult, hcalled.facts, hcalled.ids⟩
  · intro hbusy root vars
    have hrefused : s.activate root vars = .error (.illegalState "activate" s.state) := by
      rw [activate, if_neg hbusy]
    refine ⟨hrefused, ?_⟩
    rw [after, hrefused]
    rfl
  · intro hbusy
    rw [call, if_neg hbusy]

end Session

end SlowRequest
