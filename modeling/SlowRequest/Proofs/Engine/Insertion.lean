import SlowRequest.Proofs.Engine.Coverage
import SlowRequest.Proofs.Engine.Thinning
/-!
# One more rule

A rule that writes a tag of its own, which nothing reads or writes beside it, disturbs nothing. The
other rules are scheduled as before with the same anchors, and a call that succeeds with the rule
also succeeds without it, leaving the same facts but for those of its tag.
-/
namespace SlowRequest

variable {V E : Type}

/-- Positions in a list once there is one more element at `k`. -/
def skip (k i : Nat) : Nat := if i < k then i else i + 1

private theorem skip_injective (k : Nat) : Function.Injective (skip k) := by
  intro i j hij
  rw [skip, skip] at hij
  split at hij <;> split at hij <;> omega

private theorem getElem?_skip {α : Type} (before after : List α) (x : α) (i : Nat) :
    (before ++ x :: after)[skip before.length i]? = (before ++ after)[i]? := by
  rw [skip]
  by_cases hi : i < before.length
  · rw [if_pos hi, List.getElem?_append_left hi, List.getElem?_append_left hi]
  · have hle := Nat.not_lt.mp hi
    rw [if_neg hi, List.getElem?_append_right (by omega), List.getElem?_append_right hle,
      Nat.succ_sub hle, List.getElem?_cons_succ]

private theorem filter_range_skip (k m : Nat) :
    (List.range (k + (m + 1))).filter (· != k) = (List.range (k + m)).map (skip k) := by
  have hbefore : (List.range k).filter (· != k) = (List.range k).map (skip k) := by
    rw [List.filter_eq_self.mpr]
    · symm
      rw [List.map_congr_left (g := id), List.map_id]
      intro i hi
      exact if_pos (List.mem_range.mp hi)
    · intro i hi
      simpa using (List.mem_range.mp hi).ne
  rw [List.range_add, List.range_succ_eq_map, List.range_add, List.filter_append, List.map_append,
    hbefore, List.map_cons, List.filter_cons_of_neg (by simp)]
  congr 1
  rw [List.filter_eq_self.mpr (by simp), List.map_map, List.map_map]
  apply List.map_congr_left
  intro i _
  rw [Function.comp_apply, Function.comp_apply, skip, if_neg (by omega)]
  rfl

private theorem find?_filter_of_find? {α : Type} {P Q : α → Bool} {xs : List α} {x : α}
    (h : xs.find? Q = some x) (hP : P x = true) : (xs.filter P).find? Q = some x := by
  obtain ⟨hQ, earlier, later, rfl, hearlier⟩ := List.find?_eq_some_iff_append.mp h
  rw [List.filter_append, List.filter_cons_of_pos hP]
  refine List.find?_eq_some_iff_append.mpr ⟨hQ, _, _, rfl, ?_⟩
  intro y hy
  exact hearlier y (List.mem_filter.mp hy).1

section Scheduling

variable {ds ds' : List Descriptor} {k : Nat}

private theorem feeds_skip (hget : ∀ i, ds'[skip k i]? = ds[i]?) (j i : Nat) :
    feeds ds' (skip k j) (skip k i) = feeds ds j i := by
  rw [feeds, feeds, hget, hget]

private theorem feeds_new {d : Descriptor} (hget : ∀ i, ds'[skip k i]? = ds[i]?)
    (hnew : ds'[k]? = some d)
    (hunread : ∀ e ∈ ds, e.reads d.output = false) (i : Nat) : feeds ds' k (skip k i) = false := by
  rw [feeds, hnew, hget]
  cases he : ds[i]? with
  | none => rfl
  | some e => exact hunread e (List.mem_of_getElem? he)

section Skipping

variable {taken waiting taken' waiting' : List Nat}
  (hfeeds : ∀ j i, feeds ds' (skip k j) (skip k i) = feeds ds j i)
  (hfree : ∀ i, feeds ds' k (skip k i) = false)
include hfeeds hfree

private theorem find?_skip (hwaiting : waiting'.filter (· != k) = waiting.map (skip k)) :
    (waiting'.filter (· != k)).find? (fun i => !waiting'.any fun j => feeds ds' j i) =
      (waiting.find? fun i => !waiting.any fun j => feeds ds j i).map (skip k) := by
  have hfed : ∀ i, (waiting'.any fun j => feeds ds' j (skip k i)) =
      waiting.any fun j => feeds ds j i := by
    intro i
    have hothers : (waiting'.any fun j => feeds ds' j (skip k i)) =
        (waiting'.filter (· != k)).any fun j => feeds ds' j (skip k i) := by
      rw [List.any_filter]
      congr 1
      funext j
      by_cases hj : j = k
      · rw [hj, hfree, Bool.and_false]
      · simp [hj]
    rw [hothers, hwaiting, List.any_map]
    simp only [Function.comp_def, hfeeds]
  rw [hwaiting, List.find?_map]
  simp only [Function.comp_def, hfed]

/-- A position that feeds no other is taken at some point, and else all are taken as without it. -/
theorem schedule_skip (htaken : taken'.filter (· != k) = taken.map (skip k))
    (hwaiting : waiting'.filter (· != k) = waiting.map (skip k)) :
    (schedule ds' taken' waiting').1.filter (· != k) =
      (schedule ds taken waiting).1.map (skip k) := by
  induction taken', waiting' using schedule.induct ds' generalizing taken waiting with
  | case1 taken' waiting' hnone =>
    have hstuck : (waiting.find? fun i => !waiting.any fun j => feeds ds j i) = none := by
      rw [← Option.map_eq_none_iff, ← find?_skip hfeeds hfree hwaiting, List.find?_eq_none]
      intro i hi
      exact List.find?_eq_none.mp hnone i (List.mem_filter.mp hi).1
    rw [schedule_of_none hnone, schedule_of_none hstuck]
    exact htaken
  | case2 taken' waiting' i' hi' ih =>
    rw [schedule_of_some hi']
    by_cases hk : i' = k
    · subst hk
      apply ih
      · rw [List.filter_append, htaken, List.filter_cons_of_neg (by simp), List.filter_nil,
          List.append_nil]
      · rw [← List.erase_filter, List.erase_of_not_mem (by simp), hwaiting]
    · have hfirst := find?_filter_of_find? hi' (P := (· != k)) (by simpa using hk)
      rw [find?_skip hfeeds hfree hwaiting] at hfirst
      obtain ⟨i, hi, rfl⟩ := Option.map_eq_some_iff.mp hfirst
      rw [schedule_of_some hi]
      apply ih
      · rw [List.filter_append, htaken, List.map_append,
          List.filter_cons_of_pos (by simpa using hk)]
        rfl
      · rw [← List.erase_filter, hwaiting, List.map_erase (skip_injective k)]

end Skipping

end Scheduling

/-- Depths do not change with a rule whose tag nothing else reads or writes. -/
theorem IsDepth.remove {before after : List Descriptor} {d : Descriptor} {depth : Tag → Nat}
    (h : IsDepth (before ++ d :: after) depth)
    (hunread : ∀ e ∈ before ++ after, e.reads d.output = false)
    (hunwritten : ∀ e ∈ before ++ after, e.output ≠ d.output) :
    IsDepth (before ++ after) fun tag => if tag = d.output then 0 else depth tag := by
  intro tag
  dsimp only
  by_cases htag : tag = d.output
  · have hnone : (before ++ after).filter (·.output = tag) = [] := by
      apply List.filter_eq_nil_iff.mpr
      intro e he heq
      exact hunwritten e he ((of_decide_eq_true heq).trans htag)
    rw [if_pos htag, hnone]
    rfl
  · have hwriters : (before ++ d :: after).filter (·.output = tag) =
        (before ++ after).filter (·.output = tag) := by
      rw [List.filter_append, List.filter_append, List.filter_cons_of_neg]
      simpa using Ne.symm htag
    rw [if_neg htag, h tag, hwriters]
    congr 1
    apply List.map_congr_left
    intro e he
    rw [Descriptor.reach_congr]
    intro input hinput
    symm
    apply if_neg
    rintro rfl
    have hreads := Descriptor.reads_of_required hinput
    rw [hunread e (List.mem_filter.mp he).1] at hreads
    cases hreads

private theorem InOrder.anchor_ne {root tag : Tag} {rules : List (ScheduledRule V E)}
    {r : ScheduledRule V E} (h : InOrder root rules) (hr : r ∈ rules)
    (hreads : r.descriptor.reads tag = false) (htag : tag ≠ root) : r.anchor ≠ tag := by
  rintro rfl
  rcases h.anchor r hr with hroot | hrequired
  · exact htag hroot
  · rw [Descriptor.reads_of_required hrequired] at hreads
    cases hreads

namespace RuleGraph

variable {before after : List (Rule V E)} {extra : Rule V E} {root : Tag} {g g' : RuleGraph V E}

private theorem ordered_insert (h : register root (before ++ extra :: after) = .ok g')
    (hunread : ∀ r ∈ before ++ after, r.descriptor.reads extra.descriptor.output = false) :
    ∃ first later, ordered (before ++ after) = first ++ later ∧
      ordered (before ++ extra :: after) = first ++ extra :: later := by
  obtain ⟨-, -, order, hs, -⟩ := register_eq_ok h
  obtain ⟨rest, hrest, hscheduled⟩ := schedule_spec hs
  have hperm := hscheduled.perm
  rw [List.append_nil, ← hrest.trans (List.nil_append rest)] at hperm
  have hnew : (before ++ extra :: after)[before.length]? = some extra := by
    rw [List.getElem?_append_right (Nat.le_refl _), Nat.sub_self, List.getElem?_cons_zero]
  have hget : ∀ i, ((before ++ extra :: after).map Rule.descriptor)[skip before.length i]? =
      ((before ++ after).map Rule.descriptor)[i]? := by
    intro i
    rw [List.getElem?_map, List.getElem?_map, getElem?_skip]
  have hmem : before.length ∈ order := hperm.symm.subset (by simp)
  obtain ⟨xs, ys, rfl⟩ := List.append_of_mem hmem
  have hnodup := hperm.nodup_iff.mpr List.nodup_range
  have hothers : (xs ++ before.length :: ys).filter (· != before.length) = xs ++ ys := by
    rw [← hnodup.erase_eq_filter, List.erase_append_right, List.erase_cons_head]
    exact fun hxs => List.disjoint_of_nodup_append hnodup hxs List.mem_cons_self
  have hfree :=
    feeds_new hget (by rw [List.getElem?_map, hnew]; rfl) (List.forall_mem_map.mpr hunread)
  have hwaiting : (List.range ((before ++ extra :: after).map Rule.descriptor).length).filter
      (· != before.length) =
        (List.range ((before ++ after).map Rule.descriptor).length).map (skip before.length) := by
    rw [List.length_map, List.length_map, List.length_append, List.length_append]
    exact filter_range_skip before.length after.length
  have hkept := @schedule_skip _ _ _ [] _ [] _ (feeds_skip hget) hfree rfl hwaiting
  rw [hs, hothers] at hkept
  obtain ⟨xs, ys, hsplit, rfl, rfl⟩ := List.map_eq_append_iff.mp hkept.symm
  have hshift : ∀ zs : List Nat, ((zs.map (skip before.length)).filterMap
      fun i => (before ++ extra :: after)[i]?) = zs.filterMap fun i => (before ++ after)[i]? := by
    intro zs
    rw [List.filterMap_map]
    apply List.filterMap_congr
    intro i _
    exact getElem?_skip before after extra i
  refine ⟨xs.filterMap fun i => (before ++ after)[i]?, ys.filterMap fun i => (before ++ after)[i]?,
    ?_, ?_⟩
  · rw [ordered, hsplit, List.filterMap_append]
  · rw [ordered, hs, List.filterMap_append, List.filterMap_cons, hnew, hshift, hshift]

private theorem rules_insert (hg : register root (before ++ after) = .ok g)
    (hg' : register root (before ++ extra :: after) = .ok g')
    (hunread : ∀ r ∈ before ++ after, r.descriptor.reads extra.descriptor.output = false)
    (hunwritten : ∀ r ∈ before ++ after, r.descriptor.output ≠ extra.descriptor.output) :
    ∃ first later anchor, g.rules = first ++ later ∧
      g'.rules = first ++ ⟨extra, anchor⟩ :: later := by
  obtain ⟨depth, -, hunique, -, hperm, hrules⟩ := exists_depth hg
  obtain ⟨depth', hdepth', -, -, -, hrules'⟩ := exists_depth hg'
  obtain ⟨first, later, hordered, hordered'⟩ := ordered_insert hg' hunread
  have hreads : ∀ e ∈ (before ++ after).map Rule.descriptor,
      e.reads extra.descriptor.output = false := List.forall_mem_map.mpr hunread
  have hwrites : ∀ e ∈ (before ++ after).map Rule.descriptor,
      e.output ≠ extra.descriptor.output := List.forall_mem_map.mpr hunwritten
  rw [List.map_append] at hreads hwrites hunique
  rw [List.map_append, List.map_cons] at hdepth'
  have hsame := hunique _ (hdepth'.remove hreads hwrites)
  have hanchors : ∀ rs : List (Rule V E), (∀ r ∈ rs, r ∈ first ++ later) →
      rs.map (fun r => (⟨r, (r.descriptor.deepest root depth').1⟩ : ScheduledRule V E)) =
        rs.map fun r => ⟨r, (r.descriptor.deepest root depth).1⟩ := by
    intro rs hrs
    apply List.map_congr_left
    intro r hr
    rw [Descriptor.deepest_congr]
    intro tag htag
    rw [← hsame]
    symm
    apply if_neg
    rintro rfl
    have hread := Descriptor.reads_of_required htag
    rw [hunread r (hperm.subset (hordered ▸ hrs r hr))] at hread
    cases hread
  refine ⟨first.map fun r => ⟨r, (r.descriptor.deepest root depth).1⟩,
    later.map fun r => ⟨r, (r.descriptor.deepest root depth).1⟩,
    (extra.descriptor.deepest root depth').1, ?_, ?_⟩
  · rw [hrules, hordered, List.map_append]
  · rw [hrules', hordered', List.map_append, List.map_cons,
      hanchors first fun _ => List.mem_append_left _,
      hanchors later fun _ => List.mem_append_right _]

variable {value : V} {vars : Variables} {s s' : Session V E} {n : Nat}

/-- Whatever registered rules are extended, at any place of their list, by a rule whose tag they
neither read nor write: where a call succeeds with that rule it succeeds without it, and leaves the
same facts in the same order but for those of the tag, which are the parents of none. -/
theorem call_insert
    (hunread : ∀ r ∈ before ++ after, r.descriptor.reads extra.descriptor.output = false)
    (hunwritten : ∀ r ∈ before ++ after, r.descriptor.output ≠ extra.descriptor.output)
    (hg : register root (before ++ after) = .ok g)
    (hg' : register root (before ++ extra :: after) = .ok g')
    (hs : s.Activated g value vars) (hs' : s'.Activated g' value vars)
    (hcall : s'.call.2 = .ok n) :
    (∃ m, s.call.2 = .ok m) ∧
    s.call.1.facts.facts.toList = s'.call.1.facts.without extra.descriptor.output ∧
    ∀ id x p, s'.call.1.facts.get? id = some x → x.parent = some p →
      p ∉ s'.call.1.facts.ids extra.descriptor.output := by
  obtain ⟨hroot, hperm, horder⟩ := inOrder_of_register hg
  obtain ⟨hroot', -, horder'⟩ := inOrder_of_register hg'
  obtain ⟨first, later, anchor, hrules, hrules'⟩ := rules_insert hg hg' hunread hunwritten
  have hextra : (⟨extra, anchor⟩ : ScheduledRule V E) ∈ g'.rules := by
    rw [hrules']
    exact List.mem_append_right _ List.mem_cons_self
  have hnew : extra.descriptor.output ≠ root := horder'.output_ne _ hextra
  have hanchor : anchor ≠ extra.descriptor.output :=
    horder'.anchor_ne hextra (horder'.own _ hextra) hnew
  have hapart : ∀ r ∈ first ++ later, r.Apart extra.descriptor.output := by
    intro r hr
    rw [← hrules] at hr
    have hmem : r.toRule ∈ before ++ after := hperm.subset (List.mem_map_of_mem hr)
    exact ⟨hunread _ hmem, hunwritten _ hmem, horder.anchor_ne hr (hunread _ hmem) hnew⟩
  obtain ⟨f, hf, rfl⟩ := hs.exists_eq
  obtain ⟨F', failure, hrun, hcall'⟩ := hs'.call
  obtain rfl : failure = none := by
    rw [hcall'] at hcall
    cases failure with
    | none => rfl
    | some e => cases hcall
  obtain ⟨f', hf', hfire, -⟩ := hrun.started
  rw [hroot'] at hf'
  rw [hroot] at hf
  have hstart : FactForest.Thins extra.descriptor.output f' f :=
    FactForest.thins_of_root hf' hf rfl hnew.symm
  rw [hrules'] at hfire
  obtain ⟨F, hsucceeds, h⟩ := fireAll_dropped hapart hanchor hstart hfire
  rw [← hrules] at hsucceeds
  rw [Session.call, if_pos rfl, hsucceeds, hcall']
  exact ⟨⟨F.size, rfl⟩, h.facts, fun id x p hx hp => (h.parents id x p hx hp).not_mem_ids⟩

end RuleGraph

/-- Between two rules of a chain a third one takes a note, and the numbers of the later facts go
up by one. -/
theorem summing_insert :
    ∃ (g g' : RuleGraph Nat String) (s s' : Session Nat String),
      RuleGraph.register "root"
        ([summing "left" ["root"] 1] ++ [summing "right" ["left"] 2, summing "twice" ["right"] 0]) =
          .ok g ∧
      RuleGraph.register "root"
        ([summing "left" ["root"] 1] ++ summing "note" ["left"] 5 ::
          [summing "right" ["left"] 2, summing "twice" ["right"] 0]) = .ok g' ∧
      s.Activated g 3 [] ∧ s'.Activated g' 3 [] ∧
      s.call.1.facts.facts = #[⟨"root", 3, none⟩, ⟨"left", 4, some 0⟩, ⟨"right", 6, some 1⟩,
        ⟨"twice", 6, some 2⟩] ∧
      s'.call.1.facts.facts = #[⟨"root", 3, none⟩, ⟨"left", 4, some 0⟩, ⟨"note", 9, some 1⟩,
        ⟨"right", 6, some 1⟩, ⟨"twice", 6, some 3⟩] ∧
      (∃ m, s.call.2 = .ok m) ∧
      s.call.1.facts.facts.toList = s'.call.1.facts.without "note" ∧
      ∀ id x p, s'.call.1.facts.get? id = some x → x.parent = some p →
        p ∉ s'.call.1.facts.ids "note" := by
  have hrun : ((RuleGraph.register "root" ([summing "left" ["root"] 1] ++
      [summing "right" ["left"] 2, summing "twice" ["right"] 0])).toOption.bind fun g =>
      ((Session.new g).activate 3 []).toOption.map fun s => (s.call.2, s.call.1.facts.facts)) =
      some (.ok 4, #[⟨"root", 3, none⟩, ⟨"left", 4, some 0⟩, ⟨"right", 6, some 1⟩,
        ⟨"twice", 6, some 2⟩]) := by decide +kernel
  have hrun' : ((RuleGraph.register "root" ([summing "left" ["root"] 1] ++
      summing "note" ["left"] 5 ::
        [summing "right" ["left"] 2, summing "twice" ["right"] 0])).toOption.bind fun g =>
      ((Session.new g).activate 3 []).toOption.map fun s => (s.call.2, s.call.1.facts.facts)) =
      some (.ok 5, #[⟨"root", 3, none⟩, ⟨"left", 4, some 0⟩, ⟨"note", 9, some 1⟩,
        ⟨"right", 6, some 1⟩, ⟨"twice", 6, some 3⟩]) := by decide +kernel
  obtain ⟨g, s, hregister, hactivated, -, hfacts⟩ := Session.exists_activated hrun
  obtain ⟨g', s', hregister', hactivated', hcall', hfacts'⟩ := Session.exists_activated hrun'
  exact ⟨g, g', s, s', hregister, hregister', hactivated, hactivated', hfacts, hfacts',
    RuleGraph.call_insert (by decide) (by decide) hregister hregister' hactivated hactivated'
      (congrArg Prod.snd hcall')⟩

end SlowRequest
