import SlowRequest.Proofs.Engine.Depth
import SlowRequest.Proofs.Engine.EarliestOrder
import SlowRequest.Proofs.Engine.Registration
/-!
# Anchors

Rules are anchored in one pass along the firing order, and each may raise the depth of the tag it
writes. No rule behind a reader writes what that one reads, so at its turn the depths of its inputs
have come to rest.
-/
namespace SlowRequest

section Pass

variable {root tag : Tag} {depths : Depths} {ds es : List Descriptor} {d : Descriptor}

private theorem depthsAfter_append (root : Tag) (depths : Depths) (ds es : List Descriptor) :
    depthsAfter root depths (ds ++ es) = depthsAfter root (depthsAfter root depths ds) es := by
  induction ds generalizing depths with
  | nil => rfl
  | cons d ds ih => exact ih _

private theorem anchors_append (root : Tag) (depths : Depths) (ds es : List Descriptor) :
    anchors root depths (ds ++ es) =
      anchors root depths ds ++ anchors root (depthsAfter root depths ds) es := by
  induction ds generalizing depths with
  | nil => rfl
  | cons d ds ih =>
    exact congrArg _ (ih _)

private theorem lookup_depthsAfter_of_unwritten (depths : Depths) (h : ∀ d ∈ ds, d.output ≠ tag) :
    (depthsAfter root depths ds).lookup tag = depths.lookup tag := by
  induction ds generalizing depths with
  | nil => rfl
  | cons d ds ih =>
    obtain ⟨hd, hds⟩ := List.forall_mem_cons.mp h
    rw [depthsAfter, ih _ hds, List.lookup_cons, beq_eq_false_iff_ne.mpr hd.symm]

private theorem isSome_lookup_depthsAfter (ds : List Descriptor) (h : (depths.lookup tag).isSome) :
    ((depthsAfter root depths ds).lookup tag).isSome := by
  induction ds generalizing depths with
  | nil => exact h
  | cons d ds ih =>
    apply ih
    rw [List.lookup_cons]
    split
    · rfl
    · exact h

private theorem isSome_lookup_depthsAfter_of_mem (depths : Depths) (hd : d ∈ ds) :
    ((depthsAfter root depths ds).lookup d.output).isSome := by
  obtain ⟨before, after, rfl⟩ := List.append_of_mem hd
  rw [depthsAfter_append, depthsAfter]
  apply isSome_lookup_depthsAfter
  rw [List.lookup_cons, beq_self_eq_true]
  rfl

private theorem level_of_lookup {n : Nat} (h : depths.lookup tag = some n) :
    level depths tag = n := by
  rw [level, h]
  rfl

end Pass

namespace Descriptor

variable {d : Descriptor} {root anchor : Tag} {depth : Tag → Nat}

/-- The anchor of a rule is the first of its deepest required inputs; the root tag, if it requires
nothing below the root. -/
def IsAnchor (d : Descriptor) (root : Tag) (depth : Tag → Nat) (anchor : Tag) : Prop :=
  (0 < d.reach depth ∧
      d.requiredInputs.find? (fun tag => depth tag = d.reach depth) = some anchor) ∨
    (d.reach depth = 0 ∧ anchor = root)

/-- Going through tags either never leaves the anchor, or ends at the first tag of a depth that is
greater than that of the anchor. -/
theorem foldl_deepest_first (tags : List Tag) (start : Tag × Nat) :
    let last := tags.foldl
      (fun anchor tag => if anchor.2 < depth tag then (tag, depth tag) else anchor) start
    last = start ∨ start.2 < last.2 ∧ tags.find? (fun tag => depth tag = last.2) = some last.1 := by
  induction tags generalizing start with
  | nil => exact .inl rfl
  | cons tag tags ih =>
    rw [List.foldl_cons]
    by_cases hlt : start.2 < depth tag
    · rw [if_pos hlt]
      rcases ih (tag, depth tag) with hlast | ⟨hdeeper, hfind⟩
      · right
        rw [hlast]
        exact ⟨hlt, List.find?_cons_of_pos (by simp)⟩
      · right
        refine ⟨hlt.trans hdeeper, ?_⟩
        rw [List.find?_cons_of_neg (by simpa using hdeeper.ne), hfind]
    · rw [if_neg hlt]
      rcases ih start with hlast | ⟨hdeeper, hfind⟩
      · exact .inl hlast
      · right
        refine ⟨hdeeper, ?_⟩
        have hne := ((Nat.le_of_not_lt hlt).trans_lt hdeeper).ne
        rw [List.find?_cons_of_neg (by simpa using hne), hfind]

private theorem isAnchor_deepest (hroot : depth root = 0) :
    d.IsAnchor root depth (d.deepest root depth).1 := by
  have hreach : (d.deepest root depth).2 = d.reach depth := deepest_snd hroot
  rcases foldl_deepest_first d.requiredInputs (root, 0) with hlast | ⟨hdeeper, hfind⟩
  · right
    rw [← hreach, deepest, hlast]
    exact ⟨rfl, rfl⟩
  · left
    rw [← hreach]
    exact ⟨hdeeper, hfind⟩

end Descriptor

namespace RuleGraph

variable {V E : Type} {root tag : Tag} {rules : List (Rule V E)} {g : RuleGraph V E}
  {before after : List (ScheduledRule V E)} {r : ScheduledRule V E}

def depthsPast (root : Tag) (rules : List (ScheduledRule V E)) : Depths :=
  depthsAfter root [(root, 0)] (rules.map fun r => r.descriptor)

private theorem depthsPast_append (root : Tag) (rules later : List (ScheduledRule V E)) :
    depthsPast root (rules ++ later) =
      depthsAfter root (depthsPast root rules) (later.map fun r => r.descriptor) := by
  rw [depthsPast, List.map_append, depthsAfter_append, depthsPast]

private theorem map_anchor_zipWith (rules : List (Rule V E)) (tags : List Tag)
    (hlen : tags.length = rules.length) :
    (rules.zipWith (fun r a => (⟨r, a⟩ : ScheduledRule V E)) tags).map (·.anchor) = tags := by
  rw [← List.map_uncurry_zip_eq_zipWith, List.map_map]
  exact List.map_snd_zip hlen.le

private theorem map_anchor_of_register (h : register root rules = .ok g) :
    g.rules.map (·.anchor) =
      anchors root [(root, 0)] (g.rules.map fun r => r.descriptor) := by
  obtain ⟨-, -, order, -, rfl⟩ := register_eq_ok h
  generalize (order.filterMap fun i => rules[i]?) = ordered
  have hlen : (anchors root [(root, 0)] (ordered.map Rule.descriptor)).length =
      ordered.length := by
    rw [length_anchors, List.length_map]
  have hrules := congrArg (List.map Rule.descriptor) (map_zipWith_anchor ordered _ hlen)
  rw [List.map_map] at hrules
  rw [map_anchor_zipWith ordered _ hlen]
  exact congrArg _ hrules.symm

private theorem anchor_eq_anchorOf (h : register root rules = .ok g)
    (hsplit : g.rules = before ++ r :: after) :
    r.anchor = (anchorOf root (depthsPast root before) r.descriptor).1 := by
  have hanchors := map_anchor_of_register h
  rw [hsplit, List.map_append, List.map_append, anchors_append] at hanchors
  have hlen : (before.map (·.anchor)).length =
      (anchors root [(root, 0)] (before.map fun r => r.descriptor)).length := by
    rw [length_anchors, List.length_map, List.length_map]
  exact (List.cons.inj (List.append_inj_right hanchors hlen)).1

private theorem level_depthsPast (h : register root rules = .ok g) {depth : Tag → Nat}
    (hdepth : IsDepth (rules.map Rule.descriptor) depth) :
    level (depthsPast root g.rules) = depth := by
  obtain ⟨-, hperm, horder⟩ := inOrder_of_register h
  obtain ⟨_, -, hunique, -⟩ := exists_depth h
  have hdescriptors : (g.rules.map fun r => r.descriptor).Perm (rules.map Rule.descriptor) := by
    have := hperm.map Rule.descriptor
    rwa [List.map_map] at this
  have hknown : IsDepth (g.rules.map fun r => r.descriptor) (level (depthsPast root g.rules)) :=
    (isDepth_depthsAfter root (List.forall_mem_map.mpr horder.own)
      (List.pairwise_map.mpr horder.later) (List.forall_mem_map.mpr horder.output_ne)).1
  rw [hunique _ (hknown.perm hdescriptors), hunique _ hdepth]

/-- What a rule requires is the root or written by a rule before it, and by none from it on. -/
theorem input_written_before (h : register root rules = .ok g)
    (hsplit : g.rules = before ++ r :: after) (htag : tag ∈ r.descriptor.requiredInputs) :
    (tag = root ∨ ∃ s ∈ before, s.descriptor.output = tag) ∧
      ∀ s ∈ r :: after, s.descriptor.output ≠ tag := by
  obtain ⟨-, hperm, horder⟩ := inOrder_of_register h
  have hreads := Descriptor.reads_of_required htag
  have hr : r ∈ g.rules := by simp [hsplit]
  have hlater : ∀ s ∈ r :: after, s.descriptor.output ≠ tag := by
    rintro s hs rfl
    have hnot : r.descriptor.reads s.descriptor.output = false := by
      rcases List.mem_cons.mp hs with rfl | hs
      · exact horder.own s hr
      · have hpairs := horder.later
        rw [hsplit] at hpairs
        exact (List.pairwise_cons.mp (List.pairwise_append.mp hpairs).2.1).1 s hs
    rw [hnot] at hreads
    cases hreads
  refine ⟨?_, hlater⟩
  obtain ⟨hdeclared, -⟩ := acyclic_of_register h
  obtain ⟨input, hinput, rfl⟩ := List.mem_map.mp htag
  obtain ⟨hinput, hrequired⟩ := List.mem_filter.mp hinput
  have hdescriptor : r.descriptor ∈ rules.map Rule.descriptor :=
    List.mem_map_of_mem (hperm.subset (List.mem_map_of_mem hr))
  rcases hdeclared.produced _ hdescriptor input hinput (by simpa using hrequired) with
    hroot | ⟨e, he, hwrites⟩
  · exact .inl hroot
  · right
    obtain ⟨rule, hrule, rfl⟩ := List.mem_map.mp he
    obtain ⟨s, hs, rfl⟩ := List.mem_map.mp (hperm.symm.subset hrule)
    rw [hsplit] at hs
    rcases List.mem_append.mp hs with hs | hs
    · exact ⟨s, hs, hwrites⟩
    · exact absurd hwrites (hlater s hs)

/-- When a rule is anchored, its required inputs have depths that the rest of the pass leaves as
they are. -/
theorem lookup_depthsPast (h : register root rules = .ok g)
    (hsplit : g.rules = before ++ r :: after) (htag : tag ∈ r.descriptor.requiredInputs) :
    ((depthsPast root before).lookup tag).isSome ∧
      (depthsPast root g.rules).lookup tag = (depthsPast root before).lookup tag := by
  obtain ⟨hwritten, hlater⟩ := input_written_before h hsplit htag
  constructor
  · rcases hwritten with rfl | ⟨s, hs, rfl⟩
    · apply isSome_lookup_depthsAfter
      rw [List.lookup_cons, beq_self_eq_true]
      rfl
    · exact isSome_lookup_depthsAfter_of_mem _ (List.mem_map_of_mem hs)
  · rw [hsplit, depthsPast_append]
    exact lookup_depthsAfter_of_unwritten _ (List.forall_mem_map.mpr hlater)

/-- There is one way to give every tag its depth: zero for the root, and one more than the deepest
input that a producer of the tag requires. Each registered rule is anchored at the first of its
deepest required inputs, or at the root if none lies below it. The one pass over the rules anchors
each by depths of its inputs that are final. -/
theorem register_anchored (h : register root rules = .ok g) :
    (g.rules.map (·.toRule)).Perm rules ∧
      ∃ depth, IsDepth (rules.map Rule.descriptor) depth ∧ depth root = 0 ∧
        (∀ other, IsDepth (rules.map Rule.descriptor) other → other = depth) ∧
        (∀ r ∈ g.rules, r.descriptor.IsAnchor root depth r.anchor) ∧
        ∀ before r after, g.rules = before ++ r :: after →
          r.anchor = (anchorOf root (depthsPast root before) r.descriptor).1 ∧
          ∀ tag ∈ r.descriptor.requiredInputs,
            (depthsPast root before).lookup tag = some (depth tag) ∧
            (depthsPast root g.rules).lookup tag = some (depth tag) := by
  obtain ⟨-, hperm, -⟩ := inOrder_of_register h
  obtain ⟨depth, hdepth, hunique, hroot, -, hrules⟩ := exists_depth h
  refine ⟨hperm, depth, hdepth, hroot, hunique, ?_, ?_⟩
  · intro r hr
    rw [hrules] at hr
    obtain ⟨rule, -, rfl⟩ := List.mem_map.mp hr
    exact Descriptor.isAnchor_deepest hroot
  · intro before r after hsplit
    refine ⟨anchor_eq_anchorOf h hsplit, fun tag htag => ?_⟩
    obtain ⟨hknown, hrests⟩ := lookup_depthsPast h hsplit htag
    obtain ⟨n, hn⟩ := Option.isSome_iff_exists.mp hknown
    have hfinal : depth tag = n := by
      rw [← level_depthsPast h hdepth]
      exact level_of_lookup (hrests.trans hn)
    rw [hrests, hn, hfinal]
    exact ⟨rfl, rfl⟩

end RuleGraph

/-- Two rules of different depth write one tag that the first rule needs, and the last two need
less than they read. -/
def layeredRules : List (Rule Nat String) :=
  [idle "report" [.needed "plain", .needed "mixed", .needed "late"] "report",
    idle "direct" [.needed "root"] "mixed",
    idle "step" [.needed "root"] "plain",
    idle "detour" [.needed "plain"] "mixed",
    idle "late" [.needed "plain", ⟨"mixed", true⟩] "late",
    idle "note" [⟨"report", true⟩] "note"]

/-- The first rule is anchored at the first of two inputs of depth two, the last one at the root. -/
theorem layeredRules_anchored :
    ∃ g : RuleGraph Nat String, RuleGraph.register "root" layeredRules = .ok g ∧
      (g.rules.map fun r => (r.descriptor.name, r.anchor)) =
        [("direct", "root"), ("step", "root"), ("detour", "plain"), ("late", "plain"),
          ("report", "mixed"), ("note", "root")] ∧
      (g.rules.map (·.toRule)).Perm layeredRules ∧
      ∃ depth, IsDepth (layeredRules.map Rule.descriptor) depth ∧ depth "root" = 0 ∧
        (∀ other, IsDepth (layeredRules.map Rule.descriptor) other → other = depth) ∧
        (∀ r ∈ g.rules, r.descriptor.IsAnchor "root" depth r.anchor) ∧
        ∀ before r after, g.rules = before ++ r :: after →
          r.anchor = (anchorOf "root" (RuleGraph.depthsPast "root" before) r.descriptor).1 ∧
          ∀ tag ∈ r.descriptor.requiredInputs,
            (RuleGraph.depthsPast "root" before).lookup tag = some (depth tag) ∧
            (RuleGraph.depthsPast "root" g.rules).lookup tag = some (depth tag) := by
  have hrun : (RuleGraph.register "root" layeredRules).toOption.map
      (fun g => g.rules.map fun r => (r.descriptor.name, r.anchor)) =
      some [("direct", "root"), ("step", "root"), ("detour", "plain"), ("late", "plain"),
          ("report", "mixed"), ("note", "root")] := by decide +kernel
  obtain ⟨g, hg, hanchors⟩ := Option.map_eq_some_iff.mp hrun
  have hregister := Except.eq_ok_of_toOption hg
  exact ⟨g, hregister, hanchors, RuleGraph.register_anchored hregister⟩

end SlowRequest
