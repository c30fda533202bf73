import SlowRequest.Proofs.Engine.Schedule
import Mathlib.Data.List.Basic
/-!
# Depths of tags

The depth of a tag is its distance from the root: one more than the deepest input that a producer
of it requires. Rules without a cycle have one depth for every tag, in whatever order they are
registered, and the anchor of a rule is the deepest of the inputs it requires.
-/
namespace SlowRequest

def highest (ns : List Nat) : Nat := ns.foldr max 0

private theorem le_highest {n : Nat} {ns : List Nat} (h : n ∈ ns) : n ≤ highest ns := by
  induction ns with
  | nil => cases h
  | cons m ns ih =>
    rcases List.mem_cons.mp h with rfl | h
    · exact Nat.le_max_left ..
    · exact Nat.le_trans (ih h) (Nat.le_max_right ..)

private theorem highest_perm {ns ms : List Nat} (h : ns.Perm ms) : highest ns = highest ms :=
  h.foldr_eq 0

def level (depths : Depths) (tag : Tag) : Nat := (depths.lookup tag).getD 0

private theorem level_cons (depths : Depths) (tag other : Tag) (n : Nat) :
    level ((tag, n) :: depths) other = if other = tag then n else level depths other := by
  rw [level, List.lookup_cons]
  by_cases h : other = tag
  · simp [h]
  · rw [if_neg h, beq_eq_false_iff_ne.mpr h, level]

namespace Descriptor

variable {d : Descriptor} {root : Tag} {depth other : Tag → Nat}

def reach (d : Descriptor) (depth : Tag → Nat) : Nat := highest (d.requiredInputs.map depth)

def deepest (d : Descriptor) (root : Tag) (depth : Tag → Nat) : Tag × Nat :=
  d.requiredInputs.foldl
    (fun anchor tag => if anchor.2 < depth tag then (tag, depth tag) else anchor) (root, 0)

private theorem anchorOf_eq (depths : Depths) (d : Descriptor) :
    anchorOf root depths d = d.deepest root (level depths) := by
  have hdeeper : deeper depths = fun anchor tag =>
      if anchor.2 < level depths tag then (tag, level depths tag) else anchor := by
    funext anchor tag
    rw [deeper, level]
    cases depths.lookup tag <;> rfl
  rw [anchorOf, hdeeper, deepest]

theorem deepest_congr (h : ∀ tag ∈ d.requiredInputs, depth tag = other tag) :
    d.deepest root depth = d.deepest root other := by
  rw [deepest, deepest]
  apply List.foldl_ext
  intro anchor tag htag
  rw [h tag htag]

theorem reach_congr (h : ∀ tag ∈ d.requiredInputs, depth tag = other tag) :
    d.reach depth = d.reach other := by
  rw [reach, reach, List.map_congr_left h]

private theorem foldl_deepest (tags : List Tag) (anchor : Tag × Nat)
    (h : depth anchor.1 = anchor.2) :
    let last := tags.foldl
      (fun anchor tag => if anchor.2 < depth tag then (tag, depth tag) else anchor) anchor
    last.2 = max anchor.2 (highest (tags.map depth)) ∧ depth last.1 = last.2 := by
  induction tags generalizing anchor with
  | nil => exact ⟨(Nat.max_zero _).symm, h⟩
  | cons tag tags ih =>
    have hcons : highest ((tag :: tags).map depth) =
        max (depth tag) (highest (tags.map depth)) := rfl
    rw [List.foldl_cons, hcons]
    by_cases hlt : anchor.2 < depth tag
    · rw [if_pos hlt]
      obtain ⟨hmax, hdepth⟩ := ih (tag, depth tag) rfl
      refine ⟨?_, hdepth⟩
      rw [hmax]
      omega
    · rw [if_neg hlt]
      obtain ⟨hmax, hdepth⟩ := ih anchor h
      refine ⟨?_, hdepth⟩
      rw [hmax]
      omega

theorem deepest_snd (hroot : depth root = 0) : (d.deepest root depth).2 = d.reach depth := by
  rw [deepest, (foldl_deepest d.requiredInputs (root, 0) hroot).1, Nat.zero_max, reach]

theorem depth_deepest (hroot : depth root = 0) :
    depth (d.deepest root depth).1 = d.reach depth := by
  rw [← deepest_snd hroot, deepest]
  exact (foldl_deepest d.requiredInputs (root, 0) hroot).2

theorem depth_le_reach {tag : Tag} (htag : tag ∈ d.requiredInputs) : depth tag ≤ d.reach depth :=
  le_highest (List.mem_map_of_mem htag)

end Descriptor

/-- `depth` is one more than the deepest input that a producer of the tag requires, and zero for a
tag that no rule produces. -/
def IsDepth (ds : List Descriptor) (depth : Tag → Nat) : Prop :=
  ∀ tag, depth tag =
    highest ((ds.filter (·.output = tag)).map fun d => d.reach depth + 1)

def depthsAfter (root : Tag) : Depths → List Descriptor → Depths
  | depths, [] => depths
  | depths, d :: ds =>
    depthsAfter root
      ((d.output, max (level depths d.output) ((anchorOf root depths d).2 + 1)) :: depths) ds

section Order

variable {root : Tag} {ds es : List Descriptor} {depth other : Tag → Nat}

theorem IsDepth.perm (h : IsDepth ds depth) (hperm : ds.Perm es) : IsDepth es depth := by
  intro tag
  rw [h tag]
  exact highest_perm ((hperm.filter _).map _)

theorem IsDepth.depth_root (h : IsDepth ds depth) (houtput : ∀ d ∈ ds, d.output ≠ root) :
    depth root = 0 := by
  have hnone : ds.filter (·.output = root) = [] := by
    apply List.filter_eq_nil_iff.mpr
    intro d hd
    simpa using houtput d hd
  rw [h root, hnone]
  rfl

theorem IsDepth.reach_lt {d : Descriptor} (h : IsDepth ds depth) (hd : d ∈ ds) :
    d.reach depth < depth d.output := by
  rw [h d.output]
  apply le_highest
  exact List.mem_map_of_mem (List.mem_filter.mpr ⟨hd, by simp⟩)

/-- Each rule is anchored by the final depths, since those of its inputs are known at its turn. -/
theorem anchors_eq (root : Tag) (hown : ∀ d ∈ ds, d.reads d.output = false)
    (hlater : ds.Pairwise fun d e => d.reads e.output = false) (depths : Depths)
    (hroot : level depths root = 0) (houtput : ∀ d ∈ ds, d.output ≠ root) :
    let depth := level (depthsAfter root depths ds)
    (∀ tag, depth tag = max (level depths tag)
      (highest ((ds.filter (·.output = tag)).map fun d => d.reach depth + 1))) ∧
    anchors root depths ds = ds.map fun d => (d.deepest root depth).1 := by
  induction ds generalizing depths with
  | nil =>
    refine ⟨?_, rfl⟩
    intro tag
    rw [List.filter_nil, List.map_nil]
    exact (Nat.max_zero _).symm
  | cons d ds ih =>
    obtain ⟨hnext, hlater⟩ := List.pairwise_cons.mp hlater
    have hd : d.output ≠ root := houtput d List.mem_cons_self
    rw [depthsAfter, anchors]
    generalize hn : max (level depths d.output) ((anchorOf root depths d).2 + 1) = n
    have hroot' : level ((d.output, n) :: depths) root = 0 := by
      rw [level_cons, if_neg hd.symm, hroot]
    obtain ⟨hdepth, hanchors⟩ := ih (fun e he => hown e (List.mem_cons_of_mem _ he)) hlater
      ((d.output, n) :: depths) hroot' (fun e he => houtput e (List.mem_cons_of_mem _ he))
    generalize level (depthsAfter root ((d.output, n) :: depths) ds) = depth at hdepth hanchors
    have hknown : ∀ tag ∈ d.requiredInputs, level depths tag = depth tag := by
      intro tag htag
      have hreads := Descriptor.reads_of_required htag
      have hself : tag ≠ d.output := by
        rintro rfl
        rw [hown d List.mem_cons_self] at hreads
        cases hreads
      have hnone : ds.filter (·.output = tag) = [] := by
        apply List.filter_eq_nil_iff.mpr
        intro e he heq
        rw [← of_decide_eq_true heq, hnext e he] at hreads
        cases hreads
      rw [hdepth tag, hnone, level_cons, if_neg hself]
      exact (Nat.max_zero _).symm
    have hanchor : anchorOf root depths d = d.deepest root depth := by
      rw [Descriptor.anchorOf_eq, Descriptor.deepest_congr hknown]
    have hreach : (anchorOf root depths d).2 = d.reach depth := by
      rw [Descriptor.anchorOf_eq, Descriptor.deepest_snd hroot, Descriptor.reach_congr hknown]
    constructor
    · intro tag
      rw [hdepth tag, level_cons, List.filter_cons]
      by_cases htag : d.output = tag
      · subst htag
        rw [if_pos rfl, if_pos (by simp), List.map_cons, ← hn, hreach, Nat.max_assoc]
        rfl
      · rw [if_neg (Ne.symm htag), if_neg (by simpa using htag)]
    · rw [List.map_cons, ← hanchor, ← hanchors, ← hn]
      rfl

theorem isDepth_depthsAfter (root : Tag) (hown : ∀ d ∈ ds, d.reads d.output = false)
    (hlater : ds.Pairwise fun d e => d.reads e.output = false)
    (houtput : ∀ d ∈ ds, d.output ≠ root) :
    let depth := level (depthsAfter root [(root, 0)] ds)
    IsDepth ds depth ∧ anchors root [(root, 0)] ds = ds.map fun d => (d.deepest root depth).1 := by
  have hstart : ∀ tag, level [(root, 0)] tag = 0 := by
    intro tag
    rw [level_cons]
    split <;> rfl
  obtain ⟨hdepth, hanchors⟩ := anchors_eq root hown hlater [(root, 0)] (hstart root) houtput
  refine ⟨fun tag => ?_, hanchors⟩
  rw [hdepth tag, hstart, Nat.zero_max]

/-- Rules in order leave no choice of the depths. -/
theorem IsDepth.unique (hown : ∀ d ∈ ds, d.reads d.output = false)
    (hlater : ds.Pairwise fun d e => d.reads e.output = false) (h : IsDepth ds depth)
    (hother : IsDepth ds other) : depth = other := by
  -- Along the order: the depths agree on every tag that only rules placed so far produce.
  have hagree : ∀ placed rest, ds = placed ++ rest →
      ∀ tag, (∀ d ∈ ds, d.output = tag → d ∈ placed) → depth tag = other tag := by
    intro placed
    induction placed using List.reverseRecOn with
    | nil =>
      intro rest _ tag htag
      have hnone : ds.filter (·.output = tag) = [] := by
        apply List.filter_eq_nil_iff.mpr
        intro d hd heq
        exact absurd (htag d hd (of_decide_eq_true heq)) List.not_mem_nil
      rw [h tag, hother tag, hnone]
      rfl
    | append_singleton placed e ih =>
      intro rest hds tag htag
      have hsplit : ds = placed ++ e :: rest := by simpa using hds
      rw [h tag, hother tag]
      congr 1
      apply List.map_congr_left
      intro d hd
      obtain ⟨hd, hout⟩ := List.mem_filter.mp hd
      have hplaced : d ∈ placed ++ [e] := htag d hd (of_decide_eq_true hout)
      rw [Descriptor.reach_congr]
      intro input hinput
      apply ih (e :: rest) hsplit input
      intro producer hproducer hwrites
      rw [hsplit] at hproducer
      rcases List.mem_append.mp hproducer with hbefore | hafter
      · exact hbefore
      · have hreads := Descriptor.reads_of_required hinput
        have hnot : d.reads producer.output = false := by
          rw [hsplit] at hlater
          obtain ⟨-, hrest, hcross⟩ := List.pairwise_append.mp hlater
          rcases List.mem_append.mp hplaced with hd' | hd'
          · exact hcross d hd' producer hafter
          · rw [List.mem_singleton.mp hd'] at hd ⊢
            rcases List.mem_cons.mp hafter with rfl | hafter
            · exact hown producer hd
            · exact (List.pairwise_cons.mp hrest).1 producer hafter
        rw [← hwrites, hnot] at hreads
        cases hreads
  funext tag
  exact hagree ds [] (List.append_nil ds).symm tag fun d hd _ => hd

end Order

namespace RuleGraph

variable {V E : Type} {root : Tag}

private theorem zipWith_map {α β γ : Type} (h : α → β → γ) (anchor : α → β) (xs : List α) :
    xs.zipWith h (xs.map anchor) = xs.map fun x => h x (anchor x) := by
  rw [List.zipWith_map_right, List.zipWith_self]

def ordered (rules : List (Rule V E)) : List (Rule V E) :=
  let ds := rules.map Rule.descriptor
  (schedule ds [] (List.range ds.length)).1.filterMap fun i => rules[i]?

theorem exists_depth {rules : List (Rule V E)} {g : RuleGraph V E}
    (h : register root rules = .ok g) :
    ∃ depth, IsDepth (rules.map Rule.descriptor) depth ∧
      (∀ other, IsDepth (rules.map Rule.descriptor) other → other = depth) ∧
      depth root = 0 ∧ (ordered rules).Perm rules ∧
      g.rules = (ordered rules).map fun r => ⟨r, (r.descriptor.deepest root depth).1⟩ := by
  obtain ⟨hdeclared, -, order, hs, rfl⟩ := register_eq_ok h
  obtain ⟨hperm, -, hown, hlater, -, -⟩ := scheduled_of_schedule Rule.descriptor rfl hs
  have hordered : ordered rules = order.filterMap fun i => rules[i]? := by
    rw [ordered, hs]
  rw [List.filterMap_nil, List.append_nil] at hperm
  rw [← hordered] at hperm hown hlater ⊢
  generalize ordered rules = ordered at hperm hown hlater
  have hdescriptors : (ordered.map Rule.descriptor).Perm (rules.map Rule.descriptor) :=
    hperm.map _
  have hown : ∀ d ∈ ordered.map Rule.descriptor, d.reads d.output = false := by
    intro d hd
    obtain ⟨r, hr, rfl⟩ := List.mem_map.mp hd
    exact hown r hr
  have hlater : (ordered.map Rule.descriptor).Pairwise fun d e => d.reads e.output = false :=
    List.pairwise_map.mpr hlater
  have houtput : ∀ d ∈ ordered.map Rule.descriptor, d.output ≠ root := fun d hd =>
    output_ne_of_declarationFault? hdeclared d (hdescriptors.subset hd)
  obtain ⟨hisDepth, hanchors⟩ := isDepth_depthsAfter root hown hlater houtput
  generalize level (depthsAfter root [(root, 0)] (ordered.map Rule.descriptor)) = depth
    at hisDepth hanchors
  refine ⟨depth, hisDepth.perm hdescriptors, ?_, hisDepth.depth_root houtput, hperm, ?_⟩
  · intro other hother
    exact IsDepth.unique hown hlater (hother.perm hdescriptors.symm) hisDepth
  · rw [hanchors, List.map_map]
    exact zipWith_map _ _ ordered

end RuleGraph
end SlowRequest
