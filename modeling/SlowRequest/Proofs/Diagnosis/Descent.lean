import SlowRequest.Diagnosis.GlobalContext
import SlowRequest.Proofs.Clustering.Rounds
import SlowRequest.Proofs.TotalOrder
/-!
# The descent to the global context

Of the children of a call, the search holds on to the first one of the longest so far. The descent
goes to the first of the longest children for as long as that one exceeds the baseline. It then
stands at a call no child of which exceeds it, as no child takes longer than the one found.
-/
namespace SlowRequest

private theorem negativeInfinity_lt_iff {x : Float} :
    negativeInfinity < x ↔ x.isNaN = false ∧ x ≠ negativeInfinity := by
  have hkey : totalOrderKey negativeInfinity = -1 - 2047 * 2 ^ 52 := by decide +kernel
  have hnumber : negativeInfinity.isNaN = false := by decide +kernel
  constructor
  · intro h
    refine ⟨(isNaN_of_lt h).2, ?_⟩
    rintro rfl
    exact not_lt_self _ h
  · rintro ⟨hx, hne⟩
    refine lt_iff_numberKey_lt.mpr ⟨hnumber, hx, ?_⟩
    have hne : totalOrderKey x ≠ totalOrderKey negativeInfinity := fun h =>
      hne (totalOrderKey_injective h)
    rcases totalOrderKey_bounds x with ⟨hnan, -⟩ | ⟨-, hlow, -⟩
    · rw [hx] at hnan
      cases hnan
    · rw [numberKey, numberKey]
      split_ifs <;> omega

private theorem negativeInfinity_lt_of_lt {x y : Float} (h : x < y) : negativeInfinity < y := by
  by_cases hx : x = negativeInfinity
  · rw [← hx]
    exact h
  · exact lt_of_lt_of_lt (negativeInfinity_lt_iff.mpr ⟨(isNaN_of_lt h).1, hx⟩) h

namespace CallTree

variable {t : CallTree} {ids seen path : List NodeId} {id c x v : NodeId} {baseline : Float}

/-- `c` is one of `ids` with a duration, and none of them takes longer. A NaN is no duration, and
minus infinity counts as none. -/
structure IsLongest (t : CallTree) (ids : List NodeId) (c : NodeId) : Prop where
  mem : c ∈ ids
  number : (t.duration c).isNaN = false
  proper : t.duration c ≠ negativeInfinity
  longest : ∀ s ∈ ids, ¬ t.duration c < t.duration s

/-- `c` is the earliest of the longest among `ids`. -/
def IsFirstLongest (t : CallTree) (ids : List NodeId) (c : NodeId) : Prop :=
  t.IsLongest ids c ∧
    ∃ before after, ids = before ++ c :: after ∧ ∀ s ∈ before, ¬ t.IsLongest ids s

/-- From `id` a descent goes on to `c`, if to any of its children. -/
def LeadsTo (t : CallTree) (id c : NodeId) : Prop := t.IsFirstLongest (t.children id) c

/-- A descent from `id` along `path` to `v`. -/
structure Descends (t : CallTree) (baseline : Float) (id : NodeId) (path : List NodeId)
    (v : NodeId) : Prop where
  steps : (id :: path).IsChain t.LeadsTo
  last : (id :: path).getLast? = some v
  above : ∀ c ∈ path, baseline < t.duration c
  ends : ∀ c ∈ t.children v, ¬ baseline < t.duration c

theorem IsFirstLongest.unique (h : t.IsFirstLongest ids c) (hx : t.IsFirstLongest ids x) :
    c = x := by
  classical
  have hfind : ∀ y, t.IsFirstLongest ids y →
      ids.find? (fun s => decide (t.IsLongest ids s)) = some y := by
    rintro y ⟨hy, before, after, hsplit, hbefore⟩
    apply List.find?_eq_some_iff_append.mpr
    exact ⟨decide_eq_true hy, before, after, hsplit, fun s hs => by simpa using hbefore s hs⟩
  have hc := hfind c h
  rw [hfind x hx, Option.some.injEq] at hc
  exact hc.symm

/-- What the search knows of the children it has seen. -/
inductive Holds (t : CallTree) (seen : List NodeId) : Option NodeId → Float → Prop
  | nothing (short : ∀ s ∈ seen, ¬ negativeInfinity < t.duration s) :
      Holds t seen none negativeInfinity
  | found {c : NodeId} (first : t.IsFirstLongest seen c) : Holds t seen (some c) (t.duration c)

variable {best : Option NodeId} {longest : Float}

theorem Holds.pass (h : t.Holds seen best longest) (hx : ¬ longest < t.duration x) :
    t.Holds (seen ++ [x]) best longest := by
  cases h with
  | nothing short =>
    exact .nothing (List.forall_mem_append.mpr ⟨short, List.forall_mem_singleton.mpr hx⟩)
  | @found c first =>
    obtain ⟨hc, before, after, rfl, hbefore⟩ := first
    have hlongest : ∀ s ∈ (before ++ c :: after) ++ [x], ¬ t.duration c < t.duration s :=
      List.forall_mem_append.mpr ⟨hc.longest, List.forall_mem_singleton.mpr hx⟩
    refine .found ⟨⟨List.mem_append_left _ hc.mem, hc.number, hc.proper, hlongest⟩, before,
      after ++ [x], by simp, ?_⟩
    intro s hs hlonger
    exact hbefore s hs ⟨List.mem_append_left _ hs, hlonger.number, hlonger.proper,
      fun r hr => hlonger.longest r (List.mem_append_left _ hr)⟩

/-- A child that takes longer than the one held takes longer than all seen before. -/
theorem Holds.take (h : t.Holds seen best longest) (hx : longest < t.duration x) :
    t.Holds (seen ++ [x]) (some x) (t.duration x) := by
  have hless : ∀ s ∈ seen, negativeInfinity < t.duration s → t.duration s < t.duration x := by
    intro s hs hproper
    cases h with
    | nothing short => exact absurd hproper (short s hs)
    | found first =>
      exact lt_of_not_lt_of_lt (first.1.longest s hs) hx (isNaN_of_lt hproper).2
  obtain ⟨hnumber, hne⟩ := negativeInfinity_lt_iff.mp (negativeInfinity_lt_of_lt hx)
  have hlongest : ∀ s ∈ seen ++ [x], ¬ t.duration x < t.duration s := by
    refine List.forall_mem_append.mpr ⟨?_, List.forall_mem_singleton.mpr (not_lt_self _)⟩
    intro s hs hlt
    exact not_lt_self _ (lt_of_lt_of_lt hlt (hless s hs (negativeInfinity_lt_of_lt hlt)))
  refine .found ⟨⟨by simp, hnumber, hne, hlongest⟩, seen, [], rfl, ?_⟩
  intro s hs hlonger
  apply hlonger.longest x (by simp)
  exact hless s hs (negativeInfinity_lt_iff.mpr ⟨hlonger.number, hlonger.proper⟩)

theorem Holds.longestChild (h : t.Holds seen best longest) (hids : ∀ id ∈ ids, t.contains id) :
    ∃ found duration, longestChild t ids best longest = found.map (fun id => (id, duration)) ∧
      t.Holds (seen ++ ids) found duration := by
  induction ids generalizing seen best longest with
  | nil =>
    rw [List.append_nil]
    exact ⟨best, longest, rfl, h⟩
  | cons x ids ih =>
    obtain ⟨n, hn⟩ := exists_get? (hids x List.mem_cons_self)
    have hrest : ∀ id ∈ ids, t.contains id := fun id hid => hids id (List.mem_cons_of_mem _ hid)
    rw [SlowRequest.longestChild, hn, List.append_cons]
    simp only [← duration_of_get? hn]
    split
    · rename_i hlt
      exact ih (h.take hlt) hrest
    · rename_i hlt
      exact ih (h.pass hlt) hrest

/-- Some child is the first of the longest, or no child has a duration; the descent goes to that
child if it exceeds the baseline. -/
theorem heavyChild?_cases (t : CallTree) (baseline : Float) (id : NodeId) :
    (∃ c, t.LeadsTo id c ∧
        heavyChild? t baseline id = if baseline < t.duration c then some c else none) ∨
      (∀ s ∈ t.children id, ¬ negativeInfinity < t.duration s) ∧
        heavyChild? t baseline id = none := by
  have hstart : t.Holds [] none negativeInfinity := .nothing (by simp)
  have hids : ∀ c ∈ t.children id, t.contains c := fun c hc =>
    contains_of_parent? (mem_children.mp hc)
  obtain ⟨found, duration, hsearch, hholds⟩ := hstart.longestChild hids
  rw [List.nil_append] at hholds
  rw [heavyChild?, hsearch]
  cases hholds with
  | nothing short => exact .inr ⟨short, rfl⟩
  | @found c first => exact .inl ⟨c, first, rfl⟩

theorem heavyChild?_eq_some_iff :
    heavyChild? t baseline id = some c ↔ t.LeadsTo id c ∧ baseline < t.duration c := by
  rcases heavyChild?_cases t baseline id with ⟨x, hx, hheavy⟩ | ⟨hshort, hheavy⟩
  · rw [hheavy]
    constructor
    · intro h
      split at h
      · cases h
        exact ⟨hx, by assumption⟩
      · cases h
    · rintro ⟨hc, hlt⟩
      rw [hx.unique hc, if_pos hlt]
  · rw [hheavy]
    constructor
    · intro h
      cases h
    · rintro ⟨hc, -⟩
      exact absurd (negativeInfinity_lt_iff.mpr ⟨hc.1.number, hc.1.proper⟩) (hshort c hc.1.mem)

theorem heavyChild?_eq_none_iff :
    heavyChild? t baseline id = none ↔ ∀ s ∈ t.children id, ¬ baseline < t.duration s := by
  constructor
  · intro hnone s hs hlt
    rcases heavyChild?_cases t baseline id with ⟨c, hc, hheavy⟩ | ⟨hshort, -⟩
    · rw [hheavy, if_pos (lt_of_lt_of_not_lt hlt (hc.1.longest s hs) hc.1.number)] at hnone
      cases hnone
    · exact hshort s hs (negativeInfinity_lt_of_lt hlt)
  · intro hall
    cases hheavy : heavyChild? t baseline id with
    | none => rfl
    | some c =>
      obtain ⟨hc, hlt⟩ := heavyChild?_eq_some_iff.mp hheavy
      exact absurd hlt (hall c hc.1.mem)

theorem descend_of_some (h : heavyChild? t baseline id = some c) :
    descend t baseline id = descend t baseline c := by
  rw [descend]
  split
  · rename_i x hx
    rw [h, Option.some.injEq] at hx
    rw [hx]
  · rename_i hnone
    rw [h] at hnone
    cases hnone

theorem descend_of_none (h : heavyChild? t baseline id = none) : descend t baseline id = id := by
  rw [descend]
  split
  · rename_i x hx
    rw [h] at hx
    cases hx
  · rfl

private theorem exists_descends (t : CallTree) (baseline : Float) (id : NodeId) :
    ∃ path, t.Descends baseline id path (descend t baseline id) := by
  fun_induction descend t baseline id with
  | case1 id c hheavy ih =>
    obtain ⟨path, hpath⟩ := ih
    obtain ⟨hc, hlt⟩ := heavyChild?_eq_some_iff.mp hheavy
    exact ⟨c :: path, {
      steps := List.isChain_cons_cons.mpr ⟨hc, hpath.steps⟩
      last := by rw [List.getLast?_cons_cons, hpath.last]
      above := List.forall_mem_cons.mpr ⟨hlt, hpath.above⟩
      ends := hpath.ends }⟩
  | case2 id hheavy =>
    exact ⟨[], {
      steps := List.isChain_singleton _
      last := rfl
      above := by simp
      ends := heavyChild?_eq_none_iff.mp hheavy }⟩

theorem Descends.eq_descend (h : t.Descends baseline id path v) : v = descend t baseline id := by
  induction path generalizing id with
  | nil =>
    have hv : id = v := Option.some.inj h.last
    rw [descend_of_none (heavyChild?_eq_none_iff.mpr (hv ▸ h.ends)), hv]
  | cons c path ih =>
    obtain ⟨hc, hsteps⟩ := List.isChain_cons_cons.mp h.steps
    obtain ⟨hlt, habove⟩ := List.forall_mem_cons.mp h.above
    rw [descend_of_some (heavyChild?_eq_some_iff.mpr ⟨hc, hlt⟩)]
    apply ih
    exact ⟨hsteps, by rw [← h.last, List.getLast?_cons_cons], habove, h.ends⟩

/-- Every step goes to a younger call, so a descent is shorter than the tree. -/
theorem Descends.length_lt (h : t.Descends baseline id path v) (hid : t.contains id) :
    id.index + path.length < t.size := by
  induction path generalizing id with
  | nil => exact contains_iff.mp hid
  | cons c path ih =>
    obtain ⟨hc, hsteps⟩ := List.isChain_cons_cons.mp h.steps
    have hparent := mem_children.mp hc.1.mem
    have hlt := parent?_index_lt hparent
    have hrest := ih ⟨hsteps, by rw [← h.last, List.getLast?_cons_cons],
      (List.forall_mem_cons.mp h.above).2, h.ends⟩ (contains_of_parent? hparent)
    rw [List.length_cons]
    omega

end CallTree

private theorem action_globalContextRule {b : Binding Finding} {t : CallTree} {baseline : Float}
    (htree : b.tree = .ok t) (hbaseline : b.baseline = .ok baseline) :
    globalContextRule.action b = .ok (.single (.node (globalContext t baseline))) := by
  simp only [globalContextRule, htree, hbaseline, bind, Except.bind]
  rfl

/-- On every tree and for every baseline the rule returns a call: the one that a descent from the
root leads to. No descent takes as many steps as the tree has calls. -/
theorem globalContextRule_descends {t : CallTree} {baseline : Float} (b : Binding Finding)
    (htree : b.tree = .ok t) (hbaseline : b.baseline = .ok baseline) :
    (∃ v, globalContextRule.action b = .ok (.single (.node v))) ∧
      (∀ v, globalContextRule.action b = .ok (.single (.node v)) ↔
        ∃ path, t.Descends baseline t.root path v) ∧
      ∀ path v, t.Descends baseline t.root path v → path.length < t.size := by
  have haction := action_globalContextRule htree hbaseline
  refine ⟨⟨_, haction⟩, fun v => ⟨?_, ?_⟩, ?_⟩
  · intro h
    rw [haction] at h
    cases h
    exact CallTree.exists_descends t baseline t.root
  · rintro ⟨path, hpath⟩
    rw [haction, hpath.eq_descend]
    rfl
  · intro path v hpath
    have hlt := hpath.length_lt (CallTree.contains_iff.mpr t.nonempty)
    omega

def ledgeCalls : CallTree.Builder :=
  CallTree.Builder.grow (.ofRoot (Call.timed 1 1000.0 0.0))
    [(0, Call.timed 2 (0.0 / 0.0) 0.0), (0, Call.timed 3 800.0 0.0),
      (0, Call.timed 4 900.0 0.0), (0, Call.timed 5 900.0 0.0),
      (3, Call.timed 6 negativeInfinity 0.0), (3, Call.timed 7 600.0 0.0),
      (3, Call.timed 8 700.0 0.0), (7, Call.timed 9 500.0 0.0),
      (7, Call.timed 9 (0.0 / 0.0) 0.0)]

/-- Two of the calls made from the root take longest and one has no duration. Below the earlier of
the two, one has minus infinity and the longest made a call of exactly 500. -/
def ledge : CallTree where
  nodes := ledgeCalls.nodes
  consistent := ledgeCalls.consistent
  nonempty := by decide +kernel

def ledgeBinding : Binding Finding := ⟨.request ledge, [], baselineOnly 500.0⟩

/-- The descent takes the earlier of two equals, passes over calls without a duration, and stops
where one lies at the baseline. -/
theorem ledge_descends :
    (ledgeBinding.tree = .ok ledge ∧ ledgeBinding.baseline = .ok 500.0) ∧
      globalContextRule.action ledgeBinding = .ok (.single (.node ⟨7⟩)) ∧
      (∃ path, ledge.Descends 500.0 ledge.root path ⟨7⟩) ∧
      ∀ path v, ledge.Descends 500.0 ledge.root path v → path.length < ledge.size := by
  have htree : ledgeBinding.tree = .ok ledge := rfl
  have hbaseline : ledgeBinding.baseline = .ok 500.0 := rfl
  obtain ⟨-, hdescends, hlength⟩ := globalContextRule_descends ledgeBinding htree hbaseline
  have hcontext : globalContext ledge 500.0 = ⟨7⟩ := by decide +kernel
  have haction := action_globalContextRule htree hbaseline
  rw [hcontext] at haction
  exact ⟨⟨htree, hbaseline⟩, haction, (hdescends ⟨7⟩).mp haction, hlength⟩

end SlowRequest
