import SlowRequest.Proofs.Engine.Reuse
import SlowRequest.Proofs.Engine.Trail
/-!
# Leaving a tag out

A forest without the facts of one tag, the others numbered anew. Rules that neither read nor write
the tag do the same there, as long as no fact has a parent of that tag.
-/
namespace SlowRequest

variable {V E : Type}

private theorem getElem?_filter_countP {α : Type} {P : α → Bool} {xs : List α} {i : Nat} {x : α}
    (hx : xs[i]? = some x) (hP : P x = true) :
    (xs.filter P)[(xs.take i).countP P]? = some x := by
  induction xs generalizing i with
  | nil => cases hx
  | cons y xs ih =>
    cases i with
    | zero =>
      obtain rfl : y = x := Option.some.inj hx
      rw [List.filter_cons_of_pos hP]
      rfl
    | succ i =>
      have hx : xs[i]? = some x := hx
      rw [List.take_succ_cons, List.countP_cons, List.filter_cons]
      by_cases hy : P y
      · rw [if_pos hy, if_pos hy, List.getElem?_cons_succ]
        exact ih hx
      · rw [if_neg hy, if_neg hy, Nat.add_zero]
        exact ih hx

namespace FactForest

variable {f g : FactForest V} {tag other : Tag} {id a : FactId} {x : Fact V} {v : V}

def rank (f : FactForest V) (tag : Tag) (id : FactId) : FactId :=
  (f.facts.toList.take id).countP fun x => x.tag != tag

def without (f : FactForest V) (tag : Tag) : List (Fact V) :=
  (f.facts.toList.filter fun x => x.tag != tag).map (Fact.under (f.rank tag))

def Keeps (f : FactForest V) (tag : Tag) (id : FactId) : Prop :=
  ∃ x, f.get? id = some x ∧ x.tag ≠ tag

/-- `g` is `f` without the facts of a tag, which are the parents of none. -/
structure Thins (tag : Tag) (f g : FactForest V) : Prop where
  facts : g.facts.toList = f.without tag
  ids : ∀ other, other ≠ tag → g.ids other = (f.ids other).map (f.rank tag)
  older : f.Older
  thinned_older : g.Older
  top : f.Keeps tag 0
  parents : ∀ id x p, f.get? id = some x → x.parent = some p → f.Keeps tag p

private theorem Keeps.lt_size (h : f.Keeps tag id) : id < f.size := by
  obtain ⟨x, hx, -⟩ := h
  exact lt_size_of_get? hx

theorem Keeps.grows {new : Tag → Prop} (h : f.Keeps tag id) (hfg : f.Grows new g) :
    g.Keeps tag id := by
  obtain ⟨x, hx, htag⟩ := h
  exact ⟨x, (hfg.get? (lt_size_of_get? hx)).trans hx, htag⟩

private theorem keeps_of_mem_ids (hid : id ∈ f.ids other) (hother : other ≠ tag) :
    f.Keeps tag id := by
  obtain ⟨x, hx, rfl⟩ := mem_ids.mp hid
  exact ⟨x, hx, hother⟩

theorem Keeps.not_mem_ids (h : f.Keeps tag id) : id ∉ f.ids tag := by
  obtain ⟨x, hx, hother⟩ := h
  intro hid
  obtain ⟨y, hy, htag⟩ := mem_ids.mp hid
  rw [Option.some.inj (hx.symm.trans hy)] at hother
  exact hother htag

theorem Grows.rank {new : Tag → Prop} (hfg : f.Grows new g) (hid : id ≤ f.size) :
    g.rank tag id = f.rank tag id := by
  obtain ⟨facts, hg, -⟩ := hfg
  rw [FactForest.rank, FactForest.rank, hg, List.take_append_of_le_length]
  rwa [← size_eq_length]

theorem Grows.map_rank_ids {new : Tag → Prop} (hfg : f.Grows new g) (other : Tag) :
    (f.ids other).map (g.rank tag) = (f.ids other).map (f.rank tag) := by
  apply List.map_congr_left
  intro id hid
  exact hfg.rank (lt_size_of_mem_ids hid).le

private theorem rank_size (f : FactForest V) (tag : Tag) :
    f.rank tag f.size = (f.without tag).length := by
  rw [rank, without, List.length_map, ← List.countP_eq_length_filter, size_eq_length,
    List.take_length]

theorem without_insert (f : FactForest V) (tag other : Tag) (v : V) (p : FactId) (hf : f.Older)
    (hp : p ≤ f.size) :
    (f.insert other v (some p)).without tag =
      f.without tag ++ ([⟨other, v, some p⟩].filter fun x : Fact V => x.tag != tag).map
        (Fact.under (f.rank tag)) := by
  have hgrow := grows_insert f other v p
  have hfacts : (f.insert other v (some p)).facts.toList = f.facts.toList ++ [⟨other, v, some p⟩] :=
    toList_insertAll f other p [v]
  rw [without, hfacts, List.filter_append, List.map_append, without]
  congr 1
  · apply List.map_congr_left
    intro x hx
    obtain ⟨id, hid⟩ := List.mem_iff_getElem?.mp (List.mem_filter.mp hx).1
    have hid : f.get? id = some x := (f.get?_eq_getElem? id).trans hid
    apply Fact.under_congr
    intro q hq
    exact hgrow.rank ((hf id x q hid hq).trans (lt_size_of_get? hid)).le
  · apply List.map_congr_left
    intro x hx
    obtain rfl := List.mem_singleton.mp (List.mem_filter.mp hx).1
    apply Fact.under_congr
    intro q hq
    exact hgrow.rank (Option.some.inj hq ▸ hp)

namespace Thins

theorem get? (h : Thins tag f g) (hx : f.get? id = some x) (htag : x.tag ≠ tag) :
    g.get? (f.rank tag id) = some (x.under (f.rank tag)) := by
  rw [get?_eq_getElem?] at hx ⊢
  rw [h.facts, without, List.getElem?_map, rank, getElem?_filter_countP hx (by simpa using htag)]
  rfl

private theorem rank_lt_size (h : Thins tag f g) (ha : f.Keeps tag a) : f.rank tag a < g.size := by
  obtain ⟨x, hx, htag⟩ := ha
  exact lt_size_of_get? (h.get? hx htag)

private theorem rank_size (h : Thins tag f g) : f.rank tag f.size = g.size := by
  rw [FactForest.rank_size, ← h.facts, size_eq_length]

theorem trail (h : Thins tag f g) (hid : f.Keeps tag id) :
    g.trail (f.rank tag id) = f.trail id := by
  apply trail_of_copies h.older h.thinned_older ?_ hid
  rintro id ⟨x, hx, htag⟩
  exact ⟨x, hx, h.get? hx htag, fun p hp => h.parents id x p hx hp⟩

theorem root? (h : Thins tag f g) : g.root?.map Fact.value = f.root?.map Fact.value := by
  obtain ⟨x, hx, htag⟩ := h.top
  have hroot : g.get? 0 = some (x.under (f.rank tag)) := h.get? hx htag
  rw [FactForest.root?, FactForest.root?, hx, hroot]
  rfl

private theorem head?_ofTag (h : Thins tag f g) (hother : other ≠ tag) :
    (g.ofTag other).head?.map Fact.value = (f.ofTag other).head?.map Fact.value := by
  have hfacts : g.ofTag other = (f.ofTag other).map (Fact.under (f.rank tag)) := by
    rw [ofTag_eq, ofTag_eq, h.ids other hother, List.filterMap_map, List.map_filterMap]
    apply List.filterMap_congr
    intro id hid
    obtain ⟨x, hx, htag⟩ := keeps_of_mem_ids hid hother
    rw [Function.comp_apply, h.get? hx htag, hx, Option.map_some]
  rw [hfacts]
  cases f.ofTag other <;> rfl

private theorem parents_insert (h : Thins tag f g) (ha : f.Keeps tag a) (other : Tag) (v : V) :
    ∀ id x p, (f.insert other v (some a)).get? id = some x → x.parent = some p →
      (f.insert other v (some a)).Keeps tag p := by
  have hgrow := grows_insert f other v a
  intro id x p hx hp
  rw [get?_insert] at hx
  split at hx
  · obtain rfl := Option.some.inj hx
    obtain rfl := Option.some.inj hp
    exact ha.grows hgrow
  · exact (h.parents id x p hx hp).grows hgrow

theorem insert (h : Thins tag f g) (ha : f.Keeps tag a) (hother : other ≠ tag) (v : V) :
    Thins tag (f.insert other v (some a)) (g.insert other v (some (f.rank tag a))) where
  facts := by
    have hfacts : (g.insert other v (some (f.rank tag a))).facts.toList =
        g.facts.toList ++ [⟨other, v, some (f.rank tag a)⟩] := toList_insertAll g other _ [v]
    rw [hfacts, h.facts, without_insert f tag other v a h.older ha.lt_size.le,
      List.filter_cons_of_pos (by simpa using hother)]
    rfl
  ids t ht := by
    have hgrow := grows_insert f other v a
    rw [ids_insert, ids_insert, List.map_append, hgrow.map_rank_ids, h.ids t ht]
    congr 1
    split
    · rw [List.map_singleton, hgrow.rank (Nat.le_refl _), h.rank_size]
    · rfl
  older := h.older.insertAll other [v] ha.lt_size
  thinned_older := h.thinned_older.insertAll other [v] (h.rank_lt_size ha)
  top := h.top.grows (grows_insert f other v a)
  parents := h.parents_insert ha other v

private theorem insert_dropped (h : Thins tag f g) (ha : f.Keeps tag a) (v : V) :
    Thins tag (f.insert tag v (some a)) g where
  facts := by
    rw [h.facts, without_insert f tag tag v a h.older ha.lt_size.le,
      List.filter_cons_of_neg (by simp)]
    exact (List.append_nil _).symm
  ids t ht := by
    rw [ids_insert, if_neg ht.symm, List.append_nil, (grows_insert f tag v a).map_rank_ids,
      h.ids t ht]
  older := h.older.insertAll tag [v] ha.lt_size
  thinned_older := h.thinned_older
  top := h.top.grows (grows_insert f tag v a)
  parents := h.parents_insert ha tag v

theorem insertAll (h : Thins tag f g) (ha : f.Keeps tag a) (hother : other ≠ tag)
    (values : List V) :
    Thins tag (f.insertAll other a values) (g.insertAll other (f.rank tag a) values) := by
  induction values generalizing f g with
  | nil => exact h
  | cons v values ih =>
    have hgrow := grows_insert f other v a
    have hrest := ih (h.insert ha hother v) (ha.grows hgrow)
    rwa [hgrow.rank ha.lt_size.le] at hrest

private theorem insertAll_dropped (h : Thins tag f g) (ha : f.Keeps tag a) (values : List V) :
    Thins tag (f.insertAll tag a values) g := by
  induction values generalizing f with
  | nil => exact h
  | cons v values ih =>
    exact ih (h.insert_dropped ha v) (ha.grows (grows_insert f tag v a))

end Thins

theorem thins_of_root {tag : Tag} (hf : f.facts.toList = [x]) (hg : g.facts.toList = [x])
    (hparent : x.parent = none) (htag : x.tag ≠ tag) : Thins tag f g := by
  have hunder : x.under (f.rank tag) = x := Fact.under_of_root _ hparent
  have honly : ∀ (h : FactForest V), h.facts.toList = [x] → ∀ id y, h.get? id = some y →
      id = 0 ∧ y = x := by
    intro h hh id y hy
    rw [get?_eq_getElem?, hh] at hy
    cases id with
    | zero => exact ⟨rfl, (Option.some.inj hy).symm⟩
    | succ id => cases hy
  have hold : ∀ (h : FactForest V), h.facts.toList = [x] → h.Older := by
    intro h hh id y p hy hp
    rw [(honly h hh id y hy).2, hparent] at hp
    cases hp
  constructor
  · rw [hg, without, hf, List.filter_cons_of_pos (by simpa using htag)]
    exact congrArg (fun y => [y]) hunder.symm
  · intro other _
    have hranks : (f.ids other).map (f.rank tag) = f.ids other := by
      rw [List.map_congr_left (g := id), List.map_id]
      intro id hid
      obtain ⟨y, hy, -⟩ := mem_ids.mp hid
      rw [(honly f hf id y hy).1]
      rfl
    rw [hranks]
    exact ids_congr (Array.toList_inj.mp (hg.trans hf.symm)) other
  · exact hold f hf
  · exact hold g hg
  · exact ⟨x, by rw [get?_eq_getElem?, hf]; rfl, htag⟩
  · intro id y p hy hp
    rw [(honly f hf id y hy).2, hparent] at hp
    cases hp

end FactForest

section Runs

variable {vars : Variables} {r : ScheduledRule V E} {rules : List (ScheduledRule V E)}
  {f f' g : FactForest V} {anchors : List FactId} {tag : Tag}

/-- The rule has nothing to do with a tag: neither reads nor writes it, nor fires at its facts. -/
structure ScheduledRule.Apart (r : ScheduledRule V E) (tag : Tag) : Prop where
  reads : r.descriptor.reads tag = false
  output : r.descriptor.output ≠ tag
  anchor : r.anchor ≠ tag

private theorem ScheduledRule.fireAt_thins {a : FactId} (hr : r.descriptor.reads tag = false)
    (h : f.Thins tag g) (ha : f.Keeps tag a) :
    r.fireAt vars g (f.rank tag a) = r.fireAt vars f a := by
  apply fireAt_of_trail h.root? (h.trail ha)
  intro i hi _
  apply h.head?_ofTag
  rintro rfl
  rw [Descriptor.reads_of_mem hi] at hr
  cases hr

private theorem ScheduledRule.fireEach_thins (hr : r.Apart tag) (h : f.Thins tag g)
    (hanchors : ∀ a ∈ anchors, f.Keeps tag a) (hfire : r.fireEach vars anchors f = (f', none)) :
    ∃ g', r.fireEach vars (anchors.map (f.rank tag)) g = (g', none) ∧ f'.Thins tag g' := by
  induction anchors generalizing f g with
  | nil =>
    cases hfire
    exact ⟨g, rfl, h⟩
  | cons a rest ih =>
    have ha := hanchors a List.mem_cons_self
    obtain ⟨values, hvalues, hrest⟩ := fireEach_cons hfire
    have hgrow := FactForest.grows_of_insertAll f r.descriptor.output a values
    have hranks : rest.map ((f.insertAll r.descriptor.output a values).rank tag) =
        rest.map (f.rank tag) := by
      apply List.map_congr_left
      intro b hb
      exact hgrow.rank (hanchors b (List.mem_cons_of_mem _ hb)).lt_size.le
    obtain ⟨g', hg', hthins⟩ := ih (h.insertAll ha hr.output values)
      (fun b hb => (hanchors b (List.mem_cons_of_mem _ hb)).grows hgrow) hrest
    refine ⟨g', ?_, hthins⟩
    rw [List.map_cons, fireEach, fireAt_thins hr.reads h ha, hvalues, ← hranks]
    exact hg'

private theorem ScheduledRule.fireEach_dropped (h : f.Thins r.descriptor.output g)
    (hanchors : ∀ a ∈ anchors, f.Keeps r.descriptor.output a)
    (hfire : r.fireEach vars anchors f = (f', none)) : f'.Thins r.descriptor.output g := by
  induction anchors generalizing f with
  | nil =>
    cases hfire
    exact h
  | cons a rest ih =>
    obtain ⟨values, -, hrest⟩ := fireEach_cons hfire
    have hgrow := FactForest.grows_of_insertAll f r.descriptor.output a values
    exact ih (h.insertAll_dropped (hanchors a List.mem_cons_self) values)
      (fun b hb => (hanchors b (List.mem_cons_of_mem _ hb)).grows hgrow) hrest

private theorem fireAll_thins (hrules : ∀ r ∈ rules, r.Apart tag) (h : f.Thins tag g)
    (hrun : fireAll vars rules f = (f', none)) :
    ∃ g', fireAll vars rules g = (g', none) ∧ f'.Thins tag g' := by
  induction rules generalizing f g with
  | nil =>
    cases hrun
    exact ⟨g, rfl, h⟩
  | cons r rules ih =>
    have hr := hrules r List.mem_cons_self
    obtain ⟨f₁, hfire, hrest⟩ := fireAll_cons hrun
    obtain ⟨g₁, hfire', h₁⟩ := ScheduledRule.fireEach_thins hr h
      (fun a ha => FactForest.keeps_of_mem_ids ha hr.anchor) hfire
    obtain ⟨g', hg', h'⟩ := ih (fun s hs => hrules s (List.mem_cons_of_mem _ hs)) h₁ hrest
    refine ⟨g', ?_, h'⟩
    rw [fireAll, ScheduledRule.fire, h.ids r.anchor hr.anchor, hfire']
    exact hg'

private theorem fireAll_append {later : List (ScheduledRule V E)} :
    fireAll vars (rules ++ later) f = (f', none) ↔
      ∃ g, fireAll vars rules f = (g, none) ∧ fireAll vars later g = (f', none) := by
  induction rules generalizing f with
  | nil =>
    constructor
    · exact fun h => ⟨f, rfl, h⟩
    · rintro ⟨g, hg, h⟩
      cases hg
      exact h
  | cons r rules ih =>
    rw [List.cons_append, fireAll, fireAll]
    cases r.fire vars f with
    | mk g failure =>
      cases failure with
      | none => exact ih
      | some e => simp

theorem fireAll_dropped {first later : List (ScheduledRule V E)}
    (hrules : ∀ s ∈ first ++ later, s.Apart r.descriptor.output)
    (hanchor : r.anchor ≠ r.descriptor.output) (h : f.Thins r.descriptor.output g)
    (hrun : fireAll vars (first ++ r :: later) f = (f', none)) :
    ∃ g', fireAll vars (first ++ later) g = (g', none) ∧ f'.Thins r.descriptor.output g' := by
  obtain ⟨f₁, hfirst, hrest⟩ := fireAll_append.mp hrun
  obtain ⟨f₂, hfire, hlater⟩ := fireAll_cons hrest
  obtain ⟨g₁, hfirst', h₁⟩ :=
    fireAll_thins (fun s hs => hrules s (List.mem_append_left _ hs)) h hfirst
  have h₂ : f₂.Thins r.descriptor.output g₁ :=
    ScheduledRule.fireEach_dropped h₁ (fun a ha => FactForest.keeps_of_mem_ids ha hanchor) hfire
  obtain ⟨g', hlater', h'⟩ :=
    fireAll_thins (fun s hs => hrules s (List.mem_append_right _ hs)) h₂ hlater
  exact ⟨g', fireAll_append.mpr ⟨g₁, hfirst', hlater'⟩, h'⟩

end Runs

end SlowRequest
