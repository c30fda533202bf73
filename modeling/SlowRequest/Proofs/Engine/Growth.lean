import SlowRequest.Engine.Session
import Mathlib.Data.List.Basic
import Mathlib.Data.List.Find
/-! # Forests that grow -/
namespace SlowRequest

theorem mapM_option_congr {α β : Type} {f g : α → Option β} {xs : List α}
    (h : ∀ x ∈ xs, f x = g x) : xs.mapM f = xs.mapM g := by
  induction xs with
  | nil => rfl
  | cons x xs ih =>
    rw [List.mapM_cons, List.mapM_cons, h x List.mem_cons_self,
      ih fun y hy => h y (List.mem_cons_of_mem _ hy)]

theorem forall₂_of_mapM {α β : Type} {f : α → Option β} {xs : List α} {ys : List β}
    (h : xs.mapM f = some ys) : List.Forall₂ (fun x y => f x = some y) xs ys := by
  induction xs generalizing ys with
  | nil =>
    cases h
    exact List.Forall₂.nil
  | cons x xs ih =>
    rw [List.mapM_cons] at h
    obtain ⟨y, hy, h⟩ := Option.bind_eq_some_iff.mp h
    obtain ⟨zs, hzs, h⟩ := Option.bind_eq_some_iff.mp h
    cases h
    exact List.Forall₂.cons hy (ih hzs)

theorem mapM_of_forall₂ {α β : Type} {f : α → Option β} {xs : List α} {ys : List β}
    (h : List.Forall₂ (fun x y => f x = some y) xs ys) : xs.mapM f = some ys := by
  induction h with
  | nil => rfl
  | cons hxy _ ih =>
    rw [List.mapM_cons, hxy, ih]
    rfl

theorem mapM_option_isSome {α β : Type} {f : α → Option β} {xs : List α} :
    (xs.mapM f).isSome ↔ ∀ x ∈ xs, (f x).isSome := by
  induction xs with
  | nil => simp
  | cons x xs ih =>
    rw [List.mapM_cons, List.forall_mem_cons, ← ih]
    cases f x with
    | none => simp
    | some y => cases xs.mapM f <;> simp

theorem exists_of_mapM_eq_none {α β : Type} {f : α → Option β} {xs : List α}
    (h : xs.mapM f = none) : ∃ x ∈ xs, f x = none := by
  induction xs with
  | nil => cases h
  | cons x xs ih =>
    cases hx : f x with
    | none => exact ⟨x, List.mem_cons_self, hx⟩
    | some y =>
      have hxs : xs.mapM f = none := by
        cases hm : xs.mapM f with
        | none => rfl
        | some ys => simp [List.mapM_cons, hx, hm] at h
      obtain ⟨z, hz, hnone⟩ := ih hxs
      exact ⟨z, List.mem_cons_of_mem _ hz, hnone⟩

namespace FactForest

variable {V : Type} {new : Tag → Prop} {f g h : FactForest V} {id p : FactId} {tag : Tag}

/-- `g` is `f` and after it facts whose tags satisfy `new`. -/
def Grows (new : Tag → Prop) (f g : FactForest V) : Prop :=
  ∃ facts, g.facts.toList = f.facts.toList ++ facts ∧ ∀ x ∈ facts, new x.tag

theorem Grows.refl (new : Tag → Prop) (f : FactForest V) : Grows new f f :=
  ⟨[], by simp, by simp⟩

theorem Grows.trans (hfg : Grows new f g) (hgh : Grows new g h) : Grows new f h := by
  obtain ⟨xs, hg, hxs⟩ := hfg
  obtain ⟨ys, hh, hys⟩ := hgh
  refine ⟨xs ++ ys, ?_, ?_⟩
  · rw [hh, hg, List.append_assoc]
  · intro x hx
    rcases List.mem_append.mp hx with hx | hx
    · exact hxs x hx
    · exact hys x hx

private theorem stored?_insert (f : FactForest V) (tag : Tag) (value : V) (parent : Option FactId)
    (id : FactId) : (f.insert tag value parent).stored? id =
      if id = f.size then some ⟨⟨tag, value, parent⟩, f.size⟩ else f.stored? id :=
  Array.getElem?_push

theorem get?_insert (f : FactForest V) (tag : Tag) (value : V) (parent : Option FactId)
    (id : FactId) : (f.insert tag value parent).get? id =
      if id = f.size then some ⟨tag, value, parent⟩ else f.get? id := by
  rw [get?, stored?_insert]
  split <;> rfl

theorem ids_insert (f : FactForest V) (tag other : Tag) (value : V) (parent : Option FactId) :
    (f.insert tag value parent).ids other = f.ids other ++ if tag = other then [f.size] else [] :=
  TagIndex.bucket_add tag other f.size f.index

theorem toList_insertAll (f : FactForest V) (tag : Tag) (parent : FactId) (values : List V) :
    (f.insertAll tag parent values).facts.toList =
      f.facts.toList ++ values.map fun v => ⟨tag, v, some parent⟩ := by
  induction values generalizing f with
  | nil => simp [insertAll]
  | cons v vs ih =>
    rw [insertAll, List.foldl_cons]
    change ((f.insert tag v (some parent)).insertAll tag parent vs).facts.toList = _
    rw [ih, facts_insert]
    simp

theorem grows_insertAll (f : FactForest V) (parent : FactId) (values : List V) (hnew : new tag) :
    Grows new f (f.insertAll tag parent values) := by
  refine ⟨_, toList_insertAll f tag parent values, ?_⟩
  intro x hx
  obtain ⟨v, -, rfl⟩ := List.mem_map.mp hx
  exact hnew

theorem grows_of_insertAll (f : FactForest V) (tag : Tag) (parent : FactId) (values : List V) :
    Grows (fun _ => True) f (f.insertAll tag parent values) :=
  grows_insertAll f parent values trivial

theorem grows_insert (f : FactForest V) (tag : Tag) (v : V) (p : FactId) :
    Grows (fun _ => True) f (f.insert tag v (some p)) :=
  grows_of_insertAll f tag p [v]

theorem get?_isSome_iff : (f.get? id).isSome ↔ id < f.size := by
  rw [get?_eq_getElem?, size_eq_length]
  simp

theorem exists_of_lt_size (hid : id < f.size) : ∃ x, f.get? id = some x :=
  Option.isSome_iff_exists.mp (get?_isSome_iff.mpr hid)

theorem Grows.size_le (hfg : Grows new f g) : f.size ≤ g.size := by
  obtain ⟨xs, hg, -⟩ := hfg
  rw [size_eq_length, size_eq_length, hg, List.length_append]
  omega

theorem Grows.get? (hfg : Grows new f g) (hid : id < f.size) : g.get? id = f.get? id := by
  obtain ⟨xs, hg, -⟩ := hfg
  rw [size_eq_length] at hid
  rw [get?_eq_getElem?, get?_eq_getElem?, hg, List.getElem?_append_left hid]

theorem lt_size_of_get? {x : Fact V} (hx : f.get? id = some x) : id < f.size := by
  rw [← get?_isSome_iff, hx]
  rfl

theorem mem_ids : id ∈ f.ids tag ↔ ∃ x, f.get? id = some x ∧ x.tag = tag := by
  rw [ids_eq, List.mem_filter, List.mem_range]
  cases hx : f.get? id with
  | none => simp
  | some x => simp [lt_size_of_get? hx]

theorem lt_size_of_mem_ids (hid : id ∈ f.ids tag) : id < f.size := by
  obtain ⟨x, hx, -⟩ := mem_ids.mp hid
  exact lt_size_of_get? hx

theorem Grows.mem_ids (hfg : Grows new f g) (hid : id ∈ f.ids tag) : id ∈ g.ids tag := by
  rw [FactForest.mem_ids, hfg.get? (lt_size_of_mem_ids hid)]
  exact FactForest.mem_ids.mp hid

theorem id_of_stored? {fact : StoredFact V} (h : f.stored? id = some fact) : fact.id = id := by
  have hid : (f.stored.toList.map StoredFact.id)[id]? = some fact.id := by
    rw [List.getElem?_map, Array.getElem?_toList, show f.stored[id]? = some fact from h]
    rfl
  rw [f.numbered, List.getElem?_eq_some_iff] at hid
  obtain ⟨hlt, hid⟩ := hid
  rw [← hid, List.getElem_range]

theorem exists_stored? (hid : id < f.size) : ∃ fact, f.stored? id = some fact :=
  ⟨_, Array.getElem?_eq_getElem hid⟩

theorem get?_of_stored? {fact : StoredFact V} (h : f.stored? id = some fact) :
    f.get? id = some fact.toFact := by
  rw [get?, h, Option.map_some]

theorem map_id_entries (f : FactForest V) (tag : Tag) :
    (f.entries tag).map StoredFact.id = f.ids tag := by
  have hself : ∀ id ∈ f.ids tag, (f.stored? id).map StoredFact.id = some id := by
    intro id hid
    obtain ⟨fact, hfact⟩ := exists_stored? (lt_size_of_mem_ids hid)
    rw [hfact, Option.map_some, id_of_stored? hfact]
  rw [entries, List.map_filterMap, List.filterMap_congr hself, List.filterMap_some]

theorem Grows.ids (hfg : Grows new f g) (htag : ¬ new tag) : g.ids tag = f.ids tag := by
  have hsize := hfg.size_le
  have hold : ∀ id ∈ List.range f.size, ((g.get? id).any (·.tag == tag)) =
      ((f.get? id).any (·.tag == tag)) := by
    intro id hid
    rw [hfg.get? (List.mem_range.mp hid)]
  have hnone : ∀ id ∈ (List.range (g.size - f.size)).map (f.size + ·),
      ¬ ((g.get? id).any (·.tag == tag)) = true := by
    intro id hid hany
    obtain ⟨k, -, rfl⟩ := List.mem_map.mp hid
    obtain ⟨xs, hg, hxs⟩ := hfg
    rw [get?_eq_getElem?, hg, size_eq_length, List.getElem?_append_right (by omega)] at hany
    cases hx : xs[f.facts.toList.length + k - f.facts.toList.length]? with
    | none =>
      rw [hx] at hany
      cases hany
    | some x =>
      rw [hx] at hany
      have hxtag : x.tag = tag := by simpa using hany
      exact htag (hxtag ▸ hxs x (List.mem_of_getElem? hx))
  rw [ids_eq, ids_eq]
  have hrange : List.range g.size =
      List.range f.size ++ (List.range (g.size - f.size)).map (f.size + ·) := by
    rw [← List.range_add, Nat.add_sub_of_le hsize]
  rw [hrange, List.filter_append, List.filter_congr hold, List.filter_eq_nil_iff.mpr hnone,
    List.append_nil]

theorem Grows.ofTag (hfg : Grows new f g) (htag : ¬ new tag) : g.ofTag tag = f.ofTag tag := by
  rw [ofTag_eq, ofTag_eq, hfg.ids htag]
  exact List.filterMap_congr fun id hid => hfg.get? (lt_size_of_mem_ids hid)

theorem ascend_some (f : FactForest V) (id : FactId) :
    f.ascend (some id) = (f.stored? id).map fun fact => (fact, fact.parent) := rfl

theorem lineage_eq {x : Fact V} (hx : f.get? id = some x) :
    f.lineage id = id :: x.parent.elim [] fun p => if p < id then f.lineage p else [] := by
  obtain ⟨fact, hfact, rfl⟩ := Option.map_eq_some_iff.mp hx
  rw [lineage, ascend_some, hfact, Option.map_some]
  cases hp : fact.parent with
  | none => simp only [id_of_stored? hfact, Option.elim_none]
  | some p => simp only [id_of_stored? hfact, Option.elim_some]

theorem lineage_of_foreign (hx : f.get? id = none) : f.lineage id = [] := by
  rw [lineage, ascend_some, Option.map_eq_none_iff.mp hx]
  rfl

theorem le_of_mem_lineage {a : FactId} (ha : a ∈ f.lineage id) : a ≤ id := by
  induction id using Nat.strong_induction_on with
  | _ id ih =>
    cases hx : f.get? id with
    | none =>
      rw [lineage_of_foreign hx] at ha
      cases ha
    | some x =>
      rw [lineage_eq hx] at ha
      rcases List.mem_cons.mp ha with rfl | ha
      · exact le_refl _
      · cases hp : x.parent with
        | none =>
          rw [hp] at ha
          cases ha
        | some p =>
          rw [hp, Option.elim_some] at ha
          split at ha
          · rename_i hlt
            exact (ih p hlt ha).trans hlt.le
          · cases ha

theorem Grows.lineage (hfg : Grows new f g) (hid : id < f.size) :
    g.lineage id = f.lineage id := by
  induction id using Nat.strong_induction_on with
  | _ id ih =>
    obtain ⟨x, hx⟩ := exists_of_lt_size hid
    rw [lineage_eq hx, lineage_eq ((hfg.get? hid).trans hx)]
    cases x.parent with
    | none => rfl
    | some p =>
      rw [Option.elim_some, Option.elim_some]
      by_cases hlt : p < id
      · rw [if_pos hlt, if_pos hlt, ih p hlt (hlt.trans hid)]
      · rw [if_neg hlt, if_neg hlt]

theorem Grows.nearest? (hfg : Grows new f g) (hid : id < f.size) :
    g.nearest? id tag = f.nearest? id tag := by
  rw [FactForest.nearest?, FactForest.nearest?, hfg.lineage hid]
  apply List.find?_congr
  intro a ha
  rw [hfg.get? ((le_of_mem_lineage ha).trans_lt hid)]

theorem exists_of_nearest? {a : FactId} (ha : f.nearest? id tag = some a) :
    ∃ x, f.get? a = some x ∧ x.tag = tag := by
  have hany := List.find?_some ha
  cases hx : f.get? a with
  | none =>
    rw [hx] at hany
    cases hany
  | some x =>
    rw [hx] at hany
    exact ⟨x, rfl, by simpa using hany⟩

theorem Grows.bindInput {input : Input} (hfg : Grows new f g) (hid : id < f.size)
    (hinput : ¬ new input.name) : g.bindInput id input = f.bindInput id input := by
  have hfound : (g.nearest? id input.name).bind g.get? =
      (f.nearest? id input.name).bind f.get? := by
    rw [hfg.nearest? hid]
    cases ha : f.nearest? id input.name with
    | none => rfl
    | some a =>
      obtain ⟨x, hx, -⟩ := exists_of_nearest? ha
      exact hfg.get? (lt_size_of_get? hx)
  rw [FactForest.bindInput, FactForest.bindInput, hfound, hfg.ofTag hinput]

theorem Grows.bind? {inputs : List Input} {vars : Variables} (hfg : Grows new f g)
    (hid : id < f.size) (hinputs : ∀ i ∈ inputs, ¬ new i.name) :
    g.bind? inputs vars id = f.bind? inputs vars id := by
  have hroot : g.root? = f.root? := hfg.get? (Nat.zero_lt_of_lt hid)
  have hbound : inputs.mapM (g.bound? id) = inputs.mapM (f.bound? id) := by
    apply mapM_option_congr
    intro i hi
    rw [FactForest.bound?, FactForest.bound?, hfg.bindInput hid (hinputs i hi)]
  rw [FactForest.bind?, FactForest.bind?, hroot, hbound]

def Older (f : FactForest V) : Prop :=
  ∀ id x p, f.get? id = some x → x.parent = some p → p < id

theorem Older.insertAll (hf : f.Older) (tag : Tag) (values : List V) (hp : p < f.size) :
    (f.insertAll tag p values).Older := by
  intro id x q hx hq
  have hgrow := grows_of_insertAll f tag p values
  by_cases hid : id < f.size
  · rw [hgrow.get? hid] at hx
    exact hf id x q hx hq
  · have hle : f.size ≤ id := Nat.not_lt.mp hid
    have hlen : f.facts.toList.length ≤ id := by rwa [← size_eq_length]
    rw [get?_eq_getElem?, toList_insertAll, List.getElem?_append_right hlen] at hx
    obtain ⟨v, -, rfl⟩ := List.mem_map.mp (List.mem_of_getElem? hx)
    cases hq
    exact hp.trans_le hle

end FactForest

theorem ScheduledRule.fireAt_of_grows {V E : Type} {r : ScheduledRule V E} {vars : Variables}
    {new : Tag → Prop} {f g : FactForest V} {anchor : FactId} (hfg : f.Grows new g)
    (hanchor : anchor < f.size) (hinputs : ∀ i ∈ r.descriptor.inputs, ¬ new i.name) :
    r.fireAt vars g anchor = r.fireAt vars f anchor := by
  rw [ScheduledRule.fireAt, ScheduledRule.fireAt, hfg.bind? hanchor hinputs]

end SlowRequest
