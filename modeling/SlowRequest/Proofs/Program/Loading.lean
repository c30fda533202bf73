import SlowRequest.Program.Loading
import SlowRequest.Proofs.Trace.Names
import Mathlib.Data.List.Nodup
import Mathlib.Data.String.Basic
namespace SlowRequest

variable {files listing : List TextFile} {directory : String}

/-! ## Order -/

theorem append_lt_append_iff (p l m : List Char) : p ++ l < p ++ m ↔ l < m := by
  induction p with
  | nil => rfl
  | cons c p ih =>
    rw [List.cons_append, List.cons_append, List.cons_lt_cons_iff, ih]
    simp

private theorem pathIn_lt_pathIn_iff (a b : String) :
    pathIn directory a < pathIn directory b ↔ a < b := by
  rw [pathIn, pathIn]
  split <;> simp only [String.lt_iff_toList_lt, String.toList_append, append_lt_append_iff]

theorem pairwise_traceTexts (files : List TextFile) :
    (traceTexts files).Pairwise fun a b => a.name ≤ b.name := by
  have hsorted : (traceTexts files).Pairwise fun a b => decide (a.name ≤ b.name) = true := by
    apply List.pairwise_mergeSort
    · intro a b c hab hbc
      simp only [decide_eq_true_eq] at *
      exact hab.trans hbc
    · intro a b
      simp only [Bool.or_eq_true, decide_eq_true_eq]
      exact le_total _ _
  exact hsorted.imp of_decide_eq_true

private theorem traceTexts_perm (files : List TextFile) :
    (traceTexts files).Perm (files.filter fun f => isTraceName f.name) := List.mergeSort_perm ..

theorem mem_traceTexts {f : TextFile} :
    f ∈ traceTexts files ↔ f ∈ files ∧ isTraceName f.name = true := by
  rw [(traceTexts_perm files).mem_iff, List.mem_filter]

/-- Files of different names come in one order. -/
theorem traceTexts_eq_of_perm (h : listing.Perm files)
    (hnames : (files.map TextFile.name).Nodup) : traceTexts listing = traceTexts files := by
  refine List.Perm.eq_of_pairwise ?_ (pairwise_traceTexts listing) (pairwise_traceTexts files) ?_
  · intro a b ha hb hab hba
    have ha' := h.subset (mem_traceTexts.mp ha).1
    have hb' := (mem_traceTexts.mp hb).1
    exact List.inj_on_of_nodup_map hnames ha' hb' (le_antisymm hab hba)
  · exact (traceTexts_perm listing).trans ((h.filter _).trans (traceTexts_perm files).symm)

private theorem pairwise_lt_traceTexts (hnames : (files.map TextFile.name).Nodup) :
    (traceTexts files).Pairwise fun a b => a.name < b.name := by
  have hnodup : ((traceTexts files).map TextFile.name).Nodup :=
    ((traceTexts_perm files).map _).nodup_iff.mpr
      (hnames.sublist (List.filter_sublist.map TextFile.name))
  have hne := List.pairwise_map.mp hnodup
  exact (pairwise_traceTexts files).imp₂ (fun _ _ hle hne => lt_of_le_of_ne hle hne) hne

/-! ## Traces -/

def TextFile.load? (directory : String) (f : TextFile) : Option LoadedTrace :=
  (TraceFile.read f.text).toOption.map fun trace => ⟨pathIn directory f.name, trace⟩

theorem TextFile.load?_eq_some_iff {f : TextFile} {x : LoadedTrace} :
    f.load? directory = some x ↔
      pathIn directory f.name = x.path ∧ TraceFile.read f.text = .ok x.trace := by
  rw [load?]
  cases TraceFile.read f.text with
  | error e => simp [Except.toOption]
  | ok trace =>
    cases x
    simp [Except.toOption]

private theorem fst_readTraces (directory : String) (files : List TextFile) :
    (readTraces directory files).1 = files.filterMap (TextFile.load? directory) := by
  induction files with
  | nil => rfl
  | cons f files ih =>
    rw [readTraces, List.filterMap_cons, TextFile.load?]
    cases TraceFile.read f.text with
    | error e => exact ih
    | ok trace => exact congrArg (_ :: ·) ih

theorem loadTraces_eq_of_perm (h : listing.Perm files)
    (hnames : (files.map TextFile.name).Nodup) :
    loadTraces directory listing = loadTraces directory files := by
  rw [loadTraces, loadTraces, traceTexts_eq_of_perm h hnames]

theorem mem_loadTraces {x : LoadedTrace} : x ∈ (loadTraces directory files).1 ↔
    ∃ f ∈ files, isTraceName f.name = true ∧ pathIn directory f.name = x.path ∧
      TraceFile.read f.text = .ok x.trace := by
  simp only [loadTraces, fst_readTraces, List.mem_filterMap, mem_traceTexts,
    TextFile.load?_eq_some_iff, and_assoc]

theorem pairwise_loadTraces (hnames : (files.map TextFile.name).Nodup) :
    (loadTraces directory files).1.Pairwise fun x y => x.path < y.path := by
  rw [loadTraces, fst_readTraces]
  refine (pairwise_lt_traceTexts hnames).filterMap _ ?_
  intro a b hlt x hx y hy
  rw [← (TextFile.load?_eq_some_iff.mp hx).1, ← (TextFile.load?_eq_some_iff.mp hy).1]
  exact (pathIn_lt_pathIn_iff a.name b.name).mpr hlt

/-! ## Names -/

section Renaming

variable {κ : Type} [DecidableEq κ]

private theorem lookup_cons_if (j k : κ) (name : String) (names : List (κ × String)) :
    ((j, name) :: names).lookup k = if k = j then some name else names.lookup k := by
  rw [List.lookup_cons]
  by_cases hk : k = j
  · simp [hk]
  · simp [hk, beq_false_of_ne hk]

private theorem lookup_rename (key k : κ) (name : String) (names : List (κ × String)) :
    (rename key name names).lookup k = if k = key then some name else names.lookup k := by
  induction names with
  | nil => rw [rename, lookup_cons_if]
  | cons p names ih =>
    obtain ⟨j, other⟩ := p
    rw [rename]
    by_cases hj : j = key
    · rw [if_pos hj, lookup_cons_if, lookup_cons_if, hj]
      by_cases hk : k = key <;> simp [hk]
    · rw [if_neg hj, lookup_cons_if, lookup_cons_if, ih]
      by_cases hk : k = j <;> simp [hk, hj]

private theorem lookup_foldl_rename {entries : List (κ × String)} (h : (entries.map Prod.fst).Nodup)
    (names : List (κ × String)) (k : κ) :
    (entries.foldl (fun names p => rename p.1 p.2 names) names).lookup k =
      (entries.lookup k).or (names.lookup k) := by
  induction entries generalizing names with
  | nil => rfl
  | cons p entries ih =>
    obtain ⟨j, name⟩ := p
    obtain ⟨hnone, hrest⟩ := List.nodup_cons.mp h
    rw [List.foldl_cons, ih hrest, lookup_rename, lookup_cons_if]
    by_cases hk : k = j
    · have hmissing : entries.lookup k = none := by
        apply List.lookup_eq_none_iff.mpr
        intro q hq
        have hne : q.1 ≠ j := by
          rintro rfl
          exact hnone (List.mem_map.mpr ⟨q, hq, rfl⟩)
        simp [hk, hne.symm]
      rw [hmissing, if_pos hk, if_pos hk]
      rfl
    · rw [if_neg hk, if_neg hk]

end Renaming

private theorem getLast?_cons_or {α β : Type} (f : α → Option β) (x : α) (xs : List α)
    (b : Option β) :
    ((x :: xs).filterMap f).getLast?.or b = (xs.filterMap f).getLast?.or ((f x).or b) := by
  rw [List.filterMap_cons]
  cases f x with
  | none => rfl
  | some y => cases h : (xs.filterMap f).getLast? <;> simp [List.getLast?_cons, h]

private theorem foldl_view {α β γ : Type} {f : α → β} {g : α → γ → α} {l : List γ} {a : α}
    (h : ∀ a c, f (g a c) = f a) : f (l.foldl g a) = f a := by
  induction l generalizing a with
  | nil => rfl
  | cons c l ih => exact ih.trans (h a c)

namespace TraceFile

private theorem methods_addNames (f : TraceFile) (t : NameTable) :
    (f.addNames t).methods =
      f.methods.foldl (fun names p => rename p.1 p.2 names) t.methods := by
  have hkept := foldl_view (f := NameTable.methods) (l := f.applications)
    (g := fun t p => t.insertApplication p.1 p.2)
    (a := f.methods.foldl (fun t p => t.insertMethod p.1 p.2) t) fun _ _ => rfl
  exact hkept.trans (List.foldl_hom NameTable.methods fun _ _ => rfl).symm

private theorem applications_addNames (f : TraceFile) (t : NameTable) :
    (f.addNames t).applications =
      f.applications.foldl (fun names p => rename p.1 p.2 names) t.applications := by
  have hkept := foldl_view (f := NameTable.applications) (l := f.methods)
    (g := fun t p => t.insertMethod p.1 p.2) (a := t) fun _ _ => rfl
  rw [← hkept]
  exact (List.foldl_hom NameTable.applications fun _ _ => rfl).symm

end TraceFile

section Naming

variable {traces : List LoadedTrace}

theorem method?_foldl_addNames (h : ∀ x ∈ traces, x.trace.NamesOnce) (t : NameTable)
    (m : UInt64) : (traces.foldl (fun t x => x.trace.addNames t) t).method? m =
      (traces.filterMap fun x => x.trace.methods.lookup m).getLast?.or (t.method? m) := by
  induction traces generalizing t with
  | nil => rfl
  | cons x traces ih =>
    have hx := h x List.mem_cons_self
    rw [List.foldl_cons, ih (fun y hy => h y (List.mem_cons_of_mem _ hy)), getLast?_cons_or,
      NameTable.method?, TraceFile.methods_addNames, lookup_foldl_rename hx.methods]
    rfl

theorem application?_foldl_addNames (h : ∀ x ∈ traces, x.trace.NamesOnce) (t : NameTable)
    (a : UInt32) : (traces.foldl (fun t x => x.trace.addNames t) t).application? a =
      (traces.filterMap fun x => x.trace.applications.lookup a).getLast?.or
        (t.application? a) := by
  induction traces generalizing t with
  | nil => rfl
  | cons x traces ih =>
    have hx := h x List.mem_cons_self
    rw [List.foldl_cons, ih (fun y hy => h y (List.mem_cons_of_mem _ hy)), getLast?_cons_or,
      NameTable.application?, TraceFile.applications_addNames,
      lookup_foldl_rename hx.applications]
    rfl

/-- The last trace that names a method names it for good. -/
theorem method?_namesOf (h : ∀ x ∈ traces, x.trace.NamesOnce) (m : UInt64) :
    (namesOf traces).method? m =
      (traces.filterMap fun x => x.trace.methods.lookup m).getLast? := by
  rw [namesOf, method?_foldl_addNames h]
  exact Option.or_none ..

theorem application?_namesOf (h : ∀ x ∈ traces, x.trace.NamesOnce) (a : UInt32) :
    (namesOf traces).application? a =
      (traces.filterMap fun x => x.trace.applications.lookup a).getLast? := by
  rw [namesOf, application?_foldl_addNames h]
  exact Option.or_none ..

end Naming

end SlowRequest
