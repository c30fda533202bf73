import Mathlib.Data.List.Nodup
import SlowRequest.Log.Retention
/-!
# What a clean-up leaves

A clean-up takes away the old log files that can be removed, tells how many they were, and leaves
everything else as it was. A directory that cannot be read, or a log file that does not tell its
status, is met before the first removal, and then all is left as it was.
-/
namespace SlowRequest.Log

variable {E : Type} {now : Instant} {retentionDays : Nat} {e : DirectoryEntry E}
  {items : List (Item E (DirectoryEntry E))}

/-- The name of the log file, or that name with a period behind a point. -/
def IsLogName (name : String) : Prop := name = fileName ∨ ∃ period, name = fileName ++ "." ++ period

theorem isLogFile_iff {name : String} : isLogFile name ↔ IsLogName name := by
  rw [isLogFile, IsLogName, Bool.or_eq_true, beq_iff_eq, List.isPrefixOf_iff_prefix]
  refine or_congr Iff.rfl ?_
  constructor
  · rintro ⟨rest, hrest⟩
    refine ⟨String.ofList rest, String.toList_inj.mp ?_⟩
    rw [← hrest]
    simp
  · rintro ⟨rest, rfl⟩
    exact ⟨rest.toList, by simp⟩

instance (name : String) : Decidable (IsLogName name) := decidable_of_iff _ isLogFile_iff

/-- Earlier than `now` by more than some days. -/
def IsOlder (t now : Instant) (days : Nat) : Prop :=
  t.seconds < now.seconds - (days * secondsPerDay : Nat) ∨
    t.seconds = now.seconds - (days * secondsPerDay : Nat) ∧ t.nanos < now.nanos

instance (t now : Instant) (days : Nat) : Decidable (IsOlder t now days) :=
  inferInstanceAs (Decidable (_ ∨ _))

theorem cutoff?_eq_none : cutoff? now retentionDays = none ↔
    now.seconds - (retentionDays * secondsPerDay : Nat) < firstSecond := by
  simp only [cutoff?]
  split <;> simp_all

private theorem le_cutoff {limit : Instant} (h : cutoff? now retentionDays = some limit)
    (t : Instant) :
    (!limit.le t) = decide (IsOlder t now retentionDays) := by
  simp only [cutoff?] at h
  split at h
  · cases h
  · cases h
    rw [Bool.eq_iff_iff, decide_eq_true_eq, IsOlder]
    simp only [Instant.le, Bool.not_or, Bool.and_eq_true, Bool.not_eq_true',
      Bool.and_eq_false_iff, decide_eq_false_iff_not, beq_eq_false_iff_ne]
    omega

/-- A log file that is due to be removed, and can be. -/
structure DirectoryEntry.Removable (now : Instant) (retentionDays : Nat) (e : DirectoryEntry E) :
    Prop where
  name : IsLogName e.name
  expired : ∃ s, e.status = .ok s ∧ s.isFile = true ∧ IsOlder s.modified now retentionDays
  obstacle : e.obstacle = none

def DirectoryEntry.fault? (e : DirectoryEntry E) : Option E :=
  match e.status with
  | .ok _ => none
  | .error reason => if IsLogName e.name then some reason else none

def DirectoryEntry.file? (e : DirectoryEntry E) : Option (DirectoryEntry E × Instant) :=
  match e.status with
  | .ok s => if IsLogName e.name ∧ s.isFile = true then some (e, s.modified) else none
  | .error _ => none

def Item.fault? : Item E (DirectoryEntry E) → Option E
  | .named e => e.fault?
  | .nameless => none
  | .fault reason => some reason

section

variable {α β : Type} {d d' : Directory E}

theorem run_bind {x : StateM (Directory E) α} {a : α} (h : x.run d = (a, d'))
    (f : α → StateM (Directory E) β) : (x >>= f).run d = (f a).run d' := by
  change (match x.run d with | (a, d') => (f a).run d') = _
  rw [h]

private theorem run_bind_ok {x : ExceptT E (StateM (Directory E)) α} {a : α}
    (h : x.run.run d = (.ok a, d')) (f : α → ExceptT E (StateM (Directory E)) β) :
    (x >>= f).run.run d = (f a).run.run d' := run_bind h (ExceptT.bindCont f)

private theorem run_bind_error {x : ExceptT E (StateM (Directory E)) α} {reason : E}
    (h : x.run.run d = (.error reason, d')) (f : α → ExceptT E (StateM (Directory E)) β) :
    (x >>= f).run.run d = (.error reason, d') := run_bind h (ExceptT.bindCont f)

end

theorem collect_run (items : List (Item E (DirectoryEntry E))) (d : Directory E) :
    (collect Directory.folder items).run.run d =
      (match items.findSome? Item.fault? with
        | some reason => .error reason
        | none => .ok ((items.filterMap Item.handle?).filterMap DirectoryEntry.file?), d) := by
  induction items with
  | nil => rfl
  | cons item items ih =>
    cases item with
    | nameless => exact ih
    | fault reason => rfl
    | named e =>
      have hstatus : (ExceptT.mk (Directory.folder.status e)).run.run d = (e.status, d) := rfl
      have hfault : (Item.named e).fault? = e.fault? := rfl
      have hentries : (Item.named e :: items).filterMap Item.handle? =
          e :: items.filterMap Item.handle? := rfl
      rw [collect, List.findSome?_cons, hfault, hentries, List.filterMap_cons,
        DirectoryEntry.fault?, DirectoryEntry.file?]
      by_cases hlog : IsLogName e.name
      · rw [if_pos (show isLogFile (Directory.folder.name e) = true from isLogFile_iff.mpr hlog)]
        cases hs : e.status with
        | error reason =>
          rw [run_bind_error (hs ▸ hstatus)]
          simp [hlog]
        | ok s =>
          rw [run_bind_ok (hs ▸ hstatus)]
          cases hfirst : items.findSome? Item.fault? with
          | some reason =>
            rw [hfirst] at ih
            rw [run_bind_error ih]
          | none =>
            rw [hfirst] at ih
            rw [run_bind_ok ih]
            by_cases hfile : s.isFile = true
            · simp only [hlog, hfile, and_self, if_true]
              rfl
            · simp only [hlog, hfile]
              rfl
      · rw [if_neg (show ¬ isLogFile (Directory.folder.name e) = true from
          fun h => hlog (isLogFile_iff.mp h)), ih]
        cases e.status <;> simp [hlog]

def Item.isOutside (names : List String) (item : Item E (DirectoryEntry E)) : Bool :=
  item.handle?.all fun e => !names.contains e.name

private theorem without_items (name : String) (items : List (Item E (DirectoryEntry E))) :
    Directory.without name (Listing.items items) =
      Listing.items (items.filter (Item.isOutside [name])) := by
  refine congrArg Listing.items (List.filter_congr ?_)
  intro item _
  rw [Bool.eq_iff_iff]
  cases item <;> simp [Item.isOutside, Item.handle?]

private theorem filter_isOutside_nil (items : List (Item E (DirectoryEntry E))) :
    items.filter (Item.isOutside []) = items := by
  rw [List.filter_eq_self]
  intro item _
  cases item <;> rfl

private theorem filter_isOutside_cons (name : String) (names : List String)
    (items : List (Item E (DirectoryEntry E))) :
    (items.filter (Item.isOutside [name])).filter (Item.isOutside names) =
      items.filter (Item.isOutside (name :: names)) := by
  rw [List.filter_filter]
  apply List.filter_congr
  intro item _
  rw [Bool.eq_iff_iff]
  cases item <;> simp [Item.isOutside, Item.handle?, and_comm]

/-- Of some entries exactly those that nothing stands against are removed. -/
theorem removeAll_run (describe : E → String) (directory : String)
    (entries : List (DirectoryEntry E)) (items : List (Item E (DirectoryEntry E))) :
    ∃ c, (removeAll Directory.folder describe directory entries).run (Listing.items items) =
        (c, Listing.items (items.filter (Item.isOutside c.removed))) ∧
      c.removed = (entries.filter fun e => e.obstacle.isNone).map DirectoryEntry.name := by
  induction entries generalizing items with
  | nil =>
    refine ⟨.nothing, ?_, rfl⟩
    rw [Cleanup.nothing, filter_isOutside_nil]
    rfl
  | cons e entries ih =>
    cases ho : e.obstacle with
    | none =>
      obtain ⟨c, hrun, hremoved⟩ := ih (items.filter (Item.isOutside [e.name]))
      have hremove : (Directory.folder.remove e).run (Listing.items items) =
          (.ok (), Listing.items (items.filter (Item.isOutside [e.name]))) := by
        rw [← without_items]
        simp only [Directory.folder, ho]
        rfl
      refine ⟨c.after describe directory e.name (.ok ()), ?_, ?_⟩
      · rw [removeAll, run_bind hremove, run_bind hrun, filter_isOutside_cons]
        rfl
      · rw [List.filter_cons_of_pos (by rw [ho]; rfl), List.map_cons, ← hremoved]
        rfl
    | some reason =>
      obtain ⟨c, hrun, hremoved⟩ := ih items
      have hremove : (Directory.folder.remove e).run (Listing.items items) =
          (.error reason, Listing.items items) := by
        simp only [Directory.folder, ho]
        rfl
      refine ⟨c.after describe directory e.name (.error reason), ?_, ?_⟩
      · rw [removeAll, run_bind hremove, run_bind hrun]
        rfl
      · rw [List.filter_cons_of_neg (by rw [ho]; simp), ← hremoved]
        rfl

/-! ## The clean-up -/

theorem file?_eq_some_iff {f : DirectoryEntry E × Instant} : e.file? = some f ↔
    IsLogName e.name ∧ ∃ s, e.status = .ok s ∧ s.isFile = true ∧ f = (e, s.modified) := by
  rw [DirectoryEntry.file?]
  cases e.status with
  | error reason => simp
  | ok s =>
    simp only [Option.ite_none_right_eq_some, Option.some.injEq, Except.ok.injEq, and_assoc,
      exists_eq_left', @eq_comm _ f]

theorem removable_iff : e.Removable now retentionDays ↔
    (e.file?.any (fun f => IsOlder f.2 now retentionDays) && e.obstacle.isNone) = true := by
  rw [Bool.and_eq_true, Option.isNone_iff_eq_none, Option.any_eq_true]
  constructor
  · rintro ⟨hname, ⟨s, hs, hfile, hold⟩, hobstacle⟩
    exact ⟨⟨_, file?_eq_some_iff.mpr ⟨hname, s, hs, hfile, rfl⟩, decide_eq_true hold⟩, hobstacle⟩
  · rintro ⟨⟨f, hf, hold⟩, hobstacle⟩
    obtain ⟨hname, s, hs, hfile, rfl⟩ := file?_eq_some_iff.mp hf
    exact ⟨hname, ⟨s, hs, hfile, of_decide_eq_true hold⟩, hobstacle⟩

instance (e : DirectoryEntry E) : Decidable (e.Removable now retentionDays) :=
  decidable_of_iff _ removable_iff.symm

private theorem filter_expired {limit : Instant} (h : cutoff? now retentionDays = some limit)
    (entries : List (DirectoryEntry E)) :
    (((entries.filterMap DirectoryEntry.file?).filter fun f => !limit.le f.2).map Prod.fst).filter
        (fun e => e.obstacle.isNone) =
      entries.filter fun e => decide (e.Removable now retentionDays) := by
  induction entries with
  | nil => rfl
  | cons e entries ih =>
    have hremovable : decide (e.Removable now retentionDays) =
        (e.file?.any (fun f => IsOlder f.2 now retentionDays) && e.obstacle.isNone) := by
      rw [Bool.eq_iff_iff, decide_eq_true_eq, removable_iff]
    rw [List.filter_cons, hremovable]
    cases hf : e.file? with
    | none =>
      rw [List.filterMap_cons_none hf, ih]
      rfl
    | some f =>
      rw [List.filterMap_cons_some hf, List.filter_cons, le_cutoff h, Option.any_some]
      cases decide (IsOlder f.2 now retentionDays) with
      | false => exact ih
      | true =>
        obtain ⟨-, s, -, -, rfl⟩ := file?_eq_some_iff.mp hf
        rw [if_pos rfl, List.map_cons, List.filter_cons, ih, Bool.true_and]

def Directory.entries : Directory E → List (DirectoryEntry E)
  | .items items => items.filterMap Item.handle?
  | _ => []

def Directory.Distinct (d : Directory E) : Prop := (d.entries.map DirectoryEntry.name).Nodup

def Item.isLeft (now : Instant) (retentionDays : Nat) (item : Item E (DirectoryEntry E)) : Bool :=
  item.handle?.all fun e => !decide (e.Removable now retentionDays)

private theorem perm_removed {limit : Instant} (h : cutoff? now retentionDays = some limit)
    (entries : List (DirectoryEntry E)) :
    ((expired Directory.folder limit (entries.filterMap DirectoryEntry.file?)).filter
        fun e => e.obstacle.isNone).Perm
      (entries.filter fun e => decide (e.Removable now retentionDays)) := by
  rw [← filter_expired h]
  exact (((List.mergeSort_perm _ _).filter _).map _).filter _

private theorem filter_isOutside_eq {names : List String}
    (hdistinct : Directory.Distinct (Listing.items items))
    (hnames : names.Perm (((items.filterMap Item.handle?).filter fun e =>
      decide (e.Removable now retentionDays)).map DirectoryEntry.name)) :
    items.filter (Item.isOutside names) = items.filter (Item.isLeft now retentionDays) := by
  apply List.filter_congr
  intro item hitem
  cases item with
  | nameless => rfl
  | fault reason => rfl
  | named e =>
    have hentry : e ∈ items.filterMap Item.handle? := List.mem_filterMap.mpr ⟨_, hitem, rfl⟩
    have hmem : e.name ∈ names ↔ e.Removable now retentionDays := by
      rw [hnames.mem_iff, List.mem_map]
      constructor
      · -- the entry of that name that was removed is this one
        rintro ⟨e', he', hname⟩
        obtain ⟨hentry', hremovable⟩ := List.mem_filter.mp he'
        rw [List.inj_on_of_nodup_map hdistinct hentry' hentry hname] at hremovable
        exact of_decide_eq_true hremovable
      · intro hremovable
        exact ⟨e, List.mem_filter.mpr ⟨hentry, decide_eq_true hremovable⟩, rfl⟩
    rw [Item.isOutside, Item.isLeft, Item.handle?, Option.all_some, Option.all_some,
      List.contains_eq_mem, decide_eq_decide.mpr hmem]

private theorem length_left (items : List (Item E (DirectoryEntry E))) :
    ((items.filterMap Item.handle?).filter fun e => decide (e.Removable now retentionDays)).length +
      (items.filter (Item.isLeft now retentionDays)).length = items.length := by
  induction items with
  | nil => rfl
  | cons item items ih =>
    cases item with
    | nameless => exact congrArg (· + 1) ih
    | fault reason => exact congrArg (· + 1) ih
    | named e =>
      have hentry : (Item.named e : Item E _).handle? = some e := rfl
      rw [List.filterMap_cons_some hentry, List.length_cons, List.filter_cons, List.filter_cons,
        Item.isLeft, hentry, Option.all_some]
      cases decide (e.Removable now retentionDays) with
      | true =>
        rw [if_pos rfl, if_neg (by decide), List.length_cons]
        omega
      | false =>
        rw [if_neg (by decide), if_pos (by decide), List.length_cons]
        omega

/-- Whether a clean-up looks at its directory: files are not kept for ever, and the time before
which they are removed can be told. -/
def Active (now : Instant) (retentionDays : Nat) : Prop :=
  retentionDays ≠ 0 ∧ firstSecond ≤ now.seconds - (retentionDays * secondsPerDay : Nat)

/-- How a clean-up of a directory ends: with its answer, and with what is in the directory then. -/
inductive CleansUp (now : Instant) (retentionDays : Nat) :
    Directory E → Except E Nat → Directory E → Prop where
  | idle {d : Directory E} (h : ¬ Active now retentionDays) : CleansUp now retentionDays d (.ok 0) d
  | missing : CleansUp now retentionDays .missing (.ok 0) .missing
  | closed {reason : E} (h : Active now retentionDays) :
      CleansUp now retentionDays (.closed reason) (.error reason) (.closed reason)
  | faulty {items : List (Item E (DirectoryEntry E))} {reason : E}
      (h : Active now retentionDays) (first : items.findSome? Item.fault? = some reason) :
      CleansUp now retentionDays (.items items) (.error reason) (.items items)
  | swept {items : List (Item E (DirectoryEntry E))} {count : Nat}
      (h : Active now retentionDays) (faultless : items.findSome? Item.fault? = none)
      (counted : count + (items.filter (Item.isLeft now retentionDays)).length = items.length) :
      CleansUp now retentionDays (.items items) (.ok count)
        (.items (items.filter (Item.isLeft now retentionDays)))

private theorem active_of_cutoff? {limit : Instant} (hdays : retentionDays ≠ 0)
    (h : cutoff? now retentionDays = some limit) : Active now retentionDays := by
  refine ⟨hdays, Int.not_lt.mp fun hearly => ?_⟩
  rw [cutoff?_eq_none.mpr hearly] at h
  cases h

/-- Every day that a configuration can name lies within reach of a clock that has been set. -/
theorem active_iff (hnow : 0 ≤ now.seconds) (hdays : retentionDays < Word.limit32) :
    Active now retentionDays ↔ retentionDays ≠ 0 := by
  refine ⟨fun h => h.1, fun h => ⟨h, ?_⟩⟩
  rw [firstSecond, Word.signBit, secondsPerDay]
  rw [Word.limit32] at hdays
  omega

private theorem summarized_removed (c : Cleanup) :
    (c.summarized retentionDays).removed = c.removed := by
  rw [Cleanup.summarized]
  split <;> rfl

private theorem logFiles_run (items : List (Item E (DirectoryEntry E))) :
    (logFiles Directory.folder).run.run (Listing.items items) =
      (collect Directory.folder items).run.run (Listing.items items) := rfl

theorem sweep_run {limit : Instant} (describe : E → String) (directory : String)
    (hdays : retentionDays ≠ 0) (hlimit : cutoff? now retentionDays = some limit)
    (hdistinct : Directory.Distinct (Listing.items items))
    (hfirst : items.findSome? Item.fault? = none) :
    ∃ c, (sweep Directory.folder describe directory now retentionDays).run.run
        (Listing.items items) =
          (.ok c, Listing.items (items.filter (Item.isLeft now retentionDays))) ∧
      c.removed.length + (items.filter (Item.isLeft now retentionDays)).length = items.length := by
  have hfiles := collect_run items (Listing.items items)
  rw [hfirst, ← logFiles_run] at hfiles
  obtain ⟨c, hrun, hremoved⟩ := removeAll_run describe directory
    (expired Directory.folder limit ((items.filterMap Item.handle?).filterMap DirectoryEntry.file?))
    items
  have hperm := perm_removed hlimit (items.filterMap Item.handle?)
  have hnames := hperm.map DirectoryEntry.name
  rw [← hremoved] at hnames
  refine ⟨c.summarized retentionDays, ?_, ?_⟩
  · rw [sweep, if_neg hdays, hlimit, run_bind_ok hfiles, ← filter_isOutside_eq hdistinct hnames]
    exact run_bind_ok (congrArg (fun p => (Except.ok p.1, p.2)) hrun) _
  · rw [summarized_removed, hnames.length_eq, List.length_map]
    exact length_left items

/-- A clean-up that is switched off, or has no directory, changes nothing. A directory that cannot
be read, or the first log file in it that does not tell its status, makes it fail with nothing
removed. Otherwise it takes the regular log files away that are older than the days kept, all that
can be removed and no others, and answers how many they were. Only a clock that was never set can
switch a clean-up off besides the configuration. -/
theorem sweep_cleansUp (describe : E → String) (directory : String) (now : Instant)
    (retentionDays : Nat) (d : Directory E) (hdistinct : d.Distinct) :
    (∃ answer left,
      (sweep Directory.folder describe directory now retentionDays).run.run d = (answer, left) ∧
      CleansUp now retentionDays d (answer.map fun c => c.removed.length) left) ∧
    (0 ≤ now.seconds → retentionDays < Word.limit32 →
      (Active now retentionDays ↔ retentionDays ≠ 0)) := by
  refine ⟨?_, active_iff⟩
  by_cases hdays : retentionDays = 0
  · refine ⟨.ok .nothing, d, ?_, .idle fun h => h.1 hdays⟩
    rw [sweep, if_pos hdays]
    rfl
  · cases hlimit : cutoff? now retentionDays with
    | none =>
      refine ⟨.ok .nothing, d, ?_, .idle fun h => ?_⟩
      · rw [sweep, if_neg hdays, hlimit]
        rfl
      · exact Int.not_lt.mpr h.2 (cutoff?_eq_none.mp hlimit)
    | some limit =>
      have hactive := active_of_cutoff? hdays hlimit
      cases d with
      | missing =>
        refine ⟨.ok .nothing, .missing, ?_, .missing⟩
        have hfiles : (logFiles Directory.folder).run.run (Listing.missing : Directory E) =
          (.ok [], Listing.missing) := rfl
        rw [sweep, if_neg hdays, hlimit, run_bind_ok hfiles, expired, List.mergeSort_nil]
        rfl
      | closed reason =>
        refine ⟨.error reason, .closed reason, ?_, .closed hactive⟩
        rw [sweep, if_neg hdays, hlimit]
        rfl
      | items items =>
        cases hfirst : items.findSome? Item.fault? with
        | some reason =>
          refine ⟨.error reason, .items items, ?_, .faulty hactive hfirst⟩
          have hfiles := collect_run items (Listing.items items)
          rw [hfirst, ← logFiles_run] at hfiles
          rw [sweep, if_neg hdays, hlimit]
          exact run_bind_error hfiles _
        | none =>
          obtain ⟨c, hrun, hcount⟩ := sweep_run describe directory hdays hlimit hdistinct hfirst
          exact ⟨.ok c, _, hrun, .swept hactive hfirst hcount⟩

def february : Instant := ⟨30 * 86400, 1⟩

def mixedItems : List (Item String (DirectoryEntry String)) :=
  [.named ⟨"trace_diagnosis.log.1970-01-21", .ok ⟨true, ⟨20 * 86400, 0⟩⟩, none⟩,
    .nameless,
    .named ⟨"trace_diagnosis.log", .ok ⟨true, ⟨30 * 86400, 0⟩⟩, none⟩,
    .named ⟨"trace_diagnosis.log.1970-01-24-00", .ok ⟨true, ⟨23 * 86400, 1⟩⟩, none⟩,
    .named ⟨"trace_diagnosis.log.1970-01-20", .ok ⟨true, ⟨19 * 86400, 0⟩⟩, some "busy"⟩,
    .named ⟨"trace_diagnosis.log.d", .ok ⟨false, ⟨0, 0⟩⟩, none⟩,
    .named ⟨"worker.log", .error "lost", none⟩,
    .named ⟨"trace_diagnosis.log.1970-01-23", .ok ⟨true, ⟨23 * 86400, 0⟩⟩, none⟩]

theorem sweep_cleansUp_mixedItems :
    Directory.Distinct (Listing.items mixedItems) ∧ ∃ c left,
      (sweep Directory.folder id "logs" february 7).run.run (Listing.items mixedItems) =
        (.ok c, left) ∧
      c.removed.length = 2 ∧
      left.entries.map DirectoryEntry.name =
        ["trace_diagnosis.log", "trace_diagnosis.log.1970-01-24-00",
          "trace_diagnosis.log.1970-01-20", "trace_diagnosis.log.d", "worker.log"] := by
  have hdistinct : ((mixedItems.filterMap Item.handle?).map DirectoryEntry.name).Nodup := by
    decide +kernel
  have hleft : (mixedItems.filter (Item.isLeft february 7)).length = 6 := by decide +kernel
  obtain ⟨⟨answer, left, hrun, hcleans⟩, hactive⟩ :=
    sweep_cleansUp id "logs" february 7 (Listing.items mixedItems) hdistinct
  refine ⟨hdistinct, ?_⟩
  generalize hanswer : answer.map (fun c => c.removed.length) = count at hcleans
  cases hcleans with
  | idle h => exact absurd ((hactive (by decide) (by decide)).mpr (by decide)) h
  | faulty _ first => cases first
  | swept _ _ counted =>
    cases answer with
    | error reason => cases hanswer
    | ok c =>
      cases hanswer
      rw [hleft] at counted
      exact ⟨c, _, hrun, Nat.add_right_cancel counted, by decide +kernel⟩

end SlowRequest.Log
