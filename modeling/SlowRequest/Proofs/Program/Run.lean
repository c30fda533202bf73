import SlowRequest.Desktop
import SlowRequest.Program.Run
import SlowRequest.Proofs.Program.Loading
import SlowRequest.Proofs.Service.Serving
import SlowRequest.Proofs.Service.Settling
import SlowRequest.Proofs.Trace.Growth
/-!
# What a run comes to

A run hands the slow traces to its service in the order of their paths, and the service ends with
every one of them diagnosed, however the workers move.
-/
namespace SlowRequest

variable {now : Instant} {baseline : Float} {traces : List LoadedTrace} {n : Nat}
  {c : Configuration} {m : Machine} {processors : Nat} {s : Service} {g : DiagnosisGraph}

namespace LoadedTrace

def isSlow (baseline : Float) (x : LoadedTrace) : Bool :=
  decide (baseline < x.trace.root.call.duration)

def request (now : Instant) (baseline : Float) (x : LoadedTrace) : DiagnosisRequest :=
  ⟨x.trace.root.tree now, baseline⟩

private theorem isSlow_request (x : LoadedTrace) :
    (x.request now baseline).isSlow = x.isSlow baseline := by
  have hroot := x.trace.root.root_tree now
  obtain ⟨root, hget, hcall⟩ := Option.map_eq_some_iff.mp hroot
  have hduration : root.duration = x.trace.root.call.duration := by
    rw [hcall, CallTree.Builder.numbered]
    split <;> rfl
  rw [DiagnosisRequest.isSlow, request, hget, Option.any_some, hduration]
  rfl

end LoadedTrace

namespace Program

/-- The requests of the slow traces. -/
def requests (now : Instant) (baseline : Float) (traces : List LoadedTrace) :
    List DiagnosisRequest :=
  (traces.filter fun x => x.isSlow baseline).map fun x => x.request now baseline

theorem requests_append (now : Instant) (baseline : Float) (traces rest : List LoadedTrace) :
    requests now baseline (traces ++ rest) =
      requests now baseline traces ++ requests now baseline rest := by simp [requests]

/-- The blocks that a run makes beforehand: the store, the places of the queue and the handles of
the workers. -/
def blocks (c : Configuration) (m : Machine) (processors : Nat) : List Nat :=
  storeSize c m :: Service.blocks m (c.service processors)

/-- A valid configuration on a machine that makes all blocks and refuses no worker. -/
structure Runnable (c : Configuration) (m : Machine) (processors : Nat) : Prop where
  valid : c.fault? = none
  processor : 0 < processors
  makes : m.fault? (blocks c m processors) = none
  starts : ∀ i < (c.service processors).workers, m.refusal? i = none

private theorem counts_of_valid (h : c.fault? = none) :
    c.workers ≠ some 0 ∧ c.queueCapacity ≠ 0 ∧ c.enqueueAttempts ≠ 0 := by
  rw [Configuration.fault?] at h
  by_cases hworkers : c.workers = some 0
  · rw [if_pos hworkers] at h
    cases h
  · by_cases hcapacity : c.queueCapacity = 0
    · rw [if_neg hworkers, if_pos hcapacity] at h
      cases h
    · by_cases hattempts : c.enqueueAttempts = 0
      · rw [if_neg hworkers, if_neg hcapacity, if_pos hattempts] at h
        cases h
      · exact ⟨hworkers, hcapacity, hattempts⟩

namespace Runnable

private theorem workers_pos (h : Runnable c m processors) : 0 < (c.service processors).workers := by
  obtain ⟨hworkers, -, -⟩ := counts_of_valid h.valid
  have hprocessor := h.processor
  change 0 < c.workers.getD processors
  cases hn : c.workers with
  | none => exact hprocessor
  | some n =>
    rw [hn, ne_eq, Option.some.injEq] at hworkers
    exact Nat.pos_of_ne_zero hworkers

end Runnable

/-! ## The course of a run -/

theorem offer_slow {setup : Setup} {x : LoadedTrace} {u : Service}
    (hslow : x.isSlow setup.configuration.baseline = true)
    (hprocess : s.process (x.request setup.now setup.configuration.baseline) = (u, true)) :
    offer setup s x = u.settle fun _ => false := by
  have hrequest : (x.request setup.now setup.configuration.baseline).isSlow = true := by
    rw [LoadedTrace.isSlow_request, hslow]
  rw [LoadedTrace.request] at hprocess hrequest
  rw [offer, Span.toTree_eq]
  simp only [hrequest, if_true, hprocess]

private theorem offer_fast {setup : Setup} {x : LoadedTrace}
    (hfast : x.isSlow setup.configuration.baseline = false) : offer setup s x =
      s.speak [say .debug ("Trace " ++ x.path ++ " is faster than the baseline") []] := by
  have hrequest : (x.request setup.now setup.configuration.baseline).isSlow = false := by
    rw [LoadedTrace.isSlow_request, hfast]
  rw [LoadedTrace.request] at hrequest
  rw [offer, Span.toTree_eq]
  simp only [hrequest, Bool.false_eq_true, if_false]

/-- A slow trace is admitted and finished, any other is passed over. -/
theorem offer_goes (setup : Setup) (h : s.Resting n) (x : LoadedTrace) :
    (offer setup s x).Resting n ∧ ∃ steps, s.Goes steps (offer setup s x) ∧
      steps.filter Service.Step.isOuter = Service.admissions
        (requests setup.now setup.configuration.baseline [x]) := by
  cases hslow : x.isSlow setup.configuration.baseline with
  | true =>
    have hrequest : (x.request setup.now setup.configuration.baseline).isSlow = true := by
      rw [LoadedTrace.isSlow_request, hslow]
    obtain ⟨u, hprocess, hrest, steps, hgoes, houter⟩ := h.process_settle hrequest
    rw [offer_slow hslow hprocess]
    refine ⟨hrest, steps, hgoes, ?_⟩
    rw [houter, requests, List.filter_cons_of_pos hslow]
    rfl
  | false =>
    rw [offer_fast hslow]
    refine ⟨h.log _, [], .said s _, ?_⟩
    rw [requests, List.filter_cons_of_neg (by simp [hslow])]
    rfl

private theorem foldl_offer_goes (setup : Setup) (h : s.Resting n) (traces : List LoadedTrace) :
    (traces.foldl (offer setup) s).Resting n ∧
      ∃ steps, s.Goes steps (traces.foldl (offer setup) s) ∧
        steps.filter Service.Step.isOuter = Service.admissions
          (requests setup.now setup.configuration.baseline traces) := by
  induction traces generalizing s with
  | nil => exact ⟨h, [], .done s, rfl⟩
  | cons x traces ih =>
    obtain ⟨hrest, steps, hgoes, houter⟩ := offer_goes setup h x
    obtain ⟨hlast, later, hlater, houter'⟩ := ih hrest
    refine ⟨hlast, steps ++ later, hgoes.trans hlater, ?_⟩
    rw [List.filter_append, houter, houter', ← Service.admissions_append, ← requests_append]
    rfl

section Runs

variable [NaNSums]

/-! ## The start of a run -/

theorem register_diagnosisRules (th : Thresholds) :
    RuleGraph.register Tag.root (diagnosisRules th) = .ok ⟨Tag.root, diagnosisOrder th⟩ :=
  diagnosisGraph_eq th

private theorem openService_of_blockFault {setup : Setup} {e : BlockFault}
    (h : setup.machine.blockFault? (storeSize setup.configuration setup.machine) = some e) :
    openService setup traces = .error (.block e) := by
  rw [openService]
  simp only [h]
  rfl

private theorem openService_of_store {setup : Setup}
    (h : setup.machine.blockFault? (storeSize setup.configuration setup.machine) = none) :
    openService setup traces =
      (Service.start (setup.machine.holding (storeSize setup.configuration setup.machine))
        (setup.configuration.service setup.processors)
        (diagnosisRules setup.configuration.thresholds)
        (audience setup.configuration (namesOf traces))).mapError .start := by
  rw [openService]
  simp only [h]

theorem openService_eq_ok_iff {setup : Setup} :
    openService setup traces = .ok s ↔
      setup.machine.blockFault? (storeSize setup.configuration setup.machine) = none ∧
        Service.start (setup.machine.holding (storeSize setup.configuration setup.machine))
          (setup.configuration.service setup.processors)
          (diagnosisRules setup.configuration.thresholds)
          (audience setup.configuration (namesOf traces)) = .ok s := by
  cases hstore : setup.machine.blockFault? (storeSize setup.configuration setup.machine) with
  | some e => simp [openService_of_blockFault hstore]
  | none =>
    rw [openService_of_store hstore]
    cases Service.start _ _ _ _ <;> simp [Except.mapError]

theorem exists_openService_iff {setup : Setup} :
    (∃ s, openService setup traces = .ok s) ↔
      setup.machine.fault? (blocks setup.configuration setup.machine setup.processors) = none ∧
        ∀ i < (setup.configuration.service setup.processors).workers,
          setup.machine.refusal? i = none := by
  have hstart := fun s => @Service.start_eq_ok_iff
    (setup.machine.holding (storeSize setup.configuration setup.machine)) s
    (setup.configuration.service setup.processors)
    (diagnosisRules setup.configuration.thresholds)
    (audience setup.configuration (namesOf traces))
  simp only [openService_eq_ok_iff, hstart, register_diagnosisRules, Except.ok.injEq,
    exists_eq_left', exists_and_left, exists_eq, and_true, blocks, Machine.fault?,
    Option.or_eq_none_iff, and_assoc]
  rfl

theorem Runnable.exists_open (h : Runnable c m processors) (now : Instant)
    (files : Except String (List TextFile)) (traces : List LoadedTrace) :
    ∃ first, openService ⟨c, m, processors, now, files⟩ traces = .ok first ∧
      first.Resting (c.service processors).workers := by
  obtain ⟨-, hcapacity, hattempts⟩ := counts_of_valid h.valid
  have hattempt : 0 < c.enqueueAttempts.toNat := by
    apply Nat.pos_of_ne_zero
    intro hzero
    exact hattempts (UInt32.toNat_inj.mp hzero)
  obtain ⟨first, hopen⟩ := (@exists_openService_iff traces _ ⟨c, m, processors, now, files⟩).mpr
    ⟨h.makes, h.starts⟩
  obtain ⟨-, hstart⟩ := openService_eq_ok_iff.mp hopen
  obtain ⟨g, -, -, -, rfl⟩ := Service.start_eq_ok_iff.mp hstart
  exact ⟨_, hopen, (Service.Resting.ofGraph g _ h.workers_pos (Nat.pos_of_ne_zero hcapacity)
    hattempt).log _⟩

private theorem run_of_fault {setup : Setup} {files : List TextFile} {e : Fault}
    (hfiles : setup.files = .ok files)
    (hopen : openService setup (loadTraces setup.configuration.traceDirectory files).1 =
      .error e) : run setup = .error e := by
  rw [run, hfiles]
  simp only [Except.mapError, bind, Except.bind, hopen]

/-- A run that opens its service comes to an end. -/
private theorem run_of_open {setup : Setup} {files : List TextFile} {first : Service}
    (hfiles : setup.files = .ok files)
    (hopen : openService setup (loadTraces setup.configuration.traceDirectory files).1 =
      .ok first) :
    let opened : Service := { first with log := (early setup).map (⟨·, none⟩) ++ first.log }
    let closed := ((loadTraces setup.configuration.traceDirectory files).1.foldl (offer setup)
      opened).shutdown
    run setup = .ok (closed.speak (summary closed)) := by
  rw [run, hfiles]
  simp only [Except.mapError, bind, Except.bind, hopen]
  rfl

/-- The first worker that is refused ends a run, which tells why and exits with an error. -/
theorem run_refused {files : List TextFile} {now : Instant} {k : Nat} {reason : String}
    (hmakes : m.fault? (blocks c m processors) = none) (hk : k < (c.service processors).workers)
    (hbefore : ∀ i < k, m.refusal? i = none) (hrefused : m.refusal? k = some reason) :
    let setup : Setup := ⟨c, m, processors, now, .ok files⟩
    let fault : Fault := .start (.spawn reason)
    run setup = .error fault ∧ fault.exitCode? = some 1 ∧
      (entries setup).1.getLast? = some ⟨failed fault, none⟩ := by
  intro setup fault
  rw [blocks, Machine.fault?, Option.or_eq_none_iff] at hmakes
  have hstart : ∀ audience, Service.start (m.holding (storeSize c m)) (c.service processors)
      (diagnosisRules c.thresholds) audience = .error (.spawn reason) := fun audience =>
    Service.start_refused (register_diagnosisRules c.thresholds) hmakes.2 hk hbefore hrefused
  have hrun : run setup = .error fault := by
    apply run_of_fault rfl
    rw [openService_of_store hmakes.1, hstart]
    rfl
  refine ⟨hrun, rfl, ?_⟩
  rw [entries, hrun]
  simp [fault, Fault.isReported]

/-- The order of the listing has no effect at all. -/
theorem run_eq_of_perm {files listing : List TextFile} (m : Machine) (processors : Nat)
    (now : Instant) (hlisting : listing.Perm files) (hnames : (files.map TextFile.name).Nodup) :
    run ⟨c, m, processors, now, .ok listing⟩ = run ⟨c, m, processors, now, .ok files⟩ := by
  have hoffer : offer ⟨c, m, processors, now, .ok listing⟩ =
      offer ⟨c, m, processors, now, .ok files⟩ := rfl
  have hopen : openService ⟨c, m, processors, now, .ok listing⟩ =
      openService ⟨c, m, processors, now, .ok files⟩ := rfl
  simp only [run, early, Except.mapError, bind, Except.bind, hoffer, hopen,
    loadTraces_eq_of_perm hlisting hnames]

/-- A run comes to its end, and what it does to its service is one way to serve the requests. -/
theorem run_serves (hrunnable : Runnable c m processors) (now : Instant) (files : List TextFile) :
    let setup : Setup := ⟨c, m, processors, now, .ok files⟩
    let traces := (loadTraces c.traceDirectory files).1
    ∃ first s, openService setup traces = .ok first ∧ run setup = .ok s ∧
      first.Serves (requests now c.baseline traces) s := by
  intro setup traces
  obtain ⟨first, hopen, hrest⟩ := hrunnable.exists_open now (.ok files) traces
  let opened : Service := { first with log := (early setup).map (⟨·, none⟩) ++ first.log }
  let closed := (traces.foldl (offer setup) opened).shutdown
  have hrun : run setup = .ok (closed.speak (summary closed)) := run_of_open rfl hopen
  have hopened : opened.Resting (c.service processors).workers := hrest.log _
  obtain ⟨hlast, steps, hgoes, houter⟩ := foldl_offer_goes setup hopened traces
  obtain ⟨ending, hending, houter'⟩ := hlast.shutdown
  have hcourse : opened.Goes (steps ++ (ending ++ [])) (closed.speak (summary closed)) :=
    hgoes.trans (hending.trans (.said closed _))
  refine ⟨first, _, hopen, hrun, _, .log _ hcourse, ?_⟩
  rw [List.append_nil, List.filter_append, houter, houter']
  rfl

/-! ## The end of a run -/

/-- What the service of a run holds in the end. -/
structure Ends (c : Configuration) (processors : Nat) (now : Instant) (g : DiagnosisGraph)
    (traces : List LoadedTrace) (s : Service) : Prop where
  metrics : s.metrics =
    { accepted := UInt64.ofNat (traces.countP fun x => x.isSlow c.baseline)
      rejected := 0
      diagnosed := UInt64.ofNat (traces.countP fun x => x.isSlow c.baseline)
      failed := 0
      results := UInt64.ofNat
        ((requests now c.baseline traces).flatMap (DiagnosisRequest.findings g)).length }
  keepers : ∃ store index,
    s.audience = [.printer (namesOf traces), .store store, .index index] ∧
    (index.roots.Nodup ∧ ∀ invocation, invocation ∈ index.roots ↔
      ∃ r ∈ requests now c.baseline traces, r.findings g ≠ [] ∧ r.invocation = invocation) ∧
    ((c.service processors).workers = 1 → store.occurrences =
      (Occurrence.numbered 1
        ((requests now c.baseline traces).flatMap (DiagnosisRequest.findings g))).rtake
          (max c.resultCapacity 1))

private theorem exists_delivered_iff {requests : List DiagnosisRequest}
    {delivered : List Occurrence} {invocation : UInt64} (hg : diagnosisGraph c.thresholds = .ok g)
    (h : (delivered.map Occurrence.anonymous).Perm
      (requests.flatMap (DiagnosisRequest.findings g))) :
    (∃ o ∈ delivered, o.requestRoot.invocationId = invocation) ↔
      ∃ r ∈ requests, r.findings g ≠ [] ∧ r.invocation = invocation := by
  constructor
  · rintro ⟨o, ho, rfl⟩
    have hmem := h.subset (List.mem_map_of_mem ho)
    obtain ⟨r, hr, hfound⟩ := List.mem_flatMap.mp hmem
    have hroot := DiagnosisRequest.requestRoot_of_mem_findings hg hfound
    exact ⟨r, hr, List.ne_nil_of_mem hfound, hroot.symm⟩
  · rintro ⟨r, hr, hne, rfl⟩
    obtain ⟨found, hfound⟩ := List.exists_mem_of_ne_nil _ hne
    have hmem := h.symm.subset (List.mem_flatMap.mpr ⟨r, hr, hfound⟩)
    obtain ⟨o, ho, rfl⟩ := List.mem_map.mp hmem
    have hroot := DiagnosisRequest.requestRoot_of_mem_findings hg hfound
    exact ⟨o, ho, hroot⟩

private theorem ends_of_served (hg : diagnosisGraph c.thresholds = .ok g)
    (h : s.Served g (c.service processors).workers (audience c (namesOf traces))
      (requests now c.baseline traces)) : Ends c processors now g traces s := by
  have hcount : (requests now c.baseline traces).length =
      traces.countP fun x => x.isSlow c.baseline := by
    rw [requests, List.length_map, List.countP_eq_length_filter]
  refine ⟨?_, _, _, h.audience.trans (Audience.told_keepers ..), ⟨?_, ?_⟩, ?_⟩
  · rw [h.metrics, hcount]
  · exact RootIndex.nodup_roots_foldl_insert List.nodup_nil
  · intro invocation
    rw [RootIndex.mem_roots_foldl_insert, ← Service.delivered,
      exists_delivered_iff hg h.delivered]
    exact or_iff_right List.not_mem_nil
  · intro hone
    rw [OccurrenceStore.occurrences_foldl_insert, OccurrenceStore.occurrences_new,
      OccurrenceStore.capacity_new, List.nil_append, ← h.single hone]
    rfl

/-- A run does not depend on the order in which the directory lists its files. Its traces are the
trace files that can be read, in the order of their paths, and the last one to name a method or an
application names it. The run comes to its end, and however the workers move, its service ends with
all slow traces diagnosed, an index of their roots and, with one worker, the last occurrences in a
store. -/
theorem run_determined {files listing : List TextFile} (hrunnable : Runnable c m processors)
    (hnames : (files.map TextFile.name).Nodup) (hlisting : listing.Perm files) (now : Instant) :
    let traces := (loadTraces c.traceDirectory files).1
    let slow := requests now c.baseline traces
    (traces.Pairwise (fun x y => x.path < y.path) ∧ ∀ x, x ∈ traces ↔
      ∃ f ∈ files, isTraceName f.name = true ∧ pathIn c.traceDirectory f.name = x.path ∧
        TraceFile.read f.text = .ok x.trace) ∧
    ((∀ m, (namesOf traces).method? m =
        (traces.filterMap fun x => x.trace.methods.lookup m).getLast?) ∧
      ∀ a, (namesOf traces).application? a =
        (traces.filterMap fun x => x.trace.applications.lookup a).getLast?) ∧
    ∃ g first s, diagnosisGraph c.thresholds = .ok g ∧
      openService ⟨c, m, processors, now, .ok files⟩ traces = .ok first ∧
      run ⟨c, m, processors, now, .ok listing⟩ = .ok s ∧
      run ⟨c, m, processors, now, .ok files⟩ = .ok s ∧
      first.Serves slow s ∧
      ∀ {other : Service}, first.Serves slow other → Ends c processors now g traces other := by
  intro traces slow
  have honce : ∀ x ∈ traces, x.trace.NamesOnce := by
    intro x hx
    obtain ⟨f, -, -, -, hread⟩ := mem_loadTraces.mp hx
    exact TraceFile.namesOnce_of_read hread
  obtain ⟨first, s, hopen, hrun, hserves⟩ := run_serves hrunnable now files
  obtain ⟨-, hstart⟩ := openService_eq_ok_iff.mp hopen
  have hsame := run_eq_of_perm (c := c) m processors now hlisting hnames
  have hgraph := diagnosisGraph_eq c.thresholds
  refine ⟨⟨pairwise_loadTraces hnames, fun x => mem_loadTraces⟩,
    ⟨method?_namesOf honce, application?_namesOf honce⟩, _, first, s, hgraph, hopen,
    hsame.trans hrun, hrun, hserves, ?_⟩
  intro other hother
  obtain ⟨g, hg, hserved⟩ := hother.served hstart hrunnable.workers_pos
  cases Except.ok.inj (hg.symm.trans hgraph)
  exact ends_of_served hgraph hserved

end Runs

def tight : Configuration :=
  { Configuration.default with workers := some 1, resultCapacity := 1 }

/-- Two slow traces that name one method, a file that is no trace, and one of another kind. -/
def twoTraces : List TextFile :=
  [⟨"early.json", "\x7b\"methods\":\x7b\"1\":\"old\"\x7d,\"root\":" ++
      "\x7b\"method\":1,\"duration\":5000,\"exclusive\":4000\x7d\x7d"⟩,
    ⟨"late.json", "\x7b\"methods\":\x7b\"1\":\"new\"\x7d,\"root\":" ++
      "\x7b\"method\":1,\"duration\":3000,\"exclusive\":2500\x7d\x7d"⟩,
    ⟨"list.json", "[]"⟩, ⟨"notes.txt", ""⟩]

private theorem loadTraces_twoTraces :
    loadTraces "traces" twoTraces = readTraces "traces" (twoTraces.take 3) := by
  have hfilter : (twoTraces.filter fun f => isTraceName f.name) = twoTraces.take 3 := rfl
  have hsorted : (twoTraces.take 3).Pairwise fun a b => decide (a.name ≤ b.name) = true := by
    decide +kernel
  rw [loadTraces, traceTexts, hfilter, List.mergeSort_of_pairwise hsorted]

open Desktop in
theorem run_determined_twoTraces :
    Runnable tight Desktop.machine 4 ∧ (twoTraces.map TextFile.name).Nodup ∧
    twoTraces.reverse.Perm twoTraces ∧
    ∃ s names store index, run ⟨tight, Desktop.machine, 4, .epoch, .ok twoTraces.reverse⟩ = .ok s ∧
      s.metrics = ⟨2, 0, 2, 0, 2⟩ ∧
      s.audience = [.printer names, .store store, .index index] ∧
      names.method? 1 = some "new" ∧ index.roots.Perm [1] ∧
      store.occurrences.map (fun o => o.id) = [2] := by
  have hrunnable : Runnable tight Desktop.machine 4 :=
    ⟨by decide +kernel, by decide, by decide +kernel, fun _ _ => rfl⟩
  have hnames : (twoTraces.map TextFile.name).Nodup := by decide +kernel
  have hlisting : twoTraces.reverse.Perm twoTraces := List.reverse_perm _
  obtain ⟨-, ⟨hmethods, -⟩, g, first, s, hg, -, hrun, -, hserves, hends⟩ :=
    run_determined hrunnable hnames hlisting .epoch
  cases Except.ok.inj (hg.symm.trans (diagnosisGraph_eq _))
  obtain ⟨hmetrics, store, index, haudience, ⟨hnodup, hroots⟩, hstore⟩ := hends hserves
  have htraces : (loadTraces tight.traceDirectory twoTraces).1 =
      (readTraces "traces" (twoTraces.take 3)).1 := congrArg Prod.fst loadTraces_twoTraces
  rw [htraces] at hmethods hmetrics haudience hroots hstore
  refine ⟨hrunnable, hnames, hlisting, s, _, store, index, hrun, ?_, haudience, ?_, ?_, ?_⟩
  · rw [hmetrics]
    decide +kernel
  · rw [hmethods]
    decide +kernel
  · refine (List.perm_ext_iff_of_nodup hnodup (List.nodup_singleton 1)).mpr ?_
    intro invocation
    have hfound : (((requests .epoch tight.baseline
        (readTraces "traces" (twoTraces.take 3)).1).filter fun r =>
          !(r.findings ⟨Tag.root, diagnosisOrder tight.thresholds⟩).isEmpty).map
            DiagnosisRequest.invocation) = [1, 1] := by decide +kernel
    have hmem : invocation ∈ [(1 : UInt64), 1] ↔ invocation ∈ [(1 : UInt64)] := by simp
    rw [hroots, ← hmem, ← hfound]
    simp [List.mem_map, and_assoc]
  · rw [hstore rfl]
    decide +kernel

/-- One worker, and a store larger than any memory. -/
def boundless : Configuration :=
  { Configuration.default with workers := some 1, resultCapacity := 0x7FFFFFFFFFFFFFFF }

open Desktop in
/-- Not every valid configuration can be run: the store makes room for all its results at once. -/
theorem run_boundless :
    boundless.fault? = none ∧
      run ⟨boundless, Desktop.machine, 4, .epoch, .ok twoTraces⟩ = .error (.block .tooLarge) := by
  have hlarge : Desktop.machine.blockFault? (storeSize boundless Desktop.machine) =
      some .tooLarge := by decide +kernel
  exact ⟨by decide +kernel, run_of_fault rfl (openService_of_blockFault hlarge)⟩

end Program
end SlowRequest
