import Wyrebox.CheckpointInvariant

set_option autoImplicit false

/-!
# The pass state over whole runs

The invariant of the checkpoint, the cursor, the holds and the retry timer, kept by every
operation on the daemon.
-/
namespace Wyrebox.PassState
open Catalog Materializer Catchup MaterializationService PassInvariant CheckpointInvariant
open JournalWriter (Position)

/-- A full pass completed and no pass has aborted since, so the holds are that pass's or newer. -/
def holdsCurrent (trace : List TraceEvent) : Bool :=
  trace.foldl (fun current event =>
    match event with
    | .passAborted _ => false
    | .passCompleted .postIngest => current
    | .passCompleted _ => true
    | _ => current) true

lemma holdsCurrent_ordinary {trace new : List TraceEvent} (h : ∀ event ∈ new, Ordinary event) :
    holdsCurrent (trace ++ new) = holdsCurrent trace := by
  induction new generalizing trace with
  | nil => rw [List.append_nil]
  | cons event new ih =>
    have hevent := h event List.mem_cons_self
    rw [List.append_cons, ih fun e he => h e (List.mem_cons_of_mem _ he)]
    simp only [holdsCurrent, List.foldl_append, List.foldl_cons, List.foldl_nil]
    cases event <;> first | rfl | exact absurd hevent id

structure Invariant (w : World) : Prop where
  sound : Sound w
  cursorAhead : CursorAhead w
  holdsBeyond : holdsCurrent w.trace = true →
    ∀ hold ∈ w.service.holds, Beyond w.catalog.checkpoint hold.position
  timers : w.timers = w.service.retrySource.toList
  stopped : w.service.stopped = true → w.service.retrySource = none
  asserted : .assertionFailed ∉ w.trace

lemma start_invariant (seed : Provisioned) (hasRefresh hasExtract : Bool) :
    Invariant (start seed hasRefresh hasExtract) where
  sound := {
    checkpoint_mem := by simp [InLog, start, initial]
    checkpoint_applied := by simp [start, Log.empty]
    cursor_mem := by simp [InLog, start, Service.new]
    cursor_applied := by simp [start, Log.empty]
    cursor_holds := by simp [start, Service.new] }
  cursorAhead := by simp [CursorAhead, start, Service.new]
  holdsBeyond := by simp [start, Service.new]
  timers := rfl
  stopped := by simp [start, Service.new]
  asserted := by simp [start]

section
variable {w w' : World}

lemma Invariant.grows (h : Invariant w) (hg : Grows w w') : Invariant w' := by
  obtain ⟨new, htrace, hordinary⟩ := hg.schedule.trace
  refine ⟨h.sound.grows hg, h.cursorAhead.grows hg, ?_, ?_, ?_, ?_⟩
  · rw [htrace, holdsCurrent_ordinary hordinary, hg.schedule.holds, hg.checkpoint]
    exact h.holdsBeyond
  · rw [hg.schedule.timers, hg.schedule.retrySource]
    exact h.timers
  · rw [hg.schedule.stopped, hg.schedule.retrySource]
    exact h.stopped
  · rw [htrace, List.mem_append]
    rintro (hold | hnew)
    · exact h.asserted hold
    · exact hordinary _ hnew

/-! ## The end of a pass -/

/-- The journal, catalog and timers are left alone. -/
structure SameData (w w' : World) : Prop where
  log : w'.log = w.log
  catalog : w'.catalog = w.catalog
  applied : w'.applied = w.applied

lemma sound_withoutCursor (h : Sound w) (hd : SameData w w') (hcursor : w'.service.cursor = none) :
    Sound w' where
  checkpoint_mem := by
    rw [hd.log, hd.catalog]
    exact h.checkpoint_mem
  checkpoint_applied := by
    rw [hd.log, hd.catalog, hd.applied]
    exact h.checkpoint_applied
  cursor_mem := by simp [InLog, hcursor]
  cursor_applied := by simp [AtOrBefore, hcursor]
  cursor_holds := fun hne => absurd hcursor hne

lemma sound_withReport (h : Sound w) (hd : SameData w w') {report : Report} (hr : ReportSound w report)
    (hcursor : w'.service.cursor = report.scannedThrough) (hholds : w'.service.holds = report.holds)
    (hne : report.holds ≠ []) : Sound w' where
  checkpoint_mem := by
    rw [hd.log, hd.catalog]
    exact h.checkpoint_mem
  checkpoint_applied := by
    rw [hd.log, hd.catalog, hd.applied]
    exact h.checkpoint_applied
  cursor_mem := by
    rw [hd.log, hcursor]
    exact hr.through_mem
  cursor_applied := by
    rw [hd.log, hd.applied, hcursor, hholds]
    exact hr.through_applied
  cursor_holds := fun _ => by rwa [hholds]

lemma backOff_schedule (kind : PassKind) (service : Service) :
    (backOff kind service).cursor = service.cursor ∧ (backOff kind service).holds = service.holds ∧
      (backOff kind service).retrySource = service.retrySource ∧
      (backOff kind service).stopped = service.stopped := by
  unfold backOff
  split
  · exact ⟨rfl, rfl, rfl, rfl⟩
  · split <;> exact ⟨rfl, rfl, rfl, rfl⟩

/-- A failed pass replaces the holds only when it completed, and makes sure of a retry. -/
structure FailedPass (result : Option Report) (w w' : World) : Prop where
  data : SameData w w'
  trace : w'.trace = w.trace
  stopped : w'.service.stopped = w.service.stopped
  holds : w'.service.holds = (result.map Report.holds).getD w.service.holds
  cursor : w'.service.cursor =
    result.elim none fun report => if report.holds ≠ [] then report.scannedThrough else none
  timers : w.timers = w.service.retrySource.toList → w'.timers = w'.service.retrySource.toList
  retry : w.service.stopped = false → w'.service.retrySource ≠ none
  kept : w.service.stopped = true → w'.service.retrySource = w.service.retrySource

lemma finishFailedPass_spec (kind : PassKind) (result : Option Report) (w : World) :
    FailedPass result w (finishFailedPass kind result w) := by
  unfold finishFailedPass
  obtain ⟨hcursor, hholds, hretry, hstopped⟩ := backOff_schedule kind (failedService result w.service)
  have hfields : (failedService result w.service).cursor =
        (result.elim none fun report => if report.holds ≠ [] then report.scannedThrough else none) ∧
      (failedService result w.service).holds = (result.map Report.holds).getD w.service.holds ∧
      (failedService result w.service).retrySource = w.service.retrySource ∧
      (failedService result w.service).stopped = w.service.stopped := by
    cases result <;> exact ⟨rfl, rfl, rfl, rfl⟩
  generalize failedService result w.service = service at *
  simp only
  split
  · rename_i hidle
    refine ⟨⟨rfl, rfl, rfl⟩, rfl, hstopped.trans hfields.2.2.2, hholds.trans hfields.2.1,
      hcursor.trans hfields.1, ?_, fun _ => by simp [scheduleRetry], ?_⟩
    · intro htimers
      have hnone : w.service.retrySource = none := by
        rw [← hfields.2.2.1, ← hretry]
        exact hidle.2
      change w.timers ++ [w.timersCreated] = [w.timersCreated]
      rw [htimers, hnone]
      rfl
    · intro hstop
      have hrunning : (!(backOff kind service).stopped) = true := hidle.1
      rw [hstopped, hfields.2.2.2, hstop] at hrunning
      simp at hrunning
  · rename_i hidle
    have hsource : (backOff kind service).retrySource = w.service.retrySource :=
      hretry.trans hfields.2.2.1
    refine ⟨⟨rfl, rfl, rfl⟩, rfl, hstopped.trans hfields.2.2.2, hholds.trans hfields.2.1,
      hcursor.trans hfields.1, ?_, ?_, fun _ => hsource⟩
    · intro htimers
      change w.timers = (backOff kind service).retrySource.toList
      rw [hsource, htimers]
    · intro hrunning hnone
      refine hidle ⟨?_, hnone⟩
      change (!(backOff kind service).stopped) = true
      rw [hstopped, hfields.2.2.2, hrunning]
      rfl

lemma dropRetry_timers {w : World} (h : w.timers = w.service.retrySource.toList) :
    (dropRetry w).timers = [] := by
  change w.timers.filter _ = []
  rw [h]
  cases w.service.retrySource <;> simp

lemma holdsCurrent_concat (trace : List TraceEvent) (event : TraceEvent) :
    holdsCurrent (trace ++ [event]) =
      match event with
      | .passAborted _ => false
      | .passCompleted .postIngest => holdsCurrent trace
      | .passCompleted _ => true
      | _ => holdsCurrent trace := by
  simp only [holdsCurrent, List.foldl_append, List.foldl_cons, List.foldl_nil]

section
variable {kind : PassKind} {result : Option Report}

lemma derived_holdsCurrent (hd : DerivedSound kind w w' result) :
    holdsCurrent w'.trace = holdsCurrent w.trace := by
  obtain ⟨new, htrace, hordinary⟩ := hd.schedule.trace
  rw [htrace, holdsCurrent_ordinary hordinary]

lemma derived_timers (hd : DerivedSound kind w w' result) (h : Invariant w) :
    w'.timers = w'.service.retrySource.toList := by
  rw [hd.schedule.timers, hd.schedule.retrySource]
  exact h.timers

lemma derived_asserted (hd : DerivedSound kind w w' result) (h : Invariant w) :
    .assertionFailed ∉ w'.trace := by
  obtain ⟨new, htrace, hordinary⟩ := hd.schedule.trace
  rw [htrace, List.mem_append]
  rintro (hold | hnew)
  · exact h.asserted hold
  · exact hordinary _ hnew

/-- When a pass of this kind completes and the holds are then current, they lie beyond the
    checkpoint. -/
lemma report_beyond {report : Report} (hd : DerivedSound kind w w' (some report))
    (h : Invariant w) (hcurrent : holdsCurrent (w'.trace ++ [.passCompleted kind]) = true) :
    ∀ hold ∈ report.holds, Beyond w'.catalog.checkpoint hold.position := by
  refine hd.holds report rfl ?_
  rw [holdsCurrent_concat, derived_holdsCurrent hd] at hcurrent
  cases kind with
  | postIngest => exact h.holdsBeyond hcurrent
  | catchUp => simp [priorHolds]
  | retry => simp [priorHolds]

/-- How a pass with its retry handling ends. -/
structure Settled (w : World) (result : PassResult) : Prop where
  invariant : Invariant w
  clean : result = .clean → w.service.retrySource = none
  failed : result ≠ .clean → w.service.stopped = false → w.service.retrySource ≠ none
  aborted : result = .aborted → w.service.cursor = none

lemma finishFailedPass_invariant (hd : DerivedSound kind w w' result) (h : Invariant w)
    {event : TraceEvent} (hevent : event ≠ .assertionFailed)
    (hbeyond : holdsCurrent (w'.trace ++ [event]) = true →
      ∀ hold ∈ (result.map Report.holds).getD w'.service.holds, Beyond w'.catalog.checkpoint hold.position) :
    Invariant ((finishFailedPass kind result w').record event) := by
  have hf := finishFailedPass_spec kind result w'
  generalize finishFailedPass kind result w' = w'' at hf ⊢
  have hdata : SameData w' (w''.record event) := ⟨hf.data.log, hf.data.catalog, hf.data.applied⟩
  refine ⟨?_, ?_, ?_, ?_, ?_, ?_⟩
  · cases result with
    | none => exact sound_withoutCursor hd.sound hdata hf.cursor
    | some report =>
      by_cases hholds : report.holds = []
      · refine sound_withoutCursor hd.sound hdata ?_
        exact hf.cursor.trans (by simp [hholds])
      · refine sound_withReport hd.sound hdata (hd.report report rfl) ?_ hf.holds hholds
        exact hf.cursor.trans (by simp [hholds])
  · intro c d hc hdc
    change w''.catalog.checkpoint = some c at hc
    change w''.service.cursor = some d at hdc
    rw [hf.data.catalog] at hc
    rw [hf.cursor] at hdc
    cases result with
    | none => simp at hdc
    | some report =>
      by_cases hholds : report.holds = []
      · simp [hholds] at hdc
      · simp only [Option.elim_some, ne_eq, hholds, not_false_eq_true, if_true] at hdc
        exact (hd.report report rfl).through_ahead c d hc hdc
  · change holdsCurrent (w''.trace ++ [event]) = true →
      ∀ hold ∈ w''.service.holds, Beyond w''.catalog.checkpoint hold.position
    rw [hf.trace, hf.holds, hf.data.catalog]
    exact hbeyond
  · exact hf.timers (derived_timers hd h)
  · intro hstopped
    change w''.service.retrySource = none
    change w''.service.stopped = true at hstopped
    rw [hf.stopped] at hstopped
    rw [hf.kept hstopped, hd.schedule.retrySource]
    exact h.stopped (by rw [← hd.schedule.stopped]; exact hstopped)
  · change .assertionFailed ∉ w''.trace ++ [event]
    rw [hf.trace, List.mem_append, List.mem_singleton]
    rintro (hold | heq)
    · exact derived_asserted hd h hold
    · exact hevent heq.symm

lemma finishFailedPass_retry {event : TraceEvent}
    (hstopped : ((finishFailedPass kind result w').record event).service.stopped = false) :
    ((finishFailedPass kind result w').record event).service.retrySource ≠ none := by
  have hf := finishFailedPass_spec kind result w'
  refine hf.retry ?_
  rw [← hf.stopped]
  exact hstopped

theorem finishPass_settled (hd : DerivedSound kind w w' result) (h : Invariant w) :
    Settled (finishPass kind (w', result)).1 (finishPass kind (w', result)).2 := by
  cases result with
  | none =>
    refine ⟨finishFailedPass_invariant hd h (by simp) ?_, by simp [finishPass],
      fun _ => finishFailedPass_retry, fun _ => ?_⟩
    · rw [holdsCurrent_concat]
      simp
    · exact (finishFailedPass_spec kind none w').cursor
  | some report =>
    unfold finishPass
    simp only
    split
    · refine ⟨⟨?_, ?_, ?_, ?_, fun _ => rfl, ?_⟩, fun _ => rfl, by simp, by simp⟩
      · exact sound_withoutCursor hd.sound ⟨rfl, rfl, rfl⟩ rfl
      · intro c d _ hdc
        change (none : Option Position) = some d at hdc
        simp at hdc
      · intro _ hold hmem
        change hold ∈ [] at hmem
        simp at hmem
      · have htimers := derived_timers hd h
        exact dropRetry_timers htimers
      · change .assertionFailed ∉ w'.trace ++ [_]
        rw [List.mem_append, List.mem_singleton]
        rintro (hold | heq)
        · exact derived_asserted hd h hold
        · simp at heq
    · refine ⟨finishFailedPass_invariant hd h (by simp) ?_, by simp, fun _ => finishFailedPass_retry,
        by simp⟩
      exact report_beyond hd h

lemma finishPass_notBehind (hd : DerivedSound kind w w' result) :
    NotBehind w.catalog.checkpoint (finishPass kind (w', result)).1.catalog.checkpoint := by
  have hcatalog : (finishPass kind (w', result)).1.catalog = w'.catalog := by
    cases result with
    | none => exact (finishFailedPass_spec kind none w').data.catalog
    | some report =>
      simp only [finishPass]
      split
      · rfl
      · exact (finishFailedPass_spec kind (some report) w').data.catalog
  rw [hcatalog]
  exact hd.notBehind

end

/-! ## The entry points -/

section
variable {seed : Provisioned} {env : PassEnv}

/-- An aborted `catch_up` leaves the timers to the caller. -/
lemma catchUp_abort_invariant {result : Option Report} (hd : DerivedSound .catchUp w w' result)
    (h : Invariant w) : Invariant
      ((w'.withService { w'.service with cursor := none }).record (.passAborted .catchUp)) := by
  have htimers := derived_timers hd h
  refine ⟨sound_withoutCursor hd.sound ⟨rfl, rfl, rfl⟩ rfl, ?_, ?_, htimers, ?_, ?_⟩
  · intro c d _ hdc
    change (none : Option Position) = some d at hdc
    simp at hdc
  · change holdsCurrent (w'.trace ++ [_]) = true → _
    rw [holdsCurrent_concat]
    simp
  · change w'.service.stopped = true → w'.service.retrySource = none
    rw [hd.schedule.stopped, hd.schedule.retrySource]
    exact h.stopped
  · change .assertionFailed ∉ w'.trace ++ [_]
    rw [List.mem_append, List.mem_singleton]
    rintro (hold | heq)
    · exact derived_asserted hd h hold
    · simp at heq

/-- The outcome of an entry point: its retry handling is settled, except that an aborted
    `catch_up` keeps the retry source it found. -/
structure StepSettled (op : Op) (w w' : World) (result : Option PassResult) : Prop where
  invariant : Invariant w'
  clean : result = some .clean → w'.service.retrySource = none
  failed : ∀ r, result = some r → r ≠ .clean → ¬(r = .aborted ∧ ∃ env, op = .catchUp env) →
    w'.service.stopped = false → w'.service.retrySource ≠ none
  caller : result = some .aborted → (∃ env, op = .catchUp env) →
    w'.service.retrySource = w.service.retrySource
  aborted : result = some .aborted → w'.service.cursor = none
  notBehind : NotBehind w.catalog.checkpoint w'.catalog.checkpoint

lemma StepSettled.of_settled {op : Op} {result : PassResult} (h : Settled w' result)
    (hbehind : NotBehind w.catalog.checkpoint w'.catalog.checkpoint)
    (hcaller : result = .aborted → ¬∃ env, op = .catchUp env) :
    StepSettled op w w' (some result) where
  invariant := h.invariant
  clean := fun heq => h.clean (Option.some.inj heq)
  failed := fun r hr hne _ => h.failed (by rwa [Option.some.inj hr])
  caller := fun heq hop => absurd hop (hcaller (Option.some.inj heq))
  aborted := fun heq => h.aborted (Option.some.inj heq)
  notBehind := hbehind

lemma StepSettled.of_invariant {op : Op} (h : Invariant w')
    (hcheckpoint : w'.catalog.checkpoint = w.catalog.checkpoint) : StepSettled op w w' none where
  invariant := h
  clean := by simp
  failed := by simp
  caller := by simp
  aborted := by simp
  notBehind := by
    rw [hcheckpoint]
    exact .refl _

lemma catchUp_settled (seed : Provisioned) (env : PassEnv) (h : Invariant w) :
    StepSettled (.catchUp env) w (catchUp seed env w).1 (some (catchUp seed env w).2) := by
  have hd := @runDerivedPass_sound .catchUp w seed env h.sound (by simp)
  unfold catchUp
  generalize runDerivedPass seed .catchUp env w = derived at hd ⊢
  obtain ⟨w', result⟩ := derived
  cases result with
  | none =>
    exact {
      invariant := catchUp_abort_invariant hd h
      clean := by simp
      failed := fun r hr _ hother => by
        refine absurd ⟨?_, env, rfl⟩ hother
        exact (Option.some.inj hr).symm
      caller := fun _ _ => hd.schedule.retrySource
      aborted := fun _ => rfl
      notBehind := hd.notBehind }
  | some report =>
    refine .of_settled (finishPass_settled hd h) (finishPass_notBehind hd) fun haborted => ?_
    simp only [finishPass] at haborted
    split at haborted <;> simp at haborted

lemma retry_pass_invariant (h : Invariant w) (source : ℕ) (hsource : w.service.retrySource = some source) :
    Invariant { w with
      timers := w.timers.filter (· ≠ source)
      service := { w.service with retrySource := none } } where
  sound := ⟨h.sound.checkpoint_mem, h.sound.checkpoint_applied, h.sound.cursor_mem,
    h.sound.cursor_applied, h.sound.cursor_holds⟩
  cursorAhead := h.cursorAhead
  holdsBeyond := h.holdsBeyond
  timers := by
    change w.timers.filter _ = []
    rw [h.timers, hsource]
    simp
  stopped := fun _ => rfl
  asserted := h.asserted

lemma retryCatchUp_settled (seed : Provisioned) (source : ℕ) (env : PassEnv) (h : Invariant w) :
    StepSettled (.retry source env) w (retryCatchUp seed source env w).1
      (retryCatchUp seed source env w).2 := by
  unfold retryCatchUp
  simp only
  split
  · rename_i hstale
    -- a cancelled timer is not attached any more
    have hother : w.service.retrySource ≠ some source := by
      rcases hstale with hstopped | hother
      · rw [h.stopped hstopped]
        simp
      · exact hother
    have hsame : w.timers.filter (· ≠ source) = w.timers := by
      rw [h.timers, List.filter_eq_self]
      intro s hs
      rw [Option.mem_toList] at hs
      have hne : s ≠ source := fun heq => hother (heq ▸ hs)
      simpa using hne
    refine .of_invariant ?_ rfl
    rw [hsame]
    exact h
  · rename_i hlive
    have hsource : w.service.retrySource = some source := by
      by_contra hne
      exact hlive (.inr hne)
    have hinv := retry_pass_invariant h source hsource
    have hd := @runDerivedPass_sound .retry _ seed env hinv.sound (by simp)
    have hbehind := finishPass_notBehind hd
    exact .of_settled (finishPass_settled hd hinv) hbehind (by simp)

lemma stop_invariant (h : Invariant w) : Invariant (stop w) where
  sound := ⟨h.sound.checkpoint_mem, h.sound.checkpoint_applied, h.sound.cursor_mem,
    h.sound.cursor_applied, h.sound.cursor_holds⟩
  cursorAhead := h.cursorAhead
  holdsBeyond := h.holdsBeyond
  timers := dropRetry_timers h.timers
  stopped := fun _ => rfl
  asserted := h.asserted

lemma restart_invariant (h : Invariant w) : Invariant (restart w) where
  sound := sound_withoutCursor h.sound ⟨rfl, rfl, rfl⟩ rfl
  cursorAhead := by simp [CursorAhead, restart, Service.new]
  holdsBeyond := by simp [restart, Service.new]
  timers := rfl
  stopped := by simp [restart, Service.new]
  asserted := by simp [restart]

theorem step_settled (seed : Provisioned) (op : Op) (h : Invariant w) :
    StepSettled op w (step seed op w).1 (step seed op w).2 := by
  cases op with
  | catchUp env => exact catchUp_settled seed env h
  | postIngest env =>
    have hd := @runDerivedPass_sound .postIngest w seed env h.sound fun _ => h.cursorAhead
    exact .of_settled (finishPass_settled hd h) (finishPass_notBehind hd) (by simp)
  | retry source env => exact retryCatchUp_settled seed source env h
  | stop => exact .of_invariant (stop_invariant h) rfl
  | queueRefresh account =>
    exact .of_invariant (h.grows (grows_withService
      ⟨rfl, rfl, rfl, rfl, rfl, rfl, [], (List.append_nil _).symm, by simp⟩)) rfl
  | append event size => exact .of_invariant (h.grows (grows_append w event size)) rfl
  | write account tables => exact .of_invariant (h.grows (grows_withSession w account _)) rfl
  | restart => exact .of_invariant (restart_invariant h) rfl

theorem reachable_invariant {hasRefresh hasExtract : Bool} (h : Reachable seed hasRefresh hasExtract w) :
    Invariant w := by
  induction h with
  | start => exact start_invariant seed hasRefresh hasExtract
  | step op _ ih => exact (step_settled seed op ih).invariant

end

/-! ## A sample run -/

def sampleSeed : Provisioned := .empty

def sampleDelivery (account objectKey : CString) : Event :=
  .messageDelivered ⟨objectKey, 10, 0, ⟨none, none, none, none, none, none, none, 0,
    ⟨false, 0, 0⟩, ⟨false, 0, 0⟩⟩, none, none, some account, none, []⟩

/-- Both passes meet the fault at the run that starts at this sequence. -/
def faultAt (sequence : ℕ) (fault : RunFault) : PassEnv :=
  let surroundings := ⟨true, true, fun p => if p.sequence = sequence then fault else .none⟩
  ⟨surroundings, surroundings, fun _ => ⟨[], true⟩, fun _ => ⟨[], id, id, true⟩⟩

def alice : CString := .literal "alice"

def bob : CString := .literal "bob"

/-- Alice's object is missing, so she is held; when a retry finds it, the retry releases her
    record and then aborts at Bob's. -/
def releasedOps : List Op :=
  [.append (some (sampleDelivery alice (.literal "object-1"))) 0,
    .append (some (sampleDelivery bob (.literal "object-2"))) 0,
    .postIngest (faultAt 1 .objectUnavailable), .retry 0 (faultAt 2 .failed)]

def runOps (seed : Provisioned) (ops : List Op) : World :=
  ops.foldl (fun w op => (step seed op w).1) (start seed true true)

lemma runOps_reachable (seed : Provisioned) (ops : List Op) : Reachable seed true true (runOps seed ops) := by
  have hrun : ∀ w, Reachable seed true true w →
      Reachable seed true true (ops.foldl (fun w op => (step seed op w).1) w) := by
    induction ops with
    | nil => exact fun _ h => h
    | cons op ops ih => exact fun w h => ih _ (.step op h)
  exact hrun _ .start

/-! ## The checkpoint -/

/-- The position after which the next pass of this kind starts. -/
def nextStart (kind : PassKind) (w : World) : Option Position :=
  startPosition w.catalog (if kind = .postIngest then w.service.cursor else none)

/-- Over any sequence of passes the cursor comes with holds and has skipped only records of held
    accounts, a pass after an abort starts no later than the first record not yet applied, and a
    failed pass leaves one retry, a clean one none and an aborted `catch_up` those it found. -/
theorem pass_state (seed : Provisioned) {hasRefresh hasExtract : Bool} {w : World}
    (h : Reachable seed hasRefresh hasExtract w) :
    (w.service.cursor ≠ none → w.service.holds ≠ []) ∧ .assertionFailed ∉ w.trace ∧
    (∀ r ∈ w.log.records, AtOrBefore r w.service.cursor →
      r ∈ w.applied ∨ isHeld w.service.holds (accountOf r)) ∧
    ∀ op w' result, step seed op w = (w', some result) →
      (result = .aborted → ∀ kind, ∀ r ∈ w'.log.records, r ∉ w'.applied →
        ∃ records, pendingRecords w'.log (nextStart kind w') = some records ∧ r ∈ records) ∧
      (result = .clean → w'.timers = []) ∧
      (w'.service.stopped = false → result ≠ .clean → ¬(result = .aborted ∧ ∃ env, op = .catchUp env) →
        w'.timers.length = 1) ∧
      (result = .aborted → (∃ env, op = .catchUp env) → w'.timers = w.timers) := by
  have hinv := reachable_invariant h
  refine ⟨hinv.sound.cursor_holds, hinv.asserted, hinv.sound.cursor_applied, ?_⟩
  intro op w' result hstep
  have hsettled := step_settled seed op hinv
  rw [hstep] at hsettled
  have hinv' := hsettled.invariant
  refine ⟨?_, ?_, ?_, ?_⟩
  · intro haborted kind r hr hpending
    have hstart : nextStart kind w' = w'.catalog.checkpoint := by
      have hcursor : w'.service.cursor = none := hsettled.aborted (by rw [haborted])
      rw [nextStart, hcursor, ite_self]
      rfl
    obtain ⟨records, hrecords⟩ := exists_pendingRecords hinv'.sound.checkpoint_mem
    refine ⟨records, by rw [hstart, hrecords], ?_⟩
    refine (mem_pending_or_atOrBefore hrecords hr).resolve_left fun hle => ?_
    exact hpending (hinv'.sound.checkpoint_applied r hr hle)
  · intro hclean
    have htimers : w'.timers = w'.service.retrySource.toList := hinv'.timers
    have hnone : w'.service.retrySource = none := hsettled.clean (by rw [hclean])
    rw [htimers, hnone]
    rfl
  · intro hrunning hfailed hother
    have htimers : w'.timers = w'.service.retrySource.toList := hinv'.timers
    have hsome : w'.service.retrySource ≠ none := hsettled.failed result rfl hfailed hother hrunning
    obtain ⟨source, hsource⟩ := Option.ne_none_iff_exists'.mp hsome
    rw [htimers, hsource]
    rfl
  · intro haborted hcaller
    have htimers : w'.timers = w'.service.retrySource.toList := hinv'.timers
    have hsame : w'.service.retrySource = w.service.retrySource :=
      hsettled.caller (by rw [haborted]) hcaller
    rw [htimers, hsame]
    exact hinv.timers.symm

theorem pass_state_released :
    (runOps sampleSeed releasedOps).timers.length = 1 ∧
    .assertionFailed ∉ (runOps sampleSeed releasedOps).trace :=
  ⟨by decide, (pass_state sampleSeed (runOps_reachable sampleSeed releasedOps)).2.1⟩

/-- An aborted `catch_up` schedules nothing. -/
theorem aborted_catch_up_without_retry :
    ¬∀ (seed : Provisioned) (hasRefresh hasExtract : Bool) (w : World),
      Reachable seed hasRefresh hasExtract w →
        (w.service.cursor ≠ none → w.service.holds ≠ []) ∧
        (∀ r ∈ w.log.records, AtOrBefore r w.service.cursor →
          r ∈ w.applied ∨ isHeld w.service.holds (accountOf r)) ∧
        ∀ op w' result, step seed op w = (w', some result) →
          (result = .aborted → ∀ kind, ∀ r ∈ w'.log.records, r ∉ w'.applied →
            ∃ records, pendingRecords w'.log (nextStart kind w') = some records ∧ r ∈ records) ∧
          (w'.service.stopped = false →
            (result ≠ .clean → w'.timers.length = 1) ∧ (result = .clean → w'.timers = [])) := by
  intro hclaim
  let unreadable : PassEnv := { faultAt 0 .none with first := ⟨false, true, fun _ => .none⟩ }
  have hstep := (hclaim sampleSeed true true _ .start).2.2 (.catchUp unreadable)
    (step sampleSeed (.catchUp unreadable) (start sampleSeed true true)).1 .aborted rfl
  exact absurd ((hstep.2 (by decide)).1 (by decide)) (by decide)

end
end Wyrebox.PassState
