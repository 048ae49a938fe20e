import Wyrebox.PassState

set_option autoImplicit false

/-!
# The pending refreshes

Every account whose rows a committed run changed is handed to the refresh callback afterwards or
still waits for it, as long as no pass aborts over such a commit.
-/
namespace Wyrebox.RefreshQueue
open Catalog Materializer Catchup MaterializationService PassState

def calledFor (account : CString) : TraceEvent → Bool
  | .refreshCalled other => other = account
  | _ => false

/-- Every account that a commit of the trace changed is refreshed later in the trace or pending. -/
def Awaited (pending : List CString) : List TraceEvent → Prop
  | [] => True
  | .committed commit :: later =>
    (commit.before ≠ commit.after →
      later.any (calledFor commit.run.account) = true ∨ commit.run.account ∈ pending) ∧ Awaited pending later
  | _ :: later => Awaited pending later

lemma awaited_append {pending pending' : List CString} {trace new : List TraceEvent}
    (h : Awaited pending trace)
    (hkept : ∀ account ∈ pending, new.any (calledFor account) = true ∨ account ∈ pending')
    (hnew : Awaited pending' new) : Awaited pending' (trace ++ new) := by
  induction trace with
  | nil => exact hnew
  | cons event trace ih =>
    cases event with
    | committed commit =>
      refine ⟨fun hchanged => ?_, ih h.2⟩
      change (trace ++ new).any _ = true ∨ _
      rw [List.any_append]
      rcases h.1 hchanged with hcalled | hpending
      · exact .inl (by rw [hcalled, Bool.true_or])
      · exact (hkept _ hpending).imp_left fun hcalled => by rw [hcalled, Bool.or_true]
    | refreshCalled account => exact ih h
    | passAborted kind => exact ih h
    | passCompleted kind => exact ih h
    | assertionFailed => exact ih h

lemma awaited_commits {pending : List CString} {commits : List Commit}
    (h : ∀ commit ∈ commits, commit.before ≠ commit.after → commit.run.account ∈ pending) :
    Awaited pending (commits.map .committed) := by
  induction commits with
  | nil => trivial
  | cons commit commits ih =>
    exact ⟨fun hchanged => .inr (h commit List.mem_cons_self hchanged),
      ih fun c hc => h c (List.mem_cons_of_mem _ hc)⟩

/-! ## The accounts a pass reports -/

/-- Every commit but a membership change counts its account as materialized. -/
def Counted (p : Progress) : Prop :=
  ∀ commit ∈ p.commits, isMembershipChange commit.run.first = false →
    commit.run.account ∈ p.materializedAccounts

section
variable {seed : Provisioned} {env : Surroundings} {fromCheckpoint : Bool}

lemma stepRun_counted {p p' : Progress} {run : Run} (h : Counted p)
    (hstep : stepRun seed env fromCheckpoint p run = some p') : Counted p' := by
  rcases PassInvariant.stepRun_eq_some hstep with ⟨-, rfl⟩ | ⟨-, rfl⟩ | ⟨-, cat, -, rfl⟩
  · exact h
  · exact h
  · intro commit hcommit hchange
    change _ ∈ (if isMembershipChange run.first then p.materializedAccounts
      else p.materializedAccounts.insert run.account)
    rcases List.mem_append.mp hcommit with hold | hnew
    · have hmem := h commit hold hchange
      split
      · exact hmem
      · exact List.mem_insert_of_mem hmem
    · rw [List.mem_singleton] at hnew
      subst hnew
      rw [if_neg (by simp [hchange])]
      exact List.mem_insert_self

lemma passLoop_counted {p : Progress} (h : Counted p) (more : List Run) :
    Counted (passLoop seed env fromCheckpoint p more).1 := by
  induction more generalizing p with
  | nil => exact h
  | cons run more ih =>
    rw [passLoop]
    cases hstep : stepRun seed env fromCheckpoint p run with
    | none => exact h
    | some p' => exact ih (stepRun_counted h hstep)

lemma pass_counted {log : Log} {resumeAfter : Option JournalWriter.Position} {prior : List Hold}
    {cat : Catalog} {p : Progress} {report : Report}
    (h : pass seed env log resumeAfter prior cat = (p, some report)) :
    ∀ commit ∈ p.commits, isMembershipChange commit.run.first = false →
      commit.run.account ∈ report.materializedAccounts := by
  cases hrecords : passRecords env log cat resumeAfter with
  | none => simp [CheckpointInvariant.pass_eq_none _ _ _ _ _ _ hrecords] at h
  | some records =>
    rw [CheckpointInvariant.pass_eq _ _ _ _ _ _ hrecords] at h
    have hcounted := @passLoop_counted seed env (startsAtCheckpoint cat resumeAfter)
      ⟨cat, prior, [], []⟩ (fun commit hcommit => absurd hcommit List.not_mem_nil) (runs records)
    generalize passLoop seed env (startsAtCheckpoint cat resumeAfter) ⟨cat, prior, [], []⟩
      (runs records) = loop at h hcounted
    obtain ⟨p', completed⟩ := loop
    cases completed with
    | false => simp at h
    | true =>
      simp only [if_true, Prod.mk.injEq, Option.some.injEq] at h
      obtain ⟨rfl, rfl⟩ := h
      intro commit hcommit hchange
      exact (List.mem_insertionSort CString.Le).mpr (hcounted commit hcommit hchange)

end

/-! ## Passes that lose no account -/

section
variable (seed : Provisioned)

/-- The pass does not abort over a commit that changed an account which is not pending, and its
    membership changes only restore what the catalog has. -/
structure PassKeeps (kind : PassKind) (env : Surroundings) (w : World) : Prop where
  aborted : (servicePass seed kind env w).2 = none → ∀ commit ∈ (servicePass seed kind env w).1.commits,
    commit.before ≠ commit.after → commit.run.account ∈ w.service.pendingRefresh
  restored : ∀ commit ∈ (servicePass seed kind env w).1.commits,
    isMembershipChange commit.run.first = true → commit.before = commit.after

/-- The world in which the follow-up pass of an entry point starts, when there is one. -/
def followUpStart (kind : PassKind) (env : PassEnv) (w : World) : Option World :=
  match runPass seed kind env.first w with
  | (_, none) => none
  | (w, some report) =>
    let w := queueMaterializedAccounts report w
    match extractPending env report (w.withService { w.service with refreshHolds := [] }) with
    | (_, false) => none
    | (w, true) => some w

structure EntryKeeps (kind : PassKind) (env : PassEnv) (w : World) : Prop where
  first : PassKeeps seed kind env.first w
  followUp : ∀ w', followUpStart seed kind env w = some w' → PassKeeps seed kind env.followUp w'

def StepKeeps (op : Op) (w : World) : Prop :=
  match op with
  | .catchUp env => EntryKeeps seed .catchUp env w
  | .postIngest env => EntryKeeps seed .postIngest env w
  | .retry source env => w.service.stopped = false → w.service.retrySource = some source →
      EntryKeeps seed .retry env
        { w with
          timers := w.timers.filter (· ≠ source)
          service := { w.service with retrySource := none } }
  | _ => True

/-- The worlds reached by steps that lose no account. The daemon has a refresh callback. -/
inductive Steady (hasExtract : Bool) : World → Prop where
  | start : Steady hasExtract (start seed true hasExtract)
  | step (op : Op) {w : World} : Steady hasExtract w → StepKeeps seed op w →
      Steady hasExtract (step seed op w).1

end

structure Waiting (w : World) : Prop where
  awaited : Awaited w.service.pendingRefresh w.trace
  hasRefresh : w.service.hasRefresh = true

section
variable {seed : Provisioned} {w w' : World}

/-- Nothing stops waiting. -/
lemma Waiting.of_keeps (h : Waiting w) (htrace : w'.trace = w.trace)
    (hpending : ∀ account ∈ w.service.pendingRefresh, account ∈ w'.service.pendingRefresh)
    (hrefresh : w'.service.hasRefresh = w.service.hasRefresh) : Waiting w' where
  awaited := by
    have hall : Awaited w'.service.pendingRefresh (w.trace ++ []) :=
      awaited_append h.awaited (fun account hmem => .inr (hpending account hmem)) trivial
    rwa [List.append_nil, ← htrace] at hall
  hasRefresh := hrefresh.trans h.hasRefresh

lemma Waiting.record (h : Waiting w) (event : TraceEvent)
    (hevent : ∀ commit, event ≠ .committed commit) : Waiting (w.record event) where
  awaited := by
    refine awaited_append h.awaited (fun account hmem => .inr hmem) ?_
    cases event with
    | committed commit => exact absurd rfl (hevent commit)
    | refreshCalled account => trivial
    | passAborted kind => trivial
    | passCompleted kind => trivial
    | assertionFailed => trivial
  hasRefresh := h.hasRefresh

lemma Waiting.appendAll (h : Waiting w) (events : List (Event × ℕ)) : Waiting (w.appendAll events) :=
  h.of_keeps rfl (fun _ hmem => hmem) rfl

lemma Waiting.addRefreshHold (h : Waiting w) (account : CString) : Waiting (addRefreshHold account w) :=
  h.of_keeps rfl (fun _ hmem => hmem) rfl

/-! ## One pass -/

lemma mem_foldl_insert {accounts pending : List CString} {account : CString}
    (h : account ∈ accounts ∨ account ∈ pending) :
    account ∈ accounts.foldl (fun pending account => pending.insert account) pending := by
  induction accounts generalizing pending with
  | nil => simpa using h
  | cons first accounts ih =>
    refine ih ?_
    rcases h with hmem | hmem
    · rcases List.mem_cons.mp hmem with rfl | hmem
      · exact .inr List.mem_insert_self
      · exact .inl hmem
    · exact .inr (List.mem_insert_of_mem hmem)

lemma Waiting.assertCursorHasHolds (h : Waiting w) : Waiting (assertCursorHasHolds w) := by
  unfold MaterializationService.assertCursorHasHolds
  split
  · exact h.record _ (by simp)
  · exact h

lemma servicePass_assert (kind : PassKind) (env : Surroundings) (w : World) :
    servicePass seed kind env (assertCursorHasHolds w) = servicePass seed kind env w := by
  unfold assertCursorHasHolds
  split <;> rfl

lemma assert_pendingRefresh (w : World) :
    (assertCursorHasHolds w).service.pendingRefresh = w.service.pendingRefresh := by
  unfold assertCursorHasHolds
  split <;> rfl

/-- A pass that keeps its accounts leaves them waiting: an aborted one as they were, a completed
    one in the queue. -/
lemma runPass_waiting {kind : PassKind} {env : Surroundings} (h : Waiting w)
    (hkeeps : PassKeeps seed kind env w) :
    match runPass seed kind env w with
    | (w', none) => Waiting w'
    | (w', some report) => Waiting (queueMaterializedAccounts report w') := by
  have hassert := h.assertCursorHasHolds
  have haborted := hkeeps.aborted
  have hrestored := hkeeps.restored
  unfold runPass
  simp only [servicePass_assert]
  cases hpass : servicePass seed kind env w with
  | mk progress result =>
    rw [hpass] at haborted hrestored
    cases result with
    | none =>
      refine ⟨?_, hassert.hasRefresh⟩
      refine awaited_append hassert.awaited (fun account hmem => .inr hmem) (awaited_commits ?_)
      intro commit hcommit hchanged
      rw [assert_pendingRefresh]
      exact haborted rfl commit hcommit hchanged
    | some report =>
      refine ⟨?_, hassert.hasRefresh⟩
      refine awaited_append hassert.awaited (fun account hmem => .inr (mem_foldl_insert (.inr hmem)))
        (awaited_commits ?_)
      intro commit hcommit hchanged
      refine mem_foldl_insert (.inl ?_)
      refine pass_counted hpass commit hcommit ?_
      by_contra hmembership
      exact hchanged (hrestored commit hcommit (by simpa using hmembership))

/-! ## Extractions and refreshes -/

lemma extractPending_waiting (env : PassEnv) (report : Report) (h : Waiting w) :
    Waiting (extractPending env report w).1 := by
  have hfold : ∀ (accounts : List CString) (progress : World × Bool), Waiting progress.1 →
      Waiting (accounts.foldl (extractAccount env) progress).1 := by
    intro accounts
    induction accounts with
    | nil => exact fun _ h => h
    | cons account accounts ih =>
      intro progress hprogress
      refine ih _ ?_
      obtain ⟨w, appendedAny⟩ := progress
      change Waiting (if (env.extract account).succeeded then _ else _)
      split
      · exact hprogress.appendAll _
      · exact (hprogress.appendAll _).addRefreshHold account
  unfold extractPending
  split
  · exact h
  · exact hfold _ (w, false) h

/-- An account leaves the queue only by the call that refreshed it. -/
lemma refreshAccount_waiting (env : PassEnv) (account : CString) (h : Waiting w) :
    Waiting (refreshAccount env w account) := by
  have happended := h.appendAll (env.refresh account).appended
  unfold refreshAccount
  simp only
  split
  · refine ⟨?_, happended.hasRefresh⟩
    refine awaited_append happended.awaited (fun other hmem => ?_) trivial
    by_cases hsame : other = account
    · left
      simp [calledFor, hsame]
    · right
      exact List.mem_filter.mpr ⟨hmem, by simpa using hsame⟩
  · exact (happended.record (.refreshCalled account) (by simp)).of_keeps rfl
      (fun _ hmem => hmem) rfl

lemma refreshPending_waiting (env : PassEnv) (report : Report) (h : Waiting w) :
    Waiting (refreshPending env report w) := by
  unfold refreshPending
  rw [h.hasRefresh]
  simp only [Bool.not_true, Bool.false_eq_true, if_false]
  generalize pendingUnheldAccounts report w.service = accounts
  induction accounts generalizing w with
  | nil => exact h
  | cons account accounts ih => exact ih (refreshAccount_waiting env account h)

lemma runDerivedPass_waiting {kind : PassKind} {env : PassEnv} (h : Waiting w)
    (hkeeps : EntryKeeps seed kind env w) : Waiting (runDerivedPass seed kind env w).1 := by
  have hfirst := runPass_waiting h hkeeps.first
  have hfollowUp := hkeeps.followUp
  unfold followUpStart at hfollowUp
  unfold runDerivedPass
  generalize runPass seed kind env.first w = first at hfirst hfollowUp ⊢
  obtain ⟨w₁, result⟩ := first
  cases result with
  | none => exact hfirst
  | some report =>
    simp only at hfirst hfollowUp ⊢
    have hcleared : Waiting ((queueMaterializedAccounts report w₁).withService
        { (queueMaterializedAccounts report w₁).service with refreshHolds := [] }) :=
      hfirst.of_keeps rfl (fun _ hmem => hmem) rfl
    have hextract := extractPending_waiting env report hcleared
    generalize extractPending env report _ = extracted at hextract hfollowUp ⊢
    obtain ⟨w₂, appendedAny⟩ := extracted
    cases appendedAny with
    | false => exact refreshPending_waiting env report hextract
    | true =>
      simp only at hextract hfollowUp ⊢
      have hsecond := runPass_waiting hextract (hfollowUp w₂ rfl)
      generalize runPass seed kind env.followUp w₂ = second at hsecond ⊢
      obtain ⟨w₃, result⟩ := second
      cases result with
      | none => exact hsecond
      | some report => exact refreshPending_waiting env report hsecond

/-! ## Runs -/

lemma finishFailedPass_pendingRefresh (kind : PassKind) (result : Option Report) (w : World) :
    (finishFailedPass kind result w).service.pendingRefresh = w.service.pendingRefresh ∧
      (finishFailedPass kind result w).service.hasRefresh = w.service.hasRefresh ∧
      (finishFailedPass kind result w).trace = w.trace := by
  have hbackOff : ∀ service : Service, (backOff kind service).pendingRefresh = service.pendingRefresh ∧
      (backOff kind service).hasRefresh = service.hasRefresh := by
    intro service
    unfold backOff
    split
    · exact ⟨rfl, rfl⟩
    · split <;> exact ⟨rfl, rfl⟩
  have hfailed : (failedService result w.service).pendingRefresh = w.service.pendingRefresh ∧
      (failedService result w.service).hasRefresh = w.service.hasRefresh := by
    cases result <;> exact ⟨rfl, rfl⟩
  obtain ⟨hpending, hrefresh⟩ := hbackOff (failedService result w.service)
  unfold finishFailedPass
  simp only
  split
  · exact ⟨hpending.trans hfailed.1, hrefresh.trans hfailed.2, rfl⟩
  · exact ⟨hpending.trans hfailed.1, hrefresh.trans hfailed.2, rfl⟩

lemma finishFailedPass_waiting (kind : PassKind) (result : Option Report) (h : Waiting w) :
    Waiting (finishFailedPass kind result w) := by
  obtain ⟨hpending, hrefresh, htrace⟩ := finishFailedPass_pendingRefresh kind result w
  exact h.of_keeps htrace (fun account hmem => by rwa [hpending]) hrefresh

lemma finishPass_waiting (kind : PassKind) (result : Option Report) (h : Waiting w) :
    Waiting (finishPass kind (w, result)).1 := by
  cases result with
  | none => exact (finishFailedPass_waiting kind none h).record _ (by simp)
  | some report =>
    unfold finishPass
    simp only
    split
    · have hclean : Waiting (finishCleanPass w) := h.of_keeps rfl (fun _ hmem => hmem) rfl
      exact hclean.record _ (by simp)
    · exact (finishFailedPass_waiting kind (some report) h).record _ (by simp)

lemma catchUp_waiting {env : PassEnv} (h : Waiting w) (hkeeps : EntryKeeps seed .catchUp env w) :
    Waiting (catchUp seed env w).1 := by
  have hderived := runDerivedPass_waiting h hkeeps
  unfold catchUp
  generalize runDerivedPass seed .catchUp env w = derived at hderived ⊢
  obtain ⟨w', result⟩ := derived
  cases result with
  | none =>
    have hcursor : Waiting (w'.withService { w'.service with cursor := none }) :=
      hderived.of_keeps rfl (fun _ hmem => hmem) rfl
    exact hcursor.record _ (by simp)
  | some report => exact finishPass_waiting .catchUp (some report) hderived

lemma retryCatchUp_waiting {source : ℕ} {env : PassEnv} (h : Waiting w)
    (hkeeps : StepKeeps seed (.retry source env) w) : Waiting (retryCatchUp seed source env w).1 := by
  unfold retryCatchUp
  simp only
  split
  · exact h.of_keeps rfl (fun _ hmem => hmem) rfl
  · rename_i hlive
    rw [not_or, Bool.not_eq_true, not_not] at hlive
    have hstart : Waiting { w with
        timers := w.timers.filter (· ≠ source)
        service := { w.service with retrySource := none } } := h.of_keeps rfl (fun _ hmem => hmem) rfl
    exact finishPass_waiting .retry _ (runDerivedPass_waiting hstart (hkeeps hlive.1 hlive.2))

theorem step_waiting (op : Op) (h : Waiting w) (hkeeps : StepKeeps seed op w) :
    Waiting (step seed op w).1 := by
  cases op with
  | catchUp env => exact catchUp_waiting h hkeeps
  | postIngest env => exact finishPass_waiting .postIngest _ (runDerivedPass_waiting h hkeeps)
  | retry source env => exact retryCatchUp_waiting h hkeeps
  | stop => exact h.of_keeps rfl (fun _ hmem => hmem) rfl
  | queueRefresh account =>
    exact h.of_keeps rfl (fun _ hmem => List.mem_insert_of_mem hmem) rfl
  | append event size => exact h.of_keeps rfl (fun _ hmem => hmem) rfl
  | write account tables => exact h.of_keeps rfl (fun _ hmem => hmem) rfl
  | restart => exact ⟨trivial, h.hasRefresh⟩

/-- The first pass commits Alice's delivery and aborts at Bob's, so its report is lost. -/
def forgottenOps : List Op :=
  [.append (some (sampleDelivery alice (.literal "object-1"))) 0,
    .append (some (sampleDelivery bob (.literal "object-2"))) 0,
    .postIngest (faultAt 2 .failed)]

end
end Wyrebox.RefreshQueue
