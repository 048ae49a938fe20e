import Wyrebox.Catchup

set_option autoImplicit false

/-!
# The delivery materialization service

The daemon's pass state around the catch-up passes: the held accounts, the scan cursor, the
accounts waiting for a refresh and the retry timer. Every entry point holds the service's lock.
-/
namespace Wyrebox.MaterializationService
open Catalog Catchup
open JournalWriter (Position)

inductive PassKind where
  | catchUp
  | postIngest
  | retry
  deriving DecidableEq

structure Service where
  retrySource : Option ℕ
  retryInitialMs : ℕ
  retryMaxMs : ℕ
  retryIntervalMs : ℕ
  consecutiveFailures : ℕ
  aborted : Bool
  stopped : Bool
  holds : List Hold
  cursor : Option Position
  hasRefresh : Bool
  hasExtract : Bool
  pendingRefresh : List CString
  refreshHolds : List CString

namespace Service

def new (hasRefresh hasExtract : Bool) : Service where
  retrySource := none
  retryInitialMs := 5000
  retryMaxMs := 5 * 60 * 1000
  retryIntervalMs := 5000
  consecutiveFailures := 0
  aborted := false
  stopped := false
  holds := []
  cursor := none
  hasRefresh := hasRefresh
  hasExtract := hasExtract
  pendingRefresh := []
  refreshHolds := []

end Service

/-- What happened in one lifetime of the process. -/
inductive TraceEvent where
  | committed (commit : Commit)
  | refreshCalled (account : CString)
  | passAborted (kind : PassKind)
  | passCompleted (kind : PassKind)
  | assertionFailed

/-- The daemon's state. `applied` are the records of every transaction committed so far, and
    `timers` the retry sources attached to the main context. -/
structure World where
  log : Log
  catalog : Catalog
  applied : List ProjectionRecord
  service : Service
  timers : List ℕ
  timersCreated : ℕ
  trace : List TraceEvent

/-- What a call of the extraction callback does. -/
structure Extraction where
  appended : List (Event × ℕ)
  succeeded : Bool

/-- What a call of the refresh callback does to the journal and the account's rows. -/
structure Refresh where
  appended : List (Event × ℕ)
  tables : AccountTables → AccountTables
  derivedOwner : Registry CString CString → Registry CString CString
  succeeded : Bool

structure PassEnv where
  first : Surroundings
  followUp : Surroundings
  extract : CString → Extraction
  refresh : CString → Refresh

namespace World

def appendAll (w : World) (events : List (Event × ℕ)) : World :=
  { w with log := events.foldl (fun log entry => log.append (some entry.1) entry.2) w.log }

def withService (w : World) (service : Service) : World := { w with service := service }

def record (w : World) (event : TraceEvent) : World := { w with trace := w.trace ++ [event] }

end World

section
variable (seed : Provisioned)

/-! ## One pass -/

/-- `g_assert (!self->cursor.present || self->holds->len > 0)`. -/
def assertCursorHasHolds (w : World) : World :=
  if w.service.cursor ≠ none ∧ w.service.holds = [] then w.record .assertionFailed else w

/-- Post-ingest passes continue from the scan cursor with the current holds; every other pass is
    a full pass from the checkpoint with no holds. -/
def servicePass (kind : PassKind) (env : Surroundings) (w : World) : Progress × Option Report :=
  let resume := kind = .postIngest
  pass seed env w.log (if resume then w.service.cursor else none) (if resume then w.service.holds else [])
    w.catalog

def runPass (kind : PassKind) (env : Surroundings) (w : World) : World × Option Report :=
  let w := assertCursorHasHolds w
  let (progress, report) := servicePass seed kind env w
  ({ w with
      catalog := progress.catalog
      applied := w.applied ++ progress.commits.flatMap fun commit => commit.run.records
      trace := w.trace ++ progress.commits.map .committed }, report)

def queueMaterializedAccounts (report : Report) (w : World) : World :=
  w.withService { w.service with
    pendingRefresh := report.materializedAccounts.foldl (fun pending account => pending.insert account)
      w.service.pendingRefresh }

def pendingUnheldAccounts (report : Report) (service : Service) : List CString :=
  (service.pendingRefresh.filter fun account =>
    !isHeld report.holds account ∧ account ∉ service.refreshHolds).insertionSort CString.Le

def addRefreshHold (account : CString) (w : World) : World :=
  w.withService { w.service with refreshHolds := w.service.refreshHolds ++ [account] }

def extractAccount (env : PassEnv) (progress : World × Bool) (account : CString) : World × Bool :=
  let (w, appendedAny) := progress
  let extraction := env.extract account
  let w := w.appendAll extraction.appended
  (if extraction.succeeded then w else addRefreshHold account w,
    appendedAny || !extraction.appended.isEmpty)

/-- Whether any extraction appended records is the second result. -/
def extractPending (env : PassEnv) (report : Report) (w : World) : World × Bool :=
  if !w.service.hasExtract then (w, false)
  else (pendingUnheldAccounts report w.service).foldl (extractAccount env) (w, false)

def refreshAccount (env : PassEnv) (w : World) (account : CString) : World :=
  let refresh := env.refresh account
  let w := (w.appendAll refresh.appended).record (.refreshCalled account)
  let session := w.catalog.session account
  let w := { w with
    catalog := w.catalog.withSession account { session with
      tables := refresh.tables session.tables
      derivedOwner := refresh.derivedOwner session.derivedOwner } }
  if refresh.succeeded then
    w.withService { w.service with pendingRefresh := w.service.pendingRefresh.filter (· ≠ account) }
  else addRefreshHold account w

def refreshPending (env : PassEnv) (report : Report) (w : World) : World :=
  if !w.service.hasRefresh then
    w.withService { w.service with
      pendingRefresh := w.service.pendingRefresh.filter (· ∈ w.service.refreshHolds) }
  else (pendingUnheldAccounts report w.service).foldl (refreshAccount env) w

/-- `run_derived_pass_locked`: a pass, the extractions it makes possible, a second pass when they
    appended records, and the refreshes. -/
def runDerivedPass (kind : PassKind) (env : PassEnv) (w : World) : World × Option Report :=
  match runPass seed kind env.first w with
  | (w, none) => (w, none)
  | (w, some report) =>
    let w := queueMaterializedAccounts report w
    let w := w.withService { w.service with refreshHolds := [] }
    match extractPending env report w with
    | (w, false) => (refreshPending env report w, some report)
    | (w, true) =>
      match runPass seed kind env.followUp w with
      | (w, none) => (w, none)
      | (w, some report) => (refreshPending env report (queueMaterializedAccounts report w), some report)

end

/-! ## What a finished pass leaves -/

inductive PassResult where
  | clean
  | held
  | aborted
  deriving DecidableEq

/-- `g_steal_pointer` and `g_source_destroy`. -/
def dropRetry (w : World) : World :=
  { w with
    timers := w.timers.filter (some · ≠ w.service.retrySource)
    service := { w.service with retrySource := none } }

def scheduleRetry (w : World) : World :=
  { w with
    timers := w.timers ++ [w.timersCreated]
    timersCreated := w.timersCreated + 1
    service := { w.service with retrySource := some w.timersCreated } }

def finishCleanPass (w : World) : World :=
  dropRetry (w.withService { w.service with
    consecutiveFailures := 0
    aborted := false
    retryIntervalMs := w.service.retryInitialMs
    holds := []
    cursor := none })

def backOff (kind : PassKind) (service : Service) : Service :=
  if kind = .retry then
    { service with
      consecutiveFailures := service.consecutiveFailures + 1
      retryIntervalMs :=
        if service.retryIntervalMs > service.retryMaxMs / 2 then service.retryMaxMs
        else service.retryIntervalMs * 2 }
  else if service.consecutiveFailures = 0 then { service with consecutiveFailures := 1 }
  else service

/-- A completed pass replaces the holds; an aborted one keeps them and resets the cursor. -/
def failedService (result : Option Report) (service : Service) : Service :=
  match result with
  | some report => { service with
      aborted := false
      holds := report.holds
      cursor := if report.holds ≠ [] then report.scannedThrough else none }
  | none => { service with aborted := true, cursor := none }

def finishFailedPass (kind : PassKind) (result : Option Report) (w : World) : World :=
  let w := w.withService (backOff kind (failedService result w.service))
  if !w.service.stopped ∧ w.service.retrySource = none then scheduleRetry w else w

def finishPass (kind : PassKind) : World × Option Report → World × PassResult
  | (w, none) => ((finishFailedPass kind none w).record (.passAborted kind), .aborted)
  | (w, some report) =>
    if report.holds = [] ∧ w.service.refreshHolds = [] then
      ((finishCleanPass w).record (.passCompleted kind), .clean)
    else ((finishFailedPass kind (some report) w).record (.passCompleted kind), .held)

/-! ## Entry points -/

section
variable (seed : Provisioned)

/-- The startup and request pass. An abort is the caller's to handle: nothing is scheduled. -/
def catchUp (env : PassEnv) (w : World) : World × PassResult :=
  match runDerivedPass seed .catchUp env w with
  | (w, none) => ((w.withService { w.service with cursor := none }).record (.passAborted .catchUp), .aborted)
  | (w, some report) => finishPass .catchUp (w, some report)

def catchUpOrScheduleRetry (env : PassEnv) (w : World) : World × PassResult :=
  finishPass .postIngest (runDerivedPass seed .postIngest env w)

/-- The timer callback of `source`, which may already have been cancelled. -/
def retryCatchUp (source : ℕ) (env : PassEnv) (w : World) : World × Option PassResult :=
  let w := { w with timers := w.timers.filter (· ≠ source) }
  if w.service.stopped ∨ w.service.retrySource ≠ some source then (w, none)
  else
    let (w, result) := finishPass .retry
      (runDerivedPass seed .retry env (w.withService { w.service with retrySource := none }))
    (w, some result)

def stop (w : World) : World :=
  dropRetry (w.withService { w.service with stopped := true })

def queueRefresh (account : CString) (w : World) : World :=
  w.withService { w.service with pendingRefresh := w.service.pendingRefresh.insert account }

/-- A new process over the journal and catalog the old one left. -/
def restart (w : World) : World where
  log := w.log
  catalog := w.catalog
  applied := w.applied
  service := .new w.service.hasRefresh w.service.hasExtract
  timers := []
  timersCreated := 0
  trace := []

/-- One thing that happens to the daemon. `append` and `write` are the other services. -/
inductive Op where
  | catchUp (env : PassEnv)
  | postIngest (env : PassEnv)
  | retry (source : ℕ) (env : PassEnv)
  | stop
  | queueRefresh (account : CString)
  | append (event : Option Event) (size : ℕ)
  | write (account : CString) (tables : AccountTables → AccountTables)
  | restart

def step (op : Op) (w : World) : World × Option PassResult :=
  match op with
  | .catchUp env => let (w, result) := catchUp seed env w; (w, some result)
  | .postIngest env => let (w, result) := catchUpOrScheduleRetry seed env w; (w, some result)
  | .retry source env => retryCatchUp seed source env w
  | .stop => (stop w, none)
  | .queueRefresh account => (queueRefresh account w, none)
  | .append event size => ({ w with log := w.log.append event size }, none)
  | .write account tables =>
    let session := w.catalog.session account
    ({ w with catalog := w.catalog.withSession account { session with tables := tables session.tables } },
      none)
  | .restart => (restart w, none)

def start (hasRefresh hasExtract : Bool) : World where
  log := .empty
  catalog := .initial seed
  applied := []
  service := .new hasRefresh hasExtract
  timers := []
  timersCreated := 0
  trace := []

/-- The worlds that some sequence of operations reaches. -/
inductive Reachable (hasRefresh hasExtract : Bool) : World → Prop where
  | start : Reachable hasRefresh hasExtract (start seed hasRefresh hasExtract)
  | step (op : Op) {w : World} : Reachable hasRefresh hasExtract w →
      Reachable hasRefresh hasExtract (step seed op w).1

end
end Wyrebox.MaterializationService
