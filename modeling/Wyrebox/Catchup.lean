import Wyrebox.Materializer

set_option autoImplicit false

/-!
# Catch-up passes

One pass replays the projected records after the checkpoint or a scan cursor. A run of deliveries
that cannot be applied holds its account; any other failure aborts the pass.
-/
namespace Wyrebox.Catchup
open Catalog Materializer
open JournalWriter (Position)

def Precedes (p q : Position) : Prop := p.offset < q.offset ∧ p.sequence < q.sequence

instance (p q : Position) : Decidable (Precedes p q) := inferInstanceAs (Decidable (_ ∧ _))

lemma Precedes.trans {p q r : Position} (h : Precedes p q) (h' : Precedes q r) : Precedes p r :=
  ⟨h.1.trans h'.1, h.2.trans h'.2⟩

lemma Precedes.irrefl (p : Position) : ¬Precedes p p := fun h => absurd h.1 (lt_irrefl _)

/-- The durable journal: its projected records and where the next record goes. -/
structure Log where
  records : List ProjectionRecord
  nextOffset : ℕ
  nextSequence : ℕ
  ordered : records.Pairwise fun r s => Precedes r.position s.position
  bounded : ∀ r ∈ records, Precedes r.position ⟨nextOffset, nextSequence⟩
  numbered : ∀ r ∈ records, 1 ≤ r.position.sequence
  next_pos : 1 ≤ nextSequence

namespace Log

def empty : Log := ⟨[], 0, 1, .nil, by simp, by simp, le_refl 1⟩

def nextPosition (log : Log) : Position := ⟨log.nextOffset, log.nextSequence⟩

/-- One synced append of a record of 64 bytes and more. The reader skips events that are not
    projected. -/
def append (log : Log) (event : Option Event) (size : ℕ) : Log where
  records := log.records ++ (event.map fun event => ⟨log.nextPosition, event⟩).toList
  nextOffset := log.nextOffset + (64 + size)
  nextSequence := log.nextSequence + 1
  ordered := by
    rw [List.pairwise_append]
    refine ⟨log.ordered, ?_, ?_⟩
    · cases event <;> simp
    · intro r hr s hs
      cases event with
      | none => simp at hs
      | some event =>
        simp only [Option.map_some, Option.toList_some, List.mem_singleton] at hs
        subst hs
        exact log.bounded r hr
  bounded := by
    intro r hr
    have hnext : Precedes log.nextPosition ⟨log.nextOffset + (64 + size), log.nextSequence + 1⟩ := by
      simp [Precedes, nextPosition]
    rcases List.mem_append.mp hr with hold | hnew
    · exact (log.bounded r hold).trans hnext
    · cases event with
      | none => simp at hnew
      | some event =>
        simp only [Option.map_some, Option.toList_some, List.mem_singleton] at hnew
        subst hnew
        exact hnext
  numbered := by
    intro r hr
    rcases List.mem_append.mp hr with hold | hnew
    · exact log.numbered r hold
    · cases event with
      | none => simp at hnew
      | some event =>
        simp only [Option.map_some, Option.toList_some, List.mem_singleton] at hnew
        subst hnew
        exact log.next_pos
  next_pos := Nat.le_add_left 1 _

end Log

/-! ## Runs -/

def isDelivery (record : ProjectionRecord) : Bool :=
  match record.event with
  | .messageDelivered _ => true
  | _ => false

def isMembershipChange (record : ProjectionRecord) : Bool :=
  match record.event with
  | .derivedViewMembershipChanged _ => true
  | _ => false

def isMessageAppended (record : ProjectionRecord) : Bool :=
  match record.event with
  | .messageAppended _ => true
  | _ => false

def accountOf (record : ProjectionRecord) : CString := record.event.accountIdentity.getD .empty

/-- Records of one account that are applied in one transaction. -/
structure Run where
  first : ProjectionRecord
  rest : List ProjectionRecord

namespace Run

def records (run : Run) : List ProjectionRecord := run.first :: run.rest

def account (run : Run) : CString := accountOf run.first

def last (run : Run) : ProjectionRecord := run.records.getLast (List.cons_ne_nil _ _)

lemma last_mem (run : Run) : run.last ∈ run.records := List.getLast_mem _

lemma first_mem (run : Run) : run.first ∈ run.records := List.mem_cons_self

/-- The records of a run belong to one account. -/
def Uniform (run : Run) : Prop := ∀ record ∈ run.records, accountOf record = run.account

end Run

/-- Consecutive deliveries of one account share a run; every other record is a run of its own. -/
def runs : List ProjectionRecord → List Run
  | [] => []
  | record :: records =>
    match runs records with
    | [] => [⟨record, []⟩]
    | run :: more =>
      if isDelivery record ∧ isDelivery run.first ∧
          record.event.accountIdentity = run.first.event.accountIdentity then
        ⟨record, run.first :: run.rest⟩ :: more
      else ⟨record, []⟩ :: run :: more

def deliveryOf (record : ProjectionRecord) : Option (Position × MessageRecord) :=
  match record.event with
  | .messageDelivered delivery => some (record.position, deliveredRecord delivery)
  | _ => none

/-- The transaction of one run without its checkpoint. -/
def applyRecords (seed : Provisioned) (run : Run) (s : Session) : Except InvalidData Session :=
  if isDelivery run.first then applyToInbox seed run.account s (run.records.filterMap deliveryOf)
  else apply seed run.account s run.first

def applyRun (seed : Provisioned) (run : Run) (advanceCheckpoint : Bool) (cat : Catalog) :
    Except InvalidData Catalog :=
  match applyRecords seed run (cat.session run.account) with
  | .error error => .error error
  | .ok s =>
    let cat := cat.withSession run.account s
    .ok (if advanceCheckpoint then
      { cat with checkpoint := saveCheckpoint cat.checkpoint run.last.position } else cat)

/-! ## The pass -/

structure Hold where
  accountId : CString
  position : Position
  deriving DecidableEq

structure Report where
  holds : List Hold
  recordsScanned : ℕ
  scannedThrough : Option Position
  materializedAccounts : List CString

/-- What goes wrong outside the catalog when a run is reached: its raw objects are missing or
    corrupt, or DuckDB fails. -/
inductive RunFault where
  | none
  | objectUnavailable
  | failed
  deriving DecidableEq

/-- What a pass meets: a journal or catalog that cannot be read, the object root, and the fault
    at each run. -/
structure Surroundings where
  readable : Bool
  objectRootPresent : Bool
  fault : Position → RunFault

/-- One committed transaction. -/
structure Commit where
  run : Run
  before : AccountTables
  after : AccountTables

structure Progress where
  catalog : Catalog
  holds : List Hold
  materializedAccounts : List CString
  commits : List Commit

def isHeld (holds : List Hold) (account : CString) : Bool := holds.any fun hold => hold.accountId = account

namespace Progress

def addHold (p : Progress) (run : Run) : Progress :=
  { p with holds := p.holds ++ [⟨run.account, run.first.position⟩] }

def commit (p : Progress) (run : Run) (cat : Catalog) : Progress where
  catalog := cat
  holds := p.holds
  materializedAccounts :=
    if isMembershipChange run.first then p.materializedAccounts
    else p.materializedAccounts.insert run.account
  commits := p.commits ++ [⟨run, p.catalog.tables run.account, cat.tables run.account⟩]

end Progress

def checksObjects (run : Run) : Bool := isDelivery run.first || isMessageAppended run.first

/-- One turn of the pass loop; `none` aborts the pass. -/
def stepRun (seed : Provisioned) (env : Surroundings) (fromCheckpoint : Bool) (p : Progress) (run : Run) :
    Option Progress :=
  if isHeld p.holds run.account then some p
  else if checksObjects run ∧ env.fault run.first.position = .objectUnavailable then some (p.addHold run)
  else if env.fault run.first.position = .failed then none
  else
    match applyRun seed run (fromCheckpoint && p.holds.isEmpty) p.catalog with
    | .ok cat => some (p.commit run cat)
    | .error _ => some (p.addHold run)

/-- The loop over the runs and whether it reached the end. -/
def passLoop (seed : Provisioned) (env : Surroundings) (fromCheckpoint : Bool) :
    Progress → List Run → Progress × Bool
  | p, [] => (p, true)
  | p, run :: more =>
    match stepRun seed env fromCheckpoint p run with
    | none => (p, false)
    | some p => passLoop seed env fromCheckpoint p more

/-- `wyrebox_journal_reader_seek_after_checkpoint` and the records after it. -/
def recordsAfter : List ProjectionRecord → Position → Option (List ProjectionRecord)
  | [], _ => none
  | record :: records, position =>
    if record.position = position then some records else recordsAfter records position

def startPosition (cat : Catalog) (resumeAfter : Option Position) : Option Position :=
  match resumeAfter with
  | some cursor => some cursor
  | none => cat.checkpoint

def startsAtCheckpoint (cat : Catalog) (resumeAfter : Option Position) : Bool :=
  match resumeAfter with
  | some cursor => cat.checkpoint = some cursor
  | none => true

def pendingRecords (log : Log) (start : Option Position) : Option (List ProjectionRecord) :=
  match start with
  | some position => recordsAfter log.records position
  | none => some log.records

def lacksAccount (record : ProjectionRecord) : Bool :=
  record.event.accountIdentity = none ∨ record.event.accountIdentity = some .empty

def scannedThrough (records : List ProjectionRecord) (resumeAfter : Option Position) : Option Position :=
  match records.getLast? with
  | some record => some record.position
  | none => resumeAfter

/-- The records of a pass that starts, or `none` when it aborts before its first run. -/
def passRecords (env : Surroundings) (log : Log) (cat : Catalog) (resumeAfter : Option Position) :
    Option (List ProjectionRecord) :=
  if !env.readable then none
  else
    match pendingRecords log (startPosition cat resumeAfter) with
    | none => none
    | some records =>
      if records.any lacksAccount then none
      else if records.any (fun r => isDelivery r || isMessageAppended r) ∧ !env.objectRootPresent then none
      else some records

/-- `wyrebox_delivery_catchup_materialize_account_inboxes_resumed`, with the transactions it
    committed; an aborted pass has no report. -/
def pass (seed : Provisioned) (env : Surroundings) (log : Log) (resumeAfter : Option Position)
    (priorHolds : List Hold) (cat : Catalog) : Progress × Option Report :=
  match passRecords env log cat resumeAfter with
  | none => (⟨cat, priorHolds, [], []⟩, none)
  | some records =>
    match passLoop seed env (startsAtCheckpoint cat resumeAfter) ⟨cat, priorHolds, [], []⟩ (runs records) with
    | (p, false) => (p, none)
    | (p, true) =>
      (p, some ⟨p.holds, records.length, scannedThrough records resumeAfter,
        p.materializedAccounts.insertionSort CString.Le⟩)

end Wyrebox.Catchup
