import Mathlib.Data.Finset.SDiff
import Wyrebox.DovecotSync

set_option autoImplicit false

/-!
# Pushing flag changes to the daemon

A session's flag changes are committed to the index first. The push folds the pending index
records of each UID into one SET and one CLEAR request.
-/
namespace Wyrebox.FlagPush
open Catalog Materializer Event DovecotSync
open JournalWriter (Position)

/-! ## Index records -/

/-- A pending record of one mail, with the keyword's name. Dovecot never adds and removes a flag
    in the same record. -/
inductive FlagRecord where
  | flags (add remove : Finset MailFlag) (disjoint : Disjoint add remove)
  | keywordAdd (keyword : CString)
  | keywordRemove (keyword : CString)

/-- What a `mail_index_sync_rec` changes, the keyword by its index. -/
inductive SyncChange where
  | expunge
  | flags (add remove : Finset MailFlag) (disjoint : Disjoint add remove)
  | keywordAdd (keywordIdx : ℕ)
  | keywordRemove (keywordIdx : ℕ)

structure SyncRecord where
  change : SyncChange
  uid1 : ℕ
  uid2 : ℕ

def SyncRecord.covers (record : SyncRecord) (uid : ℕ) : Bool := record.uid1 ≤ uid ∧ uid ≤ record.uid2

/-- The record with its keyword looked up in the index's names; the push cannot express the others. -/
def resolve (names : List CString) : SyncChange → Option FlagRecord
  | .expunge => none
  | .flags add remove disjoint => some (.flags add remove disjoint)
  | .keywordAdd keywordIdx => names[keywordIdx]?.map .keywordAdd
  | .keywordRemove keywordIdx => names[keywordIdx]?.map .keywordRemove

/-- What the index does with a record. -/
def applyRecord (attributes : Attributes) : FlagRecord → Attributes
  | .flags add remove _ => { attributes with flags := attributes.flags \ remove ∪ add }
  | .keywordAdd keyword => { attributes with keywords := attributes.keywords.insert keyword }
  | .keywordRemove keyword => { attributes with keywords := attributes.keywords.filter (· ≠ keyword) }

/-- The pending records of one UID, in order. -/
def recordsOf (names : List CString) (records : List SyncRecord) (uid : ℕ) : List FlagRecord :=
  records.filterMap fun record => if record.covers uid then resolve names record.change else none

/-- The index with its pending records. -/
def committed (names : List CString) (records : List SyncRecord) (mail : Mail Attributes) : Mail Attributes :=
  ⟨mail.uid, (recordsOf names records mail.uid).foldl applyRecord mail.value⟩

/-! ## Deltas -/

/-- The net change of one UID. The keyword lists are used as sets. -/
structure FlagDelta where
  addFlags : Finset MailFlag
  removeFlags : Finset MailFlag
  addKeywords : List CString
  removeKeywords : List CString

namespace FlagDelta

/-- `wyrebox_dovecot_flag_delta_new`. -/
def empty : FlagDelta := ⟨∅, ∅, [], []⟩

def addRecord (delta : FlagDelta) : FlagRecord → FlagDelta
  | .flags add remove _ =>
    { delta with
      addFlags := delta.addFlags \ remove ∪ add
      removeFlags := delta.removeFlags \ add ∪ remove }
  | .keywordAdd keyword =>
    { delta with
      removeKeywords := delta.removeKeywords.filter (· ≠ keyword)
      addKeywords := delta.addKeywords.insert keyword }
  | .keywordRemove keyword =>
    { delta with
      addKeywords := delta.addKeywords.filter (· ≠ keyword)
      removeKeywords := delta.removeKeywords.insert keyword }

end FlagDelta

/-- The deltas by UID. -/
abbrev Deltas : Type := ℕ → Option FlagDelta

def addToDelta (record : FlagRecord) (deltas : Deltas) (uid : ℕ) : Deltas :=
  Function.update deltas uid (some (((deltas uid).getD .empty).addRecord record))

def collectRecord (names : List CString) (uids : List ℕ) (progress : Deltas × Bool) (record : SyncRecord) :
    Deltas × Bool :=
  match resolve names record.change with
  | none => (progress.1, false)
  | some change => ((uids.filter record.covers).foldl (addToDelta change) progress.1, progress.2)

/-- `wyrebox_dovecot_collect_flag_deltas` over the UIDs of the index, and whether it met only records
    the push can express. -/
def collectFlagDeltas (names : List CString) (uids : List ℕ) (records : List SyncRecord) : Deltas × Bool :=
  records.foldl (collectRecord names uids) (fun _ => none, true)

/-! ## Requests -/

inductive UpdateMode where
  | set
  | clear
  deriving DecidableEq

structure UpdateRequest where
  accountIdentity : CString
  mailboxId : CString
  uidValidity : ℕ
  mailboxUid : ℕ
  mode : UpdateMode
  systemFlags : List CString
  userKeywords : List CString
  deriving DecidableEq

/-- `wyrebox_dovecot_system_flag_names`. -/
def systemFlagNames (flags : Finset MailFlag) : List CString :=
  (systemFlags.filter fun entry => entry.2 ∈ flags).map Prod.fst

/-- `wyrebox_dovecot_keyword_names`. -/
def keywordNames (keywords : List CString) : List CString := keywords.insertionSort CString.Le

def isControl (b : UInt8) : Bool := b < 32 ∨ b = 127

def isAlnum (b : UInt8) : Bool := 48 ≤ b ∧ b ≤ 57 ∨ 65 ≤ b ∧ b ≤ 90 ∨ 97 ≤ b ∧ b ≤ 122

/-- `validate_non_empty_text`. -/
def validText (value : CString) : Bool := value ≠ .empty ∧ !value.bytes.any isControl

def validSystemFlag (value : CString) : Bool := validText value ∧ value ∈ systemFlags.map Prod.fst

def validUserKeyword (value : CString) : Bool :=
  validText value ∧ !startsWithBackslash value ∧
    value.bytes.all fun b => isAlnum b ∨ b = 95 ∨ b = 45 ∨ b = 46

/-- `wyrebox_daemon_flag_keyword_update_request_init`. -/
def requestInit (request : UpdateRequest) : Bool :=
  validText request.accountIdentity ∧ validText request.mailboxId ∧ request.uidValidity ≠ 0 ∧
    request.mailboxUid ≠ 0 ∧ request.systemFlags.all validSystemFlag ∧ request.systemFlags.Nodup ∧
    request.userKeywords.all validUserKeyword ∧ request.userKeywords.Nodup ∧
    !(request.systemFlags.isEmpty ∧ request.userKeywords.isEmpty)

/-- The journaled change. -/
def changeOf (request : UpdateRequest) : FlagChanged where
  accountId := request.accountIdentity
  mailboxId := request.mailboxId
  uidvalidity := request.uidValidity
  uid := request.mailboxUid
  mode := match request.mode with
    | .set => .set
    | .clear => .clear
  systemFlags := request.systemFlags
  userKeywords := request.userKeywords

/-- The errors the push tells apart. -/
inductive DaemonError where
  | notFound
  | permanentFailure
  | permissionDenied
  | conflict
  | other
  deriving DecidableEq

/-- What becomes of a request: its change is journaled at the position and answered, it is refused,
    or it is journaled and the answer is lost. -/
inductive Answer where
  | accepted (position : Position)
  | refused (error : DaemonError)
  | lost (position : Position) (error : DaemonError)

/-- The catalog with the journaled change, and the error the client sees. -/
def handle (t : AccountTables) (request : UpdateRequest) : Answer → AccountTables × Option DaemonError
  | .accepted position =>
    match applyFlagChange t (changeOf request) position with
    | .ok t => (t, none)
    | .error _ => (t, some .notFound)
  | .refused error => (t, some error)
  | .lost position error =>
    match applyFlagChange t (changeOf request) position with
    | .ok t => (t, some error)
    | .error _ => (t, some error)

/-! ## The cached row -/

/-- `wyrebox_dovecot_row_apply_update`. -/
def rowApplyUpdate (row : UidMapRow) (mode : UpdateMode) (flags keywords : List CString) : UidMapRow :=
  { row with
    flags :=
      ((systemFlags.map Prod.fst).filter fun name =>
        if name ∈ flags then mode = .set else name ∈ row.flags) ++
      (row.flags.filter fun name => !startsWithBackslash name && !(mode = .clear && name ∈ keywords)) ++
      if mode = .set then keywords.filter (· ∉ row.flags) else [] }

/-- The index attributes of a row. Dovecot compares keywords without case; `spelling` is the name
    under which the index has a keyword. -/
def indexAttributes (spelling : CString → CString) (names : List CString) : Attributes :=
  { rowAttributes names with keywords := (rowAttributes names).keywords.map spelling }

/-! ## The push -/

inductive PushResult where
  | ok
  | messageGone
  | messageFailed
  | invalid
  | failed
  deriving DecidableEq

/-- Whether the index begins and commits the sync, how it spells keywords, and what becomes of the
    request of a UID and mode. -/
structure PushEnv where
  begins : Bool
  commits : Bool
  spelling : CString → CString
  answer : ℕ → UpdateMode → Answer

structure Target where
  accountIdentity : CString
  select : SelectResult

/-- One request's outcome: the result with the daemon's error, the row and the catalog. -/
structure PushOutcome where
  result : PushResult
  error : Option DaemonError
  row : UidMapRow
  tables : AccountTables

def requestOf (target : Target) (row : UidMapRow) (mode : UpdateMode) (flags : Finset MailFlag)
    (keywords : List CString) : UpdateRequest :=
  ⟨target.accountIdentity, target.select.mailboxId, target.select.uidValidity, row.uid, mode, systemFlagNames flags,
    keywordNames keywords⟩

def resultOf : DaemonError → PushResult
  | .notFound => .messageGone
  | .permanentFailure => .messageFailed
  | _ => .failed

/-- `wyrebox_dovecot_push_update`. -/
def pushUpdate (target : Target) (answer : Answer) (t : AccountTables) (row : UidMapRow) (mode : UpdateMode)
    (flags : Finset MailFlag) (keywords : List CString) : PushOutcome :=
  let request := requestOf target row mode flags keywords
  if request.systemFlags.isEmpty ∧ request.userKeywords.isEmpty then ⟨.ok, none, row, t⟩
  else if !requestInit request then ⟨.invalid, none, row, t⟩
  else
    match handle t request answer with
    | (t, none) => ⟨.ok, none, rowApplyUpdate row mode request.systemFlags request.userKeywords, t⟩
    | (t, some error) => ⟨resultOf error, some error, row, t⟩

/-- The SET, and the CLEAR when the SET went through. -/
def pushDelta (target : Target) (answer : UpdateMode → Answer) (t : AccountTables) (row : UidMapRow)
    (delta : FlagDelta) : PushOutcome :=
  let set := pushUpdate target (answer .set) t row .set delta.addFlags delta.addKeywords
  if set.result = .ok then
    pushUpdate target (answer .clear) set.tables set.row .clear delta.removeFlags delta.removeKeywords
  else set

abbrev Rows : Type := List (ℕ × UidMapRow)

def findRow (rows : Rows) (uid : ℕ) : Option UidMapRow := (rows.find? fun entry => entry.1 = uid).map Prod.snd

def setRow (rows : Rows) (uid : ℕ) (row : UidMapRow) : Rows :=
  rows.map fun entry => if entry.1 = uid then (uid, row) else entry

/-- Where the loop of the push stands. `resets` are the index updates of its transaction. -/
structure PushState where
  rows : Rows
  tables : AccountTables
  resets : List (Mail Attributes)
  firstError : Option (PushResult × Option DaemonError)
  stopped : Bool
  collected : Bool

/-- One turn of the loop. -/
def pushUid (target : Target) (env : PushEnv) (deltas : Deltas) (s : PushState) (uid : ℕ) : PushState :=
  match findRow s.rows uid with
  | none => { s with collected := false }
  | some row =>
    if s.stopped then { s with resets := s.resets ++ [⟨uid, indexAttributes env.spelling row.flags⟩] }
    else
      let outcome := pushDelta target (env.answer uid) s.tables row ((deltas uid).getD .empty)
      let s := { s with rows := setRow s.rows uid outcome.row, tables := outcome.tables }
      if outcome.result = .ok then s
      else
        let s := { s with resets := s.resets ++ [⟨uid, indexAttributes env.spelling outcome.row.flags⟩] }
        if outcome.result = .messageGone then s
        else
          { s with
            firstError := s.firstError.or (some (outcome.result, outcome.error))
            stopped := outcome.result ≠ .messageFailed }

/-- What a session keeps of a mailbox, the daemon's catalog beside it. -/
structure Session where
  mails : List (Mail Attributes)
  rows : Rows
  tables : AccountTables
  inconsistent : Bool

/-- The daemon found a state the session does not know. -/
def isConflict (firstError : Option (PushResult × Option DaemonError)) : Bool :=
  match firstError with
  | some (result, error) => result ≠ .invalid ∧ error = some .conflict
  | none => false

/-- `wyrebox_dovecot_mailbox_push_flag_changes` over the records committed to the index since
    `base`, and whether it returned 0. -/
def pushFlagChanges (target : Target) (env : PushEnv) (names : List CString) (base : Session)
    (records : List SyncRecord) : Session × Bool :=
  let mails := base.mails.map (committed names records)
  if !env.begins then ({ base with mails := mails }, false)
  else
    let collected := collectFlagDeltas names (mails.map Mail.uid) records
    let uids := (mails.map Mail.uid).filter fun uid => (collected.1 uid).isSome
    let s := uids.foldl (pushUid target env collected.1) ⟨base.rows, base.tables, [], none, false, collected.2⟩
    let pushed : Session := ⟨mails, s.rows, s.tables, base.inconsistent⟩
    if !env.commits then (pushed, false)
    else
      ({ pushed with
          mails := mails.map (MailIndex.update s.resets)
          inconsistent := base.inconsistent || isConflict s.firstError },
        s.firstError.isNone && s.collected)

end Wyrebox.FlagPush
