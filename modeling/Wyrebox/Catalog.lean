import Wyrebox.Event
import Wyrebox.Fallible
import Wyrebox.Registry

set_option autoImplicit false

/-!
# The catalog

The DuckDB tables that materialization writes. Rows of an account are kept apart by account:
every statement on them names the account, and the ids of memberships and messages name a
mailbox of the account or a journal position.
-/
namespace Wyrebox.Catalog
open JournalWriter (Position)

def maxGuint64 : ℕ := 2 ^ 64 - 1

/-- Why the materializer answers `G_IO_ERROR_INVALID_DATA`. -/
inductive InvalidData where
  | constraint
  | uidStateMissing
  | unexpectedUidvalidity
  | uidStateStale
  | mailboxNameTaken
  | mailboxMismatch
  | inboxAmbiguous
  | objectKeyEmpty
  | objectMismatch
  | messageMismatch
  | headersMismatch
  | membershipMismatch
  | flagTargetMissing
  | tombstoneTargetMissing
  | tombstonedByOtherRecord
  | copyDestinationMissing
  | copySourceMissing
  | copySourceNotVisible
  | destinationUidTooLarge
  | destinationUidTaken
  | appendDestinationMissing
  | factMutationIncomplete
  | factsExtractedIncomplete
  | factOfOtherMessage
  | viewMembershipIncomplete
  | viewMembershipChangedIdentity
  | viewUidvalidityMismatch
  deriving DecidableEq, Repr

def require (c : Prop) [Decidable c] (error : InvalidData) : Except InvalidData Unit :=
  if c then .ok () else .error error

@[simp] lemma require_eq_ok {c : Prop} [Decidable c] {error : InvalidData} {u : Unit} :
    require c error = .ok u ↔ c := by
  simp [require]

/-! ## Rows -/

structure Mailbox where
  mailboxId : CString
  imapName : CString
  isSelectable : Bool
  isVisible : Bool
  deriving DecidableEq

structure Membership where
  membershipId : CString
  mailboxId : CString
  messageId : CString
  uid : ℕ
  internalDateUnixUs : ℕ
  position : Position
  journalItem : ℕ
  isVisible : Bool
  expunged : Option Position
  deriving DecidableEq

inductive Namespace where
  | mailbox (id : CString)
  | derivedView (id : CString)
  deriving DecidableEq

structure UidState where
  uidnext : ℕ
  uidvalidity : ℕ
  deriving DecidableEq

structure Message where
  objectId : CString
  position : Position
  deriving DecidableEq

/-- `message_headers` without the columns computed from the others. -/
structure MessageHeaders where
  rfcMessageId : Option CString
  duplicateMessageIdCount : ℕ
  subject : Option CString
  fromAddr : Option CString
  toAddr : Option CString
  ccAddr : Option CString
  bccAddr : Option CString
  dateRaw : Option CString
  messageIdSpan : Option (ℕ × ℕ)
  subjectSpan : Option (ℕ × ℕ)
  position : Position
  deriving DecidableEq

inductive FlagTable where
  | messageFlags
  | messageKeywords
  deriving DecidableEq

structure FlagRow where
  mailboxId : CString
  position : Position
  deriving DecidableEq

structure DerivedMembership where
  membershipId : CString
  viewId : CString
  messageId : CString
  uid : ℕ
  isVisible : Bool
  ruleVersionHash : CString
  materializedAtUnixUs : ℕ
  deriving DecidableEq

structure FactExtraction where
  factCount : ℕ
  position : Position
  deriving DecidableEq

/-- What a fact id digests. -/
structure FactId where
  predicate : CString
  source : CString
  args : List CString
  deriving DecidableEq

structure Fact where
  accountId : CString
  messageId : CString
  objectId : CString
  confidencePpm : ℕ
  createdAtUnixUs : ℕ
  retractedAtUnixUs : ℕ
  position : Position
  deriving DecidableEq

/-! ## Tables -/

structure AccountTables where
  mailboxes : List Mailbox
  memberships : List Membership
  uidState : Namespace → Option UidState
  messages : Registry CString Message
  headers : Registry CString MessageHeaders
  flags : FlagTable → CString → CString → Option FlagRow
  derived : List DerivedMembership
  extractions : CString → Option FactExtraction

/-- The mailboxes set up outside materialization, each with its account. The fields are the
    primary key and the uniqueness of names in an account. -/
structure Provisioned where
  mailboxes : List (CString × Mailbox)
  ids_nodup : (mailboxes.map fun entry => entry.2.mailboxId).Nodup
  names_nodup : (mailboxes.map fun entry => (entry.1, entry.2.imapName)).Nodup

namespace Provisioned

def empty : Provisioned := ⟨[], by simp, by simp⟩

def ofAccount (seed : Provisioned) (account : CString) : List Mailbox :=
  (seed.mailboxes.filter fun entry => entry.1 = account).map Prod.snd

/-- Another account's row has the mailbox id. -/
def ownedByOther (seed : Provisioned) (account mailboxId : CString) : Bool :=
  seed.mailboxes.any fun entry => entry.1 ≠ account ∧ entry.2.mailboxId = mailboxId

def accountTables (seed : Provisioned) (account : CString) : AccountTables where
  mailboxes := seed.ofAccount account
  memberships := []
  uidState := fun _ => none
  messages := .empty
  headers := .empty
  flags := fun _ _ _ => none
  derived := []
  extractions := fun _ => none

end Provisioned
end Catalog

open Catalog in
/-- The whole catalog. `derivedOwner` is the account column of `derived_view_memberships` by its
    primary key, which no account's statement restricts. -/
structure Catalog where
  objects : Registry CString ℕ
  derivedOwner : Registry CString CString
  facts : FactId → Option Fact
  tables : CString → AccountTables
  checkpoint : Option JournalWriter.Position

namespace Catalog
open JournalWriter (Position)

def initial (seed : Provisioned) : Catalog where
  objects := .empty
  derivedOwner := .empty
  facts := fun _ => none
  tables := seed.accountTables
  checkpoint := none

/-- What one transaction for an account reads and writes. -/
structure Session where
  objects : Registry CString ℕ
  derivedOwner : Registry CString CString
  facts : FactId → Option Fact
  tables : AccountTables

def session (cat : Catalog) (account : CString) : Session :=
  ⟨cat.objects, cat.derivedOwner, cat.facts, cat.tables account⟩

def withSession (cat : Catalog) (account : CString) (s : Session) : Catalog where
  objects := s.objects
  derivedOwner := s.derivedOwner
  facts := s.facts
  tables := Function.update cat.tables account s.tables
  checkpoint := cat.checkpoint

section
variable (cat : Catalog) (account : CString) (s : Session)

@[simp] lemma session_tables : (cat.session account).tables = cat.tables account := rfl

@[simp] lemma withSession_checkpoint : (cat.withSession account s).checkpoint = cat.checkpoint := rfl

@[simp] lemma withSession_tables_self : (cat.withSession account s).tables account = s.tables :=
  Function.update_self ..

lemma withSession_tables_of_ne {other : CString} (h : other ≠ account) :
    (cat.withSession account s).tables other = cat.tables other :=
  Function.update_of_ne h ..

end

/-! ## Single statements on an account's rows -/

namespace AccountTables

def setUidState (t : AccountTables) (ns : Namespace) (state : UidState) : AccountTables :=
  { t with uidState := Function.update t.uidState ns (some state) }

/-- `INSERT OR IGNORE INTO mailbox_uid_state`. -/
def insertUidState (t : AccountTables) (ns : Namespace) (state : UidState) :
    Except InvalidData AccountTables := do
  require (1 ≤ state.uidnext ∧ 1 ≤ state.uidvalidity) .constraint
  match t.uidState ns with
  | some _ => .ok t
  | none => .ok (t.setUidState ns state)

/-- `UPDATE mailbox_uid_state SET uidnext`, which leaves a missing row missing. -/
def updateUidnext (t : AccountTables) (ns : Namespace) (f : ℕ → ℕ) : Except InvalidData AccountTables :=
  match t.uidState ns with
  | none => .ok t
  | some state => do
    require (1 ≤ f state.uidnext) .constraint
    .ok (t.setUidState ns { state with uidnext := f state.uidnext })

def maxUid (t : AccountTables) (mailboxId : CString) : ℕ :=
  ((t.memberships.filter fun row => row.mailboxId = mailboxId).map Membership.uid).foldl max 0

def findMembership (t : AccountTables) (membershipId : CString) : Option Membership :=
  t.memberships.find? fun row => row.membershipId = membershipId

/-- The membership of a UID in a mailbox whose UID state has the UIDVALIDITY. UIDs are unique in
    a mailbox, so there is at most one. -/
def findUid (t : AccountTables) (mailboxId : CString) (uidvalidity uid : ℕ) : Option Membership :=
  if (t.uidState (.mailbox mailboxId)).map UidState.uidvalidity = some uidvalidity then
    t.memberships.find? fun row => row.mailboxId = mailboxId ∧ row.uid = uid
  else none

def findViewUid (t : AccountTables) (viewId : CString) (uidvalidity uid : ℕ) : Option DerivedMembership :=
  if (t.uidState (.derivedView viewId)).map UidState.uidvalidity = some uidvalidity then
    t.derived.find? fun row => row.viewId = viewId ∧ row.uid = uid
  else none

/-- The primary key or a uniqueness constraint of `mailbox_memberships` forbids both rows. -/
def membershipsConflict (row other : Membership) : Bool :=
  row.membershipId = other.membershipId ∨ (row.mailboxId = other.mailboxId ∧ row.uid = other.uid) ∨
    (row.position = other.position ∧ row.journalItem = other.journalItem ∧
      row.mailboxId = other.mailboxId)

def insertMembershipRow (t : AccountTables) (row : Membership) : Except InvalidData AccountTables := do
  require (1 ≤ row.uid ∧ t.memberships.all (fun other => !membershipsConflict row other)) .constraint
  .ok { t with memberships := t.memberships ++ [row] }

def expungeRow (t : AccountTables) (membershipId : CString) (position : Position) : AccountTables :=
  { t with memberships := t.memberships.map fun row =>
      if row.membershipId = membershipId then { row with isVisible := false, expunged := some position }
      else row }

def setFlag (t : AccountTables) (table : FlagTable) (membershipId name : CString)
    (value : Option FlagRow) : AccountTables :=
  { t with flags := fun table' membershipId' name' =>
      if table' = table ∧ membershipId' = membershipId ∧ name' = name then value
      else t.flags table' membershipId' name' }

def hasMailbox (t : AccountTables) (mailboxId : CString) : Bool :=
  t.mailboxes.countP (fun row => row.mailboxId = mailboxId ∧ row.isSelectable ∧ row.isVisible) = 1

end AccountTables
end Catalog
end Wyrebox
