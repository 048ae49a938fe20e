import Mathlib.Data.List.Lex
import Mathlib.Data.Prod.Lex
import Wyrebox.DovecotSync
import Wyrebox.Joins
import Wyrebox.UidMapCsv

set_option autoImplicit false

/-!
# The reads of the catalog

LIST, SELECT, SEARCH, the UID map and FETCH are joins over tables that hold the rows of every
account. Ordinary mailboxes and views have tables of their own with the same columns.
-/
namespace Wyrebox.CatalogReads
open Joins
open DovecotSync (Kind asciiLower maxUint32)
open Catalog (FlagTable)
open CString (decimal literal)
open UidMapCsv (joinNames buildCsvHeader mailboxColumns viewColumns)

/-! ## Rows -/

/-- A row with its account column. -/
structure Owned (α : Type) where
  accountId : CString
  row : α
  deriving DecidableEq

/-- A row of `mailboxes` or of `derived_views`. -/
structure Box where
  stableId : CString
  imapName : CString
  isSelectable : Bool
  isVisible : Bool
  deriving DecidableEq

/-- A row of `mailbox_memberships` or of `derived_view_memberships`. Only the latter have a rule
    version. -/
structure Member where
  membershipId : CString
  boxId : CString
  messageId : CString
  uid : ℕ
  isVisible : Bool
  ruleVersionHash : Option CString
  deriving DecidableEq

structure UidStateRow where
  kind : Kind
  namespaceId : CString
  uidnext : ℕ
  uidvalidity : ℕ
  deriving DecidableEq

structure MessageRow where
  messageId : CString
  objectId : CString
  deriving DecidableEq

/-- `message_headers` has no account column. -/
structure HeaderRow where
  messageId : CString
  subject : Option CString
  fromAddr : Option CString
  senderDomain : Option CString
  dateUnixUs : Option ℤ
  deriving DecidableEq

/-- A row of `message_flags` or of `message_keywords`. -/
structure AttributeRow where
  membershipId : CString
  name : CString
  deriving DecidableEq

/-- The tables that the reads use, with the keys of the schema. -/
structure CatalogRows where
  boxes : Kind → List (Owned Box)
  members : Kind → List (Owned Member)
  uidStates : List (Owned UidStateRow)
  messages : List (Owned MessageRow)
  headers : List HeaderRow
  attributes : FlagTable → List (Owned AttributeRow)
  objects : List CString
  boxIds_nodup : ∀ kind, ((boxes kind).map fun box => (box.accountId, box.row.stableId)).Nodup
  boxNames_nodup : ∀ kind, ((boxes kind).map fun box => (box.accountId, box.row.imapName)).Nodup
  mailboxIds_nodup : ((boxes .ordinary).map fun box => box.row.stableId).Nodup
  memberIds_nodup : ∀ kind, ((members kind).map fun member => member.row.membershipId).Nodup
  uids_nodup : ∀ kind, ((members kind).map fun member => (member.accountId, member.row.boxId, member.row.uid)).Nodup
  mailboxUids_nodup : ((members .ordinary).map fun member => (member.row.boxId, member.row.uid)).Nodup
  uidStates_nodup : (uidStates.map fun state => (state.accountId, state.row.kind, state.row.namespaceId)).Nodup
  messages_nodup : (messages.map fun message => message.row.messageId).Nodup
  headers_nodup : (headers.map HeaderRow.messageId).Nodup
  attributes_nodup : ∀ table, ((attributes table).map Owned.row).Nodup
  objects_nodup : objects.Nodup

inductive ReadError where
  | textRequired
  | controlCharacter
  | integerExceedsUint32
  | notFound
  | ambiguous
  | notSelectable
  | uidvalidityZero
  | uidnextZero
  | uidvalidityMismatch
  | argumentRequired
  | zeroUid
  | uidStateMissing
  | malformed
  | objectUnavailable
  deriving DecidableEq

/-- The single row of a result. -/
def oneRow {α : Type} (none several : ReadError) : List α → Except ReadError α
  | [] => .error none
  | [a] => .ok a
  | _ :: _ :: _ => .error several

/-- `g_ascii_iscntrl`. -/
def isAsciiCntrl (b : UInt8) : Bool := b < 32 ∨ b = 127

/-- `validate_required_text`. -/
def validateRequiredText (value : CString) : Except ReadError Unit :=
  if value = .empty then .error .textRequired
  else if value.bytes.any isAsciiCntrl then .error .controlCharacter
  else .ok ()

/-- The order of `VARCHAR` values. -/
def sortKey (s : CString) : List ℕ := s.bytes.map UInt8.toNat

/-! ## LIST -/

/-- A row of `visible_mailboxes`. -/
structure ListedBox where
  kind : Kind
  stableId : CString
  imapName : CString
  isSelectable : Bool
  deriving DecidableEq

structure ListEntry where
  kind : Kind
  mailboxId : CString
  mailboxName : CString
  isSelectable : Bool
  hasChildren : Bool
  deriving DecidableEq

/-- A visible ordinary mailbox of the account has the name. -/
def isShadowed (c : CatalogRows) (accountId imapName : CString) : Bool :=
  (c.boxes .ordinary).any fun box => box.accountId = accountId ∧ box.row.imapName = imapName ∧ box.row.isVisible

def isShown (c : CatalogRows) (accountId : CString) (kind : Kind) (box : Owned Box) : Bool :=
  box.accountId = accountId ∧ box.row.isVisible ∧
    (kind = .virtual → isShadowed c box.accountId box.row.imapName = false)

def listedBox (kind : Kind) (box : Owned Box) : ListedBox :=
  ⟨kind, box.row.stableId, box.row.imapName, box.row.isSelectable⟩

def visibleMailboxes (c : CatalogRows) (accountId : CString) : List ListedBox :=
  ((c.boxes .ordinary).filter (isShown c accountId .ordinary)).map (listedBox .ordinary) ++
    ((c.boxes .virtual).filter (isShown c accountId .virtual)).map (listedBox .virtual)

/-- The characters of `name` begin with those of `parent` and the delimiter. -/
def isBelow (parent name : CString) : Bool := (parent.bytes ++ [47]).isPrefixOf name.bytes

def isListed (namespacePrefix : CString) (box : ListedBox) : Bool :=
  namespacePrefix = .empty ∨ box.imapName = namespacePrefix ∨ isBelow namespacePrefix box.imapName

def sortKind : Kind → ℕ
  | .ordinary => 0
  | .virtual => 1

def listKey (box : ListedBox) : List ℕ ×ₗ ℕ ×ₗ List ℕ :=
  toLex (sortKey box.imapName, toLex (sortKind box.kind, sortKey box.stableId))

/-- `wyrebox_daemon_mailbox_list_result_append_entry`. -/
def listEntry (visible : List ListedBox) (box : ListedBox) : Except ReadError ListEntry := do
  validateRequiredText box.stableId
  validateRequiredText box.imapName
  .ok ⟨box.kind, box.stableId, box.imapName, box.isSelectable, visible.any fun child => isBelow box.imapName child.imapName⟩

/-- `append_list_rows`. -/
def list (c : CatalogRows) (accountId namespacePrefix : CString) : Except ReadError (List ListEntry) :=
  let visible := visibleMailboxes c accountId
  (orderBy listKey (visible.filter (isListed namespacePrefix))).mapM (listEntry visible)

/-! ## SELECT -/

inductive Selector where
  | name (mailboxName : CString)
  | id (mailboxId : CString)
  deriving DecidableEq

structure SelectRow where
  kind : Kind
  mailboxId : CString
  mailboxName : CString
  uidValidity : ℕ
  uidNext : ℕ
  messageCount : ℕ
  isSelectable : Bool
  deriving DecidableEq

structure SelectResult where
  kind : Kind
  mailboxId : CString
  mailboxName : CString
  uidValidity : ℕ
  uidNext : ℕ
  messageCount : ℕ
  deriving DecidableEq

def hasUidState (kind : Kind) (box : Owned Box) (state : Owned UidStateRow) : Bool :=
  state.accountId = box.accountId ∧ state.row.kind = kind ∧ state.row.namespaceId = box.row.stableId

/-- Only the selection by name looks for a mailbox that hides the view. -/
def meetsSelector (c : CatalogRows) (kind : Kind) (box : Owned Box) : Selector → Bool
  | .id mailboxId => box.row.stableId = mailboxId
  | .name mailboxName => box.row.imapName = mailboxName ∧
      (kind = .virtual → isShadowed c box.accountId box.row.imapName = false)

def isSelected (c : CatalogRows) (accountId : CString) (kind : Kind) (selector : Selector)
    (p : Owned Box × Owned UidStateRow) : Bool :=
  p.1.accountId = accountId ∧ p.1.row.isVisible ∧ meetsSelector c kind p.1 selector

def messageCount (c : CatalogRows) (kind : Kind) (box : Owned Box) : ℕ :=
  (c.members kind).countP fun member =>
    member.accountId = box.accountId ∧ member.row.boxId = box.row.stableId ∧ member.row.isVisible

def selectRow (c : CatalogRows) (kind : Kind) (p : Owned Box × Owned UidStateRow) : SelectRow :=
  ⟨kind, p.1.row.stableId, p.1.row.imapName, p.2.row.uidvalidity, p.2.row.uidnext, messageCount c kind p.1,
    p.1.row.isSelectable⟩

def selectedRows (c : CatalogRows) (accountId : CString) (selector : Selector) (kind : Kind) : List SelectRow :=
  ((join (hasUidState kind) (c.boxes kind) c.uidStates).filter (isSelected c accountId kind selector)).map
    (selectRow c kind)

/-- `select_rows_by_selector`. -/
def selectRowsBySelector (c : CatalogRows) (accountId : CString) (selector : Selector) : List SelectRow :=
  selectedRows c accountId selector .ordinary ++ selectedRows c accountId selector .virtual

def fitsUint32 (row : SelectRow) : Bool :=
  row.uidValidity ≤ maxUint32 ∧ row.uidNext ≤ maxUint32 ∧ row.messageCount ≤ maxUint32

/-- `wyrebox_daemon_mailbox_select_result_init`. -/
def selectResult (row : SelectRow) : Except ReadError SelectResult := do
  validateRequiredText row.mailboxId
  validateRequiredText row.mailboxName
  if row.uidValidity = 0 then .error .uidvalidityZero
  else if row.uidNext = 0 then .error .uidnextZero
  else .ok ⟨row.kind, row.mailboxId, row.mailboxName, row.uidValidity, row.uidNext, row.messageCount⟩

/-- `wyrebox_daemon_mailbox_catalog_duckdb_select`. -/
def select (c : CatalogRows) (accountId : CString) (selector : Selector) : Except ReadError SelectResult :=
  let rows := selectRowsBySelector c accountId selector
  if !rows.all fitsUint32 then .error .integerExceedsUint32
  else do
    let row ← oneRow .notFound .ambiguous rows
    if !row.isSelectable then .error .notSelectable
    else selectResult row

/-! ## The UID map -/

def memberUidState (kind : Kind) (member : Owned Member) (state : Owned UidStateRow) : Bool :=
  state.accountId = member.accountId ∧ state.row.kind = kind ∧ state.row.namespaceId = member.row.boxId

def memberMessage (member : Owned Member) (message : Owned MessageRow) : Bool :=
  message.accountId = member.accountId ∧ message.row.messageId = member.row.messageId

def isShownMember (accountId boxId : CString) (member : Owned Member) : Bool :=
  member.accountId = accountId ∧ member.row.boxId = boxId ∧ member.row.isVisible

abbrev UidMapJoin := (Owned Member × Owned UidStateRow) × Owned MessageRow

def uidMapRows (c : CatalogRows) (accountId : CString) (kind : Kind) (boxId : CString) : List UidMapJoin :=
  (join (fun p message => memberMessage p.1 message) (join (memberUidState kind) (c.members kind) c.uidStates)
    c.messages).filter fun p => isShownMember accountId boxId p.1.1

/-- The names that a membership has in a table, of whatever account. -/
def attributeNames (c : CatalogRows) (table : FlagTable) (membershipId : CString) : List CString :=
  ((c.attributes table).filter fun entry => entry.row.membershipId = membershipId).map fun entry => entry.row.name

/-- `ORDER BY attr.rank, attr.name`. -/
def rankedNames (c : CatalogRows) (membershipId : CString) : List CString :=
  orderBy sortKey (attributeNames c .messageFlags membershipId) ++
    orderBy sortKey (attributeNames c .messageKeywords membershipId)

def lastField (c : CatalogRows) (kind : Kind) (member : Member) : Csv.Field :=
  match kind with
  | .ordinary => joinNames (rankedNames c member.membershipId)
  | .virtual => (member.ruleVersionHash.getD .empty).bytes

/-- `duckdb_query_template_append_uid_map_row` and `duckdb_query_template_append_derived_view_uid_map_row`. -/
def uidMapFields (c : CatalogRows) (kind : Kind) (p : UidMapJoin) : List Csv.Field :=
  [p.1.1.accountId.bytes, p.1.1.row.boxId.bytes, (decimal p.1.2.row.uidvalidity).bytes, (decimal p.1.1.row.uid).bytes,
    p.1.1.row.messageId.bytes, p.2.row.objectId.bytes, lastField c kind p.1.1.row]

def uidMapKey (p : UidMapJoin) : ℕ ×ₗ List ℕ := toLex (p.1.1.row.uid, sortKey p.1.1.row.messageId)

def uidMapColumns : Kind → List CString
  | .ordinary => mailboxColumns
  | .virtual => viewColumns

/-- `mailbox.uid_map.v1` and `derived_view.uid_map.v1`. -/
def uidMap (c : CatalogRows) (accountId : CString) (kind : Kind) (boxId : CString) : List UInt8 :=
  buildCsvHeader (uidMapColumns kind) ++
    Csv.write ((orderBy uidMapKey (uidMapRows c accountId kind boxId)).map (uidMapFields c kind))

/-! ## SEARCH -/

inductive Criterion where
  | subjectContains (text : CString)
  | fromContains (text : CString)
  | senderDomain (text : CString)
  | sentSince (unixUs : ℤ)
  | sentBefore (unixUs : ℤ)
  deriving DecidableEq

/-- `LIKE` with the pattern of `make_ascii_folded_contains_pattern`. -/
def foldedContains (column text : CString) : Bool :=
  decide (text.bytes.map asciiLower <:+: column.bytes.map asciiLower)

/-- A column that is `NULL` meets no condition. -/
def Criterion.matches (criterion : Criterion) (header : HeaderRow) : Bool :=
  match criterion with
  | .subjectContains text => header.subject.any fun subject => foldedContains subject text
  | .fromContains text => header.fromAddr.any fun fromAddr => foldedContains fromAddr text
  | .senderDomain text => header.senderDomain.any fun domain => domain.bytes = text.bytes.map asciiLower
  | .sentSince unixUs => header.dateUnixUs.any fun date => unixUs ≤ date
  | .sentBefore unixUs => header.dateUnixUs.any fun date => date < unixUs

def matchesAll (criteria : List Criterion) (header : HeaderRow) : Bool :=
  criteria.all fun criterion => criterion.matches header

/-- Without headers every column is `NULL`. -/
def isFound (criteria : List Criterion) (header : Option HeaderRow) : Bool :=
  match header with
  | some header => matchesAll criteria header
  | none => criteria.isEmpty

def isSearchable (accountId : CString) (kind : Kind) (boxId : CString) (p : Owned UidStateRow × Owned Box) : Bool :=
  p.1.accountId = accountId ∧ p.1.row.kind = kind ∧ p.1.row.namespaceId = boxId ∧ p.2.row.isVisible ∧
    p.2.row.isSelectable

def stateBox (state : Owned UidStateRow) (box : Owned Box) : Bool :=
  box.accountId = state.accountId ∧ box.row.stableId = state.row.namespaceId

def namespaceUidvalidities (c : CatalogRows) (accountId : CString) (kind : Kind) (boxId : CString) : List ℕ :=
  ((join stateBox c.uidStates (c.boxes kind)).filter (isSearchable accountId kind boxId)).map fun p => p.1.row.uidvalidity

/-- `check_namespace`. -/
def checkNamespace (c : CatalogRows) (accountId : CString) (kind : Kind) (boxId : CString) (uidvalidity : ℕ) :
    Except ReadError Unit :=
  match namespaceUidvalidities c accountId kind boxId with
  | [] => .error .notFound
  | stored :: _ => if stored = uidvalidity then .ok () else .error .uidvalidityMismatch

def memberHeader (member : Owned Member) (header : HeaderRow) : Bool := header.messageId = member.row.messageId

def foundMembers (c : CatalogRows) (accountId : CString) (kind : Kind) (boxId : CString) (criteria : List Criterion) :
    List (Owned Member × Option HeaderRow) :=
  (leftJoin memberHeader (c.members kind) c.headers).filter fun p =>
    isShownMember accountId boxId p.1 && isFound criteria p.2

/-- A number on a line of its own. -/
def uidLine (uid : ℕ) : List UInt8 := (decimal uid).bytes ++ [10]

/-- `query_matching_uids`. -/
def queryMatchingUids (c : CatalogRows) (accountId : CString) (kind : Kind) (boxId : CString)
    (criteria : List Criterion) : List UInt8 :=
  (orderBy id ((foundMembers c accountId kind boxId criteria).map fun p => p.1.row.uid)).flatMap uidLine

/-- `search_messages`. -/
def searchMessages (c : CatalogRows) (accountId : CString) (kind : Kind) (boxId : CString) (uidvalidity : ℕ)
    (criteria : List Criterion) : Except ReadError (List UInt8) := do
  checkNamespace c accountId kind boxId uidvalidity
  .ok (queryMatchingUids c accountId kind boxId criteria)

/-! ## FETCH -/

/-- `fetcher_select_uidvalidity`. -/
def fetcherSelectUidvalidity (c : CatalogRows) (accountId : CString) (kind : Kind) (boxId : CString)
    (uidvalidity : ℕ) : Except ReadError Unit :=
  if accountId = .empty ∨ boxId = .empty then .error .argumentRequired
  else do
    let state ← oneRow .uidStateMissing .malformed (c.uidStates.filter fun state =>
      state.accountId = accountId ∧ state.row.kind = kind ∧ state.row.namespaceId = boxId)
    if state.row.uidvalidity = uidvalidity then .ok () else .error .uidvalidityMismatch

def memberBox (member : Owned Member) (box : Owned Box) : Bool :=
  box.accountId = member.accountId ∧ box.row.stableId = member.row.boxId

/-- The condition on the UID, its box and its message. -/
def isFetched (accountId boxId : CString) (uid : ℕ) (p : ((Owned Member × Owned Box) × Owned MessageRow) × CString) : Bool :=
  isShownMember accountId boxId p.1.1.1 ∧ p.1.1.1.row.uid = uid ∧ p.1.1.2.row.isVisible ∧ p.1.1.2.row.isSelectable

def fetchedRows (c : CatalogRows) (accountId : CString) (kind : Kind) (boxId : CString) (uid : ℕ) : List MessageRow :=
  ((join (fun p objectId => decide (objectId = p.2.row.objectId))
    (join (fun p message => memberMessage p.1 message) (join memberBox (c.members kind) (c.boxes kind)) c.messages)
    c.objects).filter (isFetched accountId boxId uid)).map fun p => p.1.2.row

/-- `fetcher_select_mailbox_message` and `fetcher_select_derived_view_message`. -/
def fetcherSelectMessage (c : CatalogRows) (accountId : CString) (kind : Kind) (boxId : CString) (uid : ℕ) :
    Except ReadError MessageRow :=
  oneRow .notFound .malformed (fetchedRows c accountId kind boxId uid)

/-- `wyrebox_delivery_fetcher_fetch_namespace_result`. -/
def fetch (getBytes : CString → Option (List UInt8)) (c : CatalogRows) (accountId : CString) (kind : Kind)
    (boxId : CString) (uidvalidity uid : ℕ) : Except ReadError (CString × List UInt8) :=
  if uidvalidity = 0 ∨ uid = 0 then .error .zeroUid
  else do
    fetcherSelectUidvalidity c accountId kind boxId uidvalidity
    let message ← fetcherSelectMessage c accountId kind boxId uid
    match getBytes message.objectId with
    | none => .error .objectUnavailable
    | some bytes => .ok (message.messageId, bytes)

/-! ## Requests -/

inductive ReadRequest where
  | list (namespacePrefix : CString)
  | select (selector : Selector)
  | uidMap (kind : Kind) (boxId : CString)
  | search (kind : Kind) (boxId : CString) (uidvalidity : ℕ) (criteria : List Criterion)
  | fetch (kind : Kind) (boxId : CString) (uidvalidity uid : ℕ)

inductive ReadResponse where
  | list (entries : Except ReadError (List ListEntry))
  | select (result : Except ReadError SelectResult)
  | uidMap (csv : List UInt8)
  | search (uids : Except ReadError (List UInt8))
  | fetch (result : Except ReadError (CString × List UInt8))

/-- The answer to a request of an account. `getBytes` reads the object store. -/
def respond (getBytes : CString → Option (List UInt8)) (c : CatalogRows) (accountId : CString) : ReadRequest → ReadResponse
  | .list namespacePrefix => .list (list c accountId namespacePrefix)
  | .select selector => .select (select c accountId selector)
  | .uidMap kind boxId => .uidMap (uidMap c accountId kind boxId)
  | .search kind boxId uidvalidity criteria => .search (searchMessages c accountId kind boxId uidvalidity criteria)
  | .fetch kind boxId uidvalidity uid => .fetch (fetch getBytes c accountId kind boxId uidvalidity uid)

end Wyrebox.CatalogReads
