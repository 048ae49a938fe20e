import Wyrebox.CString
import Wyrebox.Relational

set_option autoImplicit false

/-!
# The tables of the catalog

The tables as each migration step creates or checks them, and the steps' operations on a database.
-/
namespace Wyrebox.Schema
open Relational Fallible

/-! ## Names -/

inductive Name where
  | accounts
  | objects
  | messages
  | messageFacts
  | mailboxes
  | mailboxMemberships
  | derivedViews
  | derivedViewMemberships
  | mailboxUidState
  | messageFlags
  | messageKeywords
  | messageHeaders
  | messageFactExtractions
  | derivedViewRefreshState
  | objectReachability
  | messageHeadersReplacement
  | derivedViewsReplacement
  | derivedViewMembershipsReplacement
  | mailboxMembershipsReplacement
  deriving DecidableEq, Repr

inductive ColumnName where
  | accountId
  | objectId
  | sizeBytes
  | messageId
  | journalOffset
  | journalSequence
  | factId
  | predicate
  | argsJson
  | source
  | confidencePpm
  | createdAtUnixUs
  | retractedAtUnixUs
  | mailboxId
  | imapName
  | isSelectable
  | isVisible
  | membershipId
  | uid
  | internalDateUnixUs
  | journalItem
  | expungedJournalOffset
  | expungedJournalSequence
  | viewId
  | definitionRef
  | ruleVersionHash
  | materializedAtUnixUs
  | namespaceKind
  | namespaceId
  | uidnext
  | uidvalidity
  | flagName
  | keywordName
  | rfcMessageId
  | duplicateMessageIdCount
  | subject
  | fromAddr
  | senderDomain
  | toAddr
  | ccAddr
  | bccAddr
  | dateRaw
  | dateUnixUs
  | messageIdSpanStart
  | messageIdSpanEnd
  | subjectSpanStart
  | subjectSpanEnd
  | factCount
  | refreshConfigHash
  | refreshedJournalSequence
  deriving DecidableEq, Repr

abbrev Rows := Row ColumnName CString
abbrev TableDefinition := Definition ColumnName CString
abbrev Tables := Database Name ColumnName CString

inductive StoreError where
  | statement (error : StatementError Name)
  | doesNotExist (table : Name)
  | unexpectedColumnShape (table : Name)
  | incompatibleColumn (table : Name) (position : ℕ) (expected actual : ColumnName)
  | incompatibleType (table : Name) (column : ColumnName) (expected actual : ColumnType)
  | incompatibleNullability (table : Name) (column : ColumnName)
  | incompatiblePrimaryKey (table : Name)
  | nullDuringMigration (column : ColumnName)
  deriving DecidableEq, Repr

def query (statement : Tables → Except (StatementError Name) Tables) (db : Tables) : Except StoreError Tables :=
  (statement db).mapError .statement

/-! ## Tables -/

def text (name : ColumnName) : Column ColumnName := ⟨name, .varchar, true⟩
def number (name : ColumnName) : Column ColumnName := ⟨name, .ubigint, true⟩
def flag (name : ColumnName) : Column ColumnName := ⟨name, .boolean, true⟩
def optionalText (name : ColumnName) : Column ColumnName := ⟨name, .varchar, false⟩
def optionalNumber (name : ColumnName) : Column ColumnName := ⟨name, .ubigint, false⟩

/-- `CHECK(column >= 1)`. -/
def atLeastOne (column : ColumnName) (row : Rows) : Bool :=
  match row column with
  | .ubigint n => 1 ≤ n
  | _ => true

/-- `CHECK(namespace_kind IN ('mailbox','derived_view'))`. -/
def isNamespaceKind (row : Rows) : Bool :=
  row .namespaceKind == .varchar (.literal "mailbox") || row .namespaceKind == .varchar (.literal "derived_view")

def accounts : TableDefinition := ⟨[text .accountId], [.accountId], [], []⟩

def objects : TableDefinition := ⟨[text .objectId, number .sizeBytes], [.objectId], [], []⟩

def messages : TableDefinition where
  columns := [text .messageId, text .accountId, text .objectId, number .journalOffset, number .journalSequence]
  primaryKey := [.messageId]
  uniques := []
  checks := []

def messageFactsColumns : List (Column ColumnName) :=
  [text .factId, text .accountId, text .messageId, text .objectId, text .predicate, text .argsJson, text .source,
    number .confidencePpm, number .createdAtUnixUs, number .retractedAtUnixUs, number .journalOffset,
    number .journalSequence]

def messageFacts : TableDefinition := ⟨messageFactsColumns, [.factId], [], []⟩

def mailboxes : TableDefinition where
  columns := [text .mailboxId, text .accountId, text .imapName, flag .isSelectable, flag .isVisible]
  primaryKey := [.mailboxId]
  uniques := [[.accountId, .imapName]]
  checks := []

def mailboxMembershipsColumns : List (Column ColumnName) :=
  [text .membershipId, text .accountId, text .mailboxId, text .messageId, number .uid, number .internalDateUnixUs,
    number .journalOffset, number .journalSequence, number .journalItem, flag .isVisible,
    optionalNumber .expungedJournalOffset, optionalNumber .expungedJournalSequence]

def mailboxMemberships : TableDefinition where
  columns := mailboxMembershipsColumns
  primaryKey := [.membershipId]
  uniques := [[.mailboxId, .uid], [.journalOffset, .journalSequence, .journalItem, .mailboxId]]
  checks := [atLeastOne .uid]

def derivedViewsColumns : List ColumnName :=
  [.viewId, .accountId, .imapName, .definitionRef, .isSelectable, .isVisible]

def derivedViews : TableDefinition where
  columns := [text .viewId, text .accountId, text .imapName, text .definitionRef, flag .isSelectable,
    flag .isVisible]
  primaryKey := [.accountId, .viewId]
  uniques := [[.accountId, .imapName]]
  checks := []

def derivedViewMembershipsColumns : List ColumnName :=
  [.membershipId, .accountId, .viewId, .messageId, .uid, .isVisible, .ruleVersionHash, .materializedAtUnixUs]

def derivedViewMemberships : TableDefinition where
  columns := [text .membershipId, text .accountId, text .viewId, text .messageId, number .uid, flag .isVisible,
    text .ruleVersionHash, number .materializedAtUnixUs]
  primaryKey := [.membershipId]
  uniques := [[.accountId, .viewId, .uid], [.accountId, .viewId, .messageId, .ruleVersionHash]]
  checks := [atLeastOne .uid]

def mailboxUidState : TableDefinition where
  columns := [text .accountId, text .namespaceKind, text .namespaceId, number .uidnext, number .uidvalidity]
  primaryKey := [.accountId, .namespaceKind, .namespaceId]
  uniques := []
  checks := [isNamespaceKind, atLeastOne .uidnext, atLeastOne .uidvalidity]

/-- `message_flags` and `message_keywords`, which differ in the column of the name. -/
def attributeColumns (name : ColumnName) : List (Column ColumnName) :=
  [text .membershipId, text .accountId, text .mailboxId, text name, number .journalOffset, number .journalSequence]

def messageFlags : TableDefinition := ⟨attributeColumns .flagName, [.membershipId, .flagName], [], []⟩

def messageKeywords : TableDefinition := ⟨attributeColumns .keywordName, [.membershipId, .keywordName], [], []⟩

def messageHeadersColumnsV3 : List (Column ColumnName) :=
  [text .messageId, optionalText .rfcMessageId, number .duplicateMessageIdCount, optionalText .subject,
    optionalText .fromAddr, optionalText .toAddr, optionalText .ccAddr, optionalText .bccAddr,
    optionalText .dateRaw, number .journalOffset, number .journalSequence]

def messageHeadersColumnsV6 : List (Column ColumnName) :=
  [text .messageId, optionalText .rfcMessageId, number .duplicateMessageIdCount, optionalText .subject,
    optionalText .fromAddr, optionalText .senderDomain, optionalText .toAddr, optionalText .ccAddr,
    optionalText .bccAddr, optionalText .dateRaw, number .journalOffset, number .journalSequence]

def messageHeadersColumns : List (Column ColumnName) :=
  [text .messageId, optionalText .rfcMessageId, number .duplicateMessageIdCount, optionalText .subject,
    optionalText .fromAddr, optionalText .senderDomain, optionalText .toAddr, optionalText .ccAddr,
    optionalText .bccAddr, optionalText .dateRaw, ⟨.dateUnixUs, .bigint, false⟩, number .journalOffset,
    number .journalSequence]

def messageHeadersColumnsV9 : List (Column ColumnName) :=
  messageHeadersColumns ++ [optionalNumber .messageIdSpanStart, optionalNumber .messageIdSpanEnd,
    optionalNumber .subjectSpanStart, optionalNumber .subjectSpanEnd]

def headerTable (columns : List (Column ColumnName)) : TableDefinition := ⟨columns, [.messageId], [], []⟩

def messageFactExtractions : TableDefinition where
  columns := [text .accountId, text .messageId, number .factCount, number .journalOffset, number .journalSequence]
  primaryKey := [.accountId, .messageId]
  uniques := []
  checks := []

def derivedViewRefreshState : TableDefinition where
  columns := [text .accountId, text .refreshConfigHash, number .refreshedJournalSequence]
  primaryKey := [.accountId]
  uniques := []
  checks := []

/-- What the text of `object_reachability` names. -/
def objectReachability : View Name ColumnName where
  reads := [(.objects, .objectId), (.objects, .sizeBytes), (.messages, .objectId), (.messages, .messageId),
    (.mailboxMemberships, .messageId), (.mailboxMemberships, .isVisible), (.derivedViewMemberships, .messageId),
    (.derivedViewMemberships, .isVisible)]

/-! ## Checks -/

/-- The loop of `duckdb_store_validate_table_columns`. -/
def compareColumns (table : Name) : ℕ → List (Column ColumnName) → List (Column ColumnName) → Except StoreError Unit
  | position, expected :: rest, actual :: others =>
    if expected.name ≠ actual.name then .error (.incompatibleColumn table position expected.name actual.name)
    else if expected.type ≠ actual.type then
      .error (.incompatibleType table expected.name expected.type actual.type)
    else if expected.notNull ≠ actual.notNull then .error (.incompatibleNullability table expected.name)
    else compareColumns table (position + 1) rest others
  | _, _, _ => .ok ()

/-- `duckdb_store_validate_table_columns`. -/
def validateTableColumns (db : Tables) (table : Name) (expected : List (Column ColumnName)) :
    Except StoreError Unit :=
  match findTable db table with
  | none => .error (.doesNotExist table)
  | some found =>
    if found.definition.columns.length ≠ expected.length then .error (.unexpectedColumnShape table)
    else compareColumns table 0 expected found.definition.columns

/-- `duckdb_store_validate_primary_key`. -/
def validatePrimaryKey (db : Tables) (table : Name) (expected : List ColumnName) : Except StoreError Unit :=
  if hasPrimaryKey db table expected then .ok () else .error (.incompatiblePrimaryKey table)

def validateTable (db : Tables) (table : Name) (definition : TableDefinition) : Except StoreError Unit := do
  validateTableColumns db table definition.columns
  validatePrimaryKey db table definition.primaryKey

def validateMessageAttributeTables (db : Tables) : Except StoreError Unit := do
  validateTable db .messageFlags messageFlags
  validateTable db .messageKeywords messageKeywords

def validateMessageFactTable (db : Tables) : Except StoreError Unit := validateTable db .messageFacts messageFacts

def validateMessageHeaderTable (db : Tables) : Except StoreError Unit :=
  validateTable db .messageHeaders (headerTable messageHeadersColumns)

def validateMessageHeaderTableV6 (db : Tables) : Except StoreError Unit :=
  validateTable db .messageHeaders (headerTable messageHeadersColumnsV6)

def validateMessageHeaderTableV9 (db : Tables) : Except StoreError Unit :=
  validateTable db .messageHeaders (headerTable messageHeadersColumnsV9)

def validateMessageHeaderTableV3 (db : Tables) : Except StoreError Unit :=
  validateTable db .messageHeaders (headerTable messageHeadersColumnsV3)

def validateMailboxMembershipsV12 (db : Tables) : Except StoreError Unit :=
  validateTableColumns db .mailboxMemberships mailboxMembershipsColumns

/-! ## Computed columns -/

def isSpace (b : UInt8) : Bool := b == 32 || b == 9 || b == 10 || b == 12 || b == 13

def toLower (b : UInt8) : UInt8 := if 65 ≤ b ∧ b ≤ 90 then b + 32 else b

/-- The rest of the text after its last `c`, as `strrchr` finds it. -/
def afterLast (c : UInt8) (bytes : List UInt8) : Option (List UInt8) :=
  if c ∈ bytes then some (bytes.reverse.takeWhile (· ≠ c)).reverse else none

theorem toLower_ne_zero {b : UInt8} (h : b ≠ 0) : toLower b ≠ 0 := by
  rw [toLower]
  split
  · rename_i hupper
    intro hzero
    have hlow : 65 ≤ b.toNat := hupper.1
    have hhigh : b.toNat ≤ 90 := hupper.2
    have hsum : (b.toNat + 32) % 2 ^ 8 = 0 := congrArg UInt8.toNat hzero
    omega
  · exact h

/-- `extract_sender_domain_from_from_addr`. -/
def extractSenderDomain (value : CString) : Option CString :=
  match hat : afterLast 64 value.bytes with
  | none => none
  | some rest =>
    let domain := rest.takeWhile fun b => b ≠ 62 && b ≠ 44 && !isSpace b
    if domain = [] then none
    else some ⟨domain.map toLower, by
      intro hmem
      obtain ⟨b, hb, hzero⟩ := List.mem_map.mp hmem
      refine toLower_ne_zero ?_ hzero
      rintro rfl
      rw [afterLast] at hat
      split at hat
      · cases hat
        have hrest := List.takeWhile_subset _ hb
        exact value.no_nul (List.mem_reverse.mp (List.takeWhile_subset _ (List.mem_reverse.mp hrest)))
      · cases hat⟩

/-! ## Operations -/

/-- `bind_nullable_varchar`. -/
def nullable (value : Option CString) : Value CString := value.elim .null .varchar

/-- `duckdb_store_dup_nullable_varchar`. -/
def dupNullable : Value CString → Option CString
  | .varchar s => some s
  | _ => none

/-- `duckdb_store_require_nonnull_column` for each of the columns. -/
def requireNonnullColumns (row : Rows) : List ColumnName → Except StoreError Unit
  | [] => .ok ()
  | column :: columns =>
    if row column = .null then .error (.nullDuringMigration column) else requireNonnullColumns row columns

def headerNonnullColumns : List ColumnName :=
  [.messageId, .duplicateMessageIdCount, .journalOffset, .journalSequence]

/-- The loop that copies rows of `message_headers` one by one. -/
def copyRows (f : Rows → Rows) : List Rows → Tables → Except StoreError Tables
  | [], db => .ok db
  | row :: rows, db => do
    requireNonnullColumns row headerNonnullColumns
    let db ← query (insert .messageHeadersReplacement [f row]) db
    copyRows f rows db

def replaceTable (replacement table : Name) (db : Tables) : Except StoreError Tables := do
  let db ← query (dropTable table) db
  query (renameTable replacement table) db

def createMessageAttributeTables (db : Tables) : Except StoreError Tables := do
  let db ← query (createTableIfNotExists .messageFlags messageFlags) db
  let db ← query (createTableIfNotExists .messageKeywords messageKeywords) db
  validateMessageAttributeTables db
  .ok db

def createMessageHeaderTableV3 (db : Tables) : Except StoreError Tables := do
  let db ← query (createTableIfNotExists .messageHeaders (headerTable messageHeadersColumnsV3)) db
  validateMessageHeaderTableV3 db
  .ok db

def withSenderDomain (row : Rows) : Rows :=
  Function.update (project (messageHeadersColumnsV3.map Column.name) row) .senderDomain
    (nullable ((dupNullable (row .fromAddr)).bind extractSenderDomain))

def copyMessageHeadersWithSenderDomain (db : Tables) : Except StoreError Tables := do
  let rows ← (select .messageHeaders (messageHeadersColumnsV3.map Column.name) db).mapError .statement
  copyRows withSenderDomain rows db

/-- A table that is already in a later shape is left alone. -/
def addMessageHeaderSenderDomain (db : Tables) : Except StoreError Tables :=
  match validateMessageHeaderTable db, validateMessageHeaderTableV6 db with
  | .ok (), _ => .ok db
  | _, .ok () => .ok db
  | _, _ => do
    validateMessageHeaderTableV3 db
    let db ← query (createTable .messageHeadersReplacement (headerTable messageHeadersColumnsV6)) db
    let db ← copyMessageHeadersWithSenderDomain db
    let db ← replaceTable .messageHeadersReplacement .messageHeaders db
    validateMessageHeaderTableV6 db
    .ok db

section
-- `wyrebox_rfc5322_date_parse_unix_us`
variable (parseUnixUs : CString → Option ℤ)

def withDateUnixUs (row : Rows) : Rows :=
  Function.update (project (messageHeadersColumnsV6.map Column.name) row) .dateUnixUs
    (((dupNullable (row .dateRaw)).bind parseUnixUs).elim .null .bigint)

def copyMessageHeadersWithDateUnixUs (db : Tables) : Except StoreError Tables := do
  let rows ← (select .messageHeaders (messageHeadersColumnsV6.map Column.name) db).mapError .statement
  copyRows (withDateUnixUs parseUnixUs) rows db

def addMessageHeaderDateUnixUs (db : Tables) : Except StoreError Tables :=
  match validateMessageHeaderTable db with
  | .ok () => .ok db
  | _ => do
    validateMessageHeaderTableV6 db
    let db ← query (createTable .messageHeadersReplacement (headerTable messageHeadersColumns)) db
    let db ← copyMessageHeadersWithDateUnixUs parseUnixUs db
    let db ← replaceTable .messageHeadersReplacement .messageHeaders db
    validateMessageHeaderTable db
    .ok db

end

def addMessageHeaderProvenanceSpans (db : Tables) : Except StoreError Tables :=
  match validateMessageHeaderTableV9 db with
  | .ok () => .ok db
  | _ => do
    validateMessageHeaderTable db
    let db ← query (addColumn .messageHeaders .messageIdSpanStart .ubigint) db
    let db ← query (addColumn .messageHeaders .messageIdSpanEnd .ubigint) db
    let db ← query (addColumn .messageHeaders .subjectSpanStart .ubigint) db
    let db ← query (addColumn .messageHeaders .subjectSpanEnd .ubigint) db
    validateMessageHeaderTableV9 db
    .ok db

def createDerivedViewMemberships (db : Tables) : Except StoreError Tables :=
  query (createTableIfNotExists .derivedViewMemberships derivedViewMemberships) db

def scopeDerivedViewsByAccount (db : Tables) : Except StoreError Tables := do
  let db ← query (createTable .derivedViewsReplacement derivedViews) db
  let db ← query (insertSelect .derivedViewsReplacement .derivedViews derivedViewsColumns
    (project derivedViewsColumns)) db
  let db ← query (createTable .derivedViewMembershipsReplacement derivedViewMemberships) db
  let db ← query (insertSelect .derivedViewMembershipsReplacement .derivedViewMemberships
    derivedViewMembershipsColumns (project derivedViewMembershipsColumns)) db
  let db ← query (dropTable .derivedViewMemberships) db
  let db ← query (dropTable .derivedViews) db
  let db ← query (renameTable .derivedViewsReplacement .derivedViews) db
  query (renameTable .derivedViewMembershipsReplacement .derivedViewMemberships) db

def createMessageFactExtractions (db : Tables) : Except StoreError Tables :=
  query (createTableIfNotExists .messageFactExtractions messageFactExtractions) db

def createDerivedViewRefreshState (db : Tables) : Except StoreError Tables :=
  query (createTableIfNotExists .derivedViewRefreshState derivedViewRefreshState) db

def createObjectReachabilityView (db : Tables) : Except StoreError Tables := do
  let db ← query (dropViewIfExists .objectReachability) db
  query (createView .objectReachability objectReachability) db

/-- The columns of `mailbox_memberships` before version 12. -/
def mailboxMembershipsColumnsV11 : List ColumnName :=
  [.membershipId, .accountId, .mailboxId, .messageId, .uid, .internalDateUnixUs, .journalOffset, .journalSequence,
    .isVisible]

def withJournalItem (row : Rows) : Rows :=
  Function.update (project mailboxMembershipsColumnsV11 row) .journalItem (.ubigint 0)

def addMailboxMembershipJournalItemAndTombstones (db : Tables) : Except StoreError Tables :=
  match validateMailboxMembershipsV12 db with
  | .ok () => createObjectReachabilityView db
  | _ => do
    let db ← query (dropViewIfExists .objectReachability) db
    let db ← query (createTable .mailboxMembershipsReplacement mailboxMemberships) db
    let db ← query (insertSelect .mailboxMembershipsReplacement .mailboxMemberships mailboxMembershipsColumnsV11
      withJournalItem) db
    let db ← replaceTable .mailboxMembershipsReplacement .mailboxMemberships db
    let db ← createObjectReachabilityView db
    validateMailboxMembershipsV12 db
    .ok db

def createBootstrapCatalog (db : Tables) : Except StoreError Tables := do
  let db ← query (createTableIfNotExists .accounts accounts) db
  let db ← query (createTableIfNotExists .objects objects) db
  let db ← query (createTableIfNotExists .messages messages) db
  let db ← query (createTableIfNotExists .messageFacts messageFacts) db
  validateMessageFactTable db
  let db ← query (createTableIfNotExists .mailboxes mailboxes) db
  let db ← query (createTableIfNotExists .mailboxMemberships mailboxMemberships) db
  let db ← query (createTableIfNotExists .derivedViews derivedViews) db
  let db ← createDerivedViewMemberships db
  query (createTableIfNotExists .mailboxUidState mailboxUidState) db

/-- `WyreboxSchemaMetadataStoreMigrationOperation`. -/
inductive Operation where
  | legacyBootstrap
  | addMessageAttributeTables
  | addMessageHeaderTable
  | addDerivedViewMemberships
  | scopeDerivedViewsByAccount
  | addMessageHeaderSenderDomain
  | addMessageHeaderDateUnixUs
  | addObjectReachabilityView
  | addMessageHeaderProvenanceSpans
  | addMessageFactExtractions
  | addDerivedViewRefreshState
  | addMailboxMembershipJournalItemAndTombstones
  deriving DecidableEq, Repr

/-- `wyrebox_schema_metadata_store_duckdb_apply_migration_operation`: one transaction. -/
def applyMigrationOperation (parseUnixUs : CString → Option ℤ) : Operation → Tables → Except StoreError Tables
  | .legacyBootstrap => createBootstrapCatalog
  | .addMessageAttributeTables => createMessageAttributeTables
  | .addMessageHeaderTable => createMessageHeaderTableV3
  | .addDerivedViewMemberships => createDerivedViewMemberships
  | .scopeDerivedViewsByAccount => scopeDerivedViewsByAccount
  | .addMessageHeaderSenderDomain => addMessageHeaderSenderDomain
  | .addMessageHeaderDateUnixUs => addMessageHeaderDateUnixUs parseUnixUs
  | .addMessageHeaderProvenanceSpans => addMessageHeaderProvenanceSpans
  | .addObjectReachabilityView => createObjectReachabilityView
  | .addMessageFactExtractions => createMessageFactExtractions
  | .addDerivedViewRefreshState => createDerivedViewRefreshState
  | .addMailboxMembershipJournalItemAndTombstones => addMailboxMembershipJournalItemAndTombstones

end Wyrebox.Schema
