import Wyrebox.Catalog

set_option autoImplicit false

/-!
# The materializer

One transaction for each run of deliveries and for each other record. A transaction that fails
is rolled back, so only successful results are ever seen.
-/
namespace Wyrebox.Materializer
open Catalog Event Fallible
open JournalWriter (Position)

def mailboxUidvalidity : ℕ := 1

def inboxName : CString := .literal "INBOX"

def inboxId (account : CString) : CString := .literal "inbox:" ++ account

def journalMessageId (position : Position) : CString :=
  .literal "journal:" ++ .decimal position.offset ++ .literal ":" ++ .decimal position.sequence

def deliveryMembershipId (mailboxId : CString) (position : Position) : CString :=
  .literal "mailbox:" ++ mailboxId ++ .literal ":journal:" ++ .decimal position.offset ++
    .literal ":" ++ .decimal position.sequence

def itemMembershipId (mailboxId : CString) (position : Position) (item : ℕ) : CString :=
  .literal "mailbox:" ++ mailboxId ++ .literal ":journal:" ++ .decimal position.offset ++
    .literal ":" ++ .decimal position.sequence ++ .literal ":" ++ .decimal item

/-- What a delivery and an APPEND store of the new message. -/
structure MessageRecord where
  objectKey : CString
  sizeBytes : ℕ
  internalDateUnixUs : ℕ
  metadata : Metadata
  deriving DecidableEq

def deliveredRecord (delivery : MessageDelivered) : MessageRecord :=
  ⟨delivery.objectKey, delivery.sizeBytes, delivery.internalDateUnixUs, delivery.metadata⟩

def appendedRecord (append : MessageAppended) : MessageRecord :=
  ⟨append.objectKey, append.sizeBytes, append.internalDateUnixUs, append.metadata⟩

def spanColumns (span : Span) : Option (ℕ × ℕ) :=
  if span.valid then some (span.start, span.stop) else none

def headersRow (metadata : Metadata) (position : Position) : MessageHeaders where
  rfcMessageId := metadata.messageId
  duplicateMessageIdCount := metadata.duplicateMessageIdCount
  subject := metadata.subject
  fromAddr := metadata.fromAddr
  toAddr := metadata.toAddr
  ccAddr := metadata.cc
  bccAddr := metadata.bcc
  dateRaw := metadata.date
  messageIdSpan := spanColumns metadata.messageIdSpan
  subjectSpan := spanColumns metadata.subjectSpan
  position := position

/-! ## Mailboxes and UID state -/

def selectUidnext (t : AccountTables) (mailboxId : CString) : Except InvalidData ℕ :=
  match t.uidState (.mailbox mailboxId) with
  | none => .error .uidStateMissing
  | some state => do
    require (state.uidvalidity = mailboxUidvalidity) .unexpectedUidvalidity
    require (t.maxUid mailboxId ≠ maxGuint64 ∧ t.maxUid mailboxId + 1 ≤ state.uidnext) .uidStateStale
    .ok state.uidnext

def ensureMailboxExact (t : AccountTables) (mailboxId imapName : CString) : Except InvalidData Unit := do
  require (t.mailboxes.countP (fun row => row.imapName = imapName ∧ row.mailboxId ≠ mailboxId) = 0)
    .mailboxNameTaken
  require (t.mailboxes.countP (fun row => row.mailboxId = mailboxId ∧ row.imapName = imapName ∧
    row.isSelectable ∧ row.isVisible) = 1) .mailboxMismatch

/-- `INSERT OR IGNORE INTO mailboxes`. -/
def insertMailbox (seed : Provisioned) (account : CString) (t : AccountTables)
    (mailboxId imapName : CString) : AccountTables :=
  if seed.ownedByOther account mailboxId ∨
      t.mailboxes.any (fun row => row.mailboxId = mailboxId ∨ row.imapName = imapName) then t
  else { t with mailboxes := t.mailboxes ++ [⟨mailboxId, imapName, true, true⟩] }

def ensureMailbox (seed : Provisioned) (account : CString) (t : AccountTables)
    (mailboxId imapName : CString) : Except InvalidData AccountTables := do
  let t := insertMailbox seed account t mailboxId imapName
  ensureMailboxExact t mailboxId imapName
  .ok t

def resolveInboxId (t : AccountTables) (account : CString) : Except InvalidData CString :=
  match t.mailboxes.filter fun row => row.imapName = inboxName with
  | [] => .ok (inboxId account)
  | [row] => .ok row.mailboxId
  | _ => .error .inboxAmbiguous

def ensureUidStateValidity (t : AccountTables) (mailboxId : CString) (uidvalidity : ℕ) :
    Except InvalidData AccountTables := do
  let t ← t.insertUidState (.mailbox mailboxId) ⟨1, uidvalidity⟩
  require ((t.uidState (.mailbox mailboxId)).map UidState.uidvalidity = some uidvalidity)
    .unexpectedUidvalidity
  .ok t

/-! ## Messages -/

def ensureObject (s : Session) (record : MessageRecord) : Except InvalidData Session :=
  match s.objects.register record.objectKey record.sizeBytes with
  | some objects => .ok { s with objects := objects }
  | none => .error .objectMismatch

def ensureMessage (t : AccountTables) (position : Position) (record : MessageRecord) :
    Except InvalidData AccountTables :=
  match t.messages.register (journalMessageId position) ⟨record.objectKey, position⟩ with
  | some messages => .ok { t with messages := messages }
  | none => .error .messageMismatch

def ensureMessageHeaders (t : AccountTables) (position : Position) (record : MessageRecord) :
    Except InvalidData AccountTables :=
  match t.headers.register (journalMessageId position) (headersRow record.metadata position) with
  | some headers => .ok { t with headers := headers }
  | none => .error .headersMismatch

/-! ## Deliveries -/

/-- Visible, or tombstoned by a record after the one at `sequence`. -/
def liveAfter (row : Membership) (sequence : ℕ) : Bool :=
  row.isVisible || row.expunged.any fun position => sequence < position.sequence

def ensureMembershipExact (t : AccountTables) (mailboxId membershipId : CString) (position : Position)
    (record : MessageRecord) : Except InvalidData Bool :=
  match t.findMembership membershipId with
  | none => .ok false
  | some row => do
    require (row.mailboxId = mailboxId ∧ row.messageId = journalMessageId position ∧
      row.internalDateUnixUs = record.internalDateUnixUs ∧ row.position = position ∧
      liveAfter row position.sequence ∧ 1 ≤ row.uid) .membershipMismatch
    .ok true

def insertMembership (t : AccountTables) (mailboxId membershipId : CString) (position : Position)
    (record : MessageRecord) (uid : ℕ) : Except InvalidData AccountTables :=
  t.insertMembershipRow ⟨membershipId, mailboxId, journalMessageId position, uid,
    record.internalDateUnixUs, position, 0, true, none⟩

/-- `materializer_apply_record`, with the UIDNEXT it counts. -/
def applyRecord (mailboxId : CString) (progress : Session × ℕ) (delivery : Position × MessageRecord) :
    Except InvalidData (Session × ℕ) := do
  let (s, uidnext) := progress
  let (position, record) := delivery
  let membershipId := deliveryMembershipId mailboxId position
  require (record.objectKey ≠ .empty) .objectKeyEmpty
  let s ← ensureObject s record
  let t ← ensureMessage s.tables position record
  let t ← ensureMessageHeaders t position record
  let found ← ensureMembershipExact t mailboxId membershipId position record
  if found then .ok ({ s with tables := t }, uidnext)
  else do
    let t ← insertMembership t mailboxId membershipId position record uidnext
    .ok ({ s with tables := t }, (uidnext + 1) % 2 ^ 64)

def applyInTransaction (seed : Provisioned) (account mailboxId imapName : CString) (s : Session)
    (deliveries : List (Position × MessageRecord)) : Except InvalidData Session := do
  let t ← ensureMailbox seed account s.tables mailboxId imapName
  let t ← t.insertUidState (.mailbox mailboxId) ⟨1, mailboxUidvalidity⟩
  let uidnext ← selectUidnext t mailboxId
  let (s, uidnext) ← deliveries.foldlM (applyRecord mailboxId) ({ s with tables := t }, uidnext)
  let t ← s.tables.updateUidnext (.mailbox mailboxId) fun _ => uidnext
  .ok { s with tables := t }

def applyToInbox (seed : Provisioned) (account : CString) (s : Session)
    (deliveries : List (Position × MessageRecord)) : Except InvalidData Session := do
  let mailboxId ← resolveInboxId s.tables account
  applyInTransaction seed account mailboxId inboxName s deliveries

/-! ## Flags -/

/-- A plain `INSERT`, which the primary key stops where the name is present. -/
def insertFlagName (t : AccountTables) (table : FlagTable) (mailboxId membershipId : CString)
    (position : Position) (name : CString) : Except InvalidData AccountTables := do
  require (t.flags table membershipId name = none) .constraint
  .ok (t.setFlag table membershipId name (some ⟨mailboxId, position⟩))

/-- Presence is judged by the names loaded before the first change. -/
def applyFlagName (current : CString → Bool) (table : FlagTable) (change : FlagChanged)
    (membershipId : CString) (position : Position) (t : AccountTables) (name : CString) :
    Except InvalidData AccountTables :=
  match change.mode with
  | .clear => .ok (if current name then t.setFlag table membershipId name none else t)
  | .set | .replace =>
    if current name then .ok t
    else insertFlagName t table change.mailboxId membershipId position name

/-- REPLACE deletes every present name that is not listed. -/
def deleteUnlisted (t : AccountTables) (table : FlagTable) (membershipId : CString)
    (names : List CString) : AccountTables :=
  { t with flags := fun table' membershipId' name' =>
      if table' = table ∧ membershipId' = membershipId ∧ name' ∉ names then none
      else t.flags table' membershipId' name' }

def applyFlagTable (t : AccountTables) (table : FlagTable) (change : FlagChanged)
    (names : List CString) (membershipId : CString) (position : Position) :
    Except InvalidData AccountTables :=
  let current := fun name => (t.flags table membershipId name).isSome
  let t := if change.mode = .replace then deleteUnlisted t table membershipId names else t
  names.foldlM (applyFlagName current table change membershipId position) t

def resolveFlagTarget (t : AccountTables) (change : FlagChanged) : Except InvalidData CString :=
  match t.findUid change.mailboxId change.uidvalidity change.uid with
  | some row => .ok row.membershipId
  | none => .error .flagTargetMissing

def applyFlagChange (t : AccountTables) (change : FlagChanged) (position : Position) :
    Except InvalidData AccountTables := do
  let membershipId ← resolveFlagTarget t change
  let t ← applyFlagTable t .messageFlags change change.systemFlags membershipId position
  applyFlagTable t .messageKeywords change change.userKeywords membershipId position

/-! ## EXPUNGE -/

def tombstoneMembershipUid (mailboxId : CString) (uidvalidity : ℕ) (position : Position)
    (t : AccountTables) (uid : ℕ) : Except InvalidData AccountTables :=
  match t.findUid mailboxId uidvalidity uid with
  | none => .error .tombstoneTargetMissing
  | some row =>
    if row.isVisible then .ok (t.expungeRow row.membershipId position)
    else do
      require (row.expunged = some position) .tombstonedByOtherRecord
      .ok t

def applyMembershipsExpunged (t : AccountTables) (expunge : MembershipsExpunged) (position : Position) :
    Except InvalidData AccountTables :=
  expunge.uids.foldlM (tombstoneMembershipUid expunge.mailboxId expunge.uidvalidity position) t

/-! ## COPY, MOVE and APPEND -/

def ensureCopyDestination (t : AccountTables) (copy : MembershipsCopied) :
    Except InvalidData AccountTables := do
  require (t.hasMailbox copy.destMailboxId) .copyDestinationMissing
  ensureUidStateValidity t copy.destMailboxId copy.destUidvalidity

def destinationMembershipExists (t : AccountTables) (mailboxId messageId : CString) (uid item : ℕ)
    (membershipId : CString) (position : Position) : Except InvalidData Bool :=
  match t.findMembership membershipId with
  | none => .ok false
  | some row => do
    require (row.mailboxId = mailboxId ∧ row.messageId = messageId ∧ row.uid = uid ∧
      row.journalItem = item ∧ row.position = position ∧ liveAfter row position.sequence)
      .membershipMismatch
    .ok true

/-- The message and visibility of a source UID. A miss in the ordinary mailboxes falls through to
    the derived views. -/
def copySource (t : AccountTables) (sourceMailboxId : CString) (sourceUidvalidity srcUid : ℕ) :
    Option (CString × Bool) :=
  match t.findUid sourceMailboxId sourceUidvalidity srcUid with
  | some row => some (row.messageId, row.isVisible)
  | none =>
    (t.findViewUid sourceMailboxId sourceUidvalidity srcUid).map fun row => (row.messageId, row.isVisible)

def checkCopySource (t : AccountTables) (copy : MembershipsCopied) (item : MembershipsCopiedItem) :
    Except InvalidData Unit :=
  match copySource t copy.sourceMailboxId copy.sourceUidvalidity item.srcUid with
  | none => .error .copySourceMissing
  | some (messageId, isVisible) =>
    require (messageId = item.messageId ∧ isVisible = true) .copySourceNotVisible

def insertDestinationMembership (t : AccountTables) (row : Membership) :
    Except InvalidData AccountTables := do
  require (row.uid ≠ maxGuint64) .destinationUidTooLarge
  require (t.memberships.countP (fun other => other.mailboxId = row.mailboxId ∧ other.uid = row.uid) = 0)
    .destinationUidTaken
  let t ← t.insertMembershipRow row
  t.updateUidnext (.mailbox row.mailboxId) fun uidnext => max uidnext (row.uid + 1)

def insertFlags (mailboxId membershipId : CString) (position : Position)
    (systemFlags userKeywords : List CString) (t : AccountTables) : Except InvalidData AccountTables := do
  let t ← systemFlags.foldlM
    (fun t name => insertFlagName t .messageFlags mailboxId membershipId position name) t
  userKeywords.foldlM
    (fun t name => insertFlagName t .messageKeywords mailboxId membershipId position name) t

def insertCopyMembership (t : AccountTables) (copy : MembershipsCopied) (position : Position)
    (item : MembershipsCopiedItem) (index : ℕ) : Except InvalidData AccountTables := do
  let membershipId := itemMembershipId copy.destMailboxId position index
  checkCopySource t copy item
  let t ← insertDestinationMembership t ⟨membershipId, copy.destMailboxId, item.messageId, item.dstUid,
    item.internalDateUnixUs, position, index, true, none⟩
  insertFlags copy.destMailboxId membershipId position item.systemFlags item.userKeywords t

def applyCopyItem (copy : MembershipsCopied) (tombstoneSource : Bool) (position : Position)
    (t : AccountTables) (indexed : MembershipsCopiedItem × ℕ) : Except InvalidData AccountTables := do
  let (item, index) := indexed
  let found ← destinationMembershipExists t copy.destMailboxId item.messageId item.dstUid index
    (itemMembershipId copy.destMailboxId position index) position
  let t ← if found then .ok t else insertCopyMembership t copy position item index
  if tombstoneSource then
    tombstoneMembershipUid copy.sourceMailboxId copy.sourceUidvalidity position t item.srcUid
  else .ok t

def applyMembershipsCopied (tombstoneSources : Bool) (t : AccountTables) (copy : MembershipsCopied)
    (position : Position) : Except InvalidData AccountTables := do
  let t ← ensureCopyDestination t copy
  copy.items.zipIdx.foldlM (applyCopyItem copy tombstoneSources position) t

/-- Only an unmaterialized INBOX is created; any other missing mailbox fails. -/
def ensureAppendDestination (seed : Provisioned) (t : AccountTables) (append : MessageAppended) :
    Except InvalidData AccountTables := do
  let t ← if t.hasMailbox append.mailboxId then .ok t
    else do
      require (append.mailboxId = inboxId append.accountId) .appendDestinationMissing
      ensureMailbox seed append.accountId t append.mailboxId inboxName
  ensureUidStateValidity t append.mailboxId append.uidvalidity

def insertAppendMembership (t : AccountTables) (append : MessageAppended) (position : Position) :
    Except InvalidData AccountTables := do
  let membershipId := itemMembershipId append.mailboxId position 0
  let found ← destinationMembershipExists t append.mailboxId (journalMessageId position) append.uid 0
    membershipId position
  if found then .ok t
  else do
    let t ← insertDestinationMembership t ⟨membershipId, append.mailboxId, journalMessageId position,
      append.uid, append.internalDateUnixUs, position, 0, true, none⟩
    insertFlags append.mailboxId membershipId position append.systemFlags append.userKeywords t

def applyMessageAppended (seed : Provisioned) (s : Session) (append : MessageAppended)
    (position : Position) : Except InvalidData Session := do
  let record := appendedRecord append
  let t ← ensureAppendDestination seed s.tables append
  let s ← ensureObject { s with tables := t } record
  let t ← ensureMessage s.tables position record
  let t ← ensureMessageHeaders t position record
  let t ← insertAppendMembership t append position
  .ok { s with tables := t }

/-! ## Facts -/

def setFact (s : Session) (id : FactId) (fact : Fact) : Session :=
  { s with facts := Function.update s.facts id (some fact) }

def messageObject (s : Session) (messageId : CString) : CString :=
  ((s.tables.messages messageId).map Message.objectId).getD .empty

/-- `INSERT OR IGNORE INTO message_facts`. -/
def insertFactRow (s : Session) (id : FactId) (account messageId : CString) (confidencePpm : ℕ)
    (position : Position) : Session :=
  match s.facts id with
  | some _ => s
  | none => setFact s id ⟨account, messageId, messageObject s messageId, confidencePpm,
      position.sequence, 0, position⟩

def insertFact (s : Session) (id : FactId) (mutation : FactMutation) (position : Position) : Session :=
  let s := match s.facts id with
    | some fact =>
      if fact.retractedAtUnixUs ≠ 0 then
        setFact s id { fact with createdAtUnixUs := position.sequence, retractedAtUnixUs := 0, position }
      else s
    | none => s
  insertFactRow s id mutation.scopeId (mutation.arguments.head?.getD .empty) 1000000 position

def retractFact (s : Session) (id : FactId) (position : Position) : Session :=
  match s.facts id with
  | some fact =>
    if fact.retractedAtUnixUs = 0 then
      setFact s id { fact with retractedAtUnixUs := position.sequence, position }
    else s
  | none => s

def applyFactMutation (s : Session) (mutation : FactMutation) (position : Position) :
    Except InvalidData Session := do
  require (mutation.scopeId ≠ .empty ∧ mutation.predicateId ≠ .empty ∧ position.sequence ≠ 0)
    .factMutationIncomplete
  let id := ⟨mutation.predicateId, .literal "fact-mutation:" ++ mutation.scopeId, mutation.arguments⟩
  match mutation.kind with
  | .insert => .ok (insertFact s id mutation position)
  | .retract => .ok (retractFact s id position)

def insertExtractedFact (extraction : FactsExtracted) (position : Position) (s : Session)
    (fact : FactRecord) : Except InvalidData Session := do
  require (fact.args.head? = some extraction.messageId) .factOfOtherMessage
  .ok (insertFactRow s ⟨fact.predicate, fact.source, fact.args⟩ extraction.accountId
    extraction.messageId fact.confidencePpm position)

def applyFactsExtracted (s : Session) (extraction : FactsExtracted) (position : Position) :
    Except InvalidData Session := do
  require (extraction.accountId ≠ .empty ∧ extraction.messageId ≠ .empty ∧ position.sequence ≠ 0)
    .factsExtractedIncomplete
  match s.tables.extractions extraction.messageId with
  | some _ => .ok s
  | none =>
    let row := ⟨extraction.facts.length, position⟩
    let t := { s.tables with
      extractions := Function.update s.tables.extractions extraction.messageId (some row) }
    extraction.facts.foldlM (insertExtractedFact extraction position) { s with tables := t }

/-! ## Derived views -/

def derivedConflict (row other : DerivedMembership) : Bool :=
  row.membershipId = other.membershipId ∨ (row.viewId = other.viewId ∧ row.uid = other.uid) ∨
    (row.viewId = other.viewId ∧ row.messageId = other.messageId ∧
      row.ruleVersionHash = other.ruleVersionHash)

def insertDerivedRow (t : AccountTables) (row : DerivedMembership) : Except InvalidData AccountTables := do
  require (1 ≤ row.uid ∧ t.derived.all (fun other => !derivedConflict row other)) .constraint
  .ok { t with derived := t.derived ++ [row] }

def updateDerivedRow (t : AccountTables) (membershipId : CString) (isVisible : Bool)
    (materializedAtUnixUs : ℕ) : AccountTables :=
  { t with derived := t.derived.map fun row =>
      if row.membershipId = membershipId then { row with isVisible, materializedAtUnixUs } else row }

def upsertViewMembership (s : Session) (change : DerivedViewMembershipChanged) :
    Except InvalidData Session :=
  match s.derivedOwner.register change.membershipId change.accountId with
  | none => .error .viewMembershipChangedIdentity
  | some derivedOwner =>
    match s.tables.derived.find? fun row => row.membershipId = change.membershipId with
    | some row => do
      require (row.viewId = change.viewId ∧ row.messageId = change.messageId ∧ row.uid = change.uid ∧
        row.ruleVersionHash = change.ruleVersionHash) .viewMembershipChangedIdentity
      .ok { s with
        derivedOwner := derivedOwner
        tables := updateDerivedRow s.tables change.membershipId change.isVisible
          change.materializedAtUnixUs }
    | none => do
      let t ← insertDerivedRow s.tables ⟨change.membershipId, change.viewId, change.messageId,
        change.uid, change.isVisible, change.ruleVersionHash, change.materializedAtUnixUs⟩
      .ok { s with derivedOwner := derivedOwner, tables := t }

def advanceViewUidState (t : AccountTables) (change : DerivedViewMembershipChanged) :
    Except InvalidData AccountTables := do
  let t ← t.insertUidState (.derivedView change.viewId) ⟨change.uid + 1, change.uidvalidity⟩
  require ((t.uidState (.derivedView change.viewId)).map UidState.uidvalidity = some change.uidvalidity)
    .viewUidvalidityMismatch
  t.updateUidnext (.derivedView change.viewId) fun uidnext => max uidnext (change.uid + 1)

def applyMembershipChange (s : Session) (change : DerivedViewMembershipChanged) :
    Except InvalidData Session := do
  require (change.uid ≠ 0 ∧ change.uid ≠ maxGuint64 ∧ change.uidvalidity ≠ 0) .viewMembershipIncomplete
  let s ← upsertViewMembership s change
  let t ← advanceViewUidState s.tables change
  .ok { s with tables := t }

/-! ## Records -/

/-- The rows one record writes, a delivery as a run of its own. -/
def apply (seed : Provisioned) (account : CString) (s : Session) (record : ProjectionRecord) :
    Except InvalidData Session :=
  let onTables := fun result : Except InvalidData AccountTables =>
    result.map fun t => { s with tables := t }
  match record.event with
  | .messageDelivered delivery =>
    applyToInbox seed account s [(record.position, deliveredRecord delivery)]
  | .flagChanged change => onTables (applyFlagChange s.tables change record.position)
  | .factMutated mutation => applyFactMutation s mutation record.position
  | .factsExtracted extraction => applyFactsExtracted s extraction record.position
  | .derivedViewMembershipChanged change => applyMembershipChange s change
  | .membershipsExpunged expunge => onTables (applyMembershipsExpunged s.tables expunge record.position)
  | .membershipsCopied copy => onTables (applyMembershipsCopied false s.tables copy record.position)
  | .membershipsMoved move => onTables (applyMembershipsCopied true s.tables move record.position)
  | .messageAppended append => applyMessageAppended seed s append record.position

/-- `materializer_save_checkpoint`: the stored position is only ever raised. -/
def saveCheckpoint (stored : Option Position) (position : Position) : Option Position :=
  match stored with
  | none => some position
  | some stored =>
    if stored.sequence < position.sequence ∨
        (stored.sequence = position.sequence ∧ stored.offset < position.offset) then some position
    else some stored

end Wyrebox.Materializer
