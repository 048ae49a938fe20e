import Wyrebox.CString
import Wyrebox.JournalWriter

set_option autoImplicit false

/-!
# Journal events

The payloads of the projected event types, as the codecs decode them. A `GStrv` is a list of
strings; a `NULL` one is the empty list.
-/
namespace Wyrebox.Event
open JournalWriter (Position)

structure Span where
  valid : Bool
  start : ℕ
  stop : ℕ
  deriving DecidableEq

def Span.absent : Span := ⟨false, 0, 0⟩

/-- The header fields that both kinds of new message carry. -/
structure Metadata where
  messageId : Option CString
  subject : Option CString
  fromAddr : Option CString
  toAddr : Option CString
  cc : Option CString
  bcc : Option CString
  date : Option CString
  duplicateMessageIdCount : ℕ
  messageIdSpan : Span
  subjectSpan : Span
  deriving DecidableEq

structure MessageDelivered where
  objectKey : CString
  sizeBytes : ℕ
  internalDateUnixUs : ℕ
  metadata : Metadata
  deliveryId : Option CString
  queueId : Option CString
  accountIdentity : Option CString
  envelopeSender : Option CString
  recipients : List CString
  deriving DecidableEq

inductive FlagChangedMode where
  | set
  | clear
  | replace
  deriving DecidableEq

structure FlagChanged where
  accountId : CString
  mailboxId : CString
  uidvalidity : ℕ
  uid : ℕ
  mode : FlagChangedMode
  systemFlags : List CString
  userKeywords : List CString
  deriving DecidableEq

structure MembershipsExpunged where
  accountId : CString
  mailboxId : CString
  uidvalidity : ℕ
  uids : List ℕ
  deriving DecidableEq

structure MembershipsCopiedItem where
  srcUid : ℕ
  dstUid : ℕ
  internalDateUnixUs : ℕ
  messageId : CString
  systemFlags : List CString
  userKeywords : List CString
  deriving DecidableEq

structure MembershipsCopied where
  accountId : CString
  sourceMailboxId : CString
  destMailboxId : CString
  sourceUidvalidity : ℕ
  destUidvalidity : ℕ
  items : List MembershipsCopiedItem
  deriving DecidableEq

structure MessageAppended where
  accountId : CString
  mailboxId : CString
  uidvalidity : ℕ
  uid : ℕ
  objectKey : CString
  sizeBytes : ℕ
  internalDateUnixUs : ℕ
  metadata : Metadata
  systemFlags : List CString
  userKeywords : List CString
  deriving DecidableEq

inductive FactMutationKind where
  | insert
  | retract
  deriving DecidableEq

/-- The journaled part of `WyreboxDaemonFactMutationRequest`. -/
structure FactMutation where
  kind : FactMutationKind
  predicateId : CString
  scopeId : CString
  arguments : List CString
  deriving DecidableEq

structure FactRecord where
  predicate : CString
  args : List CString
  source : CString
  confidencePpm : ℕ
  createdAtUnixUs : ℕ
  deriving DecidableEq

structure FactsExtracted where
  accountId : CString
  messageId : CString
  extractedAtUnixUs : ℕ
  facts : List FactRecord
  deriving DecidableEq

structure DerivedViewMembershipChanged where
  accountId : CString
  viewId : CString
  messageId : CString
  membershipId : CString
  ruleVersionHash : CString
  uid : ℕ
  uidvalidity : ℕ
  isVisible : Bool
  materializedAtUnixUs : ℕ
  deriving DecidableEq

end Wyrebox.Event

namespace Wyrebox
open Event in
/-- What one projected journal record says. -/
inductive Event where
  | messageDelivered (delivery : MessageDelivered)
  | flagChanged (change : FlagChanged)
  | factMutated (mutation : FactMutation)
  | factsExtracted (extraction : FactsExtracted)
  | derivedViewMembershipChanged (change : DerivedViewMembershipChanged)
  | membershipsExpunged (expunge : MembershipsExpunged)
  | membershipsCopied (copy : MembershipsCopied)
  | membershipsMoved (move : MembershipsCopied)
  | messageAppended (append : MessageAppended)
  deriving DecidableEq

/-- The account a projected record belongs to. Deliveries from before account identities were
    journaled have none. -/
def Event.accountIdentity : Event → Option CString
  | .messageDelivered delivery => delivery.accountIdentity
  | .flagChanged change => some change.accountId
  | .factMutated mutation => some mutation.scopeId
  | .factsExtracted extraction => some extraction.accountId
  | .derivedViewMembershipChanged change => some change.accountId
  | .membershipsExpunged expunge => some expunge.accountId
  | .membershipsCopied copy => some copy.accountId
  | .membershipsMoved move => some move.accountId
  | .messageAppended append => some append.accountId

open JournalWriter in
/-- `WyreboxDeliveryProjectionRecord`. -/
structure ProjectionRecord where
  position : Position
  event : Event
  deriving DecidableEq

end Wyrebox
