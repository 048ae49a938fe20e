import Wyrebox.EmlMetadata
import Wyrebox.JournalLife
import Wyrebox.MessageAppendedPayload
import Wyrebox.MessageDeliveredPayload
import Wyrebox.ObjectIntegrity

set_option autoImplicit false

/-!
# Ingestion of messages

Deliveries and APPEND requests run concurrently. Each stores its message before it appends the record that
names it; a delivery first looks for a record of an earlier attempt, and keeps the journal's append lock
from there to the end of its own append.
-/
namespace Wyrebox.Ingestion
open JournalRecord JournalReader JournalWriter JournalLife PayloadText Event Eml
open MessageDeliveredPayload (Identity)

/-! ## Requests -/

/-- The arguments of `wyrebox_eml_ingestor_ingest_delivery_bytes`. -/
structure DeliveryRequest where
  bytes : GBytes
  identity : Identity

/-- `WyreboxDaemonMessageAppendRequest`. -/
structure AppendRequest where
  accountIdentity : CString
  mailboxId : CString
  uidValidity : UInt64
  bytes : GBytes
  internalDateUnixUs : UInt64
  systemFlags : List CString
  userKeywords : List CString

inductive Request where
  | deliver (request : DeliveryRequest)
  /-- `wyrebox_eml_ingestor_ingest_bytes`. -/
  | ingest (bytes : GBytes)
  | append (request : AppendRequest)

def Request.bytes : Request → GBytes
  | .deliver request => request.bytes
  | .ingest bytes => bytes
  | .append request => request.bytes

inductive IngestError where
  | parse (error : ParseError)
  | rejected
  | unreadable
  | journal (error : ReadError)
  | payload (error : MessageDeliveredPayload.DecodeError)
  | exists
  | store
  | encodeDelivered (error : MessageDeliveredPayload.EncodeError)
  | encodeAppended (error : MessageAppendedPayload.PayloadError)
  | append (error : AppendError)
  deriving DecidableEq, Repr

/-- `WyreboxEmlIngestResult`. -/
structure IngestResult where
  objectKey : CString
  sizeBytes : ℕ
  position : Position
  deriving DecidableEq

/-! ## Earlier attempts -/

def normalizeQueueId (queueId : Option CString) : CString := queueId.getD .empty

/-- `delivery_identity_matches`. -/
def identityMatches (payload : MessageDelivered) (identity : Identity) : Bool :=
  payload.deliveryId.isSome && payload.deliveryId == identity.deliveryId &&
    normalizeQueueId payload.queueId == normalizeQueueId identity.queueId

/-- `delivery_retry_matches`. -/
def retryMatches (payload : MessageDelivered) (objectKey : CString) (sizeBytes : ℕ) (identity : Identity) : Bool :=
  payload.objectKey == objectKey && payload.sizeBytes == sizeBytes &&
    payload.accountIdentity == identity.accountIdentity && payload.envelopeSender == identity.envelopeSender &&
      payload.recipients == identity.recipients

section
variable (objectKey : CString) (sizeBytes : ℕ) (identity : Identity)

/-- The loop of `find_delivery_retry_result`. -/
def findLoop (sha : Sha256) : ℕ → Reader → Except IngestError (Option IngestResult)
  | 0, _ => .ok none
  | fuel + 1, reader =>
    match readNext sha reader with
    | .error error => .error (.journal error)
    | .ok none => .ok none
    | .ok (some (record, reader)) =>
      if record.eventType ≠ .messageDelivered then findLoop sha fuel reader
      else match MessageDeliveredPayload.decodePayload record.payload with
        | .error error => .error (.payload error)
        | .ok payload =>
          if !identityMatches payload identity then findLoop sha fuel reader
          else if !retryMatches payload objectKey sizeBytes identity then .error .exists
          else .ok (some ⟨payload.objectKey, payload.sizeBytes, record.offset, record.sequence⟩)

/-- `find_delivery_retry_result`. A record takes a header's bytes, so the fuel suffices. -/
def findDeliveryRetryResult (sha : Sha256) (segment : Segment) : Except IngestError (Option IngestResult) :=
  if identity.deliveryId.isNone then .ok none
  else findLoop objectKey sizeBytes identity sha (segment.bytes.length + 1) (.new (some segment))

end

/-! ## Calls -/

/-- Where a call stands. `put` is its put of the object store. -/
inductive Stage where
  | begun
  | parsed (metadata : EmlMetadata)
  | storing (metadata : EmlMetadata) (put : ℕ) (reservedUid : UInt64)
  | found (result : IngestResult)
  | appended (result : IngestResult)
  | failed (error : IngestError)
  | killed

structure Call where
  request : Request
  stage : Stage

def Stage.stop : Stage → Stage
  | .found result => .found result
  | .appended result => .appended result
  | .failed error => .failed error
  | _ => .killed

def Call.stop (call : Call) : Call := { call with stage := call.stage.stop }

/-- The payload that `append_object_and_payload_locked` fills in. -/
def appendFields (request : AppendRequest) (metadata : EmlMetadata) (objectKey : CString)
    (reservedUid : UInt64) : MessageAppendedPayload.Fields where
  accountId := some request.accountIdentity
  mailboxId := some request.mailboxId
  uidvalidity := request.uidValidity.toNat
  uid := reservedUid.toNat
  objectKey := some objectKey
  sizeBytes := request.bytes.data.length
  internalDateUnixUs := request.internalDateUnixUs.toNat
  metadata := metadata.toMetadata
  systemFlags := request.systemFlags
  userKeywords := request.userKeywords

/-- The record of a call whose message is stored under `objectKey`. `now` is `g_get_real_time ()`. -/
def entryOf (request : Request) (metadata : EmlMetadata) (objectKey : CString) (reservedUid now : UInt64) :
    Except IngestError Entry :=
  let delivered (bytes : GBytes) (identity : Identity) : Except IngestError Entry :=
    match MessageDeliveredPayload.encodeWithIdentity objectKey bytes.data.length (some metadata.toMetadata)
        now.toNat identity with
    | .error error => .error (.encodeDelivered error)
    | .ok payload => .ok ⟨.messageDelivered, payload⟩
  match request with
  | .deliver request => delivered request.bytes request.identity
  | .ingest bytes => delivered bytes .absent
  | .append request =>
    match MessageAppendedPayload.encodePayload (appendFields request metadata objectKey reservedUid) with
    | .error error => .error (.encodeAppended error)
    | .ok payload => .ok ⟨.messageAppended, payload⟩

/-! ## The system -/

/-- `holder` is the call inside `wyrebox_journal_writer_append_guarded`, which holds `append_mutex`. -/
structure System where
  store : ObjectStore.World
  journal : JournalState
  holder : Option ℕ
  calls : ℕ → Option Call

def System.initial : System := ⟨.empty, .initial, none, fun _ => none⟩

def System.setStage (σ : System) (k : ℕ) (request : Request) (stage : Stage) : System :=
  { σ with calls := Function.update σ.calls k (some ⟨request, stage⟩) }

/-- A call begins a put of its message. -/
def System.beginPut (σ : System) (put : ℕ) (bytes : GBytes) : System :=
  { σ with store := σ.store.setPut σ.store.fs put ⟨bytes.data, .checkRoot⟩ }

/-- What a delivery does once it has the append lock: it finds an earlier attempt, or it keeps the lock
    and begins to store its message. -/
def System.lockDelivery (sha : Sha256) (σ : System) (k : ℕ) (request : DeliveryRequest) (metadata : EmlMetadata)
    (put : ℕ) : System :=
  match findDeliveryRetryResult (objectKeyOf sha request.bytes.data) request.bytes.data.length request.identity sha
      σ.journal.segment with
  | .error error => σ.setStage k (.deliver request) (.failed error)
  | .ok (some result) => σ.setStage k (.deliver request) (.found result)
  | .ok none =>
    { (σ.beginPut put request.bytes).setStage k (.deliver request) (.storing metadata put 0) with holder := some k }

/-- The put of a call has returned success: the call encodes its record and appends it. -/
def System.finish (sha : Sha256) (σ : System) (k : ℕ) (request : Request) (metadata : EmlMetadata)
    (reservedUid now : UInt64) (w : Writer) (disk : Disk) : System :=
  let objectKey := objectKeyOf sha request.bytes.data
  match entryOf request metadata objectKey reservedUid now with
  | .error error => { σ.setStage k request (.failed error) with holder := none }
  | .ok entry =>
    match σ.journal.append sha w entry disk with
    | (journal, .error error) => { σ.setStage k request (.failed (.append error)) with journal, holder := none }
    | (journal, .ok position) =>
      { σ.setStage k request (.appended ⟨objectKey, request.bytes.data.length, position⟩) with
        journal, holder := none }

def Request.locks : Request → Bool
  | .ingest _ => false
  | _ => true

inductive Step (sha : Sha256) : System → System → Prop where
  | begin (σ : System) (k : ℕ) (request : Request) (h : σ.calls k = none)
      (hrunning : σ.journal.writer.isSome = true) : Step sha σ (σ.setStage k request .begun)
  | parse (σ : System) (k : ℕ) (request : Request) (h : σ.calls k = some ⟨request, .begun⟩) :
      Step sha σ (σ.setStage k request (match parseBytes request.bytes with
        | .error error => .failed (.parse error)
        | .ok metadata => .parsed metadata))
  /-- The destination of an APPEND is refused, or no UID can be reserved in it. -/
  | reject (σ : System) (k : ℕ) (request : AppendRequest) (metadata : EmlMetadata)
      (h : σ.calls k = some ⟨.append request, .parsed metadata⟩) :
      Step sha σ (σ.setStage k (.append request) (.failed .rejected))
  /-- The system cannot read the journal. -/
  | unreadable (σ : System) (k : ℕ) (request : DeliveryRequest) (metadata : EmlMetadata)
      (h : σ.calls k = some ⟨.deliver request, .parsed metadata⟩) (hfree : σ.holder = none) :
      Step sha σ (σ.setStage k (.deliver request) (.failed .unreadable))
  | lockDelivery (σ : System) (k : ℕ) (request : DeliveryRequest) (metadata : EmlMetadata) (put : ℕ)
      (h : σ.calls k = some ⟨.deliver request, .parsed metadata⟩) (hfree : σ.holder = none)
      (hput : σ.store.puts put = none) : Step sha σ (σ.lockDelivery sha k request metadata put)
  | lockAppend (σ : System) (k : ℕ) (request : AppendRequest) (metadata : EmlMetadata) (put : ℕ)
      (reservedUid : UInt64) (h : σ.calls k = some ⟨.append request, .parsed metadata⟩) (hfree : σ.holder = none)
      (hput : σ.store.puts put = none) :
      Step sha σ { (σ.beginPut put request.bytes).setStage k (.append request) (.storing metadata put reservedUid)
        with holder := some k }
  | beginIngest (σ : System) (k : ℕ) (bytes : GBytes) (metadata : EmlMetadata) (put : ℕ)
      (h : σ.calls k = some ⟨.ingest bytes, .parsed metadata⟩) (hput : σ.store.puts put = none) :
      Step sha σ ((σ.beginPut put bytes).setStage k (.ingest bytes) (.storing metadata put 0))
  | storeFailed (σ : System) (k : ℕ) (request : Request) (metadata : EmlMetadata) (put : ℕ) (reservedUid : UInt64)
      (bytes : List UInt8) (h : σ.calls k = some ⟨request, .storing metadata put reservedUid⟩)
      (hput : σ.store.puts put = some ⟨bytes, .failed⟩) :
      Step sha σ { σ.setStage k request (.failed .store) with
        holder := if request.locks then none else σ.holder }
  /-- Where the call has no lock yet, it takes it for its append. -/
  | finish (σ : System) (k : ℕ) (request : Request) (metadata : EmlMetadata) (put : ℕ) (reservedUid now : UInt64)
      (bytes : List UInt8) (w : Writer) (disk : Disk)
      (h : σ.calls k = some ⟨request, .storing metadata put reservedUid⟩)
      (hput : σ.store.puts put = some ⟨bytes, .done⟩) (hwriter : σ.journal.writer = some w)
      (hlock : σ.holder = if request.locks then some k else none) :
      Step sha σ (σ.finish sha k request metadata reservedUid now w disk)
  /-- A record of another kind is appended. -/
  | other (σ : System) (w : Writer) (entry : Entry) (disk : Disk)
      (hdelivered : entry.eventType ≠ .messageDelivered) (happended : entry.eventType ≠ .messageAppended)
      (hwriter : σ.journal.writer = some w) (hfree : σ.holder = none) :
      Step sha σ { σ with journal := (σ.journal.append sha w entry disk).1 }
  /-- Any put of any process makes a step. -/
  | store (σ : System) (store : ObjectStore.World) (h : ObjectStore.Step sha σ.store store) :
      Step sha σ { σ with store }
  /-- The process ends, perhaps with the machine. -/
  | stop (σ : System) (store : ObjectStore.World) (kept : ℕ)
      (h : store = σ.store ∨ ObjectStore.CrashStep σ.store store) :
      Step sha σ
        { store
          journal := ⟨σ.journal.segment.truncate (σ.journal.synced + kept), σ.journal.synced, none⟩
          holder := none
          calls := fun k => (σ.calls k).map Call.stop }
  /-- The stopped journal is recovered, or the daemon starts. -/
  | maintain (σ : System) (journal : JournalState) (hstopped : σ.journal.writer = none)
      (h : Maintain sha σ.journal journal) : Step sha σ { σ with journal }

abbrev Run (sha : Sha256) : System → System → Prop := Relation.ReflTransGen (Step sha)

end Wyrebox.Ingestion
