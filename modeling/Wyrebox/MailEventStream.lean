import Wyrebox.FactMutationService
import Wyrebox.MailEvent
import Mathlib.Logic.Relation

set_option autoImplicit false

/-!
# The mail event stream

A subscriber asks again and again for the next event of an account behind the last one it got. Meanwhile records
are appended, appends fail, and the daemon's process may end and start again.
-/
namespace Wyrebox.MailEventStream
open JournalRecord JournalReader JournalWriter JournalCrash JournalLife Event Fallible
open FactMutationPayload (isCntrl)
open FactMutationService (RequestIdentity IdentityClass classifyName recordsOfAll)
open MailEvent (project projectFields finishEvent ProjectError eventTypeText)
open ReplayValidation (Reads fuelFor)

/-! ## Requests and chunks -/

/-- `WyreboxDaemonMailEventStreamRequest`. -/
structure Request where
  accountIdentity : CString
  mailboxIdentity : Option CString
  messageId : Option CString
  eventType : Option CString
  afterJournalOffset : ℕ
  afterJournalSequence : ℕ
  afterUnixUs : ℕ
  beforeUnixUs : ℕ
  deriving DecidableEq

/-- `WyreboxDaemonStreamChunkFrame`. -/
structure Chunk where
  requestId : Option CString
  messageId : Option CString
  queryId : Option CString
  correlationId : Option CString
  chunkIndex : ℕ
  bytes : List UInt8
  endOfStream : Bool
  deriving DecidableEq

inductive StreamError where
  | rejected (text : String)
  | journal (error : ReadError)
  | event (error : ProjectError)
  deriving DecidableEq

def reject (c : Prop) [Decidable c] (text : String) : Except StreamError Unit :=
  if c then .error (.rejected text) else .ok ()

def hasControl (value : CString) : Bool := value.bytes.any isCntrl

def validateRequiredText (value : CString) (field : String) : Except StreamError Unit := do
  reject (value = .empty) ("mail event stream " ++ field ++ " is required")
  reject (hasControl value = true) ("mail event stream " ++ field ++ " must not contain control characters")

def validateOptionalText (value : Option CString) (field : String) : Except StreamError Unit :=
  match value with
  | none => .ok ()
  | some value => validateRequiredText value field

/-- `wyrebox_daemon_mail_event_stream_request_init`. -/
def requestInit (request : Request) : Except StreamError Request := do
  validateRequiredText request.accountIdentity "account_identity"
  validateOptionalText request.mailboxIdentity "mailbox_identity"
  validateOptionalText request.messageId "message_id"
  validateOptionalText request.eventType "event_type"
  reject (request.afterJournalOffset ≠ 0 ∧ request.afterJournalSequence = 0)
    "mail event stream cursor requires a non-zero afterJournalSequence when afterJournalOffset is non-zero"
  reject (request.afterUnixUs ≠ 0 ∧ request.beforeUnixUs ≠ 0 ∧ request.beforeUnixUs < request.afterUnixUs)
    "mail event stream after_unix_us must not exceed before_unix_us"
  return request

def isEmptyString (value : Option CString) : Bool := value = none ∨ value = some .empty

def validateTextField (value : Option CString) (field : String) : Except StreamError Unit :=
  reject ((value.map hasControl).getD false = true)
    ("stream chunk response " ++ field ++ " must not contain control characters")

def copyOptionalString (value : Option CString) : Option CString := if isEmptyString value then none else value

/-- `wyrebox_daemon_stream_chunk_frame_init`. -/
def chunkInit (chunk : Chunk) : Except StreamError Chunk := do
  reject (isEmptyString chunk.requestId = true) "stream chunk response requires request_id"
  reject (isEmptyString chunk.messageId = isEmptyString chunk.queryId)
    "stream chunk response requires exactly one of message_id or query_id"
  validateTextField chunk.requestId "request_id"
  validateTextField chunk.messageId "message_id"
  validateTextField chunk.queryId "query_id"
  validateTextField chunk.correlationId "correlation_id"
  reject (chunk.endOfStream = false ∧ chunk.bytes = []) "non-final stream chunk response requires bytes"
  return { chunk with
    messageId := copyOptionalString chunk.messageId
    queryId := copyOptionalString chunk.queryId
    correlationId := copyOptionalString chunk.correlationId }

def queryId : CString := .literal "mail-event-stream"

/-- The chunk that answers `identity`, before it is checked. -/
def chunkFor (identity : RequestIdentity) (chunkIndex : ℕ) (bytes : List UInt8) (endOfStream : Bool) : Chunk where
  requestId := identity.requestId
  messageId := none
  queryId := some queryId
  correlationId := identity.correlationId
  chunkIndex := chunkIndex
  bytes := bytes
  endOfStream := endOfStream

/-! ## The service -/

/-- `wyrebox_daemon_client_identity_can_read_mail_events`. -/
def canReadMailEvents (identityClass : IdentityClass) : Bool :=
  identityClass == .adminCli || identityClass == .trustedTool || identityClass == .dovecotPlugin

def authorizeMailEventStreamIdentity (identity : RequestIdentity) (request : Request) : Except StreamError Unit := do
  reject (canReadMailEvents (classifyName identity.callerIdentity) = false)
    "caller is not authorized to read mail events"
  reject (identity.accountIdentity ≠ some request.accountIdentity)
    "caller is not authorized for mail event stream account scope"

def validateMailEventStreamChunk (identity : RequestIdentity) (chunk : Chunk) : Except StreamError Unit := do
  reject (isEmptyString chunk.requestId = true) "mail event stream chunk request_id is required"
  reject (chunk.requestId ≠ identity.requestId)
    "mail event stream chunk request_id must match request envelope"
  reject (isEmptyString chunk.messageId = false) "mail event stream chunk must not contain message_id"
  reject (isEmptyString chunk.queryId = false ∧ chunk.queryId ≠ some queryId)
    "mail event stream chunk query_id must match mail-event-stream"
  reject (chunk.correlationId ≠ none ∧ chunk.correlationId ≠ identity.correlationId)
    "mail event stream chunk correlation_id must match request envelope"

/-- Without a sequence there is no cursor. -/
def isBehindCursor (request : Request) (offset : ℕ) : Bool :=
  request.afterJournalSequence = 0 ∨ request.afterJournalOffset < offset

def isWanted (eventType : Option CString) (record : Record) : Bool :=
  eventType = none ∨ eventType = some (eventTypeText record.eventType)

/-- The mailbox, the message and the times of a request are not looked at. -/
def journalEventMatchesRequest (record : Record) (request : Request) : Bool :=
  isBehindCursor request record.offset && isWanted request.eventType record

section
variable (sha : Sha256) (identity : RequestIdentity) (request : Request)

/-- The loop of `read_next_matching_journal_event`. -/
def readLoop : ℕ → Reader → Except StreamError Chunk
  | 0, _ => chunkInit (chunkFor identity 0 [] true)
  | fuel + 1, reader =>
    match readNext sha reader with
    | .error error => .error (.journal error)
    | .ok none => chunkInit (chunkFor identity 0 [] true)
    | .ok (some (record, reader)) =>
      if journalEventMatchesRequest record request then
        match project record request.accountIdentity with
        | .error error => .error (.event error)
        | .ok none => readLoop fuel reader
        | .ok (some event) => chunkInit (chunkFor identity record.offset event false)
      else readLoop fuel reader

/-- A new reader goes up to the end that the writer has made durable. -/
def readNextMatchingJournalEvent (journal : Journal) : Except StreamError Chunk :=
  let reader := Reader.newWithLimit (some journal.segment) journal.writer.durableEnd
  readLoop sha identity request (fuelFor reader) reader

/-- `wyrebox_daemon_mail_event_stream_service_handle_identity`. -/
def handleIdentity (journal : Journal) : Except StreamError Chunk := do
  authorizeMailEventStreamIdentity identity request
  let chunk ← readNextMatchingJournalEvent sha identity request journal
  validateMailEventStreamChunk identity chunk
  chunkInit (chunkFor identity chunk.chunkIndex chunk.bytes chunk.endOfStream)

end

/-- A request that has been decoded is checked before the service gets it. -/
def poll (sha : Sha256) (journal : Journal) (identity : RequestIdentity) (request : Request) :
    Except StreamError Chunk := do
  let request ← requestInit request
  handleIdentity sha identity request journal

/-! ## Subscribers -/

/-- What a subscriber asks for in all its requests. -/
structure Subscription where
  accountIdentity : CString
  eventType : Option CString

/-- The events a subscriber has got are kept with the offsets that came with them. -/
structure Session where
  journal : Journal
  received : List (ℕ × List UInt8)

/-- A request for what lies behind the last event received. -/
structure Continues (subscription : Subscription) (received : List (ℕ × List UInt8)) (request : Request) :
    Prop where
  account : request.accountIdentity = subscription.accountIdentity
  eventType : request.eventType = subscription.eventType
  start : received.getLast? = none → request.afterJournalSequence = 0
  cursor : ∀ event, received.getLast? = some event →
    request.afterJournalSequence ≠ 0 ∧ request.afterJournalOffset = event.1

/-- The file that a new process opens, whether the journal was recovered before or not. -/
def reopened (sha : Sha256) (recovered : Bool) (segment : Segment) : Segment :=
  if recovered then (recoverTornSuffix sha (some segment) segment).1 else segment

/-- Requests that fail, and those answered with the end of the stream, change nothing. -/
inductive Step (sha : Sha256) (subscription : Subscription) : Session → Session → Prop where
  | append (s : Session) (entry : Entry) (disk : Disk) :
      Step sha subscription s ⟨(s.journal.append sha entry disk).1, s.received⟩
  | restart (s : Session) (recovered : Bool) (journal : Journal)
      (hopen : Journal.new sha (some (reopened sha recovered s.journal.segment)) = .ok journal) :
      Step sha subscription s ⟨journal, s.received⟩
  | poll (s : Session) (identity : RequestIdentity) (request : Request) (chunk : Chunk)
      (hrequest : Continues subscription s.received request)
      (hanswer : poll sha s.journal identity request = .ok chunk) (hmore : chunk.endOfStream = false) :
      Step sha subscription s ⟨s.journal, s.received ++ [(chunk.chunkIndex, chunk.bytes)]⟩

inductive Reachable (sha : Sha256) (subscription : Subscription) : Session → Prop where
  | start (found : Option Segment) (journal : Journal) (hopen : Journal.new sha found = .ok journal) :
      Reachable sha subscription ⟨journal, []⟩
  | step {s s' : Session} (h : Reachable sha subscription s) (hstep : Step sha subscription s s') :
      Reachable sha subscription s'

/-- The event that a record is to a subscriber. -/
def eventOf (subscription : Subscription) (record : Record) : Option (ℕ × List UInt8) :=
  if isWanted subscription.eventType record then
    ((project record subscription.accountIdentity).toOption.join).map (record.offset, ·)
  else none

/-- All the events that a journal of the entries `es` has for a subscriber. -/
def stream (subscription : Subscription) (es : List Entry) : List (ℕ × List UInt8) :=
  (recordsOfAll es).filterMap (eventOf subscription)

/-! ## What a poll finds -/

section
variable {sha : Sha256} {request : Request} {records : List Record}

/-- The first event behind the cursor of a request. -/
def firstEvent (request : Request) : List Record → Except ProjectError (Option (ℕ × List UInt8))
  | [] => .ok none
  | record :: records =>
    if journalEventMatchesRequest record request then
      match project record request.accountIdentity with
      | .error error => .error error
      | .ok none => firstEvent request records
      | .ok (some event) => .ok (some (record.offset, event))
    else firstEvent request records

def answer (identity : RequestIdentity) : Option (ℕ × List UInt8) → Except StreamError Chunk
  | none => chunkInit (chunkFor identity 0 [] true)
  | some event => chunkInit (chunkFor identity event.1 event.2 false)

theorem readLoop_eq {identity : RequestIdentity} {reader : Reader} {stop : Option ReadError}
    (h : Reads sha reader records stop) (hstop : stop = none) {fuel : ℕ} (hfuel : records.length < fuel) :
    readLoop sha identity request fuel reader =
      ((firstEvent request records).mapError .event >>= answer identity) := by
  induction h generalizing fuel with
  | eof h =>
    obtain ⟨fuel, rfl⟩ := Nat.exists_eq_add_of_lt hfuel
    simp only [readLoop, h, firstEvent]
    rfl
  | error h => cases hstop
  | @record reader next record records stop h hnext ih =>
    rw [List.length_cons] at hfuel
    obtain ⟨fuel, rfl⟩ := Nat.exists_eq_add_of_lt (Nat.zero_lt_of_lt hfuel)
    rw [Nat.zero_add] at hfuel ⊢
    have hrest := ih hstop (Nat.lt_of_succ_lt_succ hfuel)
    simp only [readLoop, h, firstEvent]
    split
    · cases hproject : project record request.accountIdentity with
      | error error => rfl
      | ok found =>
        cases found with
        | none => exact hrest
        | some event => rfl
    · exact hrest

variable {subscription : Subscription} {received : List (ℕ × List UInt8)}

/-- What is found is the first event of the stream that lies behind the cursor. -/
theorem firstEvent_eq_ok {found : Option (ℕ × List UInt8)}
    (haccount : request.accountIdentity = subscription.accountIdentity) (htype : request.eventType = subscription.eventType)
    (h : firstEvent request records = .ok found) :
    found = ((records.filterMap (eventOf subscription)).filter (isBehindCursor request ·.1)).head? := by
  induction records with
  | nil =>
    cases h
    rfl
  | cons record records ih =>
    rw [firstEvent, journalEventMatchesRequest, haccount, htype] at h
    rw [List.filterMap_cons, eventOf]
    cases hwanted : isWanted subscription.eventType record with
    | false =>
      rw [hwanted, Bool.and_false] at h
      simpa using ih h
    | true =>
      rw [hwanted, Bool.and_true] at h
      cases hbehind : isBehindCursor request record.offset with
      | false =>
        rw [hbehind] at h
        cases hevent : (project record subscription.accountIdentity).toOption.join with
        | none => simpa [hevent] using ih h
        | some event => simpa [hevent, hbehind] using ih h
      | true =>
        rw [hbehind] at h
        cases hproject : project record subscription.accountIdentity with
        | error error =>
          rw [hproject] at h
          cases h
        | ok made =>
          rw [hproject] at h
          cases made with
          | none => simpa [hproject, Except.toOption] using ih h
          | some event =>
            cases h
            simp [Except.toOption, hbehind]

theorem firstEvent_decodes (h : ∀ record ∈ records, isWanted request.eventType record = true →
    ∃ made, project record request.accountIdentity = .ok made) :
    ∃ found, firstEvent request records = .ok found := by
  induction records with
  | nil => exact ⟨none, rfl⟩
  | cons record records ih =>
    have hrest := ih fun record' hmem => h record' (List.mem_cons_of_mem _ hmem)
    rw [firstEvent]
    split
    · rename_i hmatches
      rw [journalEventMatchesRequest, Bool.and_eq_true] at hmatches
      obtain ⟨made, hmade⟩ := h record List.mem_cons_self hmatches.2
      rw [hmade]
      cases made with
      | none => exact hrest
      | some event => exact ⟨_, rfl⟩
    · exact hrest

/-- The events behind the cursor of a subscriber are those that it has not got. -/
theorem behind_cursor {rest : List (ℕ × List UInt8)} (hrequest : Continues subscription received request)
    (hsorted : (received ++ rest).Pairwise fun a b => a.1 < b.1) :
    (received ++ rest).filter (fun event => isBehindCursor request event.1) = rest := by
  rcases List.eq_nil_or_concat received with rfl | ⟨before, last, rfl⟩
  · have hstart := hrequest.start rfl
    rw [List.nil_append, List.filter_eq_self]
    intro event _
    simp [isBehindCursor, hstart]
  · obtain ⟨hsequence, hoffset⟩ := hrequest.cursor last (by simp)
    obtain ⟨hgot, -, hcross⟩ := List.pairwise_append.mp hsorted
    rw [List.concat_eq_append] at hgot hcross
    have hold : ∀ event ∈ before.concat last, ¬isBehindCursor request event.1 = true := by
      intro event hmem
      rw [List.concat_eq_append, List.mem_append, List.mem_singleton] at hmem
      simp only [isBehindCursor, decide_eq_true_eq, hsequence, hoffset, false_or, not_lt]
      rcases hmem with hmem | rfl
      · exact ((List.pairwise_append.mp hgot).2.2 event hmem last (by simp)).le
      · exact le_rfl
    have hnew : ∀ event ∈ rest, isBehindCursor request event.1 = true := by
      intro event hmem
      have hlt := hcross last (by simp) event hmem
      simp [isBehindCursor, hoffset, hlt]
    rw [List.filter_append, List.filter_eq_nil_iff.mpr hold, List.filter_eq_self.mpr hnew, List.nil_append]

end

/-! ## The durable part of the journal -/

section
variable {sha : Sha256} {subscription : Subscription}

theorem recordsOf_sorted (position sequence : ℕ) (es : List Entry) :
    (recordsOf position sequence es).Pairwise (fun a b => a.offset < b.offset) ∧
      ∀ record ∈ recordsOf position sequence es, position ≤ record.offset := by
  induction es generalizing position sequence with
  | nil => simp [recordsOf]
  | cons e es ih =>
    obtain ⟨hsorted, hle⟩ := ih (position + e.size) (sequence + 1)
    have hpos := e.size_pos
    refine ⟨List.pairwise_cons.mpr ⟨fun record hmem => ?_, hsorted⟩, ?_⟩
    · have := hle record hmem
      change position < record.offset
      omega
    · intro record hmem
      rcases List.mem_cons.mp hmem with rfl | hmem
      · exact le_rfl
      · have := hle record hmem
        omega

lemma eventOf_fst {record : Record} {event : ℕ × List UInt8} (h : eventOf subscription record = some event) :
    event.1 = record.offset := by
  rw [eventOf] at h
  split at h
  · obtain ⟨bytes, -, rfl⟩ := Option.map_eq_some_iff.mp h
    rfl
  · cases h

theorem stream_sorted (subscription : Subscription) (es : List Entry) :
    (stream subscription es).Pairwise fun a b => a.1 < b.1 := by
  refine List.Pairwise.filterMap _ ?_ (recordsOf_sorted 0 1 es).1
  intro record record' hlt event hevent event' hevent'
  rw [eventOf_fst hevent, eventOf_fst hevent']
  exact hlt

theorem stream_append (subscription : Subscription) (es fs : List Entry) :
    stream subscription es <+: stream subscription (es ++ fs) := by
  rw [stream, stream, recordsOfAll, recordsOfAll, recordsOf_append, List.filterMap_append]
  exact List.prefix_append _ _

/-- A reader that stops where the entries end returns their records. -/
theorem reads_within (sha : Sha256) {segment : Segment} {fileSize : ℕ} (es : List Entry) (tail : List UInt8)
    (position sequence : ℕ) (hs : sequence + es.length < 2 ^ 64) (hsize : fileSize = position + totalSize es)
    (hrest : segment.bytes.drop position = image sha sequence es ++ tail) :
    Reads sha ⟨some segment, fileSize, position, sequence⟩ (recordsOf position sequence es) none := by
  induction es generalizing position sequence with
  | nil =>
    refine .eof ?_
    simp [readNext, hsize, totalSize]
  | cons e es ih =>
    rw [List.length_cons] at hs
    rw [image, List.append_assoc] at hrest
    have htotal : totalSize (e :: es) = e.size + totalSize es := by simp [totalSize]
    have hnext := @readNext_record_within sha segment fileSize position e sequence
      (image sha (sequence + 1) es ++ tail) (by omega) (by omega) hrest
    rw [Nat.mod_eq_of_lt (by omega)] at hnext
    refine .record hnext (ih (position + e.size) (sequence + 1) (by omega) (by omega) ?_)
    rw [← List.drop_drop, hrest, ← e.record_length sha sequence, List.drop_left]

variable {journal : Journal} {es : List Entry} {torn : Option Entry}

theorem reads_durable (h : Represents sha journal es torn) :
    Reads sha (.newWithLimit (some journal.segment) journal.writer.durableEnd) (recordsOfAll es) none := by
  obtain ⟨n, hbytes⟩ := h.bytes
  have hlength := h.length_lt
  have hsize : min journal.segment.bytes.length journal.writer.durableEnd = 0 + totalSize es := by
    rw [h.durableEnd, hbytes, List.length_append, image_length]
    omega
  exact reads_within sha es _ 0 1 (by omega) hsize (by rw [List.drop_zero]; exact hbytes)

lemma Represents.session (h : Represents sha journal es torn) :
    Represents sha (Session.mk journal []).journal es torn := h

theorem appended_represents {entry : Entry} (h : Represents sha journal es none)
    (hfits : journal.segment.bytes.length + entry.size ≤ maxOffset) :
    Represents sha (journal.append sha entry .synced).1 (es ++ [entry]) none := by
  have hsynced := @append_synced sha journal entry h.failed hfits
  rcases append_cases h .synced with ⟨appended, happ, hrep⟩ | ⟨appended, error, happ, -⟩
  · rw [happ]
    exact hrep
  · rw [happ] at hsynced
    cases hsynced

theorem represents_unique {fs : List Entry} {torn' : Option Entry} (h : Represents sha journal es torn)
    (h' : Represents sha journal fs torn') : es = fs :=
  recordsOf_injective (DeliveryProjection.reads_unique (reads_durable h) (reads_durable h')).1

/-- The answer to a poll, but for its checks. -/
theorem readNextMatchingJournalEvent_eq (h : Represents sha journal es torn) (identity : RequestIdentity)
    (request : Request) : readNextMatchingJournalEvent sha identity request journal =
      ((firstEvent request (recordsOfAll es)).mapError .event >>= answer identity) := by
  refine readLoop_eq (reads_durable h) rfl ?_
  have hsizes := length_le_totalSize es
  obtain ⟨n, hbytes⟩ := h.bytes
  simp only [fuelFor, Reader.newWithLimit, recordsOf_length, h.durableEnd, hbytes, List.length_append, image_length]
  omega

end

/-! ## The journal of a session -/

section
variable {sha : Sha256} {subscription : Subscription} {s s' : Session} {es : List Entry} {torn : Option Entry}

lemma reopened_crashImage {segment : Segment} (h : CrashImage sha segment es) (recovered : Bool) :
    CrashImage sha (reopened sha recovered segment) es := by
  cases recovered with
  | false => exact h
  | true =>
    change CrashImage sha (recoverTornSuffix sha (some segment) segment).1 es
    by_cases hempty : es = []
    · subst hempty
      rw [h.refuses]
      exact h
    · exact .intact (h.recovers hempty).1

/-- A journal that opens holds just the whole records of its file. -/
theorem opened_represents {segment : Segment} {journal : Journal} (h : CrashImage sha segment es)
    (hopen : Journal.new sha (some segment) = .ok journal) : Represents sha journal es none := by
  obtain ⟨fs, hrep, hsegment⟩ := new_represents sha hopen
  rw [Option.getD_some] at hsegment
  obtain ⟨n, hbytes⟩ := hrep.bytes
  rw [Option.elim_none, List.append_nil, hsegment] at hbytes
  have hread := (readSegment_crashImage h).1
  rw [readSegment_image sha hbytes] at hread
  rw [recordsOf_injective hread] at hrep
  exact hrep

/-- An append adds its entry, or fails and adds none, whatever the writer went through before. -/
theorem append_represents {journal : Journal} (h : Represents sha journal es torn) (entry : Entry) (disk : Disk) :
    (∃ j, journal.append sha entry disk = (j, .ok ⟨totalSize es, es.length + 1⟩) ∧
      Represents sha j (es ++ [entry]) none) ∨
    (∃ j error torn', journal.append sha entry disk = (j, .error error) ∧ Represents sha j es torn') := by
  cases hfailed : journal.writer.failed with
  | true => exact .inr ⟨journal, .failedState, torn, append_of_failed hfailed disk, h⟩
  | false =>
    cases torn with
    | some torn =>
      have := h.failed
      rw [hfailed] at this
      cases this
    | none =>
      rcases append_cases h disk with hok | ⟨j, error, happ, hrep⟩
      · exact .inl hok
      · exact .inr ⟨j, error, _, happ, hrep⟩

/-- Entries are only added: by an append, or by a new process that finds whole what the last one failed to sync. -/
theorem Step.grows (h : Represents sha s.journal es torn) (hstep : Step sha subscription s s') :
    ∃ fs torn', Represents sha s'.journal (es ++ fs) torn' := by
  cases hstep with
  | append entry disk =>
    rcases append_represents h entry disk with ⟨j, happ, hrep⟩ | ⟨j, error, torn', happ, hrep⟩
    · rw [happ]
      exact ⟨[entry], none, hrep⟩
    · rw [happ]
      exact ⟨[], torn', by rwa [List.append_nil]⟩
  | restart recovered journal hopen =>
    rcases represents_crashImage h with himage | ⟨entry, -, himage⟩
    · exact ⟨[], none, by
        rw [List.append_nil]
        exact opened_represents (reopened_crashImage himage recovered) hopen⟩
    · exact ⟨[entry], none, opened_represents (reopened_crashImage himage recovered) hopen⟩
  | poll identity request chunk hrequest hanswer hmore => exact ⟨[], torn, by rwa [List.append_nil]⟩

/-! ## The answer to a poll -/

lemma reject_eq_ok {c : Prop} [Decidable c] {text : String} {done : Unit} : reject c text = .ok done ↔ ¬c := by
  rw [reject]
  split <;> simp_all

lemma requestInit_eq_ok {request request' : Request} (h : requestInit request = .ok request') :
    request = request' := by
  simp only [requestInit, bind_eq_ok] at h
  obtain ⟨_, -, _, -, _, -, _, -, _, -, _, -, h⟩ := h
  cases h
  rfl

lemma chunkInit_eq_ok {chunk chunk' : Chunk} (h : chunkInit chunk = .ok chunk') :
    chunk'.chunkIndex = chunk.chunkIndex ∧ chunk'.bytes = chunk.bytes ∧
      chunk'.endOfStream = chunk.endOfStream := by
  simp only [chunkInit, bind_eq_ok] at h
  obtain ⟨_, -, _, -, _, -, _, -, _, -, _, -, _, -, h⟩ := h
  cases h
  exact ⟨rfl, rfl, rfl⟩

/-- What an answer says of the events: the next one, or that there is none. -/
def told (chunk : Chunk) : Option (ℕ × List UInt8) :=
  if chunk.endOfStream then none else some (chunk.chunkIndex, chunk.bytes)

lemma told_answer {identity : RequestIdentity} {found : Option (ℕ × List UInt8)} {chunk : Chunk}
    (h : answer identity found = .ok chunk) : told chunk = found := by
  cases found with
  | none =>
    obtain ⟨-, -, hend⟩ := chunkInit_eq_ok h
    rw [told, hend]
    rfl
  | some event =>
    obtain ⟨hindex, hbytes, hend⟩ := chunkInit_eq_ok h
    rw [told, hend, hindex, hbytes]
    rfl

theorem poll_eq_ok {journal : Journal} {identity : RequestIdentity} {request : Request} {chunk : Chunk}
    (h : Represents sha journal es torn) (hpoll : poll sha journal identity request = .ok chunk) :
    canReadMailEvents (classifyName identity.callerIdentity) = true ∧
      identity.accountIdentity = some request.accountIdentity ∧
      firstEvent request (recordsOfAll es) = .ok (told chunk) := by
  rw [poll, bind_eq_ok] at hpoll
  obtain ⟨_, hinit, hpoll⟩ := hpoll
  obtain rfl := requestInit_eq_ok hinit
  simp only [handleIdentity, authorizeMailEventStreamIdentity, bind_eq_ok, reject_eq_ok, not_not,
    Bool.not_eq_false] at hpoll
  obtain ⟨_, ⟨_, hcaller, haccount⟩, found, hfound, _, -, hpoll⟩ := hpoll
  obtain ⟨hindex, hbytes, hend⟩ := chunkInit_eq_ok hpoll
  refine ⟨hcaller, haccount, ?_⟩
  rw [readNextMatchingJournalEvent_eq h, bind_eq_ok] at hfound
  obtain ⟨event, hevent, hanswer⟩ := hfound
  have htold : told chunk = told found := by
    rw [told, told, hend, hindex, hbytes]
    rfl
  rw [htold, told_answer hanswer]
  cases hfirst : firstEvent request (recordsOfAll es) with
  | error error =>
    rw [hfirst] at hevent
    cases hevent
  | ok first =>
    rw [hfirst] at hevent
    cases hevent
    rfl

/-- The next event of the stream after those received, or its end if there is none. -/
theorem poll_next {received : List (ℕ × List UInt8)} {journal : Journal} {identity : RequestIdentity}
    {request : Request} {chunk : Chunk} (h : Represents sha journal es torn)
    (hreceived : received <+: stream subscription es) (hrequest : Continues subscription received request)
    (hpoll : poll sha journal identity request = .ok chunk) :
    ∃ rest, stream subscription es = received ++ rest ∧ told chunk = rest.head? := by
  obtain ⟨rest, hrest⟩ := hreceived
  obtain ⟨-, -, hfirst⟩ := poll_eq_ok h hpoll
  refine ⟨rest, hrest.symm, ?_⟩
  have hfound := firstEvent_eq_ok hrequest.account hrequest.eventType hfirst
  change told chunk = ((stream subscription es).filter fun event => isBehindCursor request event.1).head? at hfound
  have hsorted := stream_sorted subscription es
  rw [← hrest] at hsorted hfound
  rw [hfound, behind_cursor hrequest hsorted]

/-- In every state the events received are the first of the stream, each once and in order, and whoever gets an
    answer may read the account and is given the next one, or the end of the stream when there is none left. -/
structure Delivers (sha : Sha256) (subscription : Subscription) (s : Session) (es : List Entry) : Prop where
  durable : ∃ torn, Represents sha s.journal es torn
  ordered : (stream subscription es).Pairwise fun a b => a.1 < b.1
  received : s.received <+: stream subscription es
  allowed : ∀ identity request chunk, Continues subscription s.received request →
    poll sha s.journal identity request = .ok chunk →
    canReadMailEvents (classifyName identity.callerIdentity) = true ∧
      identity.accountIdentity = some subscription.accountIdentity
  next : ∀ identity request chunk, Continues subscription s.received request →
    poll sha s.journal identity request = .ok chunk →
    ∃ rest, stream subscription es = s.received ++ rest ∧ told chunk = rest.head?

lemma delivers_of_received (h : Represents sha s.journal es torn) (hreceived : s.received <+: stream subscription es) :
    Delivers sha subscription s es where
  durable := ⟨torn, h⟩
  ordered := stream_sorted subscription es
  received := hreceived
  allowed := by
    intro identity request chunk hrequest hpoll
    obtain ⟨hcaller, haccount, -⟩ := poll_eq_ok h hpoll
    exact ⟨hcaller, haccount.trans (congrArg some hrequest.account)⟩
  next := fun _ _ _ hrequest hpoll => poll_next h hreceived hrequest hpoll

theorem Step.received (h : Represents sha s.journal es torn) (hreceived : s.received <+: stream subscription es)
    (hstep : Step sha subscription s s') : s'.received <+: stream subscription es := by
  cases hstep with
  | append entry disk => exact hreceived
  | restart recovered journal hopen => exact hreceived
  | poll identity request chunk hrequest hanswer hmore =>
    obtain ⟨rest, hstream, hnext⟩ := poll_next h hreceived hrequest hanswer
    rw [told, hmore] at hnext
    cases rest with
    | nil => cases hnext
    | cons event rest =>
      cases hnext
      exact ⟨rest, by rw [hstream, List.append_assoc]; rfl⟩

theorem Reachable.received (h : Reachable sha subscription s) :
    ∃ es torn, Represents sha s.journal es torn ∧ s.received <+: stream subscription es := by
  induction h with
  | start found journal hopen =>
    obtain ⟨es, hrep, -⟩ := new_represents sha hopen
    exact ⟨es, none, hrep, List.nil_prefix⟩
  | step h hstep ih =>
    obtain ⟨es, torn, hrep, hreceived⟩ := ih
    obtain ⟨fs, torn', hrep'⟩ := hstep.grows hrep
    exact ⟨es ++ fs, torn', hrep', (hstep.received hrep hreceived).trans (stream_append subscription es fs)⟩

/-- Through appends that succeed or fail, new processes and any polls, no event is lost, repeated or reordered. -/
theorem each_event_once (h : Reachable sha subscription s) : ∃ es, Delivers sha subscription s es := by
  obtain ⟨es, torn, hrep, hreceived⟩ := h.received
  exact ⟨es, delivers_of_received hrep hreceived⟩

end

/-! A subscriber of a journal with one record. -/

def newsSubscription : Subscription := ⟨.literal "a", none⟩

lemma newsPayload_size : (DerivedViewPayload.layout MailEvent.forgingFields).length ≤ 2 ^ 63 - 1 := by decide

def newsEntry : Entry :=
  ⟨.derivedViewMembershipChanged, ⟨DerivedViewPayload.layout MailEvent.forgingFields, newsPayload_size⟩⟩

def newJournal : Journal := ⟨.empty, ⟨1, 0, false⟩⟩

def newsJournal : Journal := (newJournal.append JournalCrash.sha256 newsEntry .synced).1

def newsSession : Session := ⟨newsJournal, []⟩

lemma newsEntry_fits : newJournal.segment.bytes.length + newsEntry.size ≤ maxOffset := by decide

lemma newsSession_reachable : Reachable JournalCrash.sha256 newsSubscription newsSession :=
  .step (.start none newJournal rfl) (.append _ newsEntry .synced)

theorem each_event_once_news : ∃ es, Delivers JournalCrash.sha256 newsSubscription newsSession es :=
  each_event_once newsSession_reachable

/-! ## Catching up -/

section
variable {sha : Sha256} {subscription : Subscription} {identity : RequestIdentity} {s : Session} {es : List Entry}
  {torn : Option Entry}

/-- A subscriber whose requests are well formed and allowed. -/
structure Served (subscription : Subscription) (identity : RequestIdentity) : Prop where
  account : validateRequiredText subscription.accountIdentity "account_identity" = .ok ()
  eventType : validateOptionalText subscription.eventType "event_type" = .ok ()
  caller : canReadMailEvents (classifyName identity.callerIdentity) = true
  scope : identity.accountIdentity = some subscription.accountIdentity
  requestId : isEmptyString identity.requestId = false ∧ validateTextField identity.requestId "request_id" = .ok ()
  correlationId : validateTextField identity.correlationId "correlation_id" = .ok ()

/-- Every sequence but zero makes a cursor. -/
def nextRequest (subscription : Subscription) (received : List (ℕ × List UInt8)) : Request where
  accountIdentity := subscription.accountIdentity
  mailboxIdentity := none
  messageId := none
  eventType := subscription.eventType
  afterJournalOffset := (received.getLast?.map Prod.fst).getD 0
  afterJournalSequence := if received.isEmpty then 0 else 1
  afterUnixUs := 0
  beforeUnixUs := 0

lemma nextRequest_continues (subscription : Subscription) (received : List (ℕ × List UInt8)) :
    Continues subscription received (nextRequest subscription received) where
  account := rfl
  eventType := rfl
  start := by
    intro hnone
    rw [List.getLast?_eq_none_iff.mp hnone]
    rfl
  cursor := by
    intro event hlast
    have hne : received ≠ [] := by
      rintro rfl
      cases hlast
    exact ⟨by simp [nextRequest, hne], by simp [nextRequest, hlast]⟩

lemma requestInit_nextRequest (h : Served subscription identity) (received : List (ℕ × List UInt8)) :
    requestInit (nextRequest subscription received) = .ok (nextRequest subscription received) := by
  have hcursor : ¬((nextRequest subscription received).afterJournalOffset ≠ 0 ∧
      (nextRequest subscription received).afterJournalSequence = 0) := by
    rintro ⟨hoffset, hsequence⟩
    cases received with
    | nil => exact hoffset rfl
    | cons event received => cases hsequence
  simp only [requestInit, bind_eq_ok, reject_eq_ok]
  refine ⟨(), h.account, (), rfl, (), rfl, (), h.eventType, (), hcursor, (), ?_, rfl⟩
  rintro ⟨hafter, -⟩
  exact hafter rfl

/-- The chunk of an event, or of the end of the stream, passes the checks. -/
theorem chunk_passes (h : Served subscription identity) {chunkIndex : ℕ} {bytes : List UInt8} {endOfStream : Bool}
    (hbytes : endOfStream = false → bytes ≠ []) :
    ∃ chunk, chunkInit (chunkFor identity chunkIndex bytes endOfStream) = .ok chunk ∧
      validateMailEventStreamChunk identity chunk = .ok () := by
  have hids : ¬isEmptyString none = isEmptyString (some queryId) := by decide
  have hquery : validateTextField (some queryId) "query_id" = .ok () := reject_eq_ok.mpr (by decide)
  have hmessage : ¬isEmptyString (copyOptionalString none) = false := by decide
  have hcopied : ¬(isEmptyString (copyOptionalString (some queryId)) = false ∧
      copyOptionalString (some queryId) ≠ some queryId) := by decide
  refine ⟨_, bind_eq_ok.mpr ⟨(), reject_eq_ok.mpr ?_, bind_eq_ok.mpr ⟨(), reject_eq_ok.mpr hids,
    bind_eq_ok.mpr ⟨(), h.requestId.2, bind_eq_ok.mpr ⟨(), rfl, bind_eq_ok.mpr ⟨(), hquery,
    bind_eq_ok.mpr ⟨(), h.correlationId, bind_eq_ok.mpr ⟨(), reject_eq_ok.mpr ?_, rfl⟩⟩⟩⟩⟩⟩⟩, ?_⟩
  · exact Bool.not_eq_true _ ▸ h.requestId.1
  · rintro ⟨hmore, hempty⟩
    exact hbytes hmore hempty
  · simp only [validateMailEventStreamChunk, bind_eq_ok, reject_eq_ok]
    refine ⟨(), ?_, (), not_not.mpr rfl, (), hmessage, (), hcopied, ?_⟩
    · exact Bool.not_eq_true _ ▸ h.requestId.1
    · rintro ⟨hsome, hne⟩
      refine hne ?_
      change copyOptionalString identity.correlationId = identity.correlationId
      change copyOptionalString identity.correlationId ≠ none at hsome
      rw [copyOptionalString] at hsome ⊢
      split
      · rename_i hempty
        rw [if_pos hempty] at hsome
        exact absurd rfl hsome
      · rfl

lemma firstEvent_bytes {request : Request} {records : List Record} {event : ℕ × List UInt8}
    (h : firstEvent request records = .ok (some event)) : event.2 ≠ [] := by
  induction records with
  | nil => cases h
  | cons record records ih =>
    rw [firstEvent] at h
    split at h
    · cases hproject : project record request.accountIdentity with
      | error error =>
        rw [hproject] at h
        cases h
      | ok made =>
        rw [hproject] at h
        cases made with
        | none => exact ih h
        | some bytes =>
          cases h
          rw [project] at hproject
          cases hfields : projectFields record request.accountIdentity with
          | error error =>
            rw [hfields] at hproject
            cases hproject
          | ok fields =>
            rw [hfields] at hproject
            cases fields with
            | none => cases hproject
            | some fields =>
              cases hproject
              simp [finishEvent]
    · exact ih h

/-- Every record that the subscription is about makes its event or is passed over. -/
def AllProject (subscription : Subscription) (es : List Entry) : Prop :=
  ∀ record ∈ recordsOfAll es, isWanted subscription.eventType record = true →
    ∃ made, project record subscription.accountIdentity = .ok made

theorem poll_answers (h : Served subscription identity) (hrep : Represents sha s.journal es torn)
    (hall : AllProject subscription es) :
    ∃ chunk, poll sha s.journal identity (nextRequest subscription s.received) = .ok chunk := by
  have hdecodes : ∃ found, firstEvent (nextRequest subscription s.received) (recordsOfAll es) = .ok found :=
    firstEvent_decodes hall
  obtain ⟨found, hfound⟩ := hdecodes
  have hanswer : ∃ chunk, answer identity found = .ok chunk ∧
      validateMailEventStreamChunk identity chunk = .ok () := by
    cases found with
    | none => exact chunk_passes h (by simp)
    | some event => exact chunk_passes h fun _ => firstEvent_bytes hfound
  obtain ⟨chunk, hchunk, hvalid⟩ := hanswer
  have hread : readNextMatchingJournalEvent sha identity (nextRequest subscription s.received) s.journal =
      .ok chunk := by
    rw [readNextMatchingJournalEvent_eq hrep, hfound]
    exact hchunk
  have hbytes : chunk.endOfStream = false → chunk.bytes ≠ [] := by
    cases found with
    | none =>
      intro hmore
      rw [(chunkInit_eq_ok hchunk).2.2] at hmore
      cases hmore
    | some event =>
      rw [(chunkInit_eq_ok hchunk).2.1]
      exact fun _ => firstEvent_bytes hfound
  obtain ⟨last, hlast, -⟩ := chunk_passes h hbytes
  refine ⟨last, bind_eq_ok.mpr ⟨_, requestInit_nextRequest h s.received, ?_⟩⟩
  have hauthorized : authorizeMailEventStreamIdentity identity (nextRequest subscription s.received) = .ok () :=
    bind_eq_ok.mpr ⟨(), reject_eq_ok.mpr (by rw [h.caller]; decide), reject_eq_ok.mpr (not_not.mpr h.scope)⟩
  exact bind_eq_ok.mpr ⟨(), hauthorized, bind_eq_ok.mpr ⟨chunk, hread, bind_eq_ok.mpr ⟨(), hvalid, hlast⟩⟩⟩

end

def newsReader : RequestIdentity :=
  ⟨some (.literal "r1"), none, some (.literal "trusted-tool"), some (.literal "a"), none⟩

lemma newsReader_served : Served newsSubscription newsReader where
  account := rfl
  eventType := rfl
  caller := rfl
  scope := rfl
  requestId := ⟨rfl, rfl⟩
  correlationId := rfl

lemma newsJournal_represents : Represents JournalCrash.sha256 newsJournal [newsEntry] none := by
  have hnew : Represents JournalCrash.sha256 newJournal [] none :=
    @opened_represents _ _ .empty newJournal (.intact rfl) rfl
  rw [newsJournal]
  exact appended_represents hnew newsEntry_fits

lemma newsEntry_projects : AllProject newsSubscription [newsEntry] := by
  intro record hmem _
  have hrecord : record = MailEvent.forgingRecord := List.mem_singleton.mp hmem
  have haccount : newsSubscription.accountIdentity = .literal "a" := rfl
  rw [hrecord, haccount]
  exact ⟨_, MailEvent.project_forgingRecord⟩

lemma newsSession_represents : Represents JournalCrash.sha256 newsSession.journal [newsEntry] none :=
  Represents.session newsJournal_represents

end Wyrebox.MailEventStream
