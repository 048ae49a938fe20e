import Wyrebox.ByteField

set_option autoImplicit false

/-!
# Journal records

The binary form of one journal record: a header of 64 bytes, the name of the event type and
the payload. The header's last 32 bytes are a SHA-256 digest of everything else.
-/
namespace Wyrebox.JournalRecord
open LittleEndian ByteField

def ascii (s : String) : List UInt8 := s.toList.map fun c => UInt8.ofNat c.toNat

/-- The largest `gsize` and `guint64` of the targeted 64-bit platform. -/
def maxSize : ℕ := 2 ^ 64 - 1

/-- The largest file offset, `G_MAXINT64`. -/
def maxOffset : ℕ := 2 ^ 63 - 1

/-- Bytes held in memory. No object spans more than `PTRDIFF_MAX` bytes. -/
structure GBytes where
  data : List UInt8
  size_le : data.length ≤ 2 ^ 63 - 1

def GBytes.empty : GBytes := ⟨[], by decide⟩

/-- `GChecksum` for SHA-256: the algorithm is GLib's, only its digest size matters here. -/
structure Sha256 where
  digest : List UInt8 → List UInt8
  digest_length : ∀ bs, (digest bs).length = 32

attribute [simp] Sha256.digest_length

inductive EventType where
  | messageDelivered
  | flagChanged
  | keywordChanged
  | factInserted
  | factRetracted
  | derivedViewMembershipChanged
  | daemonAuditRecorded
  | factsExtracted
  | membershipsExpunged
  | membershipsCopied
  | membershipsMoved
  | messageAppended
  deriving DecidableEq, Repr

def eventTypes : List EventType :=
  [.messageDelivered, .flagChanged, .keywordChanged, .factInserted, .factRetracted,
    .derivedViewMembershipChanged, .daemonAuditRecorded, .factsExtracted,
    .membershipsExpunged, .membershipsCopied, .membershipsMoved, .messageAppended]

/-- `wyrebox_journal_event_type_to_string`. -/
def EventType.name : EventType → List UInt8
  | .messageDelivered => ascii "MessageDelivered"
  | .flagChanged => ascii "FlagChanged"
  | .keywordChanged => ascii "KeywordChanged"
  | .factInserted => ascii "FactInserted"
  | .factRetracted => ascii "FactRetracted"
  | .derivedViewMembershipChanged => ascii "DerivedViewMembershipChanged"
  | .daemonAuditRecorded => ascii "DaemonAuditRecorded"
  | .factsExtracted => ascii "FactsExtracted"
  | .membershipsExpunged => ascii "MembershipsExpunged"
  | .membershipsCopied => ascii "MembershipsCopied"
  | .membershipsMoved => ascii "MembershipsMoved"
  | .messageAppended => ascii "MessageAppended"

def parseEventType (data : List UInt8) : Option EventType :=
  eventTypes.find? fun t => t.name == data

def maxEventTypeLen : ℕ := (eventTypes.map fun t => t.name.length).foldl max 0

def eventTypeLengthIsCanonical (declaredLen : ℕ) : Bool :=
  eventTypes.any fun t => t.name.length == declaredLen

def eventTypeLengthPrefixIsCanonical (lengthPrefix : List UInt8) : Bool :=
  eventTypes.any fun t => (encode 4 t.name.length).take lengthPrefix.length == lengthPrefix

def eventTypePrefixIsPlausible (available : List UInt8) (declaredLen : ℕ) : Bool :=
  available.length ≤ declaredLen &&
    eventTypes.any fun t => t.name.length == declaredLen && available.length ≤ t.name.length &&
      t.name.take available.length == available

theorem mem_eventTypes (t : EventType) : t ∈ eventTypes := by
  cases t <;> decide

theorem name_length_pos (t : EventType) : 0 < t.name.length := by
  cases t <;> decide

theorem name_length_le (t : EventType) : t.name.length ≤ maxEventTypeLen := by
  cases t <;> decide

theorem maxEventTypeLen_eq : maxEventTypeLen = 28 := by decide

theorem parseEventType_name (t : EventType) : parseEventType t.name = some t := by
  cases t <;> decide

theorem name_of_parseEventType {data : List UInt8} {t : EventType}
    (h : parseEventType data = some t) : t.name = data := by
  simpa using List.find?_some h

theorem eventTypeLengthIsCanonical_name (t : EventType) :
    eventTypeLengthIsCanonical t.name.length = true := by
  rw [eventTypeLengthIsCanonical, List.any_eq_true]
  exact ⟨t, mem_eventTypes t, by simp⟩

theorem eventTypeLengthPrefixIsCanonical_take (t : EventType) (k : ℕ) (hk : k ≤ 4) :
    eventTypeLengthPrefixIsCanonical ((encode 4 t.name.length).take k) = true := by
  rw [eventTypeLengthPrefixIsCanonical, List.any_eq_true]
  refine ⟨t, mem_eventTypes t, ?_⟩
  simp [Nat.min_eq_left hk]

theorem eventTypePrefixIsPlausible_take (t : EventType) (k : ℕ) (hk : k ≤ t.name.length) :
    eventTypePrefixIsPlausible (t.name.take k) t.name.length = true := by
  rw [eventTypePrefixIsPlausible, Bool.and_eq_true, List.any_eq_true]
  refine ⟨by simp, t, mem_eventTypes t, ?_⟩
  simp [hk]

/-! ## The header -/

def headerSize : ℕ := 64
def recordVersion : ℕ := 1
def magic : List UInt8 := ascii "WYREJNL1"

theorem magic_length : magic.length = 8 := by decide

/-- The checksummed half of a record header. -/
def headerFields (eventLen sequence payloadLen : ℕ) : List UInt8 :=
  magic ++ (encode 2 headerSize ++ (encode 2 recordVersion ++ (encode 4 eventLen ++
    (encode 8 sequence ++ encode 8 payloadLen))))

theorem headerFields_length (eventLen sequence payloadLen : ℕ) :
    (headerFields eventLen sequence payloadLen).length = 32 := by
  simp [headerFields, magic_length]

/-- What one append asks to be written. -/
structure Entry where
  eventType : EventType
  payload : GBytes

namespace Entry

def size (e : Entry) : ℕ := headerSize + e.eventType.name.length + e.payload.data.length

def fields (e : Entry) (sequence : ℕ) : List UInt8 :=
  headerFields e.eventType.name.length sequence e.payload.data.length

def body (e : Entry) : List UInt8 := e.eventType.name ++ e.payload.data

def checksum (sha : Sha256) (e : Entry) (sequence : ℕ) : List UInt8 :=
  sha.digest (e.fields sequence ++ e.eventType.name ++ e.payload.data)

/-- The bytes of the record that the writer gives sequence number `sequence`. -/
def record (sha : Sha256) (e : Entry) (sequence : ℕ) : List UInt8 :=
  e.fields sequence ++ (e.checksum sha sequence ++ e.body)

theorem headerSize_lt_size (e : Entry) : headerSize < e.size := by
  have h := name_length_pos e.eventType
  rw [size]
  omega

theorem size_pos (e : Entry) : 0 < e.size := (Nat.zero_le _).trans_lt e.headerSize_lt_size

theorem record_length (sha : Sha256) (e : Entry) (sequence : ℕ) :
    (e.record sha sequence).length = e.size := by
  simp [record, fields, body, checksum, size, headerFields_length, headerSize]
  omega

theorem eventLen_lt (e : Entry) : e.eventType.name.length < 256 ^ 4 := by
  have h := name_length_le e.eventType
  rw [maxEventTypeLen_eq] at h
  omega

theorem payloadLen_lt (e : Entry) : e.payload.data.length < 256 ^ 8 := by
  have h := e.payload.size_le
  omega

theorem size_le_maxSize (e : Entry) : e.size ≤ maxSize := by
  have hn := name_length_le e.eventType
  have hp := e.payload.size_le
  rw [maxEventTypeLen_eq] at hn
  simp only [size, headerSize, maxSize]
  omega

end Entry

/-! ## Where the fields lie -/

section
variable (sha : Sha256) (e : Entry) (sequence : ℕ)

/-- A byte range of the first header half is a byte range of `headerFields`. -/
theorem slice_record_fields {offset len : ℕ} (h : offset + len ≤ 32) :
    slice offset len (e.record sha sequence) = slice offset len (e.fields sequence) := by
  rw [Entry.record, slice_append_left]
  rw [Entry.fields, headerFields_length]
  exact h

theorem slice_magic : slice 0 8 (e.record sha sequence) = magic := by
  rw [slice_record_fields sha e sequence (by omega), Entry.fields, headerFields]
  exact slice_mid [] magic _

theorem slice_headerSize : slice 8 2 (e.record sha sequence) = encode 2 headerSize := by
  rw [slice_record_fields sha e sequence (by omega), Entry.fields, headerFields]
  exact slice_mid magic (encode 2 headerSize) _

theorem slice_version : slice 10 2 (e.record sha sequence) = encode 2 recordVersion := by
  rw [slice_record_fields sha e sequence (by omega), Entry.fields, headerFields,
    slice_append_right (by rw [magic_length]; omega), magic_length]
  exact slice_mid (encode 2 headerSize) (encode 2 recordVersion) _

theorem slice_eventLen :
    slice 12 4 (e.record sha sequence) = encode 4 e.eventType.name.length := by
  rw [slice_record_fields sha e sequence (by omega), Entry.fields, headerFields,
    slice_append_right (by rw [magic_length]; omega), magic_length,
    slice_append_right (by simp), encode_length]
  exact slice_mid (encode 2 recordVersion) (encode 4 e.eventType.name.length) _

theorem slice_sequence : slice 16 8 (e.record sha sequence) = encode 8 sequence := by
  rw [slice_record_fields sha e sequence (by omega), Entry.fields, headerFields,
    slice_append_right (by rw [magic_length]; omega), magic_length,
    slice_append_right (by simp), encode_length, slice_append_right (by simp), encode_length]
  exact slice_mid (encode 4 e.eventType.name.length) (encode 8 sequence) _

theorem slice_payloadLen :
    slice 24 8 (e.record sha sequence) = encode 8 e.payload.data.length := by
  rw [slice_record_fields sha e sequence (by omega), Entry.fields, headerFields,
    slice_append_right (by rw [magic_length]; omega), magic_length,
    slice_append_right (by simp), encode_length, slice_append_right (by simp), encode_length,
    slice_append_right (by simp), encode_length]
  have h := slice_mid (encode 8 sequence) (encode 8 e.payload.data.length) []
  simpa only [encode_length, List.append_nil] using h

theorem slice_fields : slice 0 32 (e.record sha sequence) = e.fields sequence := by
  rw [Entry.record, slice_append_left (by rw [Entry.fields, headerFields_length])]
  have h := slice_all (e.fields sequence)
  rwa [show (e.fields sequence).length = 32 from headerFields_length _ _ _] at h

theorem slice_checksum : slice 32 32 (e.record sha sequence) = e.checksum sha sequence := by
  have h := slice_mid (e.fields sequence) (e.checksum sha sequence) e.body
  rwa [show (e.fields sequence).length = 32 from headerFields_length _ _ _,
    show (e.checksum sha sequence).length = 32 from sha.digest_length _] at h

theorem slice_body {offset len : ℕ} (h : 64 ≤ offset) :
    slice offset len (e.record sha sequence) = slice (offset - 64) len e.body := by
  have hf : (e.fields sequence).length = 32 := headerFields_length _ _ _
  have hc : (e.checksum sha sequence).length = 32 := sha.digest_length _
  rw [Entry.record, slice_append_right (by omega), slice_append_right (by omega), hf, hc,
    Nat.sub_sub]

theorem slice_name :
    slice 64 e.eventType.name.length (e.record sha sequence) = e.eventType.name := by
  rw [slice_body sha e sequence (le_refl _)]
  exact slice_mid [] e.eventType.name e.payload.data

theorem slice_payload : slice (64 + e.eventType.name.length) e.payload.data.length
    (e.record sha sequence) = e.payload.data := by
  rw [slice_body sha e sequence (by omega), Nat.add_sub_cancel_left, Entry.body]
  have h := slice_mid e.eventType.name e.payload.data []
  rwa [List.append_nil] at h

end

/-! ## The journal file as a list of records -/

/-- The bytes of consecutive records, the first of which has number `sequence`. -/
def image (sha : Sha256) : ℕ → List Entry → List UInt8
  | _, [] => []
  | sequence, e :: es => e.record sha sequence ++ image sha (sequence + 1) es

def totalSize (es : List Entry) : ℕ := (es.map Entry.size).sum

theorem image_length (sha : Sha256) (sequence : ℕ) (es : List Entry) :
    (image sha sequence es).length = totalSize es := by
  induction es generalizing sequence with
  | nil => rfl
  | cons e es ih => simp [image, totalSize, ih, Entry.record_length]

theorem image_append (sha : Sha256) (sequence : ℕ) (es fs : List Entry) :
    image sha sequence (es ++ fs) =
      image sha sequence es ++ image sha (sequence + es.length) fs := by
  induction es generalizing sequence with
  | nil => simp [image]
  | cons e es ih =>
    simp only [List.cons_append, image, ih, List.length_cons, List.append_assoc]
    congr 3
    omega

/-- Every record is longer than its header, so a file holds fewer records than bytes. -/
theorem length_le_totalSize (es : List Entry) : es.length ≤ totalSize es := by
  induction es with
  | nil => simp [totalSize]
  | cons e es ih =>
    have h := e.size_pos
    simp only [totalSize, List.map_cons, List.sum_cons, List.length_cons] at ih ⊢
    omega

end Wyrebox.JournalRecord
