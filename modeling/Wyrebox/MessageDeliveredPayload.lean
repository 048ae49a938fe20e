import Wyrebox.Event
import Wyrebox.PayloadText

set_option autoImplicit false

/-!
# The MessageDelivered payload

Four versions are decoded. The encoder writes the second, or the third when there is a delivery
identity, or the fourth when the metadata has a header span.
-/
namespace Wyrebox.MessageDeliveredPayload
open LittleEndian ByteField Codec JournalRecord PayloadText Event Fallible

def magicV1 : List UInt8 := ascii "WYREMDP1"
def magicV2 : List UInt8 := ascii "WYREMDP2"
def magicV3 : List UInt8 := ascii "WYREMDP3"
def magicV4 : List UInt8 := ascii "WYREMDP4"
def magicLength : ℕ := 8
def headerSizeV1 : ℕ := 18
/-- Of the second version and of all later ones. -/
def headerSizeV2 : ℕ := 30

/-- Every one of these is a `G_IO_ERROR_INVALID_DATA`. -/
inductive DecodeError where
  | empty
  | truncated
  | invalidMagic
  | invalidObjectKey
  | malformedLength
  | embeddedNul
  | nullRecipient
  | nullDeliveryId
  deriving DecidableEq, Repr

def DecodeError.message : DecodeError → String
  | .empty => "MessageDelivered payload is empty"
  | .truncated => "MessageDelivered payload is truncated"
  | .invalidMagic => "invalid MessageDelivered payload magic"
  | .invalidObjectKey =>
    "invalid MessageDelivered payload: object key must be sha256:64 lowercase hex characters"
  | .malformedLength => "MessageDelivered payload length is malformed"
  | .embeddedNul => "MessageDelivered metadata string contains embedded NUL"
  | .nullRecipient => "MessageDelivered recipient string is null"
  | .nullDeliveryId => "MessageDelivered delivery_id is null"

/-- Every one of these is a `G_IO_ERROR_INVALID_ARGUMENT`. -/
inductive EncodeError where
  | invalidObjectKey
  | deliveryIdRequired
  | overflow
  | stringTooLarge
  | tooManyRecipients
  deriving DecidableEq, Repr

def EncodeError.message : EncodeError → String
  | .invalidObjectKey => "object key must be sha256:64 lowercase hex characters"
  | .deliveryIdRequired => "delivery_id is required"
  | .overflow => "MessageDelivered payload length overflows addressable memory"
  | .stringTooLarge => "MessageDelivered metadata string is too large"
  | .tooManyRecipients => "MessageDelivered recipient count is too large"

/-- The delivery identity arguments of the encoder. -/
structure Identity where
  deliveryId : Option CString
  queueId : Option CString
  accountIdentity : Option CString
  envelopeSender : Option CString
  recipients : List CString
  deriving DecidableEq

def Identity.absent : Identity := ⟨none, none, none, none, []⟩

/-- Metadata that is `NULL`. -/
def noMetadata : Metadata := ⟨none, none, none, none, none, none, none, 0, .absent, .absent⟩

def hasSpanProvenance (metadata : Metadata) : Bool :=
  metadata.messageIdSpan.valid || metadata.subjectSpan.valid

def headers (metadata : Metadata) : List (Option CString) :=
  [metadata.messageId, metadata.subject, metadata.fromAddr, metadata.toAddr, metadata.cc, metadata.bcc,
    metadata.date]

/-! ## Encoding -/

def checkedAddSize (total value : ℕ) : Except EncodeError ℕ :=
  if maxSize - total < value then .error .overflow else .ok (total + value)

/-- `checked_add_encoded_string_len`. -/
def checkedAddString (total : ℕ) : Option CString → Except EncodeError ℕ
  | none => checkedAddSize total 4
  | some s => do
    let total ← checkedAddSize total 4
    if nullString ≤ s.bytes.length then .error .stringTooLarge else checkedAddSize total s.bytes.length

def checkedAddStrings (total : ℕ) : List (Option CString) → Except EncodeError ℕ
  | [] => .ok total
  | value :: values => do
    let total ← checkedAddString total value
    checkedAddStrings total values

/-- The loop of `checked_add_encoded_strv_len` from index `i` on. -/
def checkedAddElements (i total : ℕ) : List CString → Except EncodeError ℕ
  | [] => .ok total
  | s :: values =>
    if i = 2 ^ 32 - 1 then .error .tooManyRecipients
    else do
      let total ← checkedAddString total (some s)
      checkedAddElements (i + 1) total values

/-- `checked_add_encoded_strv_len`. -/
def checkedAddStrv (total : ℕ) (values : List CString) : Except EncodeError ℕ := do
  let total ← checkedAddSize total 4
  checkedAddElements 0 total values

/-- The span fields are two flags and four offsets. -/
def checkedAddSpans (total : ℕ) (metadata : Metadata) : Except EncodeError ℕ :=
  if hasSpanProvenance metadata then checkedAddSize total 40 else .ok total

def checkedAddIdentity (total : ℕ) (identity : Identity) : Except EncodeError ℕ :=
  if identity.deliveryId.isSome then do
    let total ← checkedAddStrings total [identity.deliveryId, identity.queueId, identity.accountIdentity,
      identity.envelopeSender]
    checkedAddStrv total identity.recipients
  else .ok total

def fixedFields (magic : List UInt8) (objectKey : CString) (sizeBytes internalDateUnixUs
    duplicateMessageIdCount : ℕ) : List UInt8 :=
  magic ++ (encode 8 sizeBytes ++ (encode 8 internalDateUnixUs ++ (encode 4 duplicateMessageIdCount ++
    (encode 2 objectKey.bytes.length ++ objectKey.bytes))))

def encodeSpan (span : Span) : List UInt8 :=
  encode 4 (if span.valid then 1 else 0) ++ (encode 8 span.start ++ encode 8 span.stop)

def encodeIdentity (identity : Identity) : List UInt8 :=
  encodeNullable identity.deliveryId ++ (encodeNullable identity.queueId ++
    (encodeNullable identity.accountIdentity ++ (encodeNullable identity.envelopeSender ++
      encodeStrings identity.recipients)))

/-- The bytes that the encoder writes once every length is known to fit. -/
def layout (objectKey : CString) (sizeBytes : ℕ) (metadata : Metadata) (internalDateUnixUs : ℕ)
    (identity : Identity) : List UInt8 :=
  let magic := if hasSpanProvenance metadata then magicV4
    else if identity.deliveryId.isSome then magicV3 else magicV2
  fixedFields magic objectKey sizeBytes internalDateUnixUs metadata.duplicateMessageIdCount ++
    ((headers metadata).flatMap encodeNullable ++
      ((if hasSpanProvenance metadata then
          encodeSpan metadata.messageIdSpan ++ encodeSpan metadata.subjectSpan else []) ++
        (if identity.deliveryId.isSome then encodeIdentity identity else [])))

/-- `wyrebox_message_delivered_payload_encode_with_identity`. A length that fits a `gsize` but no
    object in memory is refused by the allocator. -/
def encodeWithIdentity (objectKey : CString) (sizeBytes : ℕ) (metadata : Option Metadata)
    (internalDateUnixUs : ℕ) (identity : Identity) : Except EncodeError GBytes :=
  let metadata := metadata.getD noMetadata
  if !isSha256ObjectKey objectKey then .error .invalidObjectKey
  else if identity.deliveryId = some .empty then .error .deliveryIdRequired
  else do
    let total ← checkedAddSize headerSizeV2 objectKey.bytes.length
    let total ← checkedAddStrings total (headers metadata)
    let total ← checkedAddSpans total metadata
    let _ ← checkedAddIdentity total identity
    if h : (layout objectKey sizeBytes metadata internalDateUnixUs identity).length ≤ 2 ^ 63 - 1 then
      .ok ⟨layout objectKey sizeBytes metadata internalDateUnixUs identity, h⟩
    else .error .overflow

/-! ## Decoding -/

structure Fixed where
  objectKey : CString
  sizeBytes : ℕ
  internalDateUnixUs : ℕ
  duplicateMessageIdCount : ℕ

/-- The header of the second and later versions, and the object key. -/
def decodeFixed : Decoder DecodeError Fixed := do
  ensure (fun rest => headerSizeV2 ≤ rest.length) .truncated
  let _ ← octets magicLength .truncated
  let sizeBytes ← unsigned 8 .truncated
  let internalDateUnixUs ← unsigned 8 .truncated
  let duplicateMessageIdCount ← unsigned 4 .truncated
  let objectKeyLen ← unsigned 2 .truncated
  if objectKeyLen ≠ objectKeyLength then throw .invalidObjectKey
  else do
    let objectKey ← octets objectKeyLen .truncated
    if !isSha256ObjectKey (strndup objectKey) then throw .invalidObjectKey
    else pure ⟨strndup objectKey, sizeBytes, internalDateUnixUs, duplicateMessageIdCount⟩

/-- The metadata strings, in the order of `headers`. -/
def decodeHeaders (duplicateMessageIdCount : ℕ) : Decoder DecodeError Metadata := do
  let messageId ← nullable .truncated .embeddedNul
  let subject ← nullable .truncated .embeddedNul
  let fromAddr ← nullable .truncated .embeddedNul
  let toAddr ← nullable .truncated .embeddedNul
  let cc ← nullable .truncated .embeddedNul
  let bcc ← nullable .truncated .embeddedNul
  let date ← nullable .truncated .embeddedNul
  pure ⟨messageId, subject, fromAddr, toAddr, cc, bcc, date, duplicateMessageIdCount, .absent, .absent⟩

def decodeSpan : Decoder DecodeError Span := do
  let valid ← unsigned 4 .truncated
  let start ← unsigned 8 .truncated
  let stop ← unsigned 8 .truncated
  pure ⟨valid != 0, start, stop⟩

def decodeSpans : Decoder DecodeError (Span × Span) := do
  ensure (fun rest => 40 ≤ rest.length) .truncated
  let messageIdSpan ← decodeSpan
  let subjectSpan ← decodeSpan
  pure (messageIdSpan, subjectSpan)

def decodeIdentity : Decoder DecodeError Identity := do
  let deliveryId ← nullable .truncated .embeddedNul
  let queueId ← nullable .truncated .embeddedNul
  let accountIdentity ← nullable .truncated .embeddedNul
  let envelopeSender ← nullable .truncated .embeddedNul
  let recipients ← strings .truncated .embeddedNul .nullRecipient
  pure ⟨deliveryId, queueId, accountIdentity, envelopeSender, recipients⟩

def payloadOf (fixed : Fixed) (metadata : Metadata) (identity : Identity) : MessageDelivered where
  objectKey := fixed.objectKey
  sizeBytes := fixed.sizeBytes
  internalDateUnixUs := fixed.internalDateUnixUs
  metadata := metadata
  deliveryId := identity.deliveryId
  queueId := identity.queueId
  accountIdentity := identity.accountIdentity
  envelopeSender := identity.envelopeSender
  recipients := identity.recipients

def decodeV1 (data : List UInt8) : Except DecodeError MessageDelivered :=
  if data.length < headerSizeV1 then .error .truncated
  else
    let objectKeyLen := readLE 16 2 data
    if objectKeyLen ≠ objectKeyLength then .error .invalidObjectKey
    else if data.length < headerSizeV1 + objectKeyLen then .error .truncated
    else if headerSizeV1 + objectKeyLen < data.length then .error .malformedLength
    else
      let objectKey := strndup (slice headerSizeV1 objectKeyLen data)
      if !isSha256ObjectKey objectKey then .error .invalidObjectKey
      else .ok (payloadOf ⟨objectKey, readLE 8 8 data, 0, 0⟩ noMetadata .absent)

def decodeV2 (data : List UInt8) : Except DecodeError MessageDelivered := do
  let (fixed, rest) ← decodeFixed data
  let (metadata, rest) ← decodeHeaders fixed.duplicateMessageIdCount rest
  if !rest.isEmpty then .error .malformedLength else .ok (payloadOf fixed metadata .absent)

def decodeV3 (data : List UInt8) : Except DecodeError MessageDelivered := do
  let (fixed, rest) ← decodeFixed data
  let (metadata, rest) ← decodeHeaders fixed.duplicateMessageIdCount rest
  let (identity, rest) ← decodeIdentity rest
  if identity.deliveryId.isNone then .error .nullDeliveryId
  else if !rest.isEmpty then .error .malformedLength
  else .ok (payloadOf fixed metadata identity)

def decodeV4 (data : List UInt8) : Except DecodeError MessageDelivered := do
  let (fixed, rest) ← decodeFixed data
  let (metadata, rest) ← decodeHeaders fixed.duplicateMessageIdCount rest
  let ((messageIdSpan, subjectSpan), rest) ← decodeSpans rest
  let metadata := { metadata with messageIdSpan, subjectSpan }
  if rest.isEmpty then .ok (payloadOf fixed metadata .absent)
  else do
    let (identity, rest) ← decodeIdentity rest
    if identity.deliveryId.isNone then .error .nullDeliveryId
    else if !rest.isEmpty then .error .malformedLength
    else .ok (payloadOf fixed metadata identity)

/-- `wyrebox_message_delivered_payload_decode`. -/
def decodePayload (data : List UInt8) : Except DecodeError MessageDelivered :=
  if data.isEmpty then .error .empty
  else if data.length < magicLength then .error .truncated
  else if data.take magicLength = magicV1 then decodeV1 data
  else if data.take magicLength = magicV2 then decodeV2 data
  else if data.take magicLength = magicV3 then decodeV3 data
  else if data.take magicLength = magicV4 then decodeV4 data
  else .error .invalidMagic

/-! ## The round trip -/

/-- What the payload keeps of the encoder's arguments: the spans only if there is one, and the identity
    only with a delivery id. -/
def stored (objectKey : CString) (sizeBytes : ℕ) (metadata : Option Metadata) (internalDateUnixUs : ℕ)
    (identity : Identity) : MessageDelivered :=
  let metadata := metadata.getD noMetadata
  payloadOf ⟨objectKey, sizeBytes, internalDateUnixUs, metadata.duplicateMessageIdCount⟩
    (if hasSpanProvenance metadata then metadata
      else { metadata with messageIdSpan := .absent, subjectSpan := .absent })
    (if identity.deliveryId.isSome then identity else .absent)

/-- The numbers of the metadata are in the range of their C types. -/
structure Fits (metadata : Metadata) : Prop where
  duplicateMessageIdCount : metadata.duplicateMessageIdCount < 2 ^ 32
  messageIdSpan : metadata.messageIdSpan.start < 2 ^ 64 ∧ metadata.messageIdSpan.stop < 2 ^ 64
  subjectSpan : metadata.subjectSpan.start < 2 ^ 64 ∧ metadata.subjectSpan.stop < 2 ^ 64

theorem fits_noMetadata : Fits noMetadata := by
  constructor <;> decide

theorem checkedAddString_ok {total total' : ℕ} {value : Option CString}
    (h : checkedAddString total value = .ok total') : Encodable value := by
  rintro s rfl
  simp only [checkedAddString, bind_eq_ok, ite_error_eq_ok, not_le] at h
  obtain ⟨-, -, hlt, -⟩ := h
  exact hlt

theorem checkedAddStrings_ok {total total' : ℕ} {values : List (Option CString)}
    (h : checkedAddStrings total values = .ok total') : ∀ value ∈ values, Encodable value := by
  induction values generalizing total with
  | nil => simp
  | cons value values ih =>
    simp only [checkedAddStrings, bind_eq_ok] at h
    obtain ⟨next, hvalue, hvalues⟩ := h
    rw [List.forall_mem_cons]
    exact ⟨checkedAddString_ok hvalue, ih hvalues⟩

theorem checkedAddElements_ok {i total total' : ℕ} {values : List CString} (hi : i < 2 ^ 32)
    (h : checkedAddElements i total values = .ok total') :
    i + values.length < 2 ^ 32 ∧ ∀ s ∈ values, s.bytes.length < nullString := by
  induction values generalizing i total with
  | nil => exact ⟨hi, by simp⟩
  | cons s values ih =>
    simp only [checkedAddElements, ite_error_eq_ok, bind_eq_ok] at h
    obtain ⟨hcount, next, hvalue, hvalues⟩ := h
    obtain ⟨hlength, hall⟩ := ih (by omega) hvalues
    rw [List.forall_mem_cons, List.length_cons]
    exact ⟨by omega, checkedAddString_ok hvalue s rfl, hall⟩

/-- The identity has strings and a list of recipients that the payload can hold. -/
structure Identity.Encodable (identity : Identity) : Prop where
  strings : ∀ value ∈ [identity.deliveryId, identity.queueId, identity.accountIdentity, identity.envelopeSender],
    PayloadText.Encodable value
  count : identity.recipients.length < 2 ^ 32
  recipients : ∀ s ∈ identity.recipients, s.bytes.length < nullString

/-- What a payload that was encoded tells of the encoder's arguments. -/
structure Encoded (objectKey : CString) (sizeBytes : ℕ) (metadata : Metadata) (internalDateUnixUs : ℕ)
    (identity : Identity) (bytes : GBytes) : Prop where
  key : isSha256ObjectKey objectKey = true
  deliveryId : identity.deliveryId ≠ some .empty
  strings : ∀ value ∈ headers metadata, Encodable value
  encodable : identity.deliveryId.isSome = true → identity.Encodable
  data : bytes.data = layout objectKey sizeBytes metadata internalDateUnixUs identity

section
variable {objectKey : CString} {sizeBytes internalDateUnixUs : ℕ} {metadata : Option Metadata}
  {identity : Identity} {bytes : GBytes}

theorem encoded_of_ok
    (h : encodeWithIdentity objectKey sizeBytes metadata internalDateUnixUs identity = .ok bytes) :
    Encoded objectKey sizeBytes (metadata.getD noMetadata) internalDateUnixUs identity bytes := by
  simp only [encodeWithIdentity, ite_error_eq_ok, bind_eq_ok, Bool.not_eq_true', Bool.not_eq_false] at h
  obtain ⟨hkey, hdelivery, _, -, _, hheaders, _, -, _, hidentity, hdata⟩ := h
  refine ⟨hkey, hdelivery, checkedAddStrings_ok hheaders, ?_, ?_⟩
  · intro hsome
    rw [checkedAddIdentity, if_pos hsome, bind_eq_ok] at hidentity
    obtain ⟨total, hstrings, hstrv⟩ := hidentity
    simp only [checkedAddStrv, bind_eq_ok] at hstrv
    obtain ⟨start, -, helements⟩ := hstrv
    obtain ⟨hcount, hrecipients⟩ := checkedAddElements_ok (by decide) helements
    exact ⟨checkedAddStrings_ok hstrings, by omega, hrecipients⟩
  · split at hdata
    · rw [Except.ok.injEq] at hdata
      rw [← hdata]
    · simp at hdata

theorem reads_decodeFixed {magic : List UInt8} (hmagic : magic.length = magicLength)
    (hkey : isSha256ObjectKey objectKey = true) (hsize : sizeBytes < 2 ^ 64)
    (hdate : internalDateUnixUs < 2 ^ 64) {duplicateMessageIdCount : ℕ} (hdup : duplicateMessageIdCount < 2 ^ 32) :
    Reads decodeFixed (fixedFields magic objectKey sizeBytes internalDateUnixUs duplicateMessageIdCount)
      ⟨objectKey, sizeBytes, internalDateUnixUs, duplicateMessageIdCount⟩ := by
  have hlen : objectKey.bytes.length = objectKeyLength := by
    simp only [isSha256ObjectKey, Bool.and_eq_true, beq_iff_eq] at hkey
    exact hkey.1.1
  have hlen71 : objectKey.bytes.length = 71 := hlen
  refine Reads.ensure ?_ ?_
  · refine (reads_octets _ hmagic).bind ?_
    refine (reads_unsigned _ hsize).bind ?_
    refine (reads_unsigned _ hdate).bind ?_
    refine (reads_unsigned _ hdup).bind ?_
    refine (reads_unsigned _ (by rw [hlen71]; decide)).bind ?_
    rw [if_neg (not_not.mpr hlen)]
    refine (reads_octets _ rfl).bind_last ?_
    rw [strndup_bytes, hkey]
    exact Reads.pure _
  · intro tail
    rw [decide_eq_true_eq]
    simp only [fixedFields, List.length_append, encode_length, hmagic, hlen71, headerSizeV2, magicLength]
    omega

theorem reads_decodeHeaders {metadata : Metadata} (h : ∀ value ∈ headers metadata, Encodable value) :
    Reads (decodeHeaders metadata.duplicateMessageIdCount) ((headers metadata).flatMap encodeNullable)
      { metadata with messageIdSpan := .absent, subjectSpan := .absent } := by
  simp only [headers, List.forall_mem_cons, List.not_mem_nil, false_imp_iff, forall_const, and_true] at h
  obtain ⟨hmessageId, hsubject, hfrom, hto, hcc, hbcc, hdate⟩ := h
  simp only [headers, List.flatMap_cons, List.flatMap_nil]
  refine (reads_nullable hmessageId).bind ?_
  refine (reads_nullable hsubject).bind ?_
  refine (reads_nullable hfrom).bind ?_
  refine (reads_nullable hto).bind ?_
  refine (reads_nullable hcc).bind ?_
  refine (reads_nullable hbcc).bind ?_
  exact (reads_nullable hdate).bind (Reads.pure _)

theorem reads_decodeSpan {span : Span} (hstart : span.start < 2 ^ 64) (hstop : span.stop < 2 ^ 64) :
    Reads decodeSpan (encodeSpan span) span := by
  obtain ⟨valid, start, stop⟩ := span
  have hread : ∀ flag < 256 ^ 4, Reads decodeSpan (encode 4 flag ++ (encode 8 start ++ encode 8 stop))
      ⟨flag != 0, start, stop⟩ := by
    intro flag hflag
    refine (reads_unsigned _ hflag).bind ?_
    refine (reads_unsigned _ hstart).bind ?_
    exact @Reads.bind_pure _ _ _ _ (fun stop => (⟨flag != 0, start, stop⟩ : Span)) _ _ (reads_unsigned _ hstop)
  cases valid with
  | false => exact hread 0 (by decide)
  | true => exact hread 1 (by decide)

theorem reads_decodeSpans {metadata : Metadata} (h : Fits metadata) :
    Reads decodeSpans (encodeSpan metadata.messageIdSpan ++ encodeSpan metadata.subjectSpan)
      (metadata.messageIdSpan, metadata.subjectSpan) := by
  refine Reads.ensure ?_ ?_
  · refine (reads_decodeSpan h.messageIdSpan.1 h.messageIdSpan.2).bind ?_
    exact (reads_decodeSpan h.subjectSpan.1 h.subjectSpan.2).bind_pure
  · intro tail
    rw [decide_eq_true_eq]
    simp only [encodeSpan, List.length_append, encode_length]
    omega

theorem reads_decodeIdentity (h : identity.Encodable) :
    Reads decodeIdentity (encodeIdentity identity) identity := by
  have hstrings := h.strings
  simp only [List.forall_mem_cons, List.not_mem_nil, false_imp_iff, forall_const, and_true] at hstrings
  obtain ⟨hdelivery, hqueue, haccount, hsender⟩ := hstrings
  refine (reads_nullable hdelivery).bind ?_
  refine (reads_nullable hqueue).bind ?_
  refine (reads_nullable haccount).bind ?_
  refine (reads_nullable hsender).bind ?_
  exact (reads_strings h.count h.recipients).bind_pure

/-- The version of a payload is in its magic. -/
theorem decodePayload_of_magic {data magic : List UInt8} (h : data.take magicLength = magic)
    (hmagic : magic.length = magicLength) :
    decodePayload data = if magic = magicV1 then decodeV1 data else if magic = magicV2 then decodeV2 data
      else if magic = magicV3 then decodeV3 data else if magic = magicV4 then decodeV4 data
      else .error .invalidMagic := by
  have hlen : magicLength ≤ data.length := by
    rw [← hmagic, ← h, List.length_take]
    exact Nat.min_le_right ..
  have hempty : data.isEmpty = false := by
    have hpos : 0 < magicLength := by decide
    rw [List.isEmpty_eq_false_iff, ← List.length_pos_iff]
    omega
  rw [decodePayload, hempty, if_neg (by decide), if_neg (Nat.not_lt.mpr hlen), h]

theorem take_fixedFields {magic : List UInt8} (hmagic : magic.length = magicLength)
    (duplicateMessageIdCount : ℕ) (tail : List UInt8) :
    (fixedFields magic objectKey sizeBytes internalDateUnixUs duplicateMessageIdCount ++ tail).take magicLength =
      magic := by
  rw [fixedFields, List.append_assoc, ← hmagic, List.take_left]

end

section
variable {fixed : Fixed} {metadata : Metadata} {spans : Span × Span} {identity : Identity}
  {fixedBytes headerBytes spanBytes identityBytes : List UInt8}

theorem decodeV2_of_reads (hfixed : Reads decodeFixed fixedBytes fixed)
    (hheaders : Reads (decodeHeaders fixed.duplicateMessageIdCount) headerBytes metadata) :
    decodeV2 (fixedBytes ++ headerBytes) = .ok (payloadOf fixed metadata .absent) := by
  rw [decodeV2, hfixed headerBytes]
  change (decodeHeaders _ _ >>= _) = _
  rw [hheaders.run]
  rfl

theorem decodeV3_of_reads (hfixed : Reads decodeFixed fixedBytes fixed)
    (hheaders : Reads (decodeHeaders fixed.duplicateMessageIdCount) headerBytes metadata)
    (hidentity : Reads decodeIdentity identityBytes identity) (hdelivery : identity.deliveryId.isSome = true) :
    decodeV3 (fixedBytes ++ (headerBytes ++ identityBytes)) = .ok (payloadOf fixed metadata identity) := by
  rw [decodeV3, hfixed]
  change (decodeHeaders _ _ >>= _) = _
  rw [hheaders]
  change (decodeIdentity _ >>= _) = _
  rw [hidentity.run]
  change (if identity.deliveryId.isNone = true then _ else _) = _
  rw [Option.isNone_eq_false_iff.mpr hdelivery]
  rfl

theorem decodeV4_of_reads (hfixed : Reads decodeFixed fixedBytes fixed)
    (hheaders : Reads (decodeHeaders fixed.duplicateMessageIdCount) headerBytes metadata)
    (hspans : Reads decodeSpans spanBytes spans) :
    decodeV4 (fixedBytes ++ (headerBytes ++ spanBytes)) = .ok (payloadOf fixed
      { metadata with messageIdSpan := spans.1, subjectSpan := spans.2 } .absent) := by
  rw [decodeV4, hfixed]
  change (decodeHeaders _ _ >>= _) = _
  rw [hheaders]
  change (decodeSpans _ >>= _) = _
  rw [hspans.run]
  rfl

theorem decodeV4_identity_of_reads (hfixed : Reads decodeFixed fixedBytes fixed)
    (hheaders : Reads (decodeHeaders fixed.duplicateMessageIdCount) headerBytes metadata)
    (hspans : Reads decodeSpans spanBytes spans) (hidentity : Reads decodeIdentity identityBytes identity)
    (hpos : identityBytes ≠ []) (hdelivery : identity.deliveryId.isSome = true) :
    decodeV4 (fixedBytes ++ (headerBytes ++ (spanBytes ++ identityBytes))) = .ok (payloadOf fixed
      { metadata with messageIdSpan := spans.1, subjectSpan := spans.2 } identity) := by
  rw [decodeV4, hfixed]
  change (decodeHeaders _ _ >>= _) = _
  rw [hheaders]
  change (decodeSpans _ >>= _) = _
  rw [hspans]
  change (if identityBytes.isEmpty = true then _ else _) = _
  rw [List.isEmpty_eq_false_iff.mpr hpos, if_neg (by decide), hidentity.run]
  change (if identity.deliveryId.isNone = true then _ else _) = _
  rw [Option.isNone_eq_false_iff.mpr hdelivery]
  rfl

end

theorem encodeIdentity_ne_nil (identity : Identity) : encodeIdentity identity ≠ [] := by
  intro h
  have hlen := congrArg List.length h
  simp only [encodeIdentity, encodeStrings, List.length_append, encode_length, List.length_nil] at hlen
  omega

/-- Every payload that the encoder makes decodes to what it keeps of its arguments. -/
theorem decode_encode {objectKey : CString} {sizeBytes internalDateUnixUs : ℕ} {metadata : Option Metadata}
    {identity : Identity} {bytes : GBytes}
    (h : encodeWithIdentity objectKey sizeBytes metadata internalDateUnixUs identity = .ok bytes)
    (hsize : sizeBytes < 2 ^ 64) (hdate : internalDateUnixUs < 2 ^ 64) (hfits : Fits (metadata.getD noMetadata)) :
    decodePayload bytes.data = .ok (stored objectKey sizeBytes metadata internalDateUnixUs identity) := by
  obtain ⟨hkey, -, hstrings, hidentity, hdata⟩ := encoded_of_ok h
  rw [stored, hdata, layout]
  generalize metadata.getD noMetadata = known at hfits hstrings hdata
  have hfixed : ∀ magic : List UInt8, magic.length = magicLength → Reads decodeFixed
      (fixedFields magic objectKey sizeBytes internalDateUnixUs known.duplicateMessageIdCount)
      ⟨objectKey, sizeBytes, internalDateUnixUs, known.duplicateMessageIdCount⟩ :=
    fun magic hmagic => reads_decodeFixed hmagic hkey hsize hdate hfits.duplicateMessageIdCount
  have hheaders := reads_decodeHeaders hstrings
  by_cases hspan : hasSpanProvenance known = true
  · simp only [hspan, if_true]
    rw [decodePayload_of_magic (take_fixedFields (by decide) _ _) (by decide)]
    by_cases hdelivery : identity.deliveryId.isSome = true
    · simp only [hdelivery, if_true]
      exact decodeV4_identity_of_reads (hfixed magicV4 (by decide)) hheaders (reads_decodeSpans hfits)
        (reads_decodeIdentity (hidentity hdelivery)) (encodeIdentity_ne_nil identity) hdelivery
    · simp only [hdelivery, Bool.false_eq_true, if_false, List.append_nil]
      exact decodeV4_of_reads (hfixed magicV4 (by decide)) hheaders (reads_decodeSpans hfits)
  · simp only [hspan, Bool.false_eq_true, if_false, List.nil_append]
    by_cases hdelivery : identity.deliveryId.isSome = true
    · simp only [hdelivery, if_true]
      rw [decodePayload_of_magic (take_fixedFields (by decide) _ _) (by decide)]
      exact decodeV3_of_reads (hfixed magicV3 (by decide)) hheaders (reads_decodeIdentity (hidentity hdelivery))
        hdelivery
    · simp only [hdelivery, Bool.false_eq_true, if_false, List.append_nil]
      rw [decodePayload_of_magic (take_fixedFields (by decide) _ _) (by decide)]
      exact decodeV2_of_reads (hfixed magicV2 (by decide)) hheaders

end Wyrebox.MessageDeliveredPayload
