import Wyrebox.MessageDeliveredPayload

set_option autoImplicit false

/-!
# What the MessageDelivered decoder accepts

`Wire` lists the byte strings of the four versions with the payloads they stand for. The decoder accepts
these and no others, and nearly all of them can be encoded again.
-/
namespace Wyrebox.MessageDeliveredPayload
open LittleEndian ByteField Codec JournalRecord PayloadText Event Fallible

/-! ## The wire formats -/

def Fixed.bytes (magic : List UInt8) (fixed : Fixed) : List UInt8 :=
  fixedFields magic fixed.objectKey fixed.sizeBytes fixed.internalDateUnixUs fixed.duplicateMessageIdCount

structure Fixed.Valid (fixed : Fixed) : Prop where
  key : isSha256ObjectKey fixed.objectKey = true
  numbers : fixed.sizeBytes < 2 ^ 64 ∧ fixed.internalDateUnixUs < 2 ^ 64
  duplicates : fixed.duplicateMessageIdCount < 2 ^ 32

/-- The metadata of the fixed fields and the header strings. -/
structure HeadersOf (fixed : Fixed) (metadata : Metadata) : Prop where
  strings : ∀ value ∈ headers metadata, Encodable value
  duplicates : metadata.duplicateMessageIdCount = fixed.duplicateMessageIdCount
  spans : metadata.messageIdSpan = .absent ∧ metadata.subjectSpan = .absent

/-- A span with the flag as it was written: any number but zero marks a valid one. -/
def spanBytes (flag : ℕ) (span : Span) : List UInt8 := encode 4 flag ++ (encode 8 span.start ++ encode 8 span.stop)

structure SpanOf (flag : ℕ) (span : Span) : Prop where
  flag : flag < 2 ^ 32 ∧ span.valid = (flag != 0)
  offsets : span.start < 2 ^ 64 ∧ span.stop < 2 ^ 64

/-- The delivery identity of a payload that has one. -/
structure IdentityOf (identity : Identity) : Prop where
  encodable : identity.Encodable
  deliveryId : identity.deliveryId.isSome = true

def v1Bytes (objectKey : CString) (sizeBytes : ℕ) : List UInt8 :=
  magicV1 ++ (encode 8 sizeBytes ++ (encode 2 objectKeyLength ++ objectKey.bytes))

inductive Wire : List UInt8 → MessageDelivered → Prop
  | v1 {fixed : Fixed} (hfixed : fixed.Valid) (hdate : fixed.internalDateUnixUs = 0)
    (hduplicates : fixed.duplicateMessageIdCount = 0) :
    Wire (v1Bytes fixed.objectKey fixed.sizeBytes) (payloadOf fixed noMetadata .absent)
  | v2 {fixed : Fixed} {metadata : Metadata} (hfixed : fixed.Valid) (hheaders : HeadersOf fixed metadata) :
    Wire (fixed.bytes magicV2 ++ (headers metadata).flatMap encodeNullable) (payloadOf fixed metadata .absent)
  | v3 {fixed : Fixed} {metadata : Metadata} {identity : Identity} (hfixed : fixed.Valid)
    (hheaders : HeadersOf fixed metadata) (hidentity : IdentityOf identity) :
    Wire (fixed.bytes magicV3 ++ ((headers metadata).flatMap encodeNullable ++ encodeIdentity identity))
      (payloadOf fixed metadata identity)
  | v4 {fixed : Fixed} {metadata : Metadata} {flag flag' : ℕ} {span span' : Span} (hfixed : fixed.Valid)
    (hheaders : HeadersOf fixed metadata) (hspan : SpanOf flag span) (hspan' : SpanOf flag' span') :
    Wire (fixed.bytes magicV4 ++ ((headers metadata).flatMap encodeNullable ++
      (spanBytes flag span ++ spanBytes flag' span')))
      (payloadOf fixed { metadata with messageIdSpan := span, subjectSpan := span' } .absent)
  | v4Identity {fixed : Fixed} {metadata : Metadata} {flag flag' : ℕ} {span span' : Span} {identity : Identity}
    (hfixed : fixed.Valid) (hheaders : HeadersOf fixed metadata) (hspan : SpanOf flag span)
    (hspan' : SpanOf flag' span') (hidentity : IdentityOf identity) :
    Wire (fixed.bytes magicV4 ++ ((headers metadata).flatMap encodeNullable ++
      ((spanBytes flag span ++ spanBytes flag' span') ++ encodeIdentity identity)))
      (payloadOf fixed { metadata with messageIdSpan := span, subjectSpan := span' } identity)

/-! ## What the parts of the decoder accept -/

section
variable {data rest : List UInt8} {fixed : Fixed} {metadata : Metadata} {identity : Identity} {span : Span}

lemma strndup_of_key {bytes : List UInt8} (hlen : bytes.length = objectKeyLength)
    (h : isSha256ObjectKey (strndup bytes) = true) : (strndup bytes).bytes = bytes := by
  simp only [isSha256ObjectKey, Bool.and_eq_true, beq_iff_eq] at h
  have hsame : (strndup bytes).bytes.length = bytes.length := by rw [h.1.1, hlen]
  exact (List.takeWhile_prefix _).eq_of_length hsame

theorem key_length {key : CString} (h : isSha256ObjectKey key = true) : key.bytes.length = objectKeyLength := by
  simp only [isSha256ObjectKey, Bool.and_eq_true, beq_iff_eq] at h
  exact h.1.1

theorem decodeFixed_eq_ok (h : decodeFixed data = .ok (fixed, rest)) :
    fixed.Valid ∧ data = fixed.bytes (data.take magicLength) ++ rest := by
  simp only [decodeFixed, bind_run, ensure_run, guard_run, pure_run] at h
  obtain ⟨_, _, ⟨-, rfl⟩, magic, _, hmagic, size, _, hsize, date, _, hdate, duplicates, _, hduplicates, keyLength, _,
    hkeyLength, hkeySize, key, _, hkey, hvalid, rfl, rfl⟩ := h
  obtain ⟨hmagicLength, rfl⟩ := spells_octets _ _ hmagic
  obtain ⟨hsize, rfl⟩ := spells_unsigned _ _ hsize
  obtain ⟨hdate, rfl⟩ := spells_unsigned _ _ hdate
  obtain ⟨hduplicates, rfl⟩ := spells_unsigned _ _ hduplicates
  obtain ⟨-, rfl⟩ := spells_unsigned _ _ hkeyLength
  obtain ⟨hlength, rfl⟩ := spells_octets _ _ hkey
  rw [not_not] at hkeySize
  rw [Bool.not_eq_true', Bool.not_eq_false] at hvalid
  have hbytes := strndup_of_key (hlength.trans hkeySize) hvalid
  refine ⟨⟨hvalid, ⟨by simp only; omega, by simp only; omega⟩, by simp only; omega⟩, ?_⟩
  rw [Fixed.bytes, fixedFields, hbytes, hlength, id_eq, id_eq, List.take_left' hmagicLength]
  simp only [List.append_assoc]

theorem local_decodeFixed : Local decodeFixed := by
  refine (Local.ensure fun bytes tail hlong => ?_).bind fun _ => (local_octets _ _).bind fun _ =>
    (local_unsigned _ _).bind fun _ => (local_unsigned _ _).bind fun _ => (local_unsigned _ _).bind fun _ =>
      (local_unsigned _ _).bind fun _ => .guard ((local_octets _ _).bind fun _ => .guard (.pure _))
  rw [decide_eq_true_eq] at hlong ⊢
  rw [List.length_append]
  omega

theorem codes_nullable : Codes (nullable DecodeError.truncated DecodeError.embeddedNul) Encodable encodeNullable :=
  ⟨spells_nullable, reads_nullable⟩

theorem codes_recipients : Codes (strings DecodeError.truncated DecodeError.embeddedNul DecodeError.nullRecipient)
    (fun values => values.length < 2 ^ 32 ∧ ∀ s ∈ values, s.bytes.length < nullString) encodeStrings :=
  ⟨spells_strings, fun h => reads_strings h.1 h.2⟩

theorem decodeHeaders_eq_ok (h : decodeHeaders fixed.duplicateMessageIdCount data = .ok (metadata, rest)) :
    HeadersOf fixed metadata ∧ data = (headers metadata).flatMap encodeNullable ++ rest := by
  simp only [decodeHeaders, bind_run, pure_run] at h
  obtain ⟨messageId, _, hmessageIdRun, subject, _, hsubjectRun, fromAddr, _, hfromRun, toAddr, _, htoRun, cc, _, hccRun,
    bcc, _, hbccRun, date, _, hdateRun, rfl, rfl⟩ := h
  obtain ⟨hmessageId, rfl⟩ := spells_nullable hmessageIdRun
  obtain ⟨hsubject, rfl⟩ := spells_nullable hsubjectRun
  obtain ⟨hfrom, rfl⟩ := spells_nullable hfromRun
  obtain ⟨hto, rfl⟩ := spells_nullable htoRun
  obtain ⟨hcc, rfl⟩ := spells_nullable hccRun
  obtain ⟨hbcc, rfl⟩ := spells_nullable hbccRun
  obtain ⟨hdate, rfl⟩ := spells_nullable hdateRun
  refine ⟨⟨?_, rfl, rfl, rfl⟩, ?_⟩
  · simp only [headers, List.forall_mem_cons, List.not_mem_nil, false_imp_iff, forall_const, and_true]
    exact ⟨hmessageId, hsubject, hfrom, hto, hcc, hbcc, hdate⟩
  · simp only [headers, List.flatMap_cons, List.flatMap_nil, List.append_assoc, List.nil_append]

theorem local_decodeHeaders (duplicates : ℕ) : Local (decodeHeaders duplicates) :=
  codes_nullable.isLocal.bind fun _ => codes_nullable.isLocal.bind fun _ => codes_nullable.isLocal.bind fun _ =>
    codes_nullable.isLocal.bind fun _ => codes_nullable.isLocal.bind fun _ => codes_nullable.isLocal.bind fun _ =>
      codes_nullable.isLocal.bind fun _ => .pure _

theorem decodeSpan_eq_ok (h : decodeSpan data = .ok (span, rest)) :
    ∃ flag, SpanOf flag span ∧ data = spanBytes flag span ++ rest := by
  simp only [decodeSpan, bind_run, pure_run] at h
  obtain ⟨flag, _, hflagRun, start, _, hstartRun, stop, _, hstopRun, rfl, rfl⟩ := h
  obtain ⟨hflag, rfl⟩ := spells_unsigned _ _ hflagRun
  obtain ⟨hstart, rfl⟩ := spells_unsigned _ _ hstartRun
  obtain ⟨hstop, rfl⟩ := spells_unsigned _ _ hstopRun
  refine ⟨flag, ⟨⟨by omega, rfl⟩, by simp only; omega, by simp only; omega⟩, ?_⟩
  simp only [spanBytes, List.append_assoc]

theorem reads_spanBytes {flag : ℕ} (h : SpanOf flag span) : Reads decodeSpan (spanBytes flag span) span := by
  obtain ⟨valid, start, stop⟩ := span
  obtain ⟨⟨hflag, hvalid⟩, hstart, hstop⟩ := h
  simp only at hvalid hstart hstop
  rw [hvalid]
  refine (reads_unsigned _ (by omega)).bind ?_
  refine (reads_unsigned _ (by omega)).bind ?_
  exact @Reads.bind_pure _ _ _ _ (fun stop => (⟨flag != 0, start, stop⟩ : Span)) _ _ (reads_unsigned _ (by omega))

theorem decodeSpans_eq_ok {spans : Span × Span} (h : decodeSpans data = .ok (spans, rest)) :
    ∃ flag flag', SpanOf flag spans.1 ∧ SpanOf flag' spans.2 ∧
      data = (spanBytes flag spans.1 ++ spanBytes flag' spans.2) ++ rest := by
  simp only [decodeSpans, bind_run, ensure_run, pure_run] at h
  obtain ⟨_, _, ⟨-, rfl⟩, span, _, hspanRun, span', _, hspanRun', rfl, rfl⟩ := h
  obtain ⟨flag, hspan, rfl⟩ := decodeSpan_eq_ok hspanRun
  obtain ⟨flag', hspan', rfl⟩ := decodeSpan_eq_ok hspanRun'
  exact ⟨flag, flag', hspan, hspan', by rw [List.append_assoc]⟩

theorem reads_spans {flag flag' : ℕ} {span' : Span} (h : SpanOf flag span) (h' : SpanOf flag' span') :
    Reads decodeSpans (spanBytes flag span ++ spanBytes flag' span') (span, span') := by
  refine Reads.ensure ?_ ?_
  · refine (reads_spanBytes h).bind ?_
    exact (reads_spanBytes h').bind_pure
  · intro tail
    rw [decide_eq_true_eq]
    simp only [spanBytes, List.length_append, encode_length]
    omega

theorem local_decodeSpan : Local decodeSpan :=
  (local_unsigned _ _).bind fun _ => (local_unsigned _ _).bind fun _ => (local_unsigned _ _).bind fun _ => .pure _

theorem local_decodeSpans : Local decodeSpans := by
  refine (Local.ensure fun bytes tail hlong => ?_).bind fun _ => local_decodeSpan.bind fun _ =>
    local_decodeSpan.bind fun _ => .pure _
  rw [decide_eq_true_eq] at hlong ⊢
  rw [List.length_append]
  omega

theorem spells_decodeIdentity : Spells decodeIdentity Identity.Encodable encodeIdentity := by
  intro bytes identity rest h
  simp only [decodeIdentity, bind_run, pure_run] at h
  obtain ⟨deliveryId, _, hdeliveryRun, queueId, _, hqueueRun, account, _, haccountRun, sender, _, hsenderRun, recipients,
    _, hrecipientsRun, rfl, rfl⟩ := h
  obtain ⟨hdelivery, rfl⟩ := spells_nullable hdeliveryRun
  obtain ⟨hqueue, rfl⟩ := spells_nullable hqueueRun
  obtain ⟨haccount, rfl⟩ := spells_nullable haccountRun
  obtain ⟨hsender, rfl⟩ := spells_nullable hsenderRun
  obtain ⟨hrecipients, rfl⟩ := spells_strings hrecipientsRun
  refine ⟨⟨?_, hrecipients.1, hrecipients.2⟩, ?_⟩
  · simp only [List.forall_mem_cons, List.not_mem_nil, false_imp_iff, forall_const, and_true]
    exact ⟨hdelivery, hqueue, haccount, hsender⟩
  · simp only [encodeIdentity, List.append_assoc]

theorem codes_decodeIdentity : Codes decodeIdentity Identity.Encodable encodeIdentity :=
  ⟨spells_decodeIdentity, reads_decodeIdentity⟩

end

/-! ## The decoder and the wire formats -/

section
variable {data : List UInt8} {payload : MessageDelivered}

theorem wire_of_decodeV1 (hmagic : data.take magicLength = magicV1) (h : decodeV1 data = .ok payload) :
    Wire data payload := by
  simp only [decodeV1, ite_error_eq_ok, not_lt, not_not, Bool.not_eq_true', Bool.not_eq_false, Except.ok.injEq] at h
  obtain ⟨-, hkeyLength, hlow, hhigh, hkey, rfl⟩ := h
  rw [hkeyLength] at hlow hhigh hkey
  simp only [headerSizeV1, objectKeyLength] at hlow hhigh
  have hlen : (slice headerSizeV1 objectKeyLength data).length = objectKeyLength :=
    slice_length_of_le (by rw [headerSizeV1, objectKeyLength]; omega)
  have hbytes := strndup_of_key hlen hkey
  have hdata : v1Bytes (strndup (slice headerSizeV1 objectKeyLength data)) (readLE 8 8 data) = data := by
    rw [v1Bytes, hbytes, ← hmagic, ← hkeyLength, ← slice_of_readLE (by omega) rfl, hkeyLength,
      ← @slice_of_readLE 16 2 objectKeyLength data (by omega) hkeyLength, take_eq_slice, magicLength]
    rw [headerSizeV1, objectKeyLength, slice_append_slice 16 2, slice_append_slice 8 8, slice_append_slice 0 8]
    have hall := slice_all data
    rwa [show data.length = 89 by omega] at hall
  have hwire := @Wire.v1 ⟨strndup (slice headerSizeV1 objectKeyLength data), readLE 8 8 data, 0, 0⟩
    ⟨hkey, ⟨readLE_lt data, Nat.two_pow_pos 64⟩, Nat.two_pow_pos 32⟩ rfl rfl
  rw [hkeyLength]
  rwa [hdata] at hwire

theorem decodeFixed_version {magic rest : List UInt8} {fixed : Fixed} (hmagic : data.take magicLength = magic)
    (h : decodeFixed data = .ok (fixed, rest)) : fixed.Valid ∧ data = fixed.bytes magic ++ rest := by
  rw [← hmagic]
  exact decodeFixed_eq_ok h

theorem wire_of_decodeV2 (hmagic : data.take magicLength = magicV2) (h : decodeV2 data = .ok payload) :
    Wire data payload := by
  simp only [decodeV2, bind_eq_ok, ite_error_eq_ok, Bool.not_eq_true', Bool.not_eq_false, List.isEmpty_iff,
    Except.ok.injEq] at h
  obtain ⟨⟨fixed, rest⟩, hfixedRun, ⟨metadata, rest'⟩, hheadersRun, rfl, rfl⟩ := h
  obtain ⟨hfixed, rfl⟩ := decodeFixed_version hmagic hfixedRun
  obtain ⟨hheaders, rfl⟩ := decodeHeaders_eq_ok hheadersRun
  rw [List.append_nil]
  exact .v2 hfixed hheaders

theorem wire_of_decodeV3 (hmagic : data.take magicLength = magicV3) (h : decodeV3 data = .ok payload) :
    Wire data payload := by
  simp only [decodeV3, bind_eq_ok, ite_error_eq_ok, Bool.not_eq_true', Bool.not_eq_false, List.isEmpty_iff,
    Except.ok.injEq, Bool.not_eq_true, Option.isNone_eq_false_iff] at h
  obtain ⟨⟨fixed, rest⟩, hfixedRun, ⟨metadata, rest'⟩, hheadersRun, ⟨identity, rest''⟩, hidentityRun, hdelivery, rfl,
    rfl⟩ := h
  obtain ⟨hfixed, rfl⟩ := decodeFixed_version hmagic hfixedRun
  obtain ⟨hheaders, rfl⟩ := decodeHeaders_eq_ok hheadersRun
  obtain ⟨hidentity, rfl⟩ := spells_decodeIdentity hidentityRun
  rw [List.append_nil]
  exact .v3 hfixed hheaders ⟨hidentity, hdelivery⟩

theorem wire_of_decodeV4 (hmagic : data.take magicLength = magicV4) (h : decodeV4 data = .ok payload) :
    Wire data payload := by
  simp only [decodeV4, bind_eq_ok] at h
  obtain ⟨⟨fixed, rest⟩, hfixedRun, ⟨metadata, rest'⟩, hheadersRun, ⟨⟨span, span'⟩, rest''⟩, hspansRun, h⟩ := h
  obtain ⟨hfixed, rfl⟩ := decodeFixed_version hmagic hfixedRun
  obtain ⟨hheaders, rfl⟩ := decodeHeaders_eq_ok hheadersRun
  obtain ⟨flag, flag', hspan, hspan', rfl⟩ := decodeSpans_eq_ok hspansRun
  simp only at h
  split at h
  · rename_i hrest
    rw [List.isEmpty_iff.mp hrest, List.append_nil]
    cases h
    exact .v4 hfixed hheaders hspan hspan'
  · simp only [bind_eq_ok, ite_error_eq_ok, Bool.not_eq_true', Bool.not_eq_false, List.isEmpty_iff, Except.ok.injEq,
      Bool.not_eq_true, Option.isNone_eq_false_iff] at h
    obtain ⟨⟨identity, rest⟩, hidentityRun, hdelivery, rfl, rfl⟩ := h
    obtain ⟨hidentity, rfl⟩ := spells_decodeIdentity hidentityRun
    rw [List.append_nil]
    exact .v4Identity hfixed hheaders hspan hspan' ⟨hidentity, hdelivery⟩

theorem magic_of_ok {data : List UInt8} {payload : MessageDelivered} (h : decodePayload data = .ok payload) :
    magicLength ≤ data.length ∧
      ((data.take magicLength = magicV1 ∧ decodeV1 data = .ok payload) ∨
        (data.take magicLength = magicV2 ∧ decodeV2 data = .ok payload) ∨
        (data.take magicLength = magicV3 ∧ decodeV3 data = .ok payload) ∨
        (data.take magicLength = magicV4 ∧ decodeV4 data = .ok payload)) := by
  simp only [decodePayload, ite_error_eq_ok, not_lt] at h
  obtain ⟨-, hlen, h⟩ := h
  refine ⟨hlen, ?_⟩
  split at h
  · rename_i hmagic
    exact .inl ⟨hmagic, h⟩
  split at h
  · rename_i hmagic
    exact .inr (.inl ⟨hmagic, h⟩)
  split at h
  · rename_i hmagic
    exact .inr (.inr (.inl ⟨hmagic, h⟩))
  split at h
  · rename_i hmagic
    exact .inr (.inr (.inr ⟨hmagic, h⟩))
  · cases h

theorem Fixed.take_bytes {magic : List UInt8} (hmagic : magic.length = magicLength) (fixed : Fixed) (tail : List UInt8) :
    (fixed.bytes magic ++ tail).take magicLength = magic :=
  take_fixedFields hmagic fixed.duplicateMessageIdCount tail

theorem reads_fixed {magic : List UInt8} (hmagic : magic.length = magicLength) {fixed : Fixed} (h : fixed.Valid) :
    Reads decodeFixed (fixed.bytes magic) fixed :=
  reads_decodeFixed hmagic h.key h.numbers.1 h.numbers.2 h.duplicates

theorem reads_headers {fixed : Fixed} {metadata : Metadata} (h : HeadersOf fixed metadata) :
    Reads (decodeHeaders fixed.duplicateMessageIdCount) ((headers metadata).flatMap encodeNullable) metadata := by
  have hsame : ({ metadata with messageIdSpan := .absent, subjectSpan := .absent } : Metadata) = metadata := by
    obtain ⟨hspan, hspan'⟩ := h.spans
    cases metadata
    simp only at hspan hspan'
    rw [hspan, hspan']
  have hreads := reads_decodeHeaders h.strings
  rw [hsame] at hreads
  rwa [← h.duplicates]

theorem decodeV1_of_valid {fixed : Fixed} (h : fixed.Valid) (hdate : fixed.internalDateUnixUs = 0)
    (hduplicates : fixed.duplicateMessageIdCount = 0) :
    decodeV1 (v1Bytes fixed.objectKey fixed.sizeBytes) = .ok (payloadOf fixed noMetadata .absent) := by
  have hkey := key_length h.key
  have hmagic : magicV1.length = 8 := by decide
  have hlength : (v1Bytes fixed.objectKey fixed.sizeBytes).length = headerSizeV1 + objectKeyLength := by
    simp only [v1Bytes, List.length_append, encode_length, hkey, hmagic, headerSizeV1]
    omega
  have hkeyLength : readLE 16 2 (v1Bytes fixed.objectKey fixed.sizeBytes) = objectKeyLength := by
    refine readLE_of_slice ?_ (by decide)
    rw [v1Bytes, slice_append_right (by omega), hmagic, slice_append_right (by simp), encode_length]
    exact slice_mid [] (encode 2 objectKeyLength) _
  have hslice : slice headerSizeV1 objectKeyLength (v1Bytes fixed.objectKey fixed.sizeBytes) = fixed.objectKey.bytes := by
    rw [v1Bytes, headerSizeV1, slice_append_right (by omega), hmagic, slice_append_right (by simp), encode_length,
      slice_append_right (by simp), encode_length, ← hkey]
    exact slice_all _
  have hsize : readLE 8 8 (v1Bytes fixed.objectKey fixed.sizeBytes) = fixed.sizeBytes := by
    refine readLE_of_slice ?_ (by have := h.numbers.1; omega)
    rw [v1Bytes]
    exact slice_mid magicV1 (encode 8 fixed.sizeBytes) _
  obtain ⟨objectKey, sizeBytes, date, duplicates⟩ := fixed
  simp only at hdate hduplicates hkey hslice hsize hlength hkeyLength
  subst hdate hduplicates
  have hvalid := h.key
  simp only at hvalid
  rw [decodeV1, hkeyLength]
  simp only [hlength, hslice, hsize, strndup_bytes, hvalid, ne_eq, not_true_eq_false, if_false, Nat.lt_irrefl,
    Bool.not_true, Bool.false_eq_true, Nat.not_lt.mpr (Nat.le_add_right headerSizeV1 objectKeyLength)]

/-- The decoder accepts the byte strings of the four versions, and nothing else. -/
theorem decodePayload_eq_ok {data : List UInt8} {payload : MessageDelivered} :
    decodePayload data = .ok payload ↔ Wire data payload := by
  constructor
  · intro h
    obtain ⟨-, ⟨hmagic, h⟩ | ⟨hmagic, h⟩ | ⟨hmagic, h⟩ | ⟨hmagic, h⟩⟩ := magic_of_ok h
    · exact wire_of_decodeV1 hmagic h
    · exact wire_of_decodeV2 hmagic h
    · exact wire_of_decodeV3 hmagic h
    · exact wire_of_decodeV4 hmagic h
  · intro h
    cases h with
    | v1 hfixed hdate hduplicates =>
      have hmagic : ∀ fixed : Fixed, (v1Bytes fixed.objectKey fixed.sizeBytes).take magicLength = magicV1 :=
        fun fixed => List.take_left' (by decide)
      rw [decodePayload_of_magic (hmagic _) (by decide), if_pos rfl]
      exact decodeV1_of_valid hfixed hdate hduplicates
    | v2 hfixed hheaders =>
      rw [decodePayload_of_magic (Fixed.take_bytes (by decide) _ _) (by decide)]
      exact decodeV2_of_reads (reads_fixed (by decide) hfixed) (reads_headers hheaders)
    | v3 hfixed hheaders hidentity =>
      rw [decodePayload_of_magic (Fixed.take_bytes (by decide) _ _) (by decide)]
      exact decodeV3_of_reads (reads_fixed (by decide) hfixed) (reads_headers hheaders)
        (reads_decodeIdentity hidentity.encodable) hidentity.deliveryId
    | v4 hfixed hheaders hspan hspan' =>
      rw [decodePayload_of_magic (Fixed.take_bytes (by decide) _ _) (by decide)]
      exact decodeV4_of_reads (reads_fixed (by decide) hfixed) (reads_headers hheaders) (reads_spans hspan hspan')
    | v4Identity hfixed hheaders hspan hspan' hidentity =>
      rw [decodePayload_of_magic (Fixed.take_bytes (by decide) _ _) (by decide)]
      exact decodeV4_identity_of_reads (reads_fixed (by decide) hfixed) (reads_headers hheaders)
        (reads_spans hspan hspan') (reads_decodeIdentity hidentity.encodable) (encodeIdentity_ne_nil _)
        hidentity.deliveryId

/-! ## Longer byte strings -/

def identityOf (payload : MessageDelivered) : Identity :=
  ⟨payload.deliveryId, payload.queueId, payload.accountIdentity, payload.envelopeSender, payload.recipients⟩

def MessageDelivered.withIdentity (payload : MessageDelivered) (identity : Identity) : MessageDelivered where
  objectKey := payload.objectKey
  sizeBytes := payload.sizeBytes
  internalDateUnixUs := payload.internalDateUnixUs
  metadata := payload.metadata
  deliveryId := identity.deliveryId
  queueId := identity.queueId
  accountIdentity := identity.accountIdentity
  envelopeSender := identity.envelopeSender
  recipients := identity.recipients

/-- The one way in which a payload can go on: the fourth version may or may not end with an identity. -/
theorem decodePayload_append {data tail : List UInt8} {payload payload' : MessageDelivered}
    (h : decodePayload data = .ok payload) (hne : tail ≠ []) (h' : decodePayload (data ++ tail) = .ok payload') :
    data.take magicLength = magicV4 ∧ payload.deliveryId = none ∧ payload'.deliveryId.isSome = true ∧
      payload = MessageDelivered.withIdentity payload' .absent ∧ tail = encodeIdentity (identityOf payload') := by
  have hempty : tail.isEmpty = false := List.isEmpty_eq_false_iff.mpr hne
  obtain ⟨hlen, hversions⟩ := magic_of_ok h
  have hsame : (data ++ tail).take magicLength = data.take magicLength := List.take_append_of_le_length hlen
  obtain ⟨hmagic, h⟩ | ⟨hmagic, h⟩ | ⟨hmagic, h⟩ | ⟨hmagic, h⟩ := hversions
  · rw [decodePayload_of_magic (hsame.trans hmagic) (by decide), if_pos rfl] at h'
    have hpos := List.length_pos_iff.mpr hne
    simp only [decodeV1, ite_error_eq_ok, not_lt, not_not, List.length_append] at h h'
    obtain ⟨-, hkeyLength, hlow, hhigh, -⟩ := h
    obtain ⟨-, hkeyLength', -, hhigh', -⟩ := h'
    omega
  · rw [decodePayload_of_magic (hsame.trans hmagic) (by decide), if_neg (by decide), if_pos rfl] at h'
    simp only [decodeV2, bind_eq_ok, ite_error_eq_ok, Bool.not_eq_true', Bool.not_eq_false, List.isEmpty_iff] at h
    obtain ⟨⟨fixed, rest⟩, hfixed, ⟨metadata, rest'⟩, hheaders, rfl, -⟩ := h
    rw [decodeV2, local_decodeFixed _ _ _ tail hfixed] at h'
    change (decodeHeaders _ (rest ++ tail) >>= _) = _ at h'
    rw [local_decodeHeaders _ _ _ _ tail hheaders] at h'
    change (if (!([] ++ tail).isEmpty) = true then _ else _) = _ at h'
    rw [List.nil_append, hempty] at h'
    cases h'
  · rw [decodePayload_of_magic (hsame.trans hmagic) (by decide), if_neg (by decide), if_neg (by decide), if_pos rfl] at h'
    simp only [decodeV3, bind_eq_ok, ite_error_eq_ok, Bool.not_eq_true', Bool.not_eq_false, List.isEmpty_iff] at h
    obtain ⟨⟨fixed, rest⟩, hfixed, ⟨metadata, rest'⟩, hheaders, ⟨identity, rest''⟩, hidentity, -, rfl, -⟩ := h
    rw [decodeV3, local_decodeFixed _ _ _ tail hfixed] at h'
    change (decodeHeaders _ (rest ++ tail) >>= _) = _ at h'
    rw [local_decodeHeaders _ _ _ _ tail hheaders] at h'
    change (decodeIdentity (rest' ++ tail) >>= _) = _ at h'
    rw [codes_decodeIdentity.isLocal _ _ _ tail hidentity] at h'
    change (if identity.deliveryId.isNone = true then _ else if (!([] ++ tail).isEmpty) = true then _ else _) = _ at h'
    rw [List.nil_append, hempty] at h'
    split at h' <;> cases h'
  · refine ⟨hmagic, ?_⟩
    rw [decodePayload_of_magic (hsame.trans hmagic) (by decide), if_neg (by decide), if_neg (by decide),
      if_neg (by decide), if_pos rfl] at h'
    simp only [decodeV4, bind_eq_ok] at h
    obtain ⟨⟨fixed, rest⟩, hfixed, ⟨metadata, rest'⟩, hheaders, ⟨⟨span, span'⟩, rest''⟩, hspans, h⟩ := h
    rw [decodeV4, local_decodeFixed _ _ _ tail hfixed] at h'
    change (decodeHeaders _ (rest ++ tail) >>= _) = _ at h'
    rw [local_decodeHeaders _ _ _ _ tail hheaders] at h'
    change (decodeSpans (rest' ++ tail) >>= _) = _ at h'
    rw [local_decodeSpans _ _ _ tail hspans] at h'
    change (if (rest'' ++ tail).isEmpty = true then _ else _) = _ at h'
    have hmore : (rest'' ++ tail).isEmpty = false := by simp [hne]
    rw [hmore, if_neg (by decide)] at h'
    simp only at h
    split at h
    · rename_i hrest
      rw [List.isEmpty_iff.mp hrest, List.nil_append] at h'
      cases h
      simp only [bind_eq_ok, ite_error_eq_ok, Bool.not_eq_true', Bool.not_eq_false, List.isEmpty_iff, Except.ok.injEq,
        Bool.not_eq_true, Option.isNone_eq_false_iff] at h'
      obtain ⟨⟨identity, rest⟩, hidentity, hdelivery, rfl, rfl⟩ := h'
      obtain ⟨-, hspelled⟩ := spells_decodeIdentity hidentity
      rw [List.append_nil] at hspelled
      exact ⟨rfl, hdelivery, rfl, hspelled⟩
    -- with an identity there is nothing left to read
    · simp only [bind_eq_ok, ite_error_eq_ok, Bool.not_eq_true', Bool.not_eq_false, List.isEmpty_iff] at h
      obtain ⟨⟨identity, rest⟩, hidentity, -, rfl, -⟩ := h
      rw [codes_decodeIdentity.isLocal _ _ _ tail hidentity] at h'
      change (if identity.deliveryId.isNone = true then _ else if (!([] ++ tail).isEmpty) = true then _ else _) = _ at h'
      rw [List.nil_append, hempty] at h'
      split at h' <;> cases h'

end

/-! ## Encoding again -/

section
variable {total : ℕ}

theorem checkedAddSize_of {value : ℕ} (h : total + value ≤ maxSize) :
    checkedAddSize total value = .ok (total + value) :=
  if_neg (by omega)

theorem checkedAddString_of {value : Option CString} (h : Encodable value)
    (hfits : total + (encodeNullable value).length ≤ maxSize) :
    checkedAddString total value = .ok (total + (encodeNullable value).length) := by
  cases value with
  | none =>
    rw [encodeNullable, encode_length] at hfits ⊢
    exact checkedAddSize_of hfits
  | some s =>
    have hlt := h s rfl
    rw [encodeNullable, List.length_append, encode_length] at hfits ⊢
    rw [checkedAddString, checkedAddSize_of (by omega)]
    change (if nullString ≤ s.bytes.length then _ else _) = _
    rw [if_neg (by omega), checkedAddSize_of (by omega), Nat.add_assoc]

theorem checkedAddStrings_of {values : List (Option CString)} (h : ∀ value ∈ values, Encodable value)
    (hfits : total + (values.flatMap encodeNullable).length ≤ maxSize) :
    checkedAddStrings total values = .ok (total + (values.flatMap encodeNullable).length) := by
  induction values generalizing total with
  | nil => rfl
  | cons value values ih =>
    rw [List.forall_mem_cons] at h
    rw [List.flatMap_cons, List.length_append] at hfits ⊢
    rw [checkedAddStrings, checkedAddString_of h.1 (by omega)]
    change checkedAddStrings _ values = _
    rw [ih h.2 (by omega), Nat.add_assoc]

theorem checkedAddElements_of {i : ℕ} {values : List CString} (hcount : i + values.length < 2 ^ 32)
    (h : ∀ s ∈ values, s.bytes.length < nullString)
    (hfits : total + (values.flatMap fun s => encodeNullable (some s)).length ≤ maxSize) :
    checkedAddElements i total values = .ok (total + (values.flatMap fun s => encodeNullable (some s)).length) := by
  induction values generalizing i total with
  | nil => rfl
  | cons s values ih =>
    rw [List.forall_mem_cons] at h
    rw [List.length_cons] at hcount
    rw [List.flatMap_cons, List.length_append] at hfits ⊢
    have hvalue : Encodable (some s) := fun s' heq => Option.some.inj heq ▸ h.1
    rw [checkedAddElements, if_neg (by omega), checkedAddString_of hvalue (by omega)]
    change checkedAddElements (i + 1) _ values = _
    rw [ih (by omega) h.2 (by omega), Nat.add_assoc]

theorem checkedAddIdentity_of {identity : Identity} (h : identity.deliveryId.isSome = true → identity.Encodable)
    (hfits : total + (if identity.deliveryId.isSome then encodeIdentity identity else []).length ≤ maxSize) :
    checkedAddIdentity total identity =
      .ok (total + (if identity.deliveryId.isSome then encodeIdentity identity else []).length) := by
  rw [checkedAddIdentity]
  by_cases hsome : identity.deliveryId.isSome = true
  · simp only [hsome, if_true] at hfits ⊢
    obtain ⟨hstrings, hcount, hrecipients⟩ := h hsome
    have hlength : (encodeIdentity identity).length =
        ([identity.deliveryId, identity.queueId, identity.accountIdentity,
          identity.envelopeSender].flatMap encodeNullable).length + (4 +
            (identity.recipients.flatMap fun s => encodeNullable (some s)).length) := by
      simp only [encodeIdentity, encodeStrings, List.flatMap_cons, List.flatMap_nil, List.length_append, encode_length,
        List.length_nil]
      omega
    rw [hlength] at hfits ⊢
    rw [checkedAddStrings_of hstrings (by omega)]
    change (checkedAddSize _ 4 >>= fun total => checkedAddElements 0 total identity.recipients) = _
    rw [checkedAddSize_of (by omega)]
    change checkedAddElements 0 _ identity.recipients = _
    rw [checkedAddElements_of (by omega) hrecipients (by omega)]
    simp only [Nat.add_assoc]
  · simp only [hsome, Bool.false_eq_true, if_false, List.length_nil, Nat.add_zero]

end

section
variable {objectKey : CString} {sizeBytes internalDateUnixUs : ℕ} {metadata : Metadata} {identity : Identity}

theorem layout_length (hkey : isSha256ObjectKey objectKey = true) :
    (layout objectKey sizeBytes metadata internalDateUnixUs identity).length =
      headerSizeV2 + objectKeyLength + ((headers metadata).flatMap encodeNullable).length +
        (if hasSpanProvenance metadata then 40 else 0) +
          (if identity.deliveryId.isSome then encodeIdentity identity else []).length := by
  have hmagic : magicV2.length = 8 ∧ magicV3.length = 8 ∧ magicV4.length = 8 := by decide
  have hspans : (if hasSpanProvenance metadata then encodeSpan metadata.messageIdSpan ++
      encodeSpan metadata.subjectSpan else []).length = if hasSpanProvenance metadata then 40 else 0 := by
    split
    · simp only [encodeSpan, List.length_append, encode_length]
    · rfl
  have hfixed : (if hasSpanProvenance metadata then magicV4 else if identity.deliveryId.isSome then magicV3
      else magicV2).length = 8 := by
    split
    · exact hmagic.2.2
    · split
      · exact hmagic.2.1
      · exact hmagic.1
  simp only [layout, List.length_append, hspans, fixedFields, encode_length, key_length hkey, hfixed, headerSizeV2]
  omega

theorem encodeWithIdentity_of (hkey : isSha256ObjectKey objectKey = true) (hdelivery : identity.deliveryId ≠ some .empty)
    (hstrings : ∀ value ∈ headers metadata, Encodable value)
    (hidentity : identity.deliveryId.isSome = true → identity.Encodable)
    (hlen : (layout objectKey sizeBytes metadata internalDateUnixUs identity).length ≤ 2 ^ 63 - 1) :
    encodeWithIdentity objectKey sizeBytes (some metadata) internalDateUnixUs identity =
      .ok ⟨layout objectKey sizeBytes metadata internalDateUnixUs identity, hlen⟩ := by
  have hlength := @layout_length objectKey sizeBytes internalDateUnixUs metadata identity hkey
  have hmax : maxSize = 2 ^ 64 - 1 := rfl
  have hspans : ∀ total, total + (if hasSpanProvenance metadata then 40 else 0) ≤ maxSize →
      checkedAddSpans total metadata = .ok (total + if hasSpanProvenance metadata then 40 else 0) := by
    intro total hfits
    rw [checkedAddSpans]
    split
    · rename_i hspan
      rw [if_pos hspan] at hfits
      exact checkedAddSize_of hfits
    · rfl
  simp only [encodeWithIdentity, Option.getD_some, hkey, Bool.not_true, Bool.false_eq_true, if_false, hdelivery]
  rw [key_length hkey, checkedAddSize_of (by omega)]
  change (checkedAddStrings _ (headers metadata) >>= _) = _
  rw [checkedAddStrings_of hstrings (by omega)]
  change (checkedAddSpans _ metadata >>= _) = _
  rw [hspans _ (by omega)]
  change (checkedAddIdentity _ identity >>= _) = _
  rw [checkedAddIdentity_of hidentity (by omega)]
  exact dif_pos hlen

end

/-- A decoded payload handed to the encoder. -/
def reencode (payload : MessageDelivered) : Except EncodeError GBytes :=
  encodeWithIdentity payload.objectKey payload.sizeBytes (some payload.metadata) payload.internalDateUnixUs
    (identityOf payload)

/-- Offsets are kept only with a valid span. -/
def normalised (payload : MessageDelivered) : MessageDelivered :=
  if hasSpanProvenance payload.metadata then payload
  else { payload with metadata := { payload.metadata with messageIdSpan := .absent, subjectSpan := .absent } }

/-- What is known of a decoded payload. -/
structure Decoded (size : ℕ) (payload : MessageDelivered) : Prop where
  key : isSha256ObjectKey payload.objectKey = true
  numbers : payload.sizeBytes < 2 ^ 64 ∧ payload.internalDateUnixUs < 2 ^ 64
  fits : Fits payload.metadata
  strings : ∀ value ∈ headers payload.metadata, Encodable value
  identity : payload.deliveryId.isSome = true → (identityOf payload).Encodable
  absent : payload.deliveryId = none → identityOf payload = .absent
  size : (layout payload.objectKey payload.sizeBytes payload.metadata payload.internalDateUnixUs
    (identityOf payload)).length ≤ max size 129

theorem fits_of_headers {fixed : Fixed} {metadata : Metadata} (hfixed : fixed.Valid) (h : HeadersOf fixed metadata) :
    Fits metadata := by
  refine ⟨h.duplicates ▸ hfixed.duplicates, ?_, ?_⟩
  · rw [h.spans.1]
    exact ⟨Nat.two_pow_pos 64, Nat.two_pow_pos 64⟩
  · rw [h.spans.2]
    exact ⟨Nat.two_pow_pos 64, Nat.two_pow_pos 64⟩

theorem Fixed.bytes_length {fixed : Fixed} (h : fixed.Valid) {magic : List UInt8} (hmagic : magic.length = 8) :
    (fixed.bytes magic).length = headerSizeV2 + objectKeyLength := by
  simp only [Fixed.bytes, fixedFields, List.length_append, encode_length, hmagic, key_length h.key, headerSizeV2]
  omega

theorem noSpans_of_headers {fixed : Fixed} {metadata : Metadata} (h : HeadersOf fixed metadata) :
    hasSpanProvenance metadata = false := by
  rw [hasSpanProvenance, h.spans.1, h.spans.2]
  rfl

theorem Decoded.of_parts {size : ℕ} {fixed : Fixed} {metadata : Metadata} {identity : Identity}
    (hfixed : fixed.Valid) (hfits : Fits metadata) (hstrings : ∀ value ∈ headers metadata, Encodable value)
    (hidentity : identity = .absent ∨ IdentityOf identity)
    (hsize : headerSizeV2 + objectKeyLength + ((headers metadata).flatMap encodeNullable).length +
      (if hasSpanProvenance metadata then 40 else 0) +
        (if identity.deliveryId.isSome then encodeIdentity identity else []).length ≤ max size 129) :
    Decoded size (payloadOf fixed metadata identity) where
  key := hfixed.key
  numbers := hfixed.numbers
  fits := hfits
  strings := hstrings
  identity := fun hsome => by
    obtain rfl | hidentity := hidentity
    · cases hsome
    · exact hidentity.encodable
  absent := fun hnone => by
    obtain rfl | hidentity := hidentity
    · rfl
    · exact absurd hnone (Option.isSome_iff_ne_none.mp hidentity.deliveryId)
  size := (layout_length hfixed.key).trans_le hsize

theorem decoded_of_wire {data : List UInt8} {payload : MessageDelivered} (h : Wire data payload) :
    Decoded data.length payload := by
  have hspanBytes : ∀ flag span, (spanBytes flag span).length = 20 := fun flag span => by
    simp only [spanBytes, List.length_append, encode_length]
  have hspanLength : ∀ metadata : Metadata, (if hasSpanProvenance metadata then 40 else 0) ≤ 40 := fun metadata => by
    split <;> omega
  have habsent : (if Identity.absent.deliveryId.isSome then encodeIdentity Identity.absent else []).length = 0 := rfl
  cases h with
  | v1 hfixed _ _ =>
    refine .of_parts hfixed fits_noMetadata ?_ (.inl rfl) (le_trans (by decide) (Nat.le_max_right _ _))
    simp only [headers, noMetadata, List.forall_mem_cons, List.not_mem_nil, false_imp_iff, forall_const, and_true,
      and_self]
    exact fun s h => by cases h
  | v2 hfixed hheaders =>
    refine .of_parts hfixed (fits_of_headers hfixed hheaders) hheaders.strings (.inl rfl)
      (le_trans ?_ (Nat.le_max_left _ _))
    rw [List.length_append, Fixed.bytes_length hfixed (by decide), noSpans_of_headers hheaders, habsent]
    simp only [Bool.false_eq_true, if_false]
    omega
  | v3 hfixed hheaders hidentity =>
    refine .of_parts hfixed (fits_of_headers hfixed hheaders) hheaders.strings (.inr hidentity)
      (le_trans ?_ (Nat.le_max_left _ _))
    rw [List.length_append, List.length_append, Fixed.bytes_length hfixed (by decide), noSpans_of_headers hheaders,
      if_pos hidentity.deliveryId]
    simp only [Bool.false_eq_true, if_false]
    omega
  | @v4 fixed metadata flag flag' span span' hfixed hheaders hspan hspan' =>
    have hspans := hspanLength { metadata with messageIdSpan := span, subjectSpan := span' }
    have hheaderStrings := hheaders.strings
    refine .of_parts hfixed ⟨(fits_of_headers hfixed hheaders).1, hspan.offsets, hspan'.offsets⟩ hheaderStrings
      (.inl rfl) (le_trans ?_ (Nat.le_max_left _ _))
    simp only [List.length_append, hspanBytes]
    rw [Fixed.bytes_length hfixed (by decide), habsent]
    change _ + ((headers metadata).flatMap encodeNullable).length + _ + _ ≤ _
    omega
  | @v4Identity fixed metadata flag flag' span span' identity hfixed hheaders hspan hspan' hidentity =>
    have hspans := hspanLength { metadata with messageIdSpan := span, subjectSpan := span' }
    have hheaderStrings := hheaders.strings
    refine .of_parts hfixed ⟨(fits_of_headers hfixed hheaders).1, hspan.offsets, hspan'.offsets⟩ hheaderStrings
      (.inr hidentity) (le_trans ?_ (Nat.le_max_left _ _))
    simp only [List.length_append, hspanBytes]
    rw [Fixed.bytes_length hfixed (by decide), if_pos hidentity.deliveryId]
    change _ + ((headers metadata).flatMap encodeNullable).length + _ + _ ≤ _
    omega

/-- A decoded payload can be encoded, unless its delivery id is the empty string. -/
theorem reencode_of_decoded {size : ℕ} {payload : MessageDelivered} (h : Decoded size payload)
    (hsize : size ≤ 2 ^ 63 - 1) (hdelivery : payload.deliveryId ≠ some .empty) :
    ∃ bytes, reencode payload = .ok bytes ∧ decodePayload bytes.data = .ok (normalised payload) := by
  have hlen : max size 129 ≤ 2 ^ 63 - 1 := by omega
  have hencode := @encodeWithIdentity_of payload.objectKey payload.sizeBytes payload.internalDateUnixUs payload.metadata
    (identityOf payload) h.key hdelivery h.strings h.identity (h.size.trans hlen)
  refine ⟨_, hencode, ?_⟩
  rw [decode_encode hencode h.numbers.1 h.numbers.2 h.fits]
  have hidentity : (if (identityOf payload).deliveryId.isSome then identityOf payload else .absent) =
      identityOf payload := by
    split
    · rfl
    · rename_i hnone
      exact (h.absent (Option.not_isSome_iff_eq_none.mp hnone)).symm
  rw [stored, hidentity, normalised, Option.getD_some]
  by_cases hspan : hasSpanProvenance payload.metadata = true
  · simp only [hspan, if_true]
    rfl
  · simp only [hspan, Bool.false_eq_true, if_false]
    rfl

/-! ## The codec -/

theorem message_delivered_codec :
    (∀ {objectKey sizeBytes metadata internalDateUnixUs identity bytes}, sizeBytes < 2 ^ 64 →
      internalDateUnixUs < 2 ^ 64 → Fits (metadata.getD noMetadata) →
      encodeWithIdentity objectKey sizeBytes metadata internalDateUnixUs identity = .ok bytes →
      decodePayload bytes.data = .ok (stored objectKey sizeBytes metadata internalDateUnixUs identity)) ∧
    (∀ {data payload}, decodePayload data = .ok payload ↔ Wire data payload) ∧
    (∀ {bytes : GBytes} {payload}, decodePayload bytes.data = .ok payload → payload.deliveryId ≠ some .empty →
      ∃ bytes', reencode payload = .ok bytes' ∧ decodePayload bytes'.data = .ok (normalised payload)) ∧
    (∀ {data tail payload payload'}, decodePayload data = .ok payload → tail ≠ [] →
      decodePayload (data ++ tail) = .ok payload' →
      data.take magicLength = magicV4 ∧ payload.deliveryId = none ∧ payload'.deliveryId.isSome = true ∧
        payload = MessageDelivered.withIdentity payload' .absent ∧ tail = encodeIdentity (identityOf payload')) :=
  ⟨fun hsize hdate hfits h => decode_encode h hsize hdate hfits, decodePayload_eq_ok,
    fun h hdelivery => reencode_of_decoded (decoded_of_wire (decodePayload_eq_ok.mp h)) (GBytes.size_le _) hdelivery,
    decodePayload_append⟩

/-! ## Two payloads -/

def sampleFixed : Fixed where
  objectKey := ⟨ascii "sha256:" ++ List.replicate 64 48, zeroKey_no_nul⟩
  sizeBytes := 0
  internalDateUnixUs := 0
  duplicateMessageIdCount := 0

def namedIdentity (deliveryId : CString) : Identity := ⟨some deliveryId, none, none, none, []⟩

/-- The third version, with an empty delivery id. -/
def emptyIdBytes : List UInt8 :=
  sampleFixed.bytes magicV3 ++ ((headers noMetadata).flatMap encodeNullable ++ encodeIdentity (namedIdentity .empty))

/-- The fourth version, up to its spans. -/
def cutBytes : List UInt8 :=
  sampleFixed.bytes magicV4 ++ ((headers noMetadata).flatMap encodeNullable ++
    (spanBytes 0 .absent ++ spanBytes 0 .absent))

lemma sampleFixed_valid : sampleFixed.Valid := ⟨by decide, by decide, by decide⟩

lemma sampleHeaders : HeadersOf sampleFixed noMetadata := by
  refine ⟨fun value hmem s hs => ?_, rfl, rfl, rfl⟩
  simp only [headers, noMetadata, List.mem_cons, List.not_mem_nil, or_false, or_self] at hmem
  cases hmem.symm.trans hs

lemma namedIdentity_of {deliveryId : CString} (h : deliveryId.bytes.length < nullString) :
    IdentityOf (namedIdentity deliveryId) := by
  refine ⟨⟨fun value hmem s hs => ?_, Nat.two_pow_pos 32, fun _ h => absurd h List.not_mem_nil⟩, rfl⟩
  simp only [namedIdentity, List.mem_cons, List.not_mem_nil, or_false, or_self] at hmem
  obtain rfl | rfl := hmem
  · cases hs
    exact h
  · cases hs

theorem empty_id_and_cut_identity_accepted :
    (∃ payload, decodePayload emptyIdBytes = .ok payload ∧ ∀ bytes, reencode payload ≠ .ok bytes) ∧
      (∃ payload, decodePayload (cutBytes ++ encodeIdentity (namedIdentity (.literal "d"))) = .ok payload) ∧
        ∃ payload, decodePayload cutBytes = .ok payload := by
  have hspan : SpanOf 0 .absent := ⟨⟨by decide, rfl⟩, by decide, by decide⟩
  have hwhole := Wire.v4Identity sampleFixed_valid sampleHeaders hspan hspan
    (namedIdentity_of (by decide : (CString.literal "d").bytes.length < nullString))
  have hsame : cutBytes ++ encodeIdentity (namedIdentity (.literal "d")) = sampleFixed.bytes magicV4 ++
      ((headers noMetadata).flatMap encodeNullable ++ ((spanBytes 0 .absent ++ spanBytes 0 .absent) ++
        encodeIdentity (namedIdentity (.literal "d")))) := by
    simp only [cutBytes, List.append_assoc]
  rw [← hsame] at hwhole
  refine ⟨⟨_, decodePayload_eq_ok.mpr (.v3 sampleFixed_valid sampleHeaders (namedIdentity_of (by decide))), ?_⟩,
    ⟨_, decodePayload_eq_ok.mpr hwhole⟩,
    ⟨_, decodePayload_eq_ok.mpr (.v4 sampleFixed_valid sampleHeaders hspan hspan)⟩⟩
  intro bytes h
  exact (encoded_of_ok h).deliveryId rfl

end Wyrebox.MessageDeliveredPayload
