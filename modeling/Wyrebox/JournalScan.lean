import Wyrebox.JournalRecord

set_option autoImplicit false

/-!
# The safe-prefix scan

`scanSafePrefix` walks a journal file from the start, record by record, and stops at the
first bytes that are not a valid record with the expected sequence number.
-/
namespace Wyrebox.JournalScan
open LittleEndian ByteField JournalRecord

inductive StopReason where
  | eof
  | missingSegment
  | emptySegment
  | partialHeader
  | partialRecord
  | invalidMagic
  | invalidHeaderSize
  | invalidVersion
  | invalidSequence
  | invalidSize
  | zeroEventTypeLength
  | unknownEventType
  | checksumMismatch
  deriving DecidableEq, Repr

structure SafePrefix where
  safeEndOffset : ℕ
  lastSafeSequence : ℕ
  hasLastSafeSequence : Bool
  reachedEof : Bool
  unsafeSuffixFound : Bool
  stopReason : StopReason
  unsafeOffset : ℕ
  unsafeAvailableSize : ℕ
  unsafeRequiredSize : ℕ
  deriving DecidableEq, Repr

def SafePrefix.initial : SafePrefix := ⟨0, 0, false, false, false, .eof, 0, 0, 0⟩

def fieldPrefixMatches (header : List UInt8) (offset : ℕ) (expected : List UInt8) : Bool :=
  slice offset (min (header.length - offset) expected.length) header ==
    expected.take (min (header.length - offset) expected.length)

/-- `header` is the whole remainder of the file, shorter than a record header. -/
def classifyPartialHeaderPrefix (header : List UInt8) (expectedSequence : ℕ) : StopReason :=
  let available := header.length
  if !fieldPrefixMatches header 0 magic then .invalidMagic
  else if !fieldPrefixMatches header 8 (encode 2 headerSize) then .invalidHeaderSize
  else if !fieldPrefixMatches header 10 (encode 2 recordVersion) then .invalidVersion
  else if 12 < available &&
      !eventTypeLengthPrefixIsCanonical (slice 12 (min (available - 12) 4) header) then
    .unknownEventType
  else if 16 ≤ available && readLE 12 4 header == 0 then .zeroEventTypeLength
  else if 16 ≤ available && maxSize < readLE 12 4 header then .invalidSize
  else if 16 ≤ available && !eventTypeLengthIsCanonical (readLE 12 4 header) then
    .unknownEventType
  else if !fieldPrefixMatches header 16 (encode 8 expectedSequence) then .invalidSequence
  else if 32 ≤ available && maxSize < readLE 24 8 header then .invalidSize
  else if 32 ≤ available && (maxSize - headerSize < readLE 12 4 header ||
      maxSize - headerSize - readLE 12 4 header < readLE 24 8 header) then .invalidSize
  else .partialHeader

/-- What the scan finds at one offset. -/
inductive ScanStep where
  | stop (reason : StopReason) (available required : ℕ)
  | record (size : ℕ)
  deriving DecidableEq, Repr

/-- The part of a turn that follows the header checks: the record may run past the end of
    the file, name an unknown event type or fail its checksum. -/
def scanRecordBody (sha : Sha256) (rest : List UInt8) (eventLen payloadLen : ℕ) : ScanStep :=
  let remaining := rest.length
  let recordSize := headerSize + eventLen + payloadLen
  if remaining < recordSize then
    if eventLen ≤ remaining - headerSize then
      if (parseEventType (slice headerSize eventLen rest)).isNone then
        .stop .unknownEventType remaining 0
      else .stop .partialRecord remaining recordSize
    else if 0 < remaining - headerSize ∧ !eventTypePrefixIsPlausible
        (slice headerSize (remaining - headerSize) rest) eventLen then
      .stop .unknownEventType remaining 0
    else .stop .partialRecord remaining recordSize
  else if (parseEventType (slice headerSize eventLen rest)).isNone then
    .stop .unknownEventType recordSize 0
  else if slice 32 32 rest ≠ sha.digest (slice 0 32 rest ++ slice headerSize eventLen rest ++
      slice (headerSize + eventLen) payloadLen rest) then
    .stop .checksumMismatch recordSize recordSize
  else .record recordSize

/-- One turn of the scan loop on `rest`, the bytes from the current offset to the end. -/
def scanRecord (sha : Sha256) (rest : List UInt8) (expectedSequence : ℕ) : ScanStep :=
  let remaining := rest.length
  if remaining < headerSize then
    let reason := classifyPartialHeaderPrefix rest expectedSequence
    .stop reason remaining (if reason = .partialHeader then headerSize else 0)
  else if slice 0 8 rest ≠ magic then .stop .invalidMagic remaining 0
  else if readLE 8 2 rest ≠ headerSize then .stop .invalidHeaderSize remaining headerSize
  else if readLE 10 2 rest ≠ recordVersion then .stop .invalidVersion remaining 0
  else
    let eventLen := readLE 12 4 rest
    let sequence := readLE 16 8 rest
    let payloadLen := readLE 24 8 rest
    if sequence ≠ expectedSequence then .stop .invalidSequence remaining 0
    else if maxSize < payloadLen ∨ maxSize < eventLen then .stop .invalidSize remaining 0
    else if eventLen = 0 then .stop .zeroEventTypeLength remaining 0
    else if maxEventTypeLen < eventLen then .stop .unknownEventType remaining 0
    else if !eventTypeLengthIsCanonical eventLen then .stop .unknownEventType remaining 0
    else if maxSize - headerSize < eventLen ∨ maxSize - headerSize - eventLen < payloadLen then
      .stop .invalidSize remaining 0
    else scanRecordBody sha rest eventLen payloadLen

/-- `fuel` bounds the number of turns; every turn that continues consumes a header's bytes. -/
def scanLoop (sha : Sha256) : ℕ → List UInt8 → ℕ → ℕ → SafePrefix → SafePrefix
  | 0, _, _, _, found => found
  | fuel + 1, rest, offset, expectedSequence, found =>
    if rest.isEmpty then
      { found with reachedEof := true, unsafeSuffixFound := false, stopReason := .eof }
    else match scanRecord sha rest expectedSequence with
      | .stop reason available required =>
        { found with
          reachedEof := false
          unsafeSuffixFound := true
          stopReason := reason
          safeEndOffset := offset
          unsafeOffset := offset
          unsafeAvailableSize := available
          unsafeRequiredSize := required }
      | .record size =>
        scanLoop sha fuel (rest.drop size) (offset + size) ((expectedSequence + 1) % 2 ^ 64)
          { found with
            safeEndOffset := offset + size
            lastSafeSequence := expectedSequence
            hasLastSafeSequence := true }

/-- `none` is a segment that does not exist. -/
def scanSafePrefix (sha : Sha256) : Option (List UInt8) → SafePrefix
  | none => { SafePrefix.initial with reachedEof := true, stopReason := .missingSegment }
  | some [] => { SafePrefix.initial with reachedEof := true, stopReason := .emptySegment }
  | some bytes => scanLoop sha (bytes.length + 1) bytes 0 1 SafePrefix.initial

/-- `safe_prefix_is_recoverable_torn_suffix`. -/
def SafePrefix.isRecoverableTornSuffix (found : SafePrefix) : Bool :=
  found.unsafeSuffixFound && found.hasLastSafeSequence && 0 < found.safeEndOffset &&
    found.unsafeOffset == found.safeEndOffset &&
    (found.stopReason == .partialHeader || found.stopReason == .partialRecord)

/-! ## Whole records -/

/-- The header fields of `e` can be read from the start of `rest`. -/
structure HeaderAt (rest : List UInt8) (e : Entry) (sequence : ℕ) : Prop where
  magic_eq : slice 0 8 rest = magic
  headerSize_eq : readLE 8 2 rest = headerSize
  version_eq : readLE 10 2 rest = recordVersion
  eventLen_eq : readLE 12 4 rest = e.eventType.name.length
  sequence_eq : readLE 16 8 rest = sequence
  payloadLen_eq : readLE 24 8 rest = e.payload.data.length

theorem headerAt_record (sha : Sha256) (e : Entry) {sequence : ℕ} (hs : sequence < 256 ^ 8) :
    HeaderAt (e.record sha sequence) e sequence where
  magic_eq := slice_magic sha e sequence
  headerSize_eq := readLE_of_slice (slice_headerSize sha e sequence) (by decide)
  version_eq := readLE_of_slice (slice_version sha e sequence) (by decide)
  eventLen_eq := readLE_of_slice (slice_eventLen sha e sequence) e.eventLen_lt
  sequence_eq := readLE_of_slice (slice_sequence sha e sequence) hs
  payloadLen_eq := readLE_of_slice (slice_payloadLen sha e sequence) e.payloadLen_lt

theorem HeaderAt.append {bs : List UInt8} {e : Entry} {sequence : ℕ} (h : HeaderAt bs e sequence)
    (hlen : headerSize ≤ bs.length) (tail : List UInt8) : HeaderAt (bs ++ tail) e sequence := by
  rw [headerSize] at hlen
  exact
    { magic_eq := by rw [slice_append_left (by omega), h.magic_eq]
      headerSize_eq := by rw [readLE_append_left (by omega), h.headerSize_eq]
      version_eq := by rw [readLE_append_left (by omega), h.version_eq]
      eventLen_eq := by rw [readLE_append_left (by omega), h.eventLen_eq]
      sequence_eq := by rw [readLE_append_left (by omega), h.sequence_eq]
      payloadLen_eq := by rw [readLE_append_left (by omega), h.payloadLen_eq] }

theorem HeaderAt.take {bs : List UInt8} {e : Entry} {sequence n : ℕ} (h : HeaderAt bs e sequence)
    (hn : headerSize ≤ n) : HeaderAt (bs.take n) e sequence := by
  rw [headerSize] at hn
  exact
    { magic_eq := by rw [slice_take (by omega), h.magic_eq]
      headerSize_eq := by rw [readLE_take (by omega), h.headerSize_eq]
      version_eq := by rw [readLE_take (by omega), h.version_eq]
      eventLen_eq := by rw [readLE_take (by omega), h.eventLen_eq]
      sequence_eq := by rw [readLE_take (by omega), h.sequence_eq]
      payloadLen_eq := by rw [readLE_take (by omega), h.payloadLen_eq] }

/-- A readable header passes every header check, so only the body decides. -/
theorem scanRecord_of_headerAt (sha : Sha256) {rest : List UInt8} {e : Entry} {sequence : ℕ}
    (hlen : headerSize ≤ rest.length) (h : HeaderAt rest e sequence) :
    scanRecord sha rest sequence =
      scanRecordBody sha rest e.eventType.name.length e.payload.data.length := by
  have hsize := e.size_le_maxSize
  have hname := name_length_pos e.eventType
  rw [Entry.size] at hsize
  have hpay : ¬maxSize < e.payload.data.length := by omega
  have hev : ¬maxSize < e.eventType.name.length := by omega
  have hzero : e.eventType.name.length ≠ 0 := by omega
  have hmax : ¬maxEventTypeLen < e.eventType.name.length :=
    Nat.not_lt.mpr (name_length_le e.eventType)
  have hfit : ¬maxSize - headerSize < e.eventType.name.length := by omega
  have hfit' : ¬maxSize - headerSize - e.eventType.name.length < e.payload.data.length := by omega
  simp only [scanRecord, Nat.not_lt.mpr hlen, h.magic_eq, h.headerSize_eq, h.version_eq,
    h.eventLen_eq, h.sequence_eq, h.payloadLen_eq, eventTypeLengthIsCanonical_name, hpay, hev,
    hzero, hmax, hfit, hfit', ne_eq, not_true_eq_false, or_self, if_false, Bool.not_true,
    Bool.false_eq_true]

theorem scanRecord_record (sha : Sha256) (e : Entry) {sequence : ℕ} (hs : sequence < 256 ^ 8)
    (tail : List UInt8) : scanRecord sha (e.record sha sequence ++ tail) sequence = .record e.size := by
  have hlen : (e.record sha sequence).length = e.size := e.record_length sha sequence
  have hlt := e.headerSize_lt_size
  have hsize : e.size = headerSize + e.eventType.name.length + e.payload.data.length := rfl
  have h64 : headerSize = 64 := rfl
  have hname : slice headerSize e.eventType.name.length (e.record sha sequence ++ tail) =
      e.eventType.name := by
    rw [slice_append_left (by omega)]
    exact slice_name sha e sequence
  have hpay : slice (headerSize + e.eventType.name.length) e.payload.data.length
      (e.record sha sequence ++ tail) = e.payload.data := by
    rw [slice_append_left (by omega)]
    exact slice_payload sha e sequence
  have hfields : slice 0 32 (e.record sha sequence ++ tail) = e.fields sequence := by
    rw [slice_append_left (by omega), slice_fields]
  have hsum : slice 32 32 (e.record sha sequence ++ tail) = e.checksum sha sequence := by
    rw [slice_append_left (by omega), slice_checksum]
  have hfit : ¬(e.record sha sequence ++ tail).length <
      headerSize + e.eventType.name.length + e.payload.data.length := by
    rw [List.length_append]
    omega
  rw [scanRecord_of_headerAt sha (by rw [List.length_append]; omega)
    ((headerAt_record sha e hs).append (by omega) tail), scanRecordBody]
  simp only [hfit, if_false, hname, hpay, hfields, hsum, parseEventType_name, Entry.checksum,
    Option.isNone_some, Bool.false_eq_true, ne_eq, not_true_eq_false, hsize]

/-! ## Torn records -/

/-- A field of the whole header is matched by whatever part of it a torn header still holds. -/
theorem fieldPrefixMatches_take {bs : List UInt8} (offset : ℕ) (expected : List UInt8) {n : ℕ}
    (hn : n ≤ bs.length)
    (h : slice offset expected.length bs = expected) :
    fieldPrefixMatches (bs.take n) offset expected = true := by
  have hlen : (bs.take n).length = n := by simp [Nat.min_eq_left hn]
  rw [fieldPrefixMatches, hlen, beq_iff_eq]
  by_cases ho : n ≤ offset
  · simp [Nat.sub_eq_zero_of_le ho, slice]
  · rw [slice_take (by omega), slice_shorten (Nat.min_le_right (n - offset) _), h]

/-- A header with which a turn gets past all its checks. -/
structure HeaderPassed (header : List UInt8) (sequence : ℕ) : Prop where
  length : header.length = headerSize
  magic_eq : slice 0 8 header = magic
  headerSize_eq : readLE 8 2 header = headerSize
  version_eq : readLE 10 2 header = recordVersion
  sequence_eq : readLE 16 8 header = sequence
  canonical : eventTypeLengthIsCanonical (readLE 12 4 header) = true
  size_le : headerSize + readLE 12 4 header + readLE 24 8 header ≤ maxSize

theorem exists_name_of_canonical {eventLen : ℕ} (h : eventTypeLengthIsCanonical eventLen = true) :
    ∃ t : EventType, t.name.length = eventLen := by
  rw [eventTypeLengthIsCanonical, List.any_eq_true] at h
  obtain ⟨t, -, hlen⟩ := h
  exact ⟨t, beq_iff_eq.mp hlen⟩

theorem headerPassed_record (sha : Sha256) (e : Entry) {sequence : ℕ} (hs : sequence < 256 ^ 8) :
    HeaderPassed ((e.record sha sequence).take headerSize) sequence := by
  have hsize := e.headerSize_lt_size
  have hmax := e.size_le_maxSize
  have hhead := (headerAt_record sha e hs).take (le_refl headerSize)
  refine ⟨?_, hhead.magic_eq, hhead.headerSize_eq, hhead.version_eq, hhead.sequence_eq, ?_, ?_⟩
  · rw [List.length_take, Entry.record_length]
    omega
  · rw [hhead.eventLen_eq]
    exact eventTypeLengthIsCanonical_name e.eventType
  · rw [hhead.eventLen_eq, hhead.payloadLen_eq]
    exact hmax

/-- Whatever part of a good header is left, it is classified as torn. -/
theorem classifyPartialHeaderPrefix_take {header : List UInt8} {sequence n : ℕ} (h : HeaderPassed header sequence)
    (hn : n < headerSize) : classifyPartialHeaderPrefix (header.take n) sequence = .partialHeader := by
  have h64 : headerSize = 64 := rfl
  have hlength := h.length
  have hle : n ≤ header.length := by omega
  have hlen : (header.take n).length = n := by simp [Nat.min_eq_left hle]
  obtain ⟨t, ht⟩ := exists_name_of_canonical h.canonical
  have hmagic := fieldPrefixMatches_take 0 magic hle (by rw [magic_length]; exact h.magic_eq)
  have hhs := fieldPrefixMatches_take 8 (encode 2 headerSize) hle
    (by rw [encode_length]; exact slice_of_readLE (by omega) h.headerSize_eq)
  have hver := fieldPrefixMatches_take 10 (encode 2 recordVersion) hle
    (by rw [encode_length]; exact slice_of_readLE (by omega) h.version_eq)
  have hseq := fieldPrefixMatches_take 16 (encode 8 sequence) hle
    (by rw [encode_length]; exact slice_of_readLE (by omega) h.sequence_eq)
  have hname := name_length_pos t
  have hmax := h.size_le
  have hpre : 12 < n → eventTypeLengthPrefixIsCanonical (slice 12 (min (n - 12) 4) (header.take n)) = true := by
    intro h12
    have hevent : slice 12 4 header = encode 4 t.name.length := slice_of_readLE (by omega) ht.symm
    rw [slice_take (by omega), slice_shorten (Nat.min_le_right (n - 12) 4), hevent]
    exact eventTypeLengthPrefixIsCanonical_take t _ (Nat.min_le_right _ _)
  have hev : 16 ≤ n → readLE 12 4 (header.take n) = readLE 12 4 header := fun h16 => readLE_take (by omega) _
  have hpl : 32 ≤ n → readLE 24 8 (header.take n) = readLE 24 8 header := fun h32 => readLE_take (by omega) _
  simp only [classifyPartialHeaderPrefix, hlen, hmagic, hhs, hver, hseq, Bool.not_true,
    Bool.false_eq_true, if_false]
  have hzero : (readLE 12 4 header == 0) = false := by
    rw [beq_eq_false_iff_ne]
    omega
  have hevMax : ¬maxSize < readLE 12 4 header := by omega
  have hplMax : ¬maxSize < readLE 24 8 header := by omega
  have hevFit : ¬maxSize - headerSize < readLE 12 4 header := by omega
  have hplFit : ¬maxSize - headerSize - readLE 12 4 header < readLE 24 8 header := by omega
  -- each length check reads a field only once the torn header holds all of it
  by_cases h12 : 12 < n
  · by_cases h16 : 16 ≤ n
    · by_cases h32 : 32 ≤ n
      · simp [hpre h12, hev h16, hpl h32, h.canonical, hzero, hevMax, hplMax, hevFit, hplFit]
      · simp [hpre h12, hev h16, h.canonical, hzero, hevMax, h32]
    · have h32 : ¬32 ≤ n := by omega
      simp [hpre h12, h16, h32]
  · have h16 : ¬16 ≤ n := by omega
    have h32 : ¬32 ≤ n := by omega
    simp [h12, h16, h32]

theorem classifyPartialHeaderPrefix_torn (sha : Sha256) (e : Entry) {sequence : ℕ}
    (hs : sequence < 256 ^ 8) {n : ℕ} (hn : n < headerSize) :
    classifyPartialHeaderPrefix ((e.record sha sequence).take n) sequence = .partialHeader := by
  have htake := classifyPartialHeaderPrefix_take (headerPassed_record sha e hs) hn
  rwa [List.take_take, Nat.min_eq_left hn.le] at htake

/-- A record cut at any inner byte is classified as torn, never as corrupt. -/
theorem scanRecord_torn (sha : Sha256) (e : Entry) {sequence : ℕ} (hs : sequence < 256 ^ 8)
    {n : ℕ} (hn : n < e.size) :
    ∃ reason required, scanRecord sha ((e.record sha sequence).take n) sequence =
      .stop reason n required ∧ (reason = .partialHeader ∨ reason = .partialRecord) := by
  have hrec : (e.record sha sequence).length = e.size := e.record_length sha sequence
  have hlen : ((e.record sha sequence).take n).length = n := by
    rw [List.length_take]
    omega
  by_cases hhead : n < headerSize
  · refine ⟨.partialHeader, headerSize, ?_, Or.inl rfl⟩
    simp only [scanRecord, hlen, hhead, if_true, classifyPartialHeaderPrefix_torn sha e hs hhead]
  · have hle : headerSize ≤ n := by omega
    refine ⟨.partialRecord, e.size, ?_, Or.inr rfl⟩
    have h64 : headerSize = 64 := rfl
    have hsize : e.size = headerSize + e.eventType.name.length + e.payload.data.length := rfl
    rw [scanRecord_of_headerAt sha (by rw [hlen]; exact hle) ((headerAt_record sha e hs).take hle),
      scanRecordBody, hlen, ← hsize]
    by_cases hname : e.eventType.name.length ≤ n - headerSize
    · have hsl : slice headerSize e.eventType.name.length ((e.record sha sequence).take n) =
          e.eventType.name := by
        rw [slice_take (by omega)]
        exact slice_name sha e sequence
      simp [hn, hname, hsl, parseEventType_name]
    · have hsl : slice headerSize (n - headerSize) ((e.record sha sequence).take n) =
          e.eventType.name.take (n - headerSize) := by
        rw [slice_take (by omega),
          slice_shorten (by omega : n - headerSize ≤ e.eventType.name.length)]
        exact congrArg _ (slice_name sha e sequence)
      simp [hn, hname, hsl,
        eventTypePrefixIsPlausible_take e.eventType (n - headerSize) (by omega)]

/-! ## The whole scan -/

/-- What the scan remembers once it has passed `es`, the first of which lies at `offset`. -/
def SafePrefix.pass (found : SafePrefix) (offset sequence : ℕ) : List Entry → SafePrefix
  | [] => found
  | e :: es =>
    { found with
      safeEndOffset := offset + totalSize (e :: es)
      lastSafeSequence := sequence + es.length
      hasLastSafeSequence := true }

theorem SafePrefix.pass_cons (found : SafePrefix) (offset sequence : ℕ) (e : Entry)
    (es : List Entry) :
    SafePrefix.pass
      { found with
        safeEndOffset := offset + e.size
        lastSafeSequence := sequence
        hasLastSafeSequence := true } (offset + e.size) (sequence + 1) es =
      found.pass offset sequence (e :: es) := by
  cases es with
  | nil => simp [pass, totalSize]
  | cons f fs =>
    simp only [pass, totalSize, List.map_cons, List.sum_cons, List.length_cons,
      SafePrefix.mk.injEq, and_true]
    exact ⟨by omega, by omega⟩

theorem scanLoop_image (sha : Sha256) (es : List Entry) (tail : List UInt8) (fuel offset : ℕ)
    {sequence : ℕ} (hs : sequence + es.length < 2 ^ 64) (found : SafePrefix) :
    scanLoop sha (fuel + es.length) (image sha sequence es ++ tail) offset sequence found =
      scanLoop sha fuel tail (offset + totalSize es) (sequence + es.length)
        (found.pass offset sequence es) := by
  induction es generalizing offset sequence found with
  | nil => simp [image, totalSize, SafePrefix.pass]
  | cons e es ih =>
    rw [List.length_cons] at hs
    have hrec : (e.record sha sequence).length = e.size := e.record_length sha sequence
    have hpos := e.size_pos
    have hne : (e.record sha sequence ++ (image sha (sequence + 1) es ++ tail)).isEmpty = false := by
      rw [List.isEmpty_eq_false_iff, ← List.length_pos_iff, List.length_append]
      omega
    have hdrop : (e.record sha sequence ++ (image sha (sequence + 1) es ++ tail)).drop e.size =
        image sha (sequence + 1) es ++ tail := by
      rw [← hrec, List.drop_left]
    rw [List.length_cons, ← Nat.add_assoc, image, List.append_assoc, scanLoop, hne,
      scanRecord_record sha e (by omega)]
    simp only [Bool.false_eq_true, if_false, hdrop]
    rw [Nat.mod_eq_of_lt (by omega), ih (offset + e.size) (by omega), found.pass_cons]
    congr 1
    · simp only [totalSize, List.map_cons, List.sum_cons]
      omega
    · omega

theorem scanSafePrefix_of_ne_nil (sha : Sha256) {bytes : List UInt8} (h : bytes ≠ []) :
    scanSafePrefix sha (some bytes) =
      scanLoop sha (bytes.length + 1) bytes 0 1 SafePrefix.initial := by
  cases bytes with
  | nil => exact absurd rfl h
  | cons b bs => rfl

/-- The scan of an intact journal reaches its end. -/
theorem scanSafePrefix_image (sha : Sha256) {es : List Entry} (hne : es ≠ [])
    (hlen : es.length + 1 < 2 ^ 64) :
    scanSafePrefix sha (some (image sha 1 es)) =
      ⟨totalSize es, es.length, true, true, false, .eof, 0, 0, 0⟩ := by
  obtain ⟨e, es, rfl⟩ := List.exists_cons_of_ne_nil hne
  have hsize := length_le_totalSize (e :: es)
  have hpos : 0 < (image sha 1 (e :: es)).length := by
    rw [image_length, totalSize, List.map_cons, List.sum_cons]
    have := e.size_pos
    omega
  have hfuel : (image sha 1 (e :: es)).length + 1 =
      (totalSize (e :: es) - (e :: es).length) + 1 + (e :: es).length := by
    rw [image_length]
    omega
  have hloop := scanLoop_image sha (e :: es) [] (totalSize (e :: es) - (e :: es).length + 1) 0
    (by omega : 1 + (e :: es).length < 2 ^ 64) SafePrefix.initial
  rw [List.append_nil, ← hfuel] at hloop
  rw [scanSafePrefix_of_ne_nil sha (List.ne_nil_of_length_pos hpos), hloop]
  simp [scanLoop, SafePrefix.pass, SafePrefix.initial, Nat.add_comm]

/-- The scan stops at the first bytes behind whole records that are not a record. -/
theorem scanSafePrefix_stop (sha : Sha256) (es : List Entry) {tail : List UInt8} {reason : StopReason}
    {available required : ℕ} (hlen : es.length + 1 < 2 ^ 64) (htail : tail ≠ [])
    (hstop : scanRecord sha tail (es.length + 1) = .stop reason available required) :
    scanSafePrefix sha (some (image sha 1 es ++ tail)) =
      ⟨totalSize es, es.length, !es.isEmpty, false, true, reason, totalSize es, available, required⟩ := by
  have hne : tail.isEmpty = false := List.isEmpty_eq_false_iff.mpr htail
  have hpos := List.length_pos_iff.mpr htail
  have hsize := length_le_totalSize es
  have hfile : 0 < (image sha 1 es ++ tail).length := by
    rw [List.length_append]
    omega
  have hfuel : (image sha 1 es ++ tail).length + 1 =
      (totalSize es + tail.length - es.length) + 1 + es.length := by
    rw [List.length_append, image_length]
    omega
  have hloop := scanLoop_image sha es tail (totalSize es + tail.length - es.length + 1) 0
    (by omega : 1 + es.length < 2 ^ 64) SafePrefix.initial
  rw [← hfuel] at hloop
  rw [scanSafePrefix_of_ne_nil sha (List.ne_nil_of_length_pos hfile), hloop, scanLoop, hne,
    Nat.add_comm 1, hstop]
  cases es with
  | nil => simp [SafePrefix.pass, SafePrefix.initial, totalSize]
  | cons f fs => simp [SafePrefix.pass, SafePrefix.initial, Nat.add_comm]

/-- The scan of a journal with a torn last record stops exactly at its last whole record. -/
theorem scanSafePrefix_torn (sha : Sha256) (es : List Entry) (e : Entry) {n : ℕ} (hpos : 0 < n)
    (hn : n < e.size) (hlen : es.length + 1 < 2 ^ 64) :
    ∃ reason required, (reason = .partialHeader ∨ reason = .partialRecord) ∧
      scanSafePrefix sha (some (image sha 1 es ++ (e.record sha (es.length + 1)).take n)) =
        ⟨totalSize es, es.length, !es.isEmpty, false, true, reason, totalSize es, n, required⟩ := by
  obtain ⟨reason, required, hstop, hreason⟩ :=
    scanRecord_torn sha e (by omega : es.length + 1 < 256 ^ 8) hn
  have htail : (e.record sha (es.length + 1)).take n ≠ [] := by
    rw [← List.length_pos_iff, List.length_take, Entry.record_length]
    omega
  exact ⟨reason, required, hreason, scanSafePrefix_stop sha es hlen htail hstop⟩

/-- A torn suffix can be recovered exactly when some record precedes it. -/
theorem isRecoverableTornSuffix_torn (sha : Sha256) (es : List Entry) (e : Entry) {n : ℕ}
    (hpos : 0 < n) (hn : n < e.size) (hlen : es.length + 1 < 2 ^ 64) :
    (scanSafePrefix sha (some (image sha 1 es ++
      (e.record sha (es.length + 1)).take n))).isRecoverableTornSuffix = !es.isEmpty := by
  obtain ⟨reason, required, hreason, hscan⟩ := scanSafePrefix_torn sha es e hpos hn hlen
  rw [hscan]
  have hr : (reason == .partialHeader || reason == .partialRecord) = true := by
    rcases hreason with rfl | rfl <;> decide
  cases es with
  | nil => simp [SafePrefix.isRecoverableTornSuffix]
  | cons f fs =>
    have hf : 0 < totalSize (f :: fs) := by
      have := f.size_pos
      simp only [totalSize, List.map_cons, List.sum_cons]
      omega
    simp only [SafePrefix.isRecoverableTornSuffix, hr, List.isEmpty_cons]
    simp [hf]

end Wyrebox.JournalScan
