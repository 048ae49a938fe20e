import Wyrebox.Fallible
import Wyrebox.JournalScan

set_option autoImplicit false

/-!
# The sequential reader

`readNext` returns one record after another and refuses everything after the first defect.
-/
namespace Wyrebox.JournalReader
open LittleEndian ByteField JournalRecord Fallible

/-- The journal segment file. Its size is an `off_t`. -/
structure Segment where
  bytes : List UInt8
  size_le : bytes.length ≤ maxOffset

def Segment.empty : Segment := ⟨[], Nat.zero_le _⟩

def Segment.truncate (segment : Segment) (n : ℕ) : Segment :=
  ⟨segment.bytes.take n, (List.length_take_le' n segment.bytes).trans segment.size_le⟩

/-- A write that would pass the largest file offset is cut there. -/
def Segment.extend (segment : Segment) (data : List UInt8) : Segment :=
  ⟨segment.bytes ++ data.take (maxOffset - segment.bytes.length), by
    have h := segment.size_le
    rw [List.length_append, List.length_take]
    omega⟩

/-- `contents` is `none` when the segment file does not exist. -/
structure Reader where
  contents : Option Segment
  fileSize : ℕ
  offset : ℕ
  nextSequence : ℕ

def Reader.newWithLimit (segment : Option Segment) (limit : ℕ) : Reader where
  contents := segment
  fileSize := match segment with
    | none => 0
    | some segment => min segment.bytes.length limit
  offset := 0
  nextSequence := 1

def Reader.new (segment : Option Segment) : Reader := .newWithLimit segment maxSize

structure Record where
  offset : ℕ
  sequence : ℕ
  eventType : EventType
  payload : List UInt8
  deriving DecidableEq, Repr

/-- Every one of these is a `G_IO_ERROR_INVALID_DATA`. -/
inductive ReadError where
  | truncatedHeader
  | invalidMagic
  | invalidHeaderSize (found : ℕ)
  | invalidVersion (found : ℕ)
  | invalidSequence (expected found : ℕ)
  | lengthTooLarge
  | zeroEventTypeLength
  | invalidSize
  | unknownEventType
  | checksumMismatch
  | sequenceExhausted
  deriving DecidableEq, Repr

def ReadError.message : ReadError → String
  | .truncatedHeader => "failed to read complete journal record header: truncated"
  | .invalidMagic => "invalid journal magic"
  | .invalidHeaderSize found => "invalid journal record header size: " ++ toString found
  | .invalidVersion found => "invalid journal record version: " ++ toString found
  | .invalidSequence expected found =>
    "invalid journal sequence: expected " ++ toString expected ++ ", found " ++ toString found
  | .lengthTooLarge => "journal payload or event length is too large"
  | .zeroEventTypeLength => "journal event type length is zero"
  | .invalidSize => "journal record has invalid size"
  | .unknownEventType => "unknown journal event type"
  | .checksumMismatch => "journal record checksum mismatch"
  | .sequenceExhausted => "journal sequence space is exhausted"

/-- `.ok none` is a clean end of file. -/
def readNext (sha : Sha256) (reader : Reader) : Except ReadError (Option (Record × Reader)) :=
  match reader.contents with
  | none => .ok none
  | some segment =>
    if reader.fileSize ≤ reader.offset then .ok none
    else
      let remaining := reader.fileSize - reader.offset
      let rest := segment.bytes.drop reader.offset
      if remaining < headerSize then .error .truncatedHeader
      else if slice 0 8 rest ≠ magic then .error .invalidMagic
      else if readLE 8 2 rest ≠ headerSize then .error (.invalidHeaderSize (readLE 8 2 rest))
      else if readLE 10 2 rest ≠ recordVersion then .error (.invalidVersion (readLE 10 2 rest))
      else
        let eventLen := readLE 12 4 rest
        let sequence := readLE 16 8 rest
        let payloadLen := readLE 24 8 rest
        if sequence ≠ reader.nextSequence then
          .error (.invalidSequence reader.nextSequence sequence)
        else if maxSize < payloadLen ∨ maxSize < eventLen then .error .lengthTooLarge
        else if eventLen = 0 then .error .zeroEventTypeLength
        else if remaining - headerSize < eventLen ∨
            remaining - headerSize - eventLen < payloadLen then .error .invalidSize
        else match parseEventType (slice headerSize eventLen rest) with
          | none => .error .unknownEventType
          | some eventType =>
            let payload := slice (headerSize + eventLen) payloadLen rest
            if slice 32 32 rest ≠
                sha.digest (slice 0 32 rest ++ slice headerSize eventLen rest ++ payload) then
              .error .checksumMismatch
            else
              .ok (some (⟨reader.offset, sequence, eventType, payload⟩,
                { reader with
                  offset := reader.offset + headerSize + eventLen + payloadLen
                  nextSequence := (reader.nextSequence + 1) % 2 ^ 64 }))

/-- The loop of `replay_existing_segment`: the sequence number of the last record. -/
def replayLoop (sha : Sha256) : ℕ → Reader → ℕ → Except ReadError ℕ
  | 0, _, lastSequence => .ok lastSequence
  | fuel + 1, reader, lastSequence =>
    match readNext sha reader with
    | .error error => .error error
    | .ok none => .ok lastSequence
    | .ok (some (record, reader)) => replayLoop sha fuel reader record.sequence

/-- The next sequence number of a segment that is not empty. -/
def replayExistingSegment (sha : Sha256) (segment : Segment) : Except ReadError ℕ :=
  match replayLoop sha (segment.bytes.length + 1) (.new (some segment)) 0 with
  | .error error => .error error
  | .ok lastSequence =>
    if lastSequence = maxSize then .error .sequenceExhausted else .ok (lastSequence + 1)

/-- Successive calls of `readNext` until one does not return a record: the records, and the error
    of the last call unless that was a clean end of file. -/
def readAll (sha : Sha256) : ℕ → Reader → List Record × Option ReadError
  | 0, _ => ([], none)
  | fuel + 1, reader =>
    match readNext sha reader with
    | .error error => ([], some error)
    | .ok none => ([], none)
    | .ok (some (record, reader)) =>
      let (records, error) := readAll sha fuel reader
      (record :: records, error)

/-- A new reader run to its end. Every record takes a header's bytes, so the fuel suffices. -/
def readSegment (sha : Sha256) (segment : Option Segment) : List Record × Option ReadError :=
  readAll sha ((segment.getD .empty).bytes.length + 1) (.new segment)

/-! ## Reading valid records -/

/-- The state of a reader that has passed the first `position` bytes of `segment`. -/
abbrev Reader.at (segment : Segment) (position nextSequence : ℕ) : Reader :=
  ⟨some segment, segment.bytes.length, position, nextSequence⟩

theorem Reader.new_eq_at (segment : Segment) : Reader.new (some segment) = .at segment 0 1 := by
  have h := segment.size_le
  rw [maxOffset] at h
  simp only [Reader.new, Reader.newWithLimit, Reader.at, maxSize]
  rw [Nat.min_eq_left (by omega)]

theorem readNext_end (sha : Sha256) (segment : Segment) (sequence : ℕ) :
    readNext sha (.at segment segment.bytes.length sequence) = .ok none := by
  simp [readNext]

def recordOf (e : Entry) (offset sequence : ℕ) : Record :=
  ⟨offset, sequence, e.eventType, e.payload.data⟩

/-- A record that ends within the reader's file size is read. -/
theorem readNext_record_within (sha : Sha256) {segment : Segment} {fileSize position : ℕ} {e : Entry}
    {sequence : ℕ} (tail : List UInt8) (hs : sequence < 2 ^ 64) (hfits : position + e.size ≤ fileSize)
    (hrest : segment.bytes.drop position = e.record sha sequence ++ tail) :
    readNext sha ⟨some segment, fileSize, position, sequence⟩ =
      .ok (some (recordOf e position sequence,
        ⟨some segment, fileSize, position + e.size, (sequence + 1) % 2 ^ 64⟩)) := by
  have hrec : (e.record sha sequence).length = e.size := e.record_length sha sequence
  have hlt := e.headerSize_lt_size
  have hsize : e.size = headerSize + e.eventType.name.length + e.payload.data.length := rfl
  have hmax := e.size_le_maxSize
  have h64 : headerSize = 64 := rfl
  have hnamePos := name_length_pos e.eventType
  have hhead : JournalScan.HeaderAt (e.record sha sequence ++ tail) e sequence :=
    (JournalScan.headerAt_record sha e (by omega)).append (by omega) tail
  have hname : slice headerSize e.eventType.name.length (e.record sha sequence ++ tail) =
      e.eventType.name := by
    rw [slice_append_left (by omega)]
    exact slice_name sha e sequence
  have hpay : slice (headerSize + e.eventType.name.length) e.payload.data.length
      (e.record sha sequence ++ tail) = e.payload.data := by
    rw [slice_append_left (by omega)]
    exact slice_payload sha e sequence
  have hfields : slice 0 32 (e.record sha sequence ++ tail) = e.fields sequence := by
    rw [slice_append_left (by omega), slice_fields]
  have hsum : slice 32 32 (e.record sha sequence ++ tail) = e.checksum sha sequence := by
    rw [slice_append_left (by omega), slice_checksum]
  have hend : ¬fileSize ≤ position := by omega
  have hremain : ¬fileSize - position < headerSize := by omega
  have hbig : ¬(maxSize < e.payload.data.length ∨ maxSize < e.eventType.name.length) := by omega
  have hzero : e.eventType.name.length ≠ 0 := by omega
  have hfit : ¬(fileSize - position - headerSize < e.eventType.name.length ∨
      fileSize - position - headerSize - e.eventType.name.length < e.payload.data.length) := by omega
  simp only [readNext, hend, hremain, hrest, hhead.magic_eq, hhead.headerSize_eq,
    hhead.version_eq, hhead.eventLen_eq, hhead.sequence_eq, hhead.payloadLen_eq, hbig, hzero, hfit,
    hname, hpay, hfields, hsum, parseEventType_name, Entry.checksum, if_false, ne_eq,
    not_true_eq_false, recordOf]
  rw [hsize, Nat.add_assoc position headerSize, Nat.add_assoc position]

theorem readNext_record (sha : Sha256) {segment : Segment} {position : ℕ} {e : Entry}
    {sequence : ℕ} (tail : List UInt8) (hs : sequence < 2 ^ 64)
    (hrest : segment.bytes.drop position = e.record sha sequence ++ tail) :
    readNext sha (.at segment position sequence) =
      .ok (some (recordOf e position sequence,
        .at segment (position + e.size) ((sequence + 1) % 2 ^ 64))) := by
  have hlen := congrArg List.length hrest
  have hlt := e.size_pos
  rw [List.length_drop, List.length_append, Entry.record_length] at hlen
  exact readNext_record_within sha tail hs (by omega) hrest

/-- The records that consecutive entries make, the first at `offset` with number `sequence`. -/
def recordsOf : ℕ → ℕ → List Entry → List Record
  | _, _, [] => []
  | offset, sequence, e :: es => recordOf e offset sequence :: recordsOf (offset + e.size) (sequence + 1) es

theorem recordsOf_length (offset sequence : ℕ) (es : List Entry) :
    (recordsOf offset sequence es).length = es.length := by
  induction es generalizing offset sequence with
  | nil => rfl
  | cons e es ih => simp [recordsOf, ih]

theorem recordsOf_append (offset sequence : ℕ) (es fs : List Entry) :
    recordsOf offset sequence (es ++ fs) =
      recordsOf offset sequence es ++ recordsOf (offset + totalSize es) (sequence + es.length) fs := by
  induction es generalizing offset sequence with
  | nil => simp [recordsOf, totalSize]
  | cons e es ih =>
    simp only [List.cons_append, recordsOf, ih, totalSize, List.map_cons, List.sum_cons, List.length_cons]
    rw [Nat.add_assoc offset, Nat.add_right_comm sequence, Nat.add_assoc sequence]

/-- The `k`-th record lies behind the first `k` entries. -/
theorem recordsOf_getElem (offset sequence : ℕ) (es fs : List Entry) (e : Entry) :
    (recordsOf offset sequence (es ++ e :: fs))[es.length]? =
      some (recordOf e (offset + totalSize es) (sequence + es.length)) := by
  rw [recordsOf_append, List.getElem?_append_right (by rw [recordsOf_length]), recordsOf_length, Nat.sub_self]
  rfl

theorem drop_image (sha : Sha256) {bytes : List UInt8} {position sequence : ℕ} {e : Entry}
    {es : List Entry} (h : bytes.drop position = image sha sequence (e :: es)) :
    bytes.drop (position + e.size) = image sha (sequence + 1) es := by
  rw [← List.drop_drop, h, image, ← e.record_length sha sequence, List.drop_left]

/-- Reading entries that fill the file to its end returns their records and ends cleanly. -/
theorem readAll_image (sha : Sha256) (segment : Segment) (es : List Entry) (fuel position sequence : ℕ)
    (hs : sequence + es.length < 2 ^ 64) (hpos : position ≤ segment.bytes.length)
    (hrest : segment.bytes.drop position = image sha sequence es) :
    readAll sha (fuel + 1 + es.length) (.at segment position sequence) =
      (recordsOf position sequence es, none) := by
  induction es generalizing position sequence with
  | nil =>
    have hlen := congrArg List.length hrest
    rw [List.length_drop, image, List.length_nil] at hlen
    have hend : position = segment.bytes.length := by omega
    rw [List.length_nil, Nat.add_zero, readAll, hend, readNext_end]
    rfl
  | cons e es ih =>
    rw [List.length_cons] at hs
    have hlen := congrArg List.length hrest
    rw [List.length_drop, image_length, totalSize, List.map_cons, List.sum_cons] at hlen
    have hsize := e.size_pos
    have hnext := readNext_record sha (image sha (sequence + 1) es) (by omega : sequence < 2 ^ 64) hrest
    rw [Nat.mod_eq_of_lt (by omega)] at hnext
    have hstep := ih (position + e.size) (sequence + 1) (by omega) (by omega) (drop_image sha hrest)
    rw [List.length_cons, ← Nat.add_assoc, readAll, hnext]
    simp only [hstep, recordsOf]

theorem readSegment_image (sha : Sha256) {segment : Segment} {es : List Entry}
    (h : segment.bytes = image sha 1 es) :
    readSegment sha (some segment) = (recordsOf 0 1 es, none) := by
  have hsize := length_le_totalSize es
  have hlen : segment.bytes.length = totalSize es := by rw [h, image_length]
  have hmax := segment.size_le
  rw [maxOffset] at hmax
  have hread := readAll_image sha segment es (totalSize es - es.length) 0 1 (by omega) (Nat.zero_le _)
    (by rw [List.drop_zero, h])
  rw [readSegment, Option.getD_some, hlen, Reader.new_eq_at, ← hread]
  congr 1
  omega

theorem replayLoop_image (sha : Sha256) (segment : Segment) (es : List Entry) (fuel position
    sequence lastSequence : ℕ) (hs : sequence + es.length < 2 ^ 64)
    (hpos : position ≤ segment.bytes.length)
    (hrest : segment.bytes.drop position = image sha sequence es) :
    replayLoop sha (fuel + 1 + es.length) (.at segment position sequence) lastSequence =
      .ok (if es = [] then lastSequence else sequence + es.length - 1) := by
  induction es generalizing position sequence lastSequence with
  | nil =>
    have hend : position = segment.bytes.length := by
      have := congrArg List.length hrest
      simp only [List.length_drop, image, List.length_nil] at this
      omega
    simp only [List.length_nil, Nat.add_zero, replayLoop, hend, readNext_end, if_true]
  | cons e es ih =>
    rw [List.length_cons] at hs
    have hlen := congrArg List.length hrest
    rw [List.length_drop, image_length, totalSize, List.map_cons, List.sum_cons] at hlen
    have hnext := readNext_record sha (image sha (sequence + 1) es)
      (by omega : sequence < 2 ^ 64) hrest
    rw [Nat.mod_eq_of_lt (by omega)] at hnext
    have hstep := ih (position + e.size) (sequence + 1) sequence (by omega) (by omega)
      (drop_image sha hrest)
    rw [List.length_cons, ← Nat.add_assoc, replayLoop, hnext]
    simp only [recordOf, hstep, reduceCtorEq, if_false]
    split
    · rename_i h
      simp [h]
    · congr 1
      omega

/-- An intact journal of `n` records gives the writer the number `n + 1`. -/
theorem replayExistingSegment_image (sha : Sha256) {segment : Segment} {es : List Entry}
    (h : segment.bytes = image sha 1 es) :
    replayExistingSegment sha segment = .ok (es.length + 1) := by
  have hsize := length_le_totalSize es
  have hlen : segment.bytes.length = totalSize es := by rw [h, image_length]
  have hmax := segment.size_le
  rw [maxOffset] at hmax
  have hloop := replayLoop_image sha segment es (totalSize es - es.length) 0 1 0
    (by omega) (Nat.zero_le _) (by rw [List.drop_zero, h])
  have hfuel : segment.bytes.length + 1 = totalSize es - es.length + 1 + es.length := by omega
  rw [replayExistingSegment, hfuel, Reader.new_eq_at, hloop]
  cases es with
  | nil => simp [maxSize]
  | cons e es =>
    simp only [reduceCtorEq, if_false, List.length_cons] at *
    rw [if_neg (by rw [maxSize]; omega)]
    congr 1
    omega

/-! ## Only valid records are read -/

/-- Six checked integer fields and the magic determine the first half of a header. -/
theorem slice_headerFields {rest : List UInt8} {eventLen sequence payloadLen : ℕ}
    (hlen : 32 ≤ rest.length) (hmagic : slice 0 8 rest = magic)
    (hsize : readLE 8 2 rest = headerSize) (hver : readLE 10 2 rest = recordVersion)
    (hev : readLE 12 4 rest = eventLen) (hseq : readLE 16 8 rest = sequence)
    (hpl : readLE 24 8 rest = payloadLen) :
    slice 0 32 rest = headerFields eventLen sequence payloadLen := by
  rw [headerFields, ← hmagic, ← slice_of_readLE (by omega) hsize, ← slice_of_readLE (by omega) hver,
    ← slice_of_readLE (by omega) hev, ← slice_of_readLE (by omega) hseq,
    ← slice_of_readLE (by omega) hpl]
  rw [slice_append_slice 16 8 8, slice_append_slice 12 4, slice_append_slice 10 2,
    slice_append_slice 8 2, slice_append_slice 0 8]

/-- Bytes that pass every check of a decoder are the record of some entry. -/
theorem record_of_checked (sha : Sha256) {rest : List UInt8} {sequence eventLen payloadLen : ℕ}
    {eventType : EventType} (hfile : rest.length ≤ maxOffset)
    (hfit : headerSize + eventLen + payloadLen ≤ rest.length) (hmagic : slice 0 8 rest = magic)
    (hsize : readLE 8 2 rest = headerSize) (hver : readLE 10 2 rest = recordVersion)
    (hev : readLE 12 4 rest = eventLen) (hseq : readLE 16 8 rest = sequence)
    (hpl : readLE 24 8 rest = payloadLen)
    (hparse : parseEventType (slice headerSize eventLen rest) = some eventType)
    (hsum : slice 32 32 rest = sha.digest (slice 0 32 rest ++ slice headerSize eventLen rest ++
      slice (headerSize + eventLen) payloadLen rest)) :
    ∃ e : Entry, rest = e.record sha sequence ++ rest.drop e.size ∧
      e.size = headerSize + eventLen + payloadLen ∧ e.eventType = eventType ∧
      e.payload.data = slice (headerSize + eventLen) payloadLen rest := by
  have h64 : headerSize = 64 := rfl
  rw [maxOffset] at hfile
  have hname := name_of_parseEventType hparse
  have hnameLen : eventType.name.length = eventLen := by
    rw [hname, slice_length_of_le (by omega)]
  have hpayLen : (slice (headerSize + eventLen) payloadLen rest).length = payloadLen :=
    slice_length_of_le (by omega)
  let e : Entry := ⟨eventType, ⟨slice (headerSize + eventLen) payloadLen rest, by
    rw [hpayLen]
    omega⟩⟩
  have hfields : slice 0 32 rest = e.fields sequence := by
    rw [Entry.fields, show e.payload.data.length = payloadLen from hpayLen,
      show e.eventType.name.length = eventLen from hnameLen]
    exact slice_headerFields (by omega) hmagic hsize hver hev hseq hpl
  have hcheck : slice 32 32 rest = e.checksum sha sequence := by
    rw [hsum, Entry.checksum, ← hfields, ← hname]
  have hesize : e.size = headerSize + eventLen + payloadLen := by
    rw [Entry.size, show e.payload.data.length = payloadLen from hpayLen,
      show e.eventType.name.length = eventLen from hnameLen]
  refine ⟨e, ?_, hesize, rfl, rfl⟩
  calc
    rest = slice 0 32 rest ++ (slice 32 32 rest ++ (slice headerSize eventLen rest ++
        (slice (headerSize + eventLen) payloadLen rest ++
          rest.drop (headerSize + eventLen + payloadLen)))) := by
      rw [slice_append_drop, slice_append_drop, h64, slice_append_drop rest,
        slice_append_drop rest, List.drop_zero]
    _ = e.record sha sequence ++ rest.drop e.size := by
      rw [hfields, hcheck, ← hname, hesize, Entry.record, Entry.body]
      simp only [List.append_assoc, e]

/-- A record returned by the reader is the record some entry has at this place. -/
theorem readNext_sound (sha : Sha256) {segment : Segment} {position sequence : ℕ}
    {record : Record} {next : Reader}
    (h : readNext sha (.at segment position sequence) = .ok (some (record, next))) :
    ∃ (e : Entry) (tail : List UInt8),
      segment.bytes.drop position = e.record sha sequence ++ tail ∧
      record = recordOf e position sequence ∧
      next = .at segment (position + e.size) ((sequence + 1) % 2 ^ 64) := by
  have hend : ¬segment.bytes.length ≤ position := by
    intro hend
    simp [readNext, hend] at h
  simp only [readNext, hend, if_false, ite_error_eq_ok] at h
  obtain ⟨hremain, hmagic, hsize, hver, hseq, -, -, hfit, h⟩ := h
  split at h
  · simp at h
  rename_i eventType hparse
  obtain ⟨hsum, h⟩ := ite_error_eq_ok.mp h
  have hlen : segment.bytes.length - position = (segment.bytes.drop position).length := by
    rw [List.length_drop]
  have hfile := segment.size_le
  generalize segment.bytes.drop position = rest at *
  have h64 : headerSize = 64 := rfl
  rw [hlen] at hremain hfit
  simp only [not_not] at hmagic hsize hver hseq hsum
  obtain ⟨e, hrest, hesize, htype, hpayload⟩ := record_of_checked sha (by omega) (by omega) hmagic hsize
    hver rfl hseq rfl hparse hsum
  simp only [Except.ok.injEq, Option.some.injEq, Prod.mk.injEq] at h
  refine ⟨e, _, hrest, ?_, ?_⟩
  · rw [← h.1, recordOf, hseq, htype, hpayload]
  · rw [← h.2, Reader.at, hesize, ← Nat.add_assoc, ← Nat.add_assoc]

theorem readNext_eof (sha : Sha256) {segment : Segment} {position sequence : ℕ}
    (h : readNext sha (.at segment position sequence) = .ok none) :
    segment.bytes.length ≤ position := by
  by_contra hlt
  simp only [readNext, hlt, if_false, ite_error_eq_ok] at h
  obtain ⟨-, -, -, -, -, -, -, -, h⟩ := h
  split at h
  · simp at h
  · simp only [ite_error_eq_ok, Except.ok.injEq, reduceCtorEq, and_false] at h

/-- A replay that succeeds has read the whole file as records. -/
theorem replayLoop_sound (sha : Sha256) (segment : Segment)
    (fuel position sequence lastSequence result : ℕ) (hfuel : segment.bytes.length < position + fuel)
    (hs : sequence + (segment.bytes.length - position) + 1 < 2 ^ 64)
    (h : replayLoop sha fuel (.at segment position sequence) lastSequence = .ok result) :
    ∃ es : List Entry, segment.bytes.drop position = image sha sequence es ∧
      result = if es = [] then lastSequence else sequence + es.length - 1 := by
  induction fuel generalizing position sequence lastSequence with
  | zero =>
    refine ⟨[], ?_, ?_⟩
    · rw [image, List.drop_eq_nil_of_le (by omega)]
    · simp only [replayLoop, Except.ok.injEq] at h
      simp [h]
  | succ fuel ih =>
    rw [replayLoop] at h
    split at h
    · simp at h
    · rename_i hread
      refine ⟨[], ?_, ?_⟩
      · rw [image, List.drop_eq_nil_of_le (readNext_eof sha hread)]
      · simp only [Except.ok.injEq] at h
        simp [h]
    · rename_i record next hread
      obtain ⟨e, tail, hrest, rfl, rfl⟩ := readNext_sound sha hread
      have hlen := congrArg List.length hrest
      rw [List.length_drop, List.length_append, Entry.record_length] at hlen
      have hpos := e.size_pos
      rw [Nat.mod_eq_of_lt (by omega)] at h
      obtain ⟨es, himage, hres⟩ := ih (position + e.size) (sequence + 1) sequence
        (by omega) (by omega) h
      refine ⟨e :: es, ?_, ?_⟩
      · rw [← List.drop_drop, hrest, ← e.record_length sha sequence, List.drop_left] at himage
        rw [hrest, image, himage]
      · rw [hres, if_neg (List.cons_ne_nil e es), List.length_cons]
        split
        · rename_i hnil
          simp [hnil]
        · omega

theorem replayExistingSegment_sound (sha : Sha256) {segment : Segment} {nextSequence : ℕ}
    (h : replayExistingSegment sha segment = .ok nextSequence) :
    ∃ es : List Entry, segment.bytes = image sha 1 es ∧ nextSequence = es.length + 1 := by
  have hfile := segment.size_le
  rw [maxOffset] at hfile
  rw [replayExistingSegment, Reader.new_eq_at] at h
  split at h
  · simp at h
  rename_i lastSequence hloop
  split at h
  · simp at h
  obtain ⟨es, himage, hlast⟩ := replayLoop_sound sha segment _ 0 1 0 lastSequence (by omega)
    (by omega) hloop
  rw [List.drop_zero] at himage
  refine ⟨es, himage, ?_⟩
  simp only [Except.ok.injEq] at h
  rw [← h, hlast]
  cases es with
  | nil => rfl
  | cons e es => simp only [reduceCtorEq, if_false, List.length_cons]; omega

end Wyrebox.JournalReader
