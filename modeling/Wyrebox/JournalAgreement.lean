import Wyrebox.JournalReader

set_option autoImplicit false

/-!
# The reader and the scanner agree

`readNext` and `scanSafePrefix` decode the same framing with checks of their own, in different
orders. On every file they accept the same records and stop at the same place.
-/
namespace Wyrebox.JournalAgreement
open LittleEndian ByteField JournalRecord JournalScan JournalReader Fallible

/-- Where a record lies and what number it has. -/
structure Place where
  offset : ℕ
  sequence : ℕ
  endOffset : ℕ
  deriving DecidableEq, Repr

/-- `record_end_offset`. -/
def recordEndOffset (record : Record) : ℕ :=
  record.offset + headerSize + record.eventType.name.length + record.payload.length

def place (record : Record) : Place := ⟨record.offset, record.sequence, recordEndOffset record⟩

/-- The records that the turns of `scanLoop` count. -/
def countedLoop (sha : Sha256) : ℕ → List UInt8 → ℕ → ℕ → List Place
  | 0, _, _, _ => []
  | fuel + 1, rest, offset, expectedSequence =>
    if rest.isEmpty then []
    else match scanRecord sha rest expectedSequence with
      | .stop _ _ _ => []
      | .record size => ⟨offset, expectedSequence, offset + size⟩ ::
          countedLoop sha fuel (rest.drop size) (offset + size) ((expectedSequence + 1) % 2 ^ 64)

/-- The records that `scanSafePrefix` counts. -/
def countedRecords (sha : Sha256) : Option (List UInt8) → List Place
  | none => []
  | some bytes => countedLoop sha (bytes.length + 1) bytes 0 1

/-! ## One turn -/

theorem ite_stop_eq_record {c : Prop} [Decidable c] {reason : StopReason} {available required size : ℕ}
    {step : ScanStep} : (if c then .stop reason available required else step) = ScanStep.record size ↔
      ¬c ∧ step = .record size := by
  split <;> simp [*]

theorem scanRecordBody_eq_record (sha : Sha256) {rest : List UInt8} {eventLen payloadLen size : ℕ}
    (h : scanRecordBody sha rest eventLen payloadLen = .record size) :
    headerSize + eventLen + payloadLen ≤ rest.length ∧ size = headerSize + eventLen + payloadLen ∧
    (∃ eventType, parseEventType (slice headerSize eventLen rest) = some eventType) ∧
    slice 32 32 rest = sha.digest (slice 0 32 rest ++ slice headerSize eventLen rest ++
      slice (headerSize + eventLen) payloadLen rest) := by
  unfold scanRecordBody at h
  by_cases hshort : rest.length < headerSize + eventLen + payloadLen
  · simp only [hshort, if_true] at h
    split at h
    · simp only [ite_stop_eq_record, reduceCtorEq, and_false] at h
    · simp only [ite_stop_eq_record, reduceCtorEq, and_false] at h
  · simp only [hshort, if_false, ite_stop_eq_record] at h
    obtain ⟨hparse, hsum, hsize⟩ := h
    rw [Bool.not_eq_true, Option.isNone_eq_false_iff, Option.isSome_iff_exists] at hparse
    exact ⟨Nat.not_lt.mp hshort, (ScanStep.record.inj hsize).symm, hparse, not_not.mp hsum⟩

/-- Only the record of some entry is counted. -/
theorem scanRecord_sound (sha : Sha256) {rest : List UInt8} {sequence size : ℕ}
    (hfile : rest.length ≤ maxOffset) (h : scanRecord sha rest sequence = .record size) :
    ∃ e : Entry, rest = e.record sha sequence ++ rest.drop e.size ∧ size = e.size := by
  simp only [scanRecord, ite_stop_eq_record, not_not] at h
  obtain ⟨-, hmagic, hheader, hversion, hsequence, -, -, -, -, -, hbody⟩ := h
  obtain ⟨hfit, hsize, ⟨eventType, hparse⟩, hsum⟩ := scanRecordBody_eq_record sha hbody
  obtain ⟨e, hrest, hesize, -, -⟩ := record_of_checked sha hfile hfit hmagic hheader hversion rfl
    hsequence rfl hparse hsum
  exact ⟨e, hrest, hsize.trans hesize.symm⟩

theorem recordEndOffset_recordOf (e : Entry) (offset sequence : ℕ) :
    recordEndOffset (recordOf e offset sequence) = offset + e.size := by
  simp only [recordEndOffset, recordOf, Entry.size]
  omega

/-- Inside a file both decoders take the same record or both refuse. -/
theorem turn_agrees (sha : Sha256) {segment : Segment} {position sequence : ℕ}
    (hposition : position < segment.bytes.length) (hs : sequence < 2 ^ 64) :
    (∃ record size, scanRecord sha (segment.bytes.drop position) sequence = .record size ∧
      readNext sha (.at segment position sequence) =
        .ok (some (record, .at segment (position + size) ((sequence + 1) % 2 ^ 64))) ∧
      place record = ⟨position, sequence, position + size⟩ ∧ 0 < size) ∨
    (∃ reason available required error,
      scanRecord sha (segment.bytes.drop position) sequence = .stop reason available required ∧
      readNext sha (.at segment position sequence) = .error error) := by
  have hfile : (segment.bytes.drop position).length ≤ maxOffset := by
    have hsize := segment.size_le
    rw [List.length_drop]
    omega
  cases hscan : scanRecord sha (segment.bytes.drop position) sequence with
  | record size =>
    left
    obtain ⟨e, hrest, rfl⟩ := scanRecord_sound sha hfile hscan
    refine ⟨_, e.size, rfl, readNext_record sha _ hs hrest, ?_, e.size_pos⟩
    rw [place, recordEndOffset_recordOf]
    rfl
  | stop reason available required =>
    right
    cases hread : readNext sha (.at segment position sequence) with
    | error error => exact ⟨reason, available, required, error, rfl, rfl⟩
    | ok result =>
      exfalso
      cases result with
      | none =>
        have hend := readNext_eof sha hread
        omega
      | some found =>
        obtain ⟨record, next⟩ := found
        obtain ⟨e, tail, hrest, -, -⟩ := readNext_sound sha hread
        rw [hrest, scanRecord_record sha e (by omega)] at hscan
        simp at hscan

/-! ## The whole file -/

/-- What the scan reports once it has counted `records` from `position` on and met `error`. -/
structure Reports (found : SafePrefix) (position : ℕ) (records : List Record) (error : Option ReadError)
    (result : SafePrefix) : Prop where
  safeEndOffset : result.safeEndOffset = (records.getLast?.map recordEndOffset).getD position
  lastSafeSequence : result.lastSafeSequence =
    (records.getLast?.map Record.sequence).getD found.lastSafeSequence
  hasLastSafeSequence : result.hasLastSafeSequence = (records.getLast?.isSome || found.hasLastSafeSequence)
  unsafeSuffixFound : result.unsafeSuffixFound = error.isSome

theorem Reports.cons {found result : SafePrefix} {position : ℕ} {record : Record} {records : List Record}
    {error : Option ReadError}
    (h : Reports { found with
      safeEndOffset := recordEndOffset record
      lastSafeSequence := record.sequence
      hasLastSafeSequence := true } (recordEndOffset record) records error result) :
    Reports found position (record :: records) error result := by
  obtain ⟨hend, hlast, hhas, hsuffix⟩ := h
  cases hrecords : records.getLast? with
  | none =>
    rw [List.getLast?_eq_none_iff.mp hrecords] at hend hlast hhas ⊢
    exact ⟨by simpa using hend, by simpa using hlast, by simpa using hhas, hsuffix⟩
  | some last =>
    rw [hrecords] at hend hlast hhas
    have hcons : (record :: records).getLast? = some last := by
      rw [List.getLast?_cons, hrecords, Option.getD_some]
    refine ⟨?_, ?_, ?_, hsuffix⟩
    · rw [hcons]
      exact hend
    · rw [hcons]
      exact hlast
    · rw [hcons]
      exact hhas

theorem loops_agree (sha : Sha256) (segment : Segment) (fuel position sequence : ℕ) (found : SafePrefix)
    (hfuel : segment.bytes.length < position + fuel) (hend : position ≤ segment.bytes.length)
    (hs : sequence + (segment.bytes.length - position) + 1 < 2 ^ 64) (hfound : found.safeEndOffset = position) :
    (readAll sha fuel (.at segment position sequence)).1.map place =
      countedLoop sha fuel (segment.bytes.drop position) position sequence ∧
    Reports found position (readAll sha fuel (.at segment position sequence)).1
      (readAll sha fuel (.at segment position sequence)).2
      (scanLoop sha fuel (segment.bytes.drop position) position sequence found) := by
  induction fuel generalizing position sequence found with
  | zero => omega
  | succ fuel ih =>
    rw [readAll, countedLoop, scanLoop]
    rcases Nat.lt_or_eq_of_le hend with hinside | rfl
    · have hnonempty : (segment.bytes.drop position).isEmpty = false := by
        rw [List.isEmpty_eq_false_iff, ← List.length_pos_iff, List.length_drop]
        omega
      rw [hnonempty]
      rcases turn_agrees sha hinside (by omega : sequence < 2 ^ 64) with
        ⟨record, size, hscan, hread, hplace, hsize⟩ | ⟨reason, available, required, error, hscan, hread⟩
      · rw [hscan, hread]
        have hfits : position + size ≤ segment.bytes.length := by
          obtain ⟨e, tail, hrest, -, hnext⟩ := readNext_sound sha hread
          simp only [Reader.at, Reader.mk.injEq, true_and] at hnext
          have hlen := congrArg List.length hrest
          rw [List.length_drop, List.length_append, Entry.record_length] at hlen
          omega
        have hoffset : recordEndOffset record = position + size := congrArg Place.endOffset hplace
        have hsequence : record.sequence = sequence := congrArg Place.sequence hplace
        rw [Nat.mod_eq_of_lt (by omega)]
        obtain ⟨hplaces, hreports⟩ := ih (position + size) (sequence + 1)
          { found with
            safeEndOffset := position + size
            lastSafeSequence := sequence
            hasLastSafeSequence := true } (by omega) hfits (by omega) rfl
        simp only [Bool.false_eq_true, if_false, List.drop_drop]
        refine ⟨?_, ?_⟩
        · rw [List.map_cons, hplace, hplaces]
        · apply Reports.cons
          rw [hoffset, hsequence]
          exact hreports
      · rw [hscan, hread]
        exact ⟨rfl, rfl, rfl, (Bool.false_or _).symm, rfl⟩
    · rw [readNext_end, List.drop_length]
      exact ⟨rfl, hfound, rfl, (Bool.false_or _).symm, rfl⟩

/-- On every file the reader returns exactly the records that the scan counts, the scan's safe end
    and last sequence are those of the last of them, and the reader ends cleanly exactly when the
    scan finds no unsafe suffix. -/
theorem reader_scanner_agree (sha : Sha256) (segment : Option Segment) :
    let records := (readSegment sha segment).1
    let error := (readSegment sha segment).2
    let found := scanSafePrefix sha (segment.map Segment.bytes)
    records.map place = countedRecords sha (segment.map Segment.bytes) ∧
    found.safeEndOffset = (records.getLast?.map recordEndOffset).getD 0 ∧
    found.lastSafeSequence = (records.getLast?.map Record.sequence).getD 0 ∧
    found.hasLastSafeSequence = records.getLast?.isSome ∧
    (error = none ↔ found.unsafeSuffixFound = false) := by
  cases segment with
  | none => exact ⟨rfl, rfl, rfl, rfl, by simp [readSegment, readAll, readNext, Reader.new,
      Reader.newWithLimit, scanSafePrefix, SafePrefix.initial]⟩
  | some segment =>
    have hfile := segment.size_le
    rw [maxOffset] at hfile
    obtain ⟨hplaces, hreports⟩ := loops_agree sha segment (segment.bytes.length + 1) 0 1 .initial
      (by omega) (Nat.zero_le _) (by omega) rfl
    rw [List.drop_zero] at hplaces hreports
    simp only [readSegment, Option.getD_some, Reader.new_eq_at, Option.map_some, countedRecords]
    by_cases hempty : segment.bytes = []
    · have hread : readAll sha (segment.bytes.length + 1) (.at segment 0 1) = ([], none) := by
        have hlength : segment.bytes.length = 0 := by rw [hempty]; rfl
        simp only [readAll, readNext, hlength, le_refl, if_true]
      rw [hread, hempty]
      exact ⟨rfl, rfl, rfl, rfl, by simp [scanSafePrefix, SafePrefix.initial]⟩
    · rw [scanSafePrefix_of_ne_nil sha hempty]
      refine ⟨hplaces, hreports.safeEndOffset, hreports.lastSafeSequence, ?_, ?_⟩
      · rw [hreports.hasLastSafeSequence]
        exact Bool.or_false _
      · rw [hreports.unsafeSuffixFound, Option.isSome_eq_false_iff, Option.isNone_iff_eq_none]

end Wyrebox.JournalAgreement
