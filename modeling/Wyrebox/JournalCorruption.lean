import Wyrebox.JournalAgreement
import Wyrebox.JournalCrash

set_option autoImplicit false

/-!
# One altered byte inside the journal

Recovery must cut only what a crash left. A byte altered in a record with whole records behind it
is not that; the scan tells the two apart by the header, except for the payload length.
-/
namespace Wyrebox.JournalCorruption
open LittleEndian ByteField JournalRecord JournalScan JournalReader JournalWriter JournalCrash

/-- The bytes that a decoder hashes for the record at the start of `rest`. -/
def checksummed (rest : List UInt8) : List UInt8 :=
  slice 0 32 rest ++ slice headerSize (readLE 12 4 rest) rest ++
    slice (headerSize + readLE 12 4 rest) (readLE 24 8 rest) rest

/-- Every valid record that some place of the file holds is still at that place. -/
def KeepsRecords (sha : Sha256) (file after : Segment) : Prop :=
  ∀ (offset sequence : ℕ) (e : Entry), e.record sha sequence <+: file.bytes.drop offset →
    e.record sha sequence <+: after.bytes.drop offset

/-- Recovery refuses and leaves the file as it is, or cuts nothing that is still valid. -/
def Preserves (sha : Sha256) (file : Segment) : Prop :=
  (∃ error, recoverTornSuffix sha (some file) file = (file, .error error)) ∨
    KeepsRecords sha file (recoverTornSuffix sha (some file) file).1

/-! ## What the scan makes of one turn -/

section
variable {sha : Sha256} {rest : List UInt8} {sequence : ℕ}

/-- What a decoder has checked before it looks at the body. -/
structure Header (rest : List UInt8) (sequence : ℕ) : Prop where
  length : headerSize ≤ rest.length
  magic_eq : slice 0 8 rest = magic
  headerSize_eq : readLE 8 2 rest = headerSize
  version_eq : readLE 10 2 rest = recordVersion
  sequence_eq : readLE 16 8 rest = sequence
  eventLen_le : readLE 12 4 rest ≤ maxEventTypeLen
  size_le : headerSize + readLE 12 4 rest + readLE 24 8 rest ≤ maxSize

theorem ite_stop_eq_stop {c : Prop} [Decidable c] {reason reason' : StopReason}
    {available required available' required' : ℕ} {step : ScanStep} (hne : reason ≠ reason') :
    (if c then .stop reason available required else step) = ScanStep.stop reason' available' required' ↔
      ¬c ∧ step = .stop reason' available' required' := by
  split <;> simp [*]

theorem scanRecord_partialRecord {available required : ℕ} (hlen : headerSize ≤ rest.length)
    (h : scanRecord sha rest sequence = .stop .partialRecord available required) :
    Header rest sequence ∧ rest.length < headerSize + readLE 12 4 rest + readLE 24 8 rest := by
  have hmax : maxSize - headerSize + headerSize = maxSize := by decide
  simp only [scanRecord, Nat.not_lt.mpr hlen, if_false, ne_eq, reduceCtorEq, not_false_eq_true,
    ite_stop_eq_stop, not_not] at h
  obtain ⟨hmagic, hsize, hversion, hsequence, -, -, hevent, -, hfit, hbody⟩ := h
  refine ⟨⟨hlen, hmagic, hsize, hversion, hsequence, Nat.not_lt.mp hevent, by omega⟩, ?_⟩
  by_contra hwhole
  simp only [scanRecordBody, hwhole, if_false, ne_eq, reduceCtorEq, not_false_eq_true, ite_stop_eq_stop,
    and_false] at hbody

/-- Only a remainder shorter than a header counts as a torn header. -/
theorem scanRecord_ne_partialHeader {available required : ℕ} (hlen : headerSize ≤ rest.length) :
    scanRecord sha rest sequence ≠ .stop .partialHeader available required := by
  intro h
  simp only [scanRecord, Nat.not_lt.mpr hlen, if_false, ne_eq, reduceCtorEq, not_false_eq_true,
    ite_stop_eq_stop] at h
  obtain ⟨-, -, -, -, -, -, -, -, -, hbody⟩ := h
  rw [scanRecordBody] at hbody
  by_cases hwhole : rest.length < headerSize + readLE 12 4 rest + readLE 24 8 rest
  · simp only [hwhole, if_true] at hbody
    split at hbody
    · simp [ite_stop_eq_stop] at hbody
    · simp [ite_stop_eq_stop] at hbody
  · simp only [hwhole, if_false, ne_eq, reduceCtorEq, not_false_eq_true, ite_stop_eq_stop, and_false] at hbody

theorem scanRecord_record_checked {size : ℕ} (h : scanRecord sha rest sequence = .record size) :
    Header rest sequence ∧ headerSize + readLE 12 4 rest + readLE 24 8 rest ≤ rest.length ∧
      slice 32 32 rest = sha.digest (checksummed rest) := by
  have hmax : maxSize - headerSize + headerSize = maxSize := by decide
  simp only [scanRecord, JournalAgreement.ite_stop_eq_record, not_not] at h
  obtain ⟨hlen, hmagic, hsize, hversion, hsequence, -, -, hevent, -, hfit, hbody⟩ := h
  obtain ⟨hwhole, -, -, hsum⟩ := JournalAgreement.scanRecordBody_eq_record sha hbody
  exact ⟨⟨Nat.not_lt.mp hlen, hmagic, hsize, hversion, hsequence, Nat.not_lt.mp hevent, by omega⟩,
    hwhole, hsum⟩

end

/-! ## The altered record -/

/-- The payload length that the header shows once byte `q` of the record is `byte`. -/
def alteredPayloadLen (e : Entry) (q : ℕ) (byte : UInt8) : ℕ :=
  decode ((encode 8 e.payload.data.length).set (q - 24) byte)

section
variable {sha : Sha256} {e : Entry} {sequence q : ℕ} {byte : UInt8} {tail : List UInt8}

theorem slice_record_whole {offset len : ℕ} (h : offset + len ≤ 64) :
    slice offset len (e.record sha sequence ++ tail) = slice offset len (e.record sha sequence) := by
  have hlt := e.headerSize_lt_size
  rw [headerSize] at hlt
  rw [slice_append_left (by rw [Entry.record_length]; omega)]

theorem header_record (hs : sequence < 2 ^ 64) : HeaderAt (e.record sha sequence ++ tail) e sequence :=
  (headerAt_record sha e (by omega)).append (by rw [Entry.record_length]; exact e.headerSize_lt_size.le) tail

theorem checksummed_record (hs : sequence < 2 ^ 64) : slice 32 32 (e.record sha sequence ++ tail) =
    sha.digest (checksummed (e.record sha sequence ++ tail)) := by
  obtain ⟨hhead, hwhole, hsum⟩ := scanRecord_record_checked (scanRecord_record sha e (by omega) tail)
  exact hsum

theorem getElem?_set_ne_of {rest : List UInt8} (hq : q < rest.length) (hne : rest[q]? ≠ some byte) :
    (rest.set q byte)[q]? ≠ rest[q]? := by
  rw [List.getElem?_set_self hq]
  exact fun heq => hne heq.symm

theorem readLE_set_of_outside {rest : List UInt8} {offset width : ℕ}
    (h : q < offset ∨ offset + width ≤ q) :
    readLE offset width (rest.set q byte) = readLE offset width rest := by
  rw [readLE, slice_set_of_outside h, readLE]

/-- The checksum itself is not hashed. -/
theorem checksummed_set {rest : List UInt8} (hq : 32 ≤ q) (hq' : q < 64) :
    checksummed (rest.set q byte) = checksummed rest := by
  simp only [checksummed]
  rw [readLE_set_of_outside (by omega), readLE_set_of_outside (by omega),
    slice_set_of_outside (by omega), slice_set_of_outside (by rw [headerSize]; omega),
    slice_set_of_outside (by rw [headerSize]; omega)]

/-- The altered record is not taken for a record, unless two different inputs have one digest. -/
theorem altered_not_record (hs : sequence < 2 ^ 64) (hq : q < e.size)
    (hne : (e.record sha sequence ++ tail)[q]? ≠ some byte)
    (hcollision : sha.digest (checksummed ((e.record sha sequence ++ tail).set q byte)) =
        sha.digest (checksummed (e.record sha sequence ++ tail)) →
      checksummed ((e.record sha sequence ++ tail).set q byte) =
        checksummed (e.record sha sequence ++ tail))
    (size : ℕ) : scanRecord sha ((e.record sha sequence ++ tail).set q byte) sequence ≠ .record size := by
  intro h
  obtain ⟨-, -, hsum⟩ := scanRecord_record_checked h
  have hhead := @header_record sha e _ tail hs
  have holdSum := @checksummed_record sha e _ tail hs
  have hlength : (e.record sha sequence ++ tail).length = e.size + tail.length := by
    rw [List.length_append, Entry.record_length]
  have hsize : e.size = 64 + e.eventType.name.length + e.payload.data.length := rfl
  generalize e.record sha sequence ++ tail = rest at *
  have hdiffers := getElem?_set_ne_of (by omega) hne
  have hsumDiffers : slice 32 32 (rest.set q byte) = slice 32 32 rest → q < 32 ∨ 64 ≤ q :=
    fun hslice => not_mem_of_slice_eq hslice hdiffers
  by_cases houtside : q < 32 ∨ 64 ≤ q
  · -- the stored checksum is the old one, so the hashed bytes are the old ones
    have hslice : slice 32 32 (rest.set q byte) = slice 32 32 rest := slice_set_of_outside houtside rest byte
    rw [hslice, holdSum] at hsum
    have hsame := hcollision hsum.symm
    simp only [checksummed, List.append_assoc] at hsame
    have hhalf : ∀ bs : List UInt8, 32 ≤ bs.length → (slice 0 32 bs).length = 32 :=
      fun bs hbs => slice_length_of_le (by omega)
    obtain ⟨hfields, hbody⟩ := List.append_inj hsame
      (by rw [hhalf _ (by rw [List.length_set]; omega), hhalf rest (by omega)])
    have hlate := not_mem_of_slice_eq hfields hdiffers
    rw [readLE_set_of_outside (by omega), readLE_set_of_outside (by omega), slice_append_slice,
      slice_append_slice, hhead.eventLen_eq, hhead.payloadLen_eq] at hbody
    have hend := not_mem_of_slice_eq hbody hdiffers
    rw [headerSize] at hend
    omega
  · -- only the stored checksum differs
    apply houtside
    apply hsumDiffers
    rw [hsum, holdSum]
    rw [checksummed_set (by omega) (by omega)]

/-- A field that still has its value does not hold the altered byte. -/
theorem outside_of_readLE {rest : List UInt8} {offset width n : ℕ} (hlen : offset + width ≤ rest.length)
    (hdiffers : (rest.set q byte)[q]? ≠ rest[q]?) (hold : readLE offset width rest = n)
    (hnew : readLE offset width (rest.set q byte) = n) : q < offset ∨ offset + width ≤ q := by
  apply not_mem_of_slice_eq _ hdiffers
  rw [slice_of_readLE (by rw [List.length_set]; exact hlen) hnew, slice_of_readLE hlen hold]

theorem readLE_payloadLen_set (hq : 24 ≤ q) :
    readLE 24 8 ((e.record sha sequence ++ tail).set q byte) = alteredPayloadLen e q byte := by
  rw [readLE, slice_set_of_inside hq, slice_record_whole (by omega), slice_payloadLen]
  rfl

/-- The altered record is taken for a torn one only if its payload length was altered and now points
    past the end of the file. -/
theorem payloadLen_of_partialRecord {available required : ℕ} (hs : sequence < 2 ^ 64) (hq : q < e.size)
    (hne : (e.record sha sequence ++ tail)[q]? ≠ some byte) (htail : headerSize < tail.length)
    (h : scanRecord sha ((e.record sha sequence ++ tail).set q byte) sequence =
      .stop .partialRecord available required) :
    24 ≤ q ∧ q < 32 ∧
      e.size + tail.length < headerSize + e.eventType.name.length + alteredPayloadLen e q byte ∧
      headerSize + e.eventType.name.length + alteredPayloadLen e q byte ≤ maxSize := by
  have hsize : e.size = 64 + e.eventType.name.length + e.payload.data.length := rfl
  have hlength : (e.record sha sequence ++ tail).length = e.size + tail.length := by
    rw [List.length_append, Entry.record_length]
  have h64 : headerSize = 64 := rfl
  have hname := name_length_pos e.eventType
  obtain ⟨hheader, hover⟩ := scanRecord_partialRecord (by rw [List.length_set]; omega) h
  have hhead := @header_record sha e _ tail hs
  have hdiffers := getElem?_set_ne_of (by omega) hne
  have hmagic := not_mem_of_slice_eq (hheader.magic_eq.trans hhead.magic_eq.symm) hdiffers
  have hheaderSize := outside_of_readLE (by omega) hdiffers hhead.headerSize_eq hheader.headerSize_eq
  have hversion := outside_of_readLE (by omega) hdiffers hhead.version_eq hheader.version_eq
  have hsequence := outside_of_readLE (by omega) hdiffers hhead.sequence_eq hheader.sequence_eq
  have hevent := hheader.eventLen_le
  have hfit := hheader.size_le
  rw [List.length_set, hlength] at hover
  rw [maxEventTypeLen_eq] at hevent
  have hpayload : q < 24 ∨ 32 ≤ q → readLE 24 8 ((e.record sha sequence ++ tail).set q byte) =
      e.payload.data.length := by
    intro hout
    rw [readLE_set_of_outside hout, hhead.payloadLen_eq]
  have heventLen : q < 12 ∨ 16 ≤ q → readLE 12 4 ((e.record sha sequence ++ tail).set q byte) =
      e.eventType.name.length := by
    intro hout
    rw [readLE_set_of_outside hout, hhead.eventLen_eq]
  -- an unchanged payload length cannot reach past the next record's header
  have hinside : 24 ≤ q ∧ q < 32 := by
    by_contra hout
    rw [hpayload (by omega)] at hover
    omega
  rw [heventLen (by omega), readLE_payloadLen_set hinside.1] at hover hfit
  exact ⟨hinside.1, hinside.2, hover, hfit⟩

/-- Such a payload length is all that the scan looks at: the record counts as torn. -/
theorem scanRecord_overrun (hs : sequence < 2 ^ 64) (hq : 24 ≤ q) (hq' : q < 32)
    (hover : e.size + tail.length < headerSize + e.eventType.name.length + alteredPayloadLen e q byte)
    (hfit : headerSize + e.eventType.name.length + alteredPayloadLen e q byte ≤ maxSize) :
    scanRecord sha ((e.record sha sequence ++ tail).set q byte) sequence =
      .stop .partialRecord (e.size + tail.length)
        (headerSize + e.eventType.name.length + alteredPayloadLen e q byte) := by
  have hsize : e.size = 64 + e.eventType.name.length + e.payload.data.length := rfl
  have h64 : headerSize = 64 := rfl
  have hlength : ((e.record sha sequence ++ tail).set q byte).length = e.size + tail.length := by
    rw [List.length_set, List.length_append, Entry.record_length]
  have hhead := @header_record sha e _ tail hs
  have hpayload := @readLE_payloadLen_set sha e sequence q byte tail hq
  have hname : slice headerSize e.eventType.name.length ((e.record sha sequence ++ tail).set q byte) =
      e.eventType.name := by
    rw [slice_set_of_outside (by omega), slice_append_left (by rw [Entry.record_length]; omega)]
    exact slice_name sha e sequence
  have hnamePos := name_length_pos e.eventType
  have hlong : ¬e.size + tail.length < headerSize := by omega
  have hlens : ¬(maxSize < alteredPayloadLen e q byte ∨ maxSize < e.eventType.name.length) := by omega
  have hsum : ¬(maxSize - headerSize < e.eventType.name.length ∨
      maxSize - headerSize - e.eventType.name.length < alteredPayloadLen e q byte) := by omega
  have hnameFits : e.eventType.name.length ≤ e.size + tail.length - headerSize := by omega
  simp only [scanRecord, scanRecordBody, hlength, hlong, if_false, slice_set_of_outside (by omega : q < 0 ∨ 0 + 8 ≤ q),
    readLE_set_of_outside (by omega : q < 8 ∨ 8 + 2 ≤ q), readLE_set_of_outside (by omega : q < 10 ∨ 10 + 2 ≤ q),
    readLE_set_of_outside (by omega : q < 12 ∨ 12 + 4 ≤ q), readLE_set_of_outside (by omega : q < 16 ∨ 16 + 8 ≤ q),
    hhead.magic_eq, hhead.headerSize_eq, hhead.version_eq, hhead.eventLen_eq, hhead.sequence_eq, hpayload,
    ne_eq, not_true_eq_false, hlens, hnamePos.ne', Nat.not_lt.mpr (name_length_le e.eventType),
    eventTypeLengthIsCanonical_name, Bool.not_true, Bool.false_eq_true, hsum, hover, if_true, hnameFits,
    hname, parseEventType_name, Option.isNone_some]

end

/-! ## Recovery of the altered file -/

/-- `file` holds whole records, `altered` differs from it in byte `q` of the record of `e`. -/
structure Altered (sha : Sha256) (file altered : Segment) (pre : List Entry) (e : Entry) (post : List Entry)
    (q : ℕ) (byte : UInt8) : Prop where
  file_eq : file.bytes = image sha 1 (pre ++ e :: post)
  inside : q < e.size
  altered_eq : altered.bytes = file.bytes.set (totalSize pre + q) byte
  differs : file.bytes[totalSize pre + q]? ≠ some byte

/-- The altered byte shows a payload length that passes the end of the file. -/
def Overruns (e : Entry) (post : List Entry) (q : ℕ) (byte : UInt8) : Prop :=
  24 ≤ q ∧ q < 32 ∧
    e.size + totalSize post < headerSize + e.eventType.name.length + alteredPayloadLen e q byte ∧
    headerSize + e.eventType.name.length + alteredPayloadLen e q byte ≤ maxSize

section
variable {sha : Sha256} {file altered : Segment} {pre post : List Entry} {e : Entry} {q : ℕ} {byte : UInt8}

theorem Altered.record_eq (h : Altered sha file altered pre e post q byte) :
    file.bytes.drop (totalSize pre) = e.record sha (pre.length + 1) ++ image sha (pre.length + 2) post := by
  rw [h.file_eq, image_append, image, ← image_length sha 1 pre, List.drop_left, Nat.add_comm 1 pre.length]

theorem Altered.bytes_eq (h : Altered sha file altered pre e post q byte) :
    altered.bytes = image sha 1 pre ++
      (e.record sha (pre.length + 1) ++ image sha (pre.length + 2) post).set q byte := by
  rw [h.altered_eq, h.file_eq, image_append, image, ← image_length sha 1 pre,
    List.set_append_right _ _ (by omega), Nat.add_sub_cancel_left, Nat.add_comm 1 pre.length]

theorem Altered.byte_ne (h : Altered sha file altered pre e post q byte) :
    (e.record sha (pre.length + 1) ++ image sha (pre.length + 2) post)[q]? ≠ some byte := by
  have hne := h.differs
  rwa [← List.getElem?_drop, h.record_eq] at hne

theorem Altered.length_lt (h : Altered sha file altered pre e post q byte) :
    pre.length + 1 < 2 ^ 64 ∧ totalSize (pre ++ e :: post) ≤ maxOffset := by
  have hfile := file.size_le
  have hsize := length_le_totalSize (pre ++ e :: post)
  rw [h.file_eq, image_length] at hfile
  rw [List.length_append, List.length_cons] at hsize
  refine ⟨?_, hfile⟩
  rw [maxOffset] at hfile
  omega

theorem headerSize_lt_totalSize (hpost : post ≠ []) : headerSize < totalSize post := by
  obtain ⟨f, fs, rfl⟩ := List.exists_cons_of_ne_nil hpost
  have hsize := f.headerSize_lt_size
  simp only [totalSize, List.map_cons, List.sum_cons]
  omega

/-- Whatever the scan stops for at the altered record is what decides on recovery. -/
theorem Altered.recover (h : Altered sha file altered pre e post q byte) {reason : StopReason}
    {available required : ℕ} (hstop : scanRecord sha
      ((e.record sha (pre.length + 1) ++ image sha (pre.length + 2) post).set q byte) (pre.length + 1) =
        .stop reason available required) :
    recoverTornSuffix sha (some altered) altered =
      if pre ≠ [] ∧ (reason = .partialHeader ∨ reason = .partialRecord) then
        (altered.truncate (totalSize pre), .ok (totalSize pre, pre.length))
      else (altered, .error .notRecoverable) := by
  obtain ⟨hcount, hfile⟩ := h.length_lt
  have htail : (e.record sha (pre.length + 1) ++ image sha (pre.length + 2) post).set q byte ≠ [] := by
    rw [← List.length_pos_iff, List.length_set, List.length_append, Entry.record_length]
    have hpos := e.size_pos
    omega
  have hscan := scanSafePrefix_stop sha pre hcount htail hstop
  rw [← h.bytes_eq] at hscan
  have hoffset : ¬maxOffset < totalSize pre := by
    simp only [totalSize, List.map_append, List.sum_append] at hfile
    simp only [totalSize]
    omega
  have hsuffix : (scanSafePrefix sha (some altered.bytes)).isRecoverableTornSuffix =
      decide (pre ≠ [] ∧ (reason = .partialHeader ∨ reason = .partialRecord)) := by
    rw [hscan]
    cases pre with
    | nil => simp [SafePrefix.isRecoverableTornSuffix]
    | cons f fs =>
      have hpos : 0 < totalSize (f :: fs) := by
        have hf := f.size_pos
        simp only [totalSize, List.map_cons, List.sum_cons]
        omega
      simp only [SafePrefix.isRecoverableTornSuffix, List.isEmpty_cons, Bool.not_false, hpos, decide_true,
        beq_self_eq_true, Bool.true_and, ne_eq, reduceCtorEq, not_false_eq_true, true_and, Bool.decide_or]
      rfl
  simp only [recoverTornSuffix, Option.map_some, Option.getD_some, hsuffix]
  by_cases hcut : pre ≠ [] ∧ (reason = .partialHeader ∨ reason = .partialRecord)
  · simp only [hcut, hscan, hoffset, ne_eq, not_true_eq_false, or_self, if_false, decide_true, Bool.not_true,
      Bool.false_eq_true, not_false_eq_true, and_self, if_true]
  · simp only [hcut, decide_false, Bool.not_false, if_true, if_false]

/-- A cut at the altered record loses the records behind it. -/
theorem Altered.not_keeps (h : Altered sha file altered pre e post q byte) (hpost : post ≠ []) :
    ¬KeepsRecords sha altered (altered.truncate (totalSize pre)) := by
  intro hkeeps
  obtain ⟨f, fs, rfl⟩ := List.exists_cons_of_ne_nil hpost
  have hlen : (e.record sha (pre.length + 1)).length = e.size := e.record_length sha _
  have hnext : altered.bytes.drop (totalSize pre + e.size) =
      f.record sha (pre.length + 2) ++ image sha (pre.length + 3) fs := by
    rw [h.bytes_eq, ← List.drop_drop, ← image_length sha 1 pre, List.drop_left, List.set_append_left _ _
      (by rw [hlen]; exact h.inside), ← hlen, ← List.length_set (i := q) (a := byte), List.drop_left, image]
  have hlost := hkeeps _ _ f (by rw [hnext]; exact List.prefix_append _ _)
  have hempty : (altered.truncate (totalSize pre)).bytes.drop (totalSize pre + e.size) = [] := by
    apply List.drop_eq_nil_of_le
    change (altered.bytes.take (totalSize pre)).length ≤ _
    rw [List.length_take]
    omega
  rw [hempty, List.prefix_nil] at hlost
  have hpos := f.size_pos
  have hzero := congrArg List.length hlost
  rw [Entry.record_length, List.length_nil] at hzero
  omega

/-- Recovery takes an overrunning payload length for a torn tail. -/
theorem Altered.not_preserves (h : Altered sha file altered pre e post q byte) (hpre : pre ≠ [])
    (hpost : post ≠ []) (hover : Overruns e post q byte) : ¬Preserves sha altered := by
  obtain ⟨hcount, -⟩ := h.length_lt
  obtain ⟨hq, hq', hover, hfit⟩ := hover
  have htorn := @scanRecord_overrun sha _ (pre.length + 1) _ _ (image sha (pre.length + 2) post) hcount hq hq'
    (by rw [image_length]; exact hover) hfit
  have hrecover := h.recover htorn
  rw [if_pos ⟨hpre, Or.inr rfl⟩] at hrecover
  rintro (⟨error, herror⟩ | hkeeps)
  · rw [hrecover] at herror
    simp at herror
  · rw [hrecover] at hkeeps
    exact h.not_keeps hpost hkeeps

end

/-- With whole records behind it, an altered byte makes recovery cut the file exactly when a record
    precedes and the byte makes the payload length pass the end of the file. -/
theorem interior_corruption (sha : Sha256) {file altered : Segment} {pre post : List Entry} {e : Entry}
    {q : ℕ} {byte : UInt8} (h : Altered sha file altered pre e post q byte) (hpost : post ≠ [])
    (hcollision : sha.digest (checksummed (altered.bytes.drop (totalSize pre))) =
        sha.digest (checksummed (file.bytes.drop (totalSize pre))) →
      checksummed (altered.bytes.drop (totalSize pre)) = checksummed (file.bytes.drop (totalSize pre))) :
    Preserves sha altered ↔ ¬(pre ≠ [] ∧ Overruns e post q byte) := by
  obtain ⟨hcount, -⟩ := h.length_lt
  have haltered : altered.bytes.drop (totalSize pre) =
      (e.record sha (pre.length + 1) ++ image sha (pre.length + 2) post).set q byte := by
    rw [h.bytes_eq, ← image_length sha 1 pre, List.drop_left]
  have htailLen := image_length sha (pre.length + 2) post
  have hlong := headerSize_lt_totalSize hpost
  rw [haltered, h.record_eq] at hcollision
  cases hscan : scanRecord sha
      ((e.record sha (pre.length + 1) ++ image sha (pre.length + 2) post).set q byte) (pre.length + 1) with
  | record size => exact absurd hscan (altered_not_record hcount h.inside h.byte_ne hcollision size)
  | stop reason available required =>
    have hrecover := h.recover hscan
    -- the record is long enough for its header, so the header is not torn
    have hheader : reason ≠ .partialHeader := by
      rintro rfl
      refine scanRecord_ne_partialHeader ?_ hscan
      rw [List.length_set, List.length_append, htailLen]
      omega
    constructor
    · exact fun hpreserves hcut => h.not_preserves hcut.1 hpost hcut.2 hpreserves
    · intro hsafe
      refine Or.inl ⟨.notRecoverable, ?_⟩
      rw [hrecover, if_neg]
      rintro ⟨hpre, hreason⟩
      have hshort := hreason.resolve_left hheader
      rw [hshort] at hscan
      obtain ⟨hq, hq', hover, hfit⟩ := payloadLen_of_partialRecord hcount h.inside h.byte_ne
        (by rw [htailLen]; exact hlong) hscan
      rw [htailLen] at hover
      exact hsafe ⟨hpre, hq, hq', hover, hfit⟩

/-- The file that holds exactly the records of `es`. -/
def segmentOf (sha : Sha256) (es : List Entry) (h : totalSize es ≤ maxOffset) : Segment :=
  ⟨image sha 1 es, by rw [image_length]; exact h⟩

def Segment.alter (file : Segment) (i : ℕ) (byte : UInt8) : Segment :=
  ⟨file.bytes.set i byte, by rw [List.length_set]; exact file.size_le⟩

theorem altered_alter {sha : Sha256} {pre post : List Entry} {e : Entry} {q : ℕ} {byte : UInt8}
    (h : totalSize (pre ++ e :: post) ≤ maxOffset) (hq : q < e.size)
    (hbyte : (e.record sha (pre.length + 1))[q]? ≠ some byte) :
    Altered sha (segmentOf sha (pre ++ e :: post) h)
      (Segment.alter (segmentOf sha (pre ++ e :: post) h) (totalSize pre + q) byte) pre e post q byte := by
  refine ⟨rfl, hq, rfl, ?_⟩
  change (image sha 1 (pre ++ e :: post))[totalSize pre + q]? ≠ some byte
  rw [image_append, image, ← image_length sha 1 pre, List.getElem?_append_right (by omega),
    Nat.add_sub_cancel_left, List.getElem?_append_left (by rw [Entry.record_length]; exact hq),
    Nat.add_comm 1 pre.length]
  exact hbyte

def sampleFlag : Entry := ⟨.flagChanged, ⟨[1, 2, 3], by decide⟩⟩

/-- In a file of two records the last byte of the first one's checksum is altered. -/
theorem interior_corruption_checksum : ∃ file altered byte,
    Altered sha256 file altered [] sampleFlag [sampleFlag] 63 byte ∧
      (Preserves sha256 altered ↔ ¬([] ≠ ([] : List Entry) ∧ Overruns sampleFlag [sampleFlag] 63 byte)) := by
  have hinside : 63 < (sampleFlag.record sha256 1).length := by
    rw [Entry.record_length]
    decide
  have hbyte : (sampleFlag.record sha256 1)[63]? ≠ some ((sampleFlag.record sha256 1)[63] + 1) := by
    rw [List.getElem?_eq_getElem hinside]
    generalize (sampleFlag.record sha256 1)[63] = b
    simp
  have h := @altered_alter sha256 [] [sampleFlag] _ _ _ (by decide) (by decide) hbyte
  refine ⟨_, _, _, h, interior_corruption sha256 h (by simp) fun _ => ?_⟩
  rw [h.altered_eq]
  exact checksummed_set (by decide) (by decide)

/-- The second of three records gets the payload length 65283; recovery cuts it and the third. -/
theorem altered_length_cuts : ∃ file altered,
    Altered sha256 file altered [sampleFlag] sampleFlag [sampleFlag] 25 255 ∧ ¬Preserves sha256 altered := by
  have hbyte : (sampleFlag.record sha256 2)[25]? ≠ some 255 := by
    rw [← slice_getElem? (by omega : 24 ≤ 25) (by omega : 25 < 24 + 8), slice_payloadLen]
    decide
  have h := @altered_alter sha256 [sampleFlag] [sampleFlag] _ _ _ (by decide) (by decide) hbyte
  refine ⟨_, _, h, h.not_preserves (by simp) (by simp) ?_⟩
  exact ⟨by omega, by omega, by decide, by decide⟩

end Wyrebox.JournalCorruption
