import Wyrebox.JournalCorruption

set_option autoImplicit false

/-!
# Partial headers

The end of a journal file may hold fewer bytes than a header. The scan calls them a torn header if
some good header begins with them, and corrupt otherwise.
-/
namespace Wyrebox.PartialHeader
open LittleEndian ByteField JournalRecord JournalScan JournalCorruption

/-- The stop reasons of a header that no append can have written. -/
def isCorruption : StopReason → Bool
  | .invalidMagic | .invalidHeaderSize | .invalidVersion | .invalidSequence | .invalidSize
  | .zeroEventTypeLength | .unknownEventType => true
  | _ => false

section
variable {sha : Sha256} {header rest : List UInt8} {sequence : ℕ}

/-- The checks of a turn are those of `HeaderPassed`: a header by itself passes them if the turn misses
    only the body. -/
theorem headerPassed_iff (hlen : header.length = headerSize) :
    HeaderPassed header sequence ↔ scanRecord sha header sequence =
      .stop .partialRecord headerSize (headerSize + readLE 12 4 header + readLE 24 8 header) := by
  have hle : headerSize ≤ header.length := hlen.ge
  constructor
  · intro h
    obtain ⟨t, ht⟩ := exists_name_of_canonical h.canonical
    have hpos := name_length_pos t
    have hname := name_length_le t
    have hmax := h.size_le
    have hevent : readLE 12 4 header ≠ 0 := by omega
    have hcut : headerSize < headerSize + readLE 12 4 header + readLE 24 8 header := by omega
    have hbody : scanRecordBody sha header (readLE 12 4 header) (readLE 24 8 header) =
        .stop .partialRecord headerSize (headerSize + readLE 12 4 header + readLE 24 8 header) := by
      simp only [scanRecordBody, hlen, hcut, if_true, Nat.sub_self, Nat.le_zero_eq, hevent, if_false, Nat.lt_irrefl,
        false_and]
    have hmost : ¬maxEventTypeLen < readLE 12 4 header := by omega
    have hsizes : ¬(maxSize < readLE 24 8 header ∨ maxSize < readLE 12 4 header) := by omega
    have hfit : ¬(maxSize - headerSize < readLE 12 4 header ∨
        maxSize - headerSize - readLE 12 4 header < readLE 24 8 header) := by omega
    simp only [scanRecord, Nat.not_lt.mpr hle, h.magic_eq, h.headerSize_eq, h.version_eq, h.sequence_eq, h.canonical,
      hevent, hmost, hsizes, hfit, ne_eq, not_true_eq_false, if_false, Bool.not_true, Bool.false_eq_true]
    exact hbody
  · intro h
    obtain ⟨hhead, -⟩ := scanRecord_partialRecord hle h
    have hcanonical : eventTypeLengthIsCanonical (readLE 12 4 header) = true := by
      simp only [scanRecord, Nat.not_lt.mpr hle, if_false, ne_eq, reduceCtorEq, not_false_eq_true,
        ite_stop_eq_stop, Bool.not_eq_true', Bool.not_eq_false] at h
      obtain ⟨-, -, -, -, -, -, -, hcanonical, -⟩ := h
      exact hcanonical
    exact ⟨hlen, hhead.magic_eq, hhead.headerSize_eq, hhead.version_eq, hhead.sequence_eq, hcanonical,
      hhead.size_le⟩

theorem classifyPartialHeaderPrefix_cases (header : List UInt8) (sequence : ℕ) :
    classifyPartialHeaderPrefix header sequence = .partialHeader ∨
      isCorruption (classifyPartialHeaderPrefix header sequence) = true := by
  rw [classifyPartialHeaderPrefix]
  repeat' split
  all_goals first
    | exact Or.inl rfl
    | exact Or.inr rfl

theorem ite_reason_eq_partialHeader {c : Prop} [Decidable c] {reason next : StopReason}
    (hne : reason ≠ .partialHeader) :
    (if c then reason else next) = .partialHeader ↔ ¬c ∧ next = .partialHeader := by
  split <;> simp [*]

/-- What the classification has seen of a torn header. -/
structure Torn (rest : List UInt8) (sequence : ℕ) : Prop where
  magic_matches : fieldPrefixMatches rest 0 magic = true
  headerSize_matches : fieldPrefixMatches rest 8 (encode 2 headerSize) = true
  version_matches : fieldPrefixMatches rest 10 (encode 2 recordVersion) = true
  eventLen_canonical : 12 < rest.length →
    eventTypeLengthPrefixIsCanonical (slice 12 (min (rest.length - 12) 4) rest) = true
  sequence_matches : fieldPrefixMatches rest 16 (encode 8 sequence) = true
  size_le : 32 ≤ rest.length → headerSize + readLE 12 4 rest + readLE 24 8 rest ≤ maxSize

theorem torn_of_partialHeader (h : classifyPartialHeaderPrefix rest sequence = .partialHeader) :
    Torn rest sequence := by
  have hmax : maxSize - headerSize + headerSize = maxSize := by decide
  simp only [classifyPartialHeaderPrefix, ne_eq, reduceCtorEq, not_false_eq_true, ite_reason_eq_partialHeader,
    Bool.not_eq_true', Bool.not_eq_false, Bool.and_eq_true, decide_eq_true_eq, not_and, Bool.or_eq_true] at h
  obtain ⟨hmagic, hsize, hversion, hevent, -, -, -, hsequence, -, hfit, -⟩ := h
  refine ⟨hmagic, hsize, hversion, hevent, hsequence, fun h32 => ?_⟩
  have hfit32 := hfit h32
  omega

/-- Some event type has a length that begins with the bytes there are. -/
theorem Torn.eventType (h : Torn rest sequence) :
    ∃ t : EventType, fieldPrefixMatches rest 12 (encode 4 t.name.length) = true := by
  by_cases h12 : 12 < rest.length
  · have hcanonical := h.eventLen_canonical h12
    rw [eventTypeLengthPrefixIsCanonical, List.any_eq_true] at hcanonical
    obtain ⟨t, -, ht⟩ := hcanonical
    refine ⟨t, ?_⟩
    rw [slice_length_of_le (by omega), beq_iff_eq] at ht
    rw [fieldPrefixMatches, encode_length, beq_iff_eq, ht]
  · refine ⟨.messageDelivered, ?_⟩
    rw [fieldPrefixMatches, Nat.sub_eq_zero_of_le (by omega), Nat.zero_min]
    rfl

/-! ## Completing a torn header -/

/-- The bytes of `full` beyond the ones that are there. -/
def complete (rest full : List UInt8) : List UInt8 := rest ++ full.drop rest.length

theorem slice_complete {full expected : List UInt8} {offset : ℕ} (hfull : slice offset expected.length full = expected)
    (h : fieldPrefixMatches rest offset expected = true) :
    slice offset expected.length (complete rest full) = expected := by
  rw [fieldPrefixMatches, beq_iff_eq] at h
  generalize hk : min (rest.length - offset) expected.length = k at h
  have hbefore : slice offset k (complete rest full) = expected.take k := by
    by_cases hk0 : k = 0
    · simp [hk0, slice]
    · rw [complete, slice_append_left (by omega), h]
  have hafter : slice (offset + k) (expected.length - k) (complete rest full) = expected.drop k := by
    by_cases hall : k = expected.length
    · simp [hall, slice]
    · have hfrom : slice (offset + k) (expected.length - k) full = expected.drop k := by
        have hdrop := congrArg (List.drop k) hfull
        rwa [slice, List.drop_take, List.drop_drop] at hdrop
      rw [complete, slice_append_right (by omega), slice, List.drop_drop, ← hfrom, slice]
      congr 2
      omega
  have hjoin := slice_append_slice offset k (expected.length - k) (complete rest full)
  rw [hbefore, hafter, List.take_append_drop, Nat.add_sub_cancel' (by omega)] at hjoin
  exact hjoin.symm

/-- Digests do not matter to a header. -/
def zeroDigest : Sha256 := ⟨fun _ => List.replicate 32 0, fun _ => List.length_replicate⟩

def emptyEntry (t : EventType) : Entry := ⟨t, .empty⟩

/-- The header of a record without payload. -/
def emptyHeader (t : EventType) (sequence : ℕ) : List UInt8 :=
  ((emptyEntry t).record zeroDigest sequence).take headerSize

theorem slice_emptyHeader (t : EventType) {offset len : ℕ} (h : offset + len ≤ headerSize) :
    slice offset len (emptyHeader t sequence) = slice offset len ((emptyEntry t).record zeroDigest sequence) :=
  slice_take h _

/-- A length whose last byte is missing can still be small. -/
theorem readLE_complete_lt (t : EventType) (hlen : rest.length ≤ 31) :
    readLE 24 8 (complete rest (emptyHeader t sequence)) < 256 ^ 7 := by
  have hlast : slice 31 1 (complete rest (emptyHeader t sequence)) = [0] := by
    refine @slice_complete rest (emptyHeader t sequence) [0] 31 ?_ ?_
    · rw [slice_emptyHeader t (by decide)]
      have hfield := slice_payloadLen zeroDigest (emptyEntry t) sequence
      have hdrop := congrArg (List.drop 7) hfield
      rw [slice, List.drop_take, List.drop_drop] at hdrop
      exact hdrop.trans (by decide : (encode 8 0).drop 7 = [0])
    · rw [fieldPrefixMatches, Nat.sub_eq_zero_of_le hlen, Nat.zero_min]
      rfl
  have hlow := @readLE_lt 24 7 (complete rest (emptyHeader t sequence))
  rw [readLE, ← slice_append_slice 24 7 1, hlast, decode_append]
  exact hlow

/-- A torn header is completed by the rest of a good one. -/
theorem Torn.passed (h : Torn rest sequence) (hlen : rest.length < headerSize) (hs : sequence < 2 ^ 64) :
    ∃ header, HeaderPassed header sequence ∧ rest <+: header := by
  obtain ⟨t, ht⟩ := h.eventType
  have h64 : headerSize = 64 := rfl
  have hgood := @headerPassed_record zeroDigest (emptyEntry t) sequence (by omega)
  have hname := name_length_le t
  rw [maxEventTypeLen_eq] at hname
  have hfull : (emptyHeader t sequence).length = headerSize := hgood.length
  have hevent : readLE 12 4 (complete rest (emptyHeader t sequence)) = t.name.length := by
    have hslice : slice 12 (encode 4 t.name.length).length (emptyHeader t sequence) = encode 4 t.name.length := by
      rw [encode_length, slice_emptyHeader t (by decide)]
      exact slice_eventLen zeroDigest (emptyEntry t) sequence
    have hfield := slice_complete hslice ht
    rw [encode_length] at hfield
    exact readLE_of_slice hfield (by omega)
  refine ⟨complete rest (emptyHeader t sequence), ⟨?_, ?_, ?_, ?_, ?_, ?_, ?_⟩, List.prefix_append _ _⟩
  · rw [complete, List.length_append, List.length_drop, hfull]
    omega
  · have hslice : slice 0 magic.length (emptyHeader t sequence) = magic := by
      rw [magic_length]
      exact hgood.magic_eq
    have hfield := slice_complete hslice h.magic_matches
    rwa [magic_length] at hfield
  · have hslice : slice 8 (encode 2 headerSize).length (emptyHeader t sequence) = encode 2 headerSize := by
      rw [encode_length]
      exact slice_of_readLE (by omega) hgood.headerSize_eq
    exact readLE_of_slice (slice_complete hslice h.headerSize_matches) (by decide)
  · have hslice : slice 10 (encode 2 recordVersion).length (emptyHeader t sequence) = encode 2 recordVersion := by
      rw [encode_length]
      exact slice_of_readLE (by omega) hgood.version_eq
    exact readLE_of_slice (slice_complete hslice h.version_matches) (by decide)
  · have hslice : slice 16 (encode 8 sequence).length (emptyHeader t sequence) = encode 8 sequence := by
      rw [encode_length]
      exact slice_of_readLE (by omega) hgood.sequence_eq
    have hfield := slice_complete hslice h.sequence_matches
    rw [encode_length] at hfield
    exact readLE_of_slice hfield (by omega)
  · rw [hevent]
    exact eventTypeLengthIsCanonical_name t
  · by_cases h32 : 32 ≤ rest.length
    · have hsize := h.size_le h32
      rw [complete, readLE_append_left (by omega), readLE_append_left (by omega)]
      exact hsize
    · have hpayload := @readLE_complete_lt rest sequence t (by omega)
      rw [hevent, h64, maxSize]
      omega

/-- The scan takes the end of a file that is shorter than a header for a torn header exactly if it is the
    beginning of a header that passes every check, and for corruption otherwise. -/
theorem partial_header_iff (sha : Sha256) (hlen : rest.length < headerSize) (hs : sequence < 2 ^ 64) :
    (scanRecord sha rest sequence = .stop .partialHeader rest.length headerSize ↔
        ∃ header, HeaderPassed header sequence ∧ rest <+: header) ∧
      ((¬∃ header, HeaderPassed header sequence ∧ rest <+: header) →
        ∃ reason, isCorruption reason = true ∧ scanRecord sha rest sequence = .stop reason rest.length 0) := by
  have hscan : scanRecord sha rest sequence = .stop (classifyPartialHeaderPrefix rest sequence) rest.length
      (if classifyPartialHeaderPrefix rest sequence = .partialHeader then headerSize else 0) := by
    rw [scanRecord, if_pos hlen]
  have hiff : classifyPartialHeaderPrefix rest sequence = .partialHeader ↔
      ∃ header, HeaderPassed header sequence ∧ rest <+: header := by
    constructor
    · intro h
      exact (torn_of_partialHeader h).passed hlen hs
    · rintro ⟨header, hpassed, hbeginning⟩
      rw [List.prefix_iff_eq_take.mp hbeginning]
      exact classifyPartialHeaderPrefix_take hpassed hlen
  refine ⟨?_, fun hnone => ?_⟩
  · rw [hscan, ← hiff]
    constructor
    · intro h
      exact (ScanStep.stop.inj h).1
    · intro h
      rw [if_pos h, h]
  · have hne : classifyPartialHeaderPrefix rest sequence ≠ .partialHeader := fun h => hnone (hiff.mp h)
    refine ⟨classifyPartialHeaderPrefix rest sequence, ?_, ?_⟩
    · exact (classifyPartialHeaderPrefix_cases rest sequence).resolve_left hne
    · rw [hscan, if_neg hne]

end

/-- A header torn in the middle of its payload length. -/
theorem partial_header_iff_thirty :
    (scanRecord zeroDigest ((emptyHeader .flagChanged 7).take 30) 7 = .stop .partialHeader 30 headerSize ↔
        ∃ header, HeaderPassed header 7 ∧ (emptyHeader .flagChanged 7).take 30 <+: header) ∧
      ((¬∃ header, HeaderPassed header 7 ∧ (emptyHeader .flagChanged 7).take 30 <+: header) →
        ∃ reason, isCorruption reason = true ∧
          scanRecord zeroDigest ((emptyHeader .flagChanged 7).take 30) 7 = .stop reason 30 0) :=
  @partial_header_iff ((emptyHeader .flagChanged 7).take 30) 7 zeroDigest (by decide) (by decide)

end Wyrebox.PartialHeader
