import Wyrebox.JournalCrash

set_option autoImplicit false

/-!
# Round trip and resume

What the writer accepted is what a reader returns, at the positions the writer reported, and a
reader that seeks to one of them continues with the next record.
-/
namespace Wyrebox.JournalResume
open LittleEndian ByteField JournalRecord JournalReader JournalWriter

/-- What the caller of each append gets. -/
def Journal.receipts (sha : Sha256) : Journal → List (Entry × Disk) → List (Except AppendError Position)
  | _, [] => []
  | j, (e, disk) :: attempts => (j.append sha e disk).2 :: receipts sha (j.append sha e disk).1 attempts

inductive SeekError where
  | invalidOffset (offset : ℕ)
  | read (error : ReadError)
  | pastEof (offset : ℕ)
  | mismatch (offset : ℕ)
  deriving DecidableEq, Repr

def SeekError.message : SeekError → String
  | .invalidOffset offset => "journal checkpoint offset " ++ toString offset ++ " is invalid"
  | .read error => error.message
  | .pastEof offset => "journal checkpoint offset " ++ toString offset ++ " is past EOF"
  | .mismatch offset => "journal checkpoint mismatch at offset " ++ toString offset

/-- `wyrebox_journal_reader_seek_after_checkpoint`. -/
def seekAfterCheckpoint (sha : Sha256) (reader : Reader) (offset sequence : ℕ) : Except SeekError Reader :=
  if reader.contents.isNone ∨ reader.fileSize ≤ offset ∨ maxOffset < offset then
    .error (.invalidOffset offset)
  else
    match readNext sha { reader with offset := offset, nextSequence := sequence } with
    | .error error => .error (.read error)
    | .ok none => .error (.pastEof offset)
    | .ok (some (record, next)) =>
      if record.offset ≠ offset ∨ record.sequence ≠ sequence then .error (.mismatch offset) else .ok next

/-! ## What is accepted -/

section
variable {sha : Sha256} {j : Journal} {es : List Entry}

def positionOf (record : Record) : Position := ⟨record.offset, record.sequence⟩

/-- The record that an append reported at `position` left. -/
def recordAt (e : Entry) (position : Position) : Record := recordOf e position.offset position.sequence

/-- Appends that are all accepted extend the journal by their entries, at the reported positions. -/
theorem receipts_accepted (h : Represents sha j es none) (attempts : List (Entry × Disk))
    (positions : List Position) (haccepted : Journal.receipts sha j attempts = positions.map .ok) :
    Represents sha (j.appendAll sha attempts) (es ++ attempts.map Prod.fst) none ∧
      positions = (recordsOf (totalSize es) (es.length + 1) (attempts.map Prod.fst)).map positionOf := by
  induction attempts generalizing j es positions with
  | nil =>
    rw [Journal.receipts, eq_comm, List.map_eq_nil_iff] at haccepted
    rw [haccepted, Journal.appendAll, List.map_nil, List.append_nil]
    exact ⟨h, rfl⟩
  | cons attempt attempts ih =>
    obtain ⟨e, disk⟩ := attempt
    rcases append_cases (e := e) h disk with ⟨j', happ, hrep⟩ | ⟨j', error, happ, -⟩
    · rw [Journal.receipts, happ] at haccepted
      cases positions with
      | nil => simp at haccepted
      | cons position positions =>
        rw [List.map_cons, List.cons.injEq, Except.ok.injEq] at haccepted
        obtain ⟨hall, hpositions⟩ := ih hrep positions haccepted.2
        rw [Journal.appendAll, happ, List.map_cons]
        refine ⟨?_, ?_⟩
        · rw [List.append_assoc, List.singleton_append] at hall
          exact hall
        · have hsize : totalSize (es ++ [e]) = totalSize es + e.size := by simp [totalSize]
          rw [hsize, List.length_append, List.length_singleton] at hpositions
          rw [recordsOf, List.map_cons, ← hpositions, ← haccepted.1]
          rfl
    · rw [Journal.receipts, happ] at haccepted
      cases positions <;> simp at haccepted

theorem zipWith_recordsOf (offset sequence : ℕ) (es : List Entry) :
    List.zipWith recordAt es ((recordsOf offset sequence es).map positionOf) =
      recordsOf offset sequence es := by
  induction es generalizing offset sequence with
  | nil => rfl
  | cons e es ih =>
    simp only [recordsOf, List.map_cons, List.zipWith_cons_cons, ih]
    rfl

theorem recordsOf_sequence (offset sequence : ℕ) (es : List Entry) :
    (recordsOf offset sequence es).map Record.sequence = List.range' sequence es.length := by
  induction es generalizing offset sequence with
  | nil => rfl
  | cons e es ih =>
    rw [recordsOf, List.map_cons, ih, List.length_cons, List.range'_succ]
    rfl

theorem recordsOf_drop (offset sequence : ℕ) (es fs : List Entry) (e : Entry) :
    (recordsOf offset sequence (es ++ e :: fs)).drop (es.length + 1) =
      recordsOf (offset + totalSize es + e.size) (sequence + es.length + 1) fs := by
  rw [recordsOf_append, List.drop_append, recordsOf_length, List.drop_eq_nil_of_le (by rw [recordsOf_length]; omega),
    List.nil_append, Nat.add_sub_cancel_left]
  rfl

end

/-! ## Seeking -/

section
variable {sha : Sha256} {segment : Segment} {offset sequence : ℕ}

/-- A checkpoint is accepted exactly where a complete record with its sequence starts. -/
theorem seek_eq_ok_iff (hs : sequence < 2 ^ 64) {next : Reader} :
    seekAfterCheckpoint sha (.new (some segment)) offset sequence = .ok next ↔
      ∃ e tail, segment.bytes.drop offset = Entry.record sha e sequence ++ tail ∧
        next = .at segment (offset + e.size) ((sequence + 1) % 2 ^ 64) := by
  have hfile := segment.size_le
  rw [Reader.new_eq_at, seekAfterCheckpoint]
  constructor
  · intro h
    split_ifs at h with hinvalid
    cases hread : readNext sha (.at segment offset sequence) with
    | error error =>
      rw [hread] at h
      simp at h
    | ok result =>
      rw [hread] at h
      cases result with
      | none => simp at h
      | some found =>
        obtain ⟨record, reader⟩ := found
        obtain ⟨e, tail, hrest, rfl, rfl⟩ := readNext_sound sha hread
        simp only [recordOf, ne_eq, not_true_eq_false, or_self, if_false, Except.ok.injEq] at h
        exact ⟨e, tail, hrest, h.symm⟩
  · rintro ⟨e, tail, hrest, rfl⟩
    have hlen := congrArg List.length hrest
    have hsize := e.size_pos
    rw [List.length_drop, List.length_append, Entry.record_length] at hlen
    have hvalid : ¬((Reader.at segment 0 1).contents.isNone ∨ segment.bytes.length ≤ offset ∨
        maxOffset < offset) := by
      rintro (hnone | hend | hlarge)
      · simp at hnone
      · omega
      · omega
    rw [if_neg hvalid, readNext_record sha tail hs hrest]
    simp [recordOf]

/-- Two records that start at one place have one number. -/
theorem sequence_unique {e e' : Entry} {sequence' : ℕ} {tail tail' : List UInt8} (hs : sequence < 2 ^ 64)
    (hs' : sequence' < 2 ^ 64) (h : e.record sha sequence ++ tail = e'.record sha sequence' ++ tail') :
    sequence = sequence' := by
  have hfield : ∀ (f : Entry) (n : ℕ) (rest : List UInt8),
      slice 16 8 (f.record sha n ++ rest) = encode 8 n := by
    intro f n rest
    have hlt := f.headerSize_lt_size
    have h64 : headerSize = 64 := rfl
    rw [slice_append_left (by rw [Entry.record_length]; omega), slice_sequence]
  have hencoded : encode 8 sequence = encode 8 sequence' := by rw [← hfield e sequence tail, h, hfield]
  exact encode_inj (by omega) (by omega) hencoded

theorem drop_image_append (es fs : List Entry) {bytes : List UInt8} (h : bytes = image sha 1 (es ++ fs)) :
    bytes.drop (totalSize es) = image sha (es.length + 1) fs := by
  rw [h, image_append, ← image_length sha 1 es, List.drop_left, Nat.add_comm]

end

/-- What holds of a file that the writer left: it reads back as `records`, a reader resumes after any
    of them, and nothing else is accepted as a checkpoint but a complete record. -/
structure RoundTrips (sha : Sha256) (file : Segment) (records : List Record) : Prop where
  read : readSegment sha (some file) = (records, none)
  consecutive : records.map Record.sequence = List.range' 1 records.length
  resumes : ∀ k record, records[k]? = some record →
    ∃ reader, seekAfterCheckpoint sha (.new (some file)) record.offset record.sequence = .ok reader ∧
      readAll sha (file.bytes.length + 1) reader = (records.drop (k + 1), none)
  otherSequence : ∀ record ∈ records, ∀ sequence < 2 ^ 64, sequence ≠ record.sequence →
    ∃ error, seekAfterCheckpoint sha (.new (some file)) record.offset sequence = .error error
  accepted : ∀ offset, ∀ sequence < 2 ^ 64,
    (∃ reader, seekAfterCheckpoint sha (.new (some file)) offset sequence = .ok reader) ↔
      ∃ e, Entry.record sha e sequence <+: file.bytes.drop offset

theorem image_roundTrips (sha : Sha256) {file : Segment} {es : List Entry} (h : file.bytes = image sha 1 es) :
    RoundTrips sha file (recordsOf 0 1 es) := by
  have hsize := length_le_totalSize es
  have hlen : file.bytes.length = totalSize es := by rw [h, image_length]
  have hfile := file.size_le
  rw [maxOffset] at hfile
  -- where the `k`-th record lies
  have hplace : ∀ k record, (recordsOf 0 1 es)[k]? = some record → ∃ pre e post, es = pre ++ e :: post ∧
      k = pre.length ∧ record = recordOf e (totalSize pre) (pre.length + 1) ∧
      file.bytes.drop (totalSize pre) = e.record sha (pre.length + 1) ++ image sha (pre.length + 1 + 1) post := by
    intro k record hk
    have hbound := (List.getElem?_eq_some_iff.mp hk).1
    rw [recordsOf_length] at hbound
    have hsplit : es = es.take k ++ es[k] :: es.drop (k + 1) := by
      rw [List.getElem_cons_drop, List.take_append_drop]
    have hlength : (es.take k).length = k := List.length_take_of_le (Nat.le_of_lt hbound)
    refine ⟨es.take k, es[k], es.drop (k + 1), hsplit, hlength.symm, ?_, ?_⟩
    · have hget := recordsOf_getElem 0 1 (es.take k) (es.drop (k + 1)) es[k]
      rw [← hsplit, hlength, hk, Option.some.injEq, Nat.zero_add, Nat.add_comm 1] at hget
      rw [hget, hlength]
    · rw [hsplit] at h
      exact drop_image_append (es.take k) (es[k] :: es.drop (k + 1)) h
  refine ⟨readSegment_image sha h, ?_, ?_, ?_, ?_⟩
  · rw [recordsOf_sequence, recordsOf_length]
  · intro k record hk
    obtain ⟨pre, e, post, hes, rfl, rfl, hrest⟩ := hplace k record hk
    have hcount : pre.length + 1 + post.length = es.length := by
      rw [hes, List.length_append, List.length_cons]
      omega
    have hseek := (@seek_eq_ok_iff sha file (totalSize pre) (pre.length + 1) (by omega) _).mpr ⟨e, _, hrest, rfl⟩
    refine ⟨_, hseek, ?_⟩
    have htail : file.bytes.drop (totalSize pre + e.size) = image sha (pre.length + 1 + 1) post := by
      rw [← List.drop_drop, hrest, ← e.record_length sha (pre.length + 1), List.drop_left]
    have hpos : totalSize pre + e.size ≤ file.bytes.length := by
      rw [hlen, hes]
      simp only [totalSize, List.map_append, List.map_cons, List.sum_append, List.sum_cons]
      omega
    have hread := readAll_image sha file post (file.bytes.length - post.length) (totalSize pre + e.size)
      (pre.length + 1 + 1) (by omega) hpos htail
    rw [Nat.mod_eq_of_lt (by omega), hes, recordsOf_drop, Nat.zero_add, Nat.add_comm 1, ← hread]
    congr 1
    omega
  · intro record hrecord sequence hs hne
    obtain ⟨k, hk⟩ := List.mem_iff_getElem?.mp hrecord
    obtain ⟨pre, e, post, hes, rfl, rfl, hrest⟩ := hplace k record hk
    have hcount : pre.length + 1 ≤ es.length := by
      rw [hes, List.length_append, List.length_cons]
      omega
    cases hseek : seekAfterCheckpoint sha (.new (some file)) (totalSize pre) sequence with
    | error error => exact ⟨error, hseek⟩
    | ok reader =>
      obtain ⟨e', tail, hrest', -⟩ := (seek_eq_ok_iff hs).mp hseek
      rw [hrest] at hrest'
      exact absurd (sequence_unique (by omega) hs hrest').symm hne
  · intro offset sequence hs
    constructor
    · rintro ⟨reader, hseek⟩
      obtain ⟨e, tail, hrest, -⟩ := (seek_eq_ok_iff hs).mp hseek
      exact ⟨e, tail, hrest.symm⟩
    · rintro ⟨e, tail, hrest⟩
      exact ⟨_, (seek_eq_ok_iff hs).mpr ⟨e, tail, hrest.symm, rfl⟩⟩

/-- The records found when the writer was opened and those it accepted, in order and at the
    positions it reported. -/
theorem round_trip_and_resume (sha : Sha256) {found : Option Segment} {j : Journal}
    (hopen : Journal.new sha found = .ok j) (attempts : List (Entry × Disk)) (positions : List Position)
    (haccepted : Journal.receipts sha j attempts = positions.map .ok) :
    ∃ before, readSegment sha (some j.segment) = (before, none) ∧
      RoundTrips sha (j.appendAll sha attempts).segment
        (before ++ List.zipWith recordAt (attempts.map Prod.fst) positions) := by
  obtain ⟨es, hrep, -⟩ := new_represents sha hopen
  obtain ⟨n, hbytes⟩ := hrep.bytes
  obtain ⟨hall, hpositions⟩ := receipts_accepted hrep attempts positions haccepted
  obtain ⟨n', hbytes'⟩ := hall.bytes
  rw [Option.elim_none, List.append_nil] at hbytes hbytes'
  refine ⟨recordsOf 0 1 es, readSegment_image sha hbytes, ?_⟩
  rw [hpositions, zipWith_recordsOf]
  have htrip := image_roundTrips sha hbytes'
  rw [recordsOf_append, Nat.zero_add, Nat.add_comm 1] at htrip
  exact htrip

/-! ## A run -/

/-- A record with no payload, and one whose payload holds the bytes of the first. -/
def embedded : Entry := ⟨.flagChanged, .empty⟩

def carrier : Entry :=
  ⟨.messageDelivered, ⟨embedded.record JournalCrash.sha256 7, by rw [Entry.record_length]; decide⟩⟩

def freshJournal : Journal := ⟨.empty, ⟨1, 0, false⟩⟩

theorem carrier_size : carrier.size = 155 := by
  rw [Entry.size, show carrier.payload.data.length = embedded.size from Entry.record_length ..]
  decide

theorem carrier_receipts :
    Journal.receipts JournalCrash.sha256 freshJournal [(carrier, .synced)] = [.ok ⟨0, 1⟩] := by
  have hfit : freshJournal.segment.bytes.length + carrier.size ≤ maxOffset := by
    rw [carrier_size]
    decide
  rw [Journal.receipts, append_synced rfl hfit]
  rfl

/-- A checkpoint inside the only record of a journal is accepted: the payload embeds a record. -/
theorem embedded_record_accepted :
    Journal.new JournalCrash.sha256 none = .ok freshJournal ∧
    Journal.receipts JournalCrash.sha256 freshJournal [(carrier, .synced)] = [.ok ⟨0, 1⟩] ∧
    (∀ record ∈ (readSegment JournalCrash.sha256
      (some (freshJournal.appendAll JournalCrash.sha256 [(carrier, .synced)]).segment)).1,
      record.offset ≠ 80) ∧
    ∃ reader, seekAfterCheckpoint JournalCrash.sha256
      (.new (some (freshJournal.appendAll JournalCrash.sha256 [(carrier, .synced)]).segment)) 80 7 = .ok reader := by
  have hopen : Journal.new JournalCrash.sha256 none = .ok freshJournal := rfl
  obtain ⟨es, hrep, hempty⟩ := new_represents JournalCrash.sha256 hopen
  obtain ⟨n, hbytes⟩ := hrep.bytes
  have hnil : es = [] := by
    have hlength := congrArg List.length hbytes
    have hes := length_le_totalSize es
    rw [List.length_append, image_length] at hlength
    have hzero : freshJournal.segment.bytes.length = 0 := rfl
    exact List.eq_nil_of_length_eq_zero (by omega)
  subst hnil
  obtain ⟨hall, -⟩ := receipts_accepted hrep [(carrier, .synced)] [⟨0, 1⟩] carrier_receipts
  obtain ⟨n', hfile⟩ := hall.bytes
  rw [Option.elim_none, List.append_nil] at hfile
  refine ⟨hopen, carrier_receipts, ?_, ?_⟩
  · rw [readSegment_image JournalCrash.sha256 hfile]
    intro record hrecord
    obtain rfl : record = recordOf carrier 0 1 := List.mem_singleton.mp hrecord
    decide
  · have hname : (carrier.fields 1 ++ (carrier.checksum JournalCrash.sha256 1 ++ carrier.eventType.name)).length = 80 := by
      rw [List.length_append, List.length_append, Entry.fields, headerFields_length, Entry.checksum,
        Sha256.digest_length]
      rfl
    have hdrop : (freshJournal.appendAll JournalCrash.sha256 [(carrier, .synced)]).segment.bytes.drop 80 =
        embedded.record JournalCrash.sha256 7 := by
      rw [hfile, ← hname]
      simp only [List.nil_append, List.map_cons, List.map_nil, image, Entry.record, Entry.body, List.append_nil,
        ← List.append_assoc]
      exact List.drop_left
    exact ⟨_, (seek_eq_ok_iff (by decide)).mpr ⟨embedded, [], by rw [hdrop, List.append_nil], rfl⟩⟩

/-- The same journal reads back, and a reader resumes after its record. -/
theorem round_trip_and_resume_carrier :
    ∃ before, readSegment JournalCrash.sha256 (some freshJournal.segment) = (before, none) ∧
      RoundTrips JournalCrash.sha256 (freshJournal.appendAll JournalCrash.sha256 [(carrier, .synced)]).segment
        (before ++ List.zipWith recordAt ([(carrier, Disk.synced)].map Prod.fst) [⟨0, 1⟩]) :=
  @round_trip_and_resume JournalCrash.sha256 none freshJournal rfl [(carrier, .synced)] [⟨0, 1⟩] carrier_receipts

end Wyrebox.JournalResume
