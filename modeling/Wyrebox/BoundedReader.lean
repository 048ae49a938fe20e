import Wyrebox.JournalCrash
import Mathlib.Logic.Relation

set_option autoImplicit false

/-!
# Readers below the durable end

Passes read the journal while the writer appends to it. A reader is limited to a durable end
that was asked for earlier. Here an append is a run of small steps that reads may fall between.
-/
namespace Wyrebox.BoundedReader
open ByteField JournalRecord JournalScan JournalReader JournalWriter JournalCrash

/-- An append that holds the append mutex, `offset` being where its record starts. -/
structure Pending where
  entry : Entry
  offset : ℕ
  written : ℕ

/-- An answer of `get_durable_end` and the entries whose appends had returned by then. -/
structure Bound where
  limit : ℕ
  acknowledged : List Entry

/-- `call` holds the states of the file since the running `read_next` began. -/
structure LimitedReader where
  bound : Bound
  reader : Reader
  call : Option (List Segment)
  results : List (Except ReadError (Option Record))

/-- One writer and the readers of its file. `acknowledged` are the entries whose appends
    returned success. -/
structure World where
  journal : Journal
  pending : Option Pending
  acknowledged : List Entry
  bounds : List Bound
  readers : List LimitedReader

def World.start (j : Journal) : World := ⟨j, none, [], [], []⟩

/-- Calls of `read_next` that are running see the file change. -/
def LimitedReader.observe (segment : Segment) (r : LimitedReader) : LimitedReader :=
  { r with call := r.call.map (· ++ [segment]) }

def World.setSegment (w : World) (segment : Segment) : World :=
  { w with
    journal := ⟨segment, w.journal.writer⟩
    readers := w.readers.map (.observe segment) }

/-- `fstat` after `open`. -/
def LimitedReader.open (segment : Segment) (bound : Bound) : LimitedReader :=
  ⟨bound, .newWithLimit (some segment) bound.limit, none, []⟩

/-- Each byte that a call read was in the file at some moment of the call. -/
def Seen (states : List Segment) (fileSize : ℕ) (seen : Segment) : Prop :=
  ∀ position, position < fileSize →
    ∃ segment ∈ states, seen.bytes[position]? = segment.bytes[position]?

/-- The call returns what `read_next` makes of the bytes it read. -/
def LimitedReader.return (sha : Sha256) (seen : Segment) (r : LimitedReader) : LimitedReader :=
  let answer := readNext sha { r.reader with contents := some seen }
  { r with
    reader := match answer with
      | .ok (some (_, reader)) => reader
      | _ => r.reader
    call := none
    results := r.results ++ [answer.map fun found => found.map Prod.fst] }

/-- Where a write or sync error leaves the writer. -/
def World.fail (w : World) : World :=
  { w with
    journal := ⟨w.journal.segment, { w.journal.writer with failed := true }⟩
    pending := none }

/-- The sync of a whole record succeeds and the append returns. -/
def World.acknowledge (w : World) (p : Pending) : World :=
  { w with
    journal := ⟨w.journal.segment,
      ⟨(w.journal.writer.nextSequence + 1) % 2 ^ 64, p.offset + p.entry.size, false⟩⟩
    pending := none
    acknowledged := w.acknowledged ++ [p.entry] }

/-- Some further bytes of the record reach the file, as many as fit. -/
def World.write (sha : Sha256) (w : World) (p : Pending) (count : ℕ) : World :=
  let data := ((p.entry.record sha w.journal.writer.nextSequence).drop p.written).take count
  let segment := w.journal.segment.extend data
  { w.setSegment segment with
    pending := some { p with written := segment.bytes.length - p.offset } }

inductive Step (sha : Sha256) : World → World → Prop where
  | refuse (w : World) (h : w.journal.writer.failed = true) : Step sha w w
  | beginAppend (w : World) (e : Entry) (idle : w.pending = none)
      (h : w.journal.writer.failed = false) :
      Step sha w { w with pending := some ⟨e, w.journal.segment.bytes.length, 0⟩ }
  | write (w : World) (p : Pending) (count : ℕ) (h : w.pending = some p) :
      Step sha w (w.write sha p count)
  /-- `lseek` or a write fails before the record is whole. -/
  | writeError (w : World) (p : Pending) (h : w.pending = some p) (part : p.written < p.entry.size) :
      Step sha w w.fail
  | syncError (w : World) (p : Pending) (h : w.pending = some p)
      (whole : p.written = p.entry.size) : Step sha w w.fail
  | synced (w : World) (p : Pending) (h : w.pending = some p)
      (whole : p.written = p.entry.size) : Step sha w (w.acknowledge p)
  | getDurableEnd (w : World) (idle : w.pending = none) :
      Step sha w { w with bounds := ⟨w.journal.writer.durableEnd, w.acknowledged⟩ :: w.bounds }
  | openReader (w : World) (bound : Bound) (h : bound ∈ w.bounds) :
      Step sha w { w with readers := .open w.journal.segment bound :: w.readers }
  | beginRead (w : World) (before after : List LimitedReader) (r : LimitedReader)
      (h : w.readers = before ++ r :: after) (idle : r.call = none) :
      Step sha w
        { w with readers := before ++ { r with call := some [w.journal.segment] } :: after }
  | endRead (w : World) (before after : List LimitedReader) (r : LimitedReader)
      (states : List Segment) (seen : Segment) (h : w.readers = before ++ r :: after)
      (running : r.call = some states) (hseen : Seen states r.reader.fileSize seen) :
      Step sha w { w with readers := before ++ r.return sha seen :: after }

abbrev Run (sha : Sha256) : World → World → Prop := Relation.ReflTransGen (Step sha)

/-! ## The writer's steps make up one append -/

/-- A running append: the file before it represents `es`, and what follows there are first
    bytes of the record. -/
structure Appending (sha : Sha256) (j : Journal) (es : List Entry) (p : Pending) : Prop where
  before : Represents sha ⟨j.segment.truncate p.offset, j.writer⟩ es none
  offset : p.offset = totalSize es
  written : p.written ≤ p.entry.size
  bytes : j.segment.bytes =
    image sha 1 es ++ (p.entry.record sha (es.length + 1)).take p.written

/-- What the writer's state and the file say of the acknowledged entries. -/
inductive Holds (sha : Sha256) (w : World) (es : List Entry) : Prop where
  | idle (torn : Option Entry) (pending : w.pending = none) (h : Represents sha w.journal es torn)
  | appending (p : Pending) (pending : w.pending = some p) (h : Appending sha w.journal es p)

section
variable {sha : Sha256} {j : Journal} {w : World} {es : List Entry} {p : Pending}

theorem Holds.bytes (h : Holds sha w es) :
    ∃ tail, w.journal.segment.bytes = image sha 1 es ++ tail := by
  cases h with
  | idle torn pending h =>
    obtain ⟨n, hbytes⟩ := h.bytes
    exact ⟨_, hbytes⟩
  | appending p pending h => exact ⟨_, h.bytes⟩

theorem Holds.length_lt (h : Holds sha w es) : es.length < 2 ^ 63 := by
  cases h with
  | idle torn pending h => exact h.length_lt
  | appending p pending h => exact h.before.length_lt

/-- Entries acknowledged earlier are still the first ones in the file. -/
theorem Holds.bytes_prefix (h : Holds sha w es) {earlier : List Entry} (hearlier : earlier <+: es) :
    ∃ tail, w.journal.segment.bytes = image sha 1 earlier ++ tail := by
  obtain ⟨later, rfl⟩ := hearlier
  obtain ⟨tail, hbytes⟩ := h.bytes
  rw [image_append, List.append_assoc] at hbytes
  exact ⟨_, hbytes⟩

theorem Appending.length (h : Appending sha j es p) :
    j.segment.bytes.length = p.offset + p.written := by
  have hwritten := h.written
  rw [h.bytes, List.length_append, image_length, List.length_take, Entry.record_length, h.offset]
  omega

theorem Appending.begin (h : Represents sha j es none) (e : Entry) :
    Appending sha j es ⟨e, j.segment.bytes.length, 0⟩ := by
  obtain ⟨n, hbytes⟩ := h.bytes
  simp only [Option.elim_none, List.append_nil] at hbytes
  have hsame : j.segment.truncate j.segment.bytes.length = j.segment := by
    simp only [Segment.truncate, List.take_length]
  refine ⟨?_, ?_, Nat.zero_le _, ?_⟩
  · rw [hsame]
    exact h
  · change j.segment.bytes.length = _
    rw [hbytes, image_length]
  · simpa using hbytes

/-- Writing goes on where it stopped. -/
theorem Appending.write (h : Appending sha w.journal es p) (count : ℕ) :
    ∃ written, (w.write sha p count).pending = some { p with written := written } ∧
      Appending sha (w.write sha p count).journal es { p with written := written } := by
  have hnext : w.journal.writer.nextSequence = es.length + 1 := h.before.nextSequence rfl
  have hlen := h.length
  have hoffset := h.offset
  have hrec := p.entry.record_length sha (es.length + 1)
  let data := ((p.entry.record sha (es.length + 1)).drop p.written).take count
  let written := min (p.written + min (maxOffset - w.journal.segment.bytes.length) count) p.entry.size
  have hbytes : (w.journal.segment.extend data).bytes =
      image sha 1 es ++ (p.entry.record sha (es.length + 1)).take written := by
    change w.journal.segment.bytes ++ data.take (maxOffset - w.journal.segment.bytes.length) = _
    rw [List.take_take, h.bytes, List.append_assoc, ← h.bytes, ← List.take_add,
      List.take_eq_take_min, hrec]
  have hle : written ≤ p.entry.size := Nat.min_le_right _ _
  have hcount : (w.journal.segment.extend data).bytes.length - p.offset = written := by
    rw [hbytes, List.length_append, image_length, List.length_take, hrec, hoffset]
    omega
  have htruncate : (w.journal.segment.extend data).truncate p.offset =
      w.journal.segment.truncate p.offset := by
    simp only [Segment.truncate, Segment.extend, Segment.mk.injEq]
    rw [List.take_append_of_le_length (by omega)]
  refine ⟨written, ?_, ?_⟩
  · simp only [World.write, hnext, World.setSegment]
    rw [hcount]
  · simp only [World.write, hnext, World.setSegment]
    exact ⟨by rw [htruncate]; exact h.before, hoffset, hle, hbytes⟩

/-- The file is the one before the append with the written part of the record added. -/
theorem Appending.extend_eq (h : Appending sha j es p) :
    (j.segment.truncate p.offset).extend
      ((p.entry.record sha j.writer.nextSequence).take p.written) = j.segment := by
  have hnext : j.writer.nextSequence = es.length + 1 := h.before.nextSequence rfl
  have hfile := j.segment.size_le
  have hlen := h.length
  have hcut : (j.segment.truncate p.offset).bytes = image sha 1 es := by
    change j.segment.bytes.take p.offset = _
    rw [h.bytes, h.offset, ← image_length sha 1 es, List.take_left]
  have hfit : (j.segment.truncate p.offset).bytes.length +
      ((p.entry.record sha (es.length + 1)).take p.written).length ≤ maxOffset := by
    rw [hcut, image_length, List.length_take, ← h.offset]
    omega
  rw [hnext]
  have hbytes := extend_bytes hfit
  rw [hcut, ← h.bytes] at hbytes
  exact Segment.mk.injEq _ _ _ _ ▸ hbytes

theorem Appending.extend_whole (h : Appending sha j es p) (whole : p.written = p.entry.size) :
    (j.segment.truncate p.offset).extend (p.entry.record sha j.writer.nextSequence) = j.segment := by
  have hextend := h.extend_eq
  rwa [whole, ← p.entry.record_length sha j.writer.nextSequence, List.take_length] at hextend

/-- A write error ends the append as `Journal.append` does. -/
theorem Appending.append_writeError (h : Appending sha j es p) :
    Journal.append sha ⟨j.segment.truncate p.offset, j.writer⟩ p.entry (.writeFailed p.written) =
      (⟨j.segment, { j.writer with failed := true }⟩, .error .writeFailed) := by
  have hfailed : j.writer.failed = false := h.before.failed
  simp only [Journal.append, hfailed, Bool.false_eq_true, if_false, h.extend_eq]

theorem Appending.truncate_length (h : Appending sha j es p) :
    (j.segment.truncate p.offset).bytes.length = p.offset := by
  have hlen := h.length
  change (j.segment.bytes.take p.offset).length = _
  rw [List.length_take]
  omega

theorem Appending.append_syncError (h : Appending sha j es p) (whole : p.written = p.entry.size) :
    Journal.append sha ⟨j.segment.truncate p.offset, j.writer⟩ p.entry .syncFailed =
      (⟨j.segment, { j.writer with failed := true }⟩, .error .syncFailed) := by
  have hfailed : j.writer.failed = false := h.before.failed
  have hfile := j.segment.size_le
  rw [h.length, whole] at hfile
  simp only [Journal.append, hfailed, Bool.false_eq_true, if_false, h.truncate_length,
    Entry.record_length, Nat.not_lt.mpr hfile, h.extend_whole whole]

theorem Appending.append_synced (h : Appending sha j es p) (whole : p.written = p.entry.size) :
    Journal.append sha ⟨j.segment.truncate p.offset, j.writer⟩ p.entry .synced =
      (⟨j.segment, ⟨(j.writer.nextSequence + 1) % 2 ^ 64, p.offset + p.entry.size, false⟩⟩,
        .ok ⟨p.offset, j.writer.nextSequence⟩) := by
  have hfailed : j.writer.failed = false := h.before.failed
  have hfile := j.segment.size_le
  rw [h.length, whole] at hfile
  simp only [Journal.append, hfailed, Bool.false_eq_true, if_false, h.truncate_length,
    Entry.record_length, Nat.not_lt.mpr hfile, h.extend_whole whole]

/-- The error of an append ends it with the failed state. -/
theorem Appending.fail (h : Appending sha j es p) {disk : Disk} {error : AppendError}
    (happend : Journal.append sha ⟨j.segment.truncate p.offset, j.writer⟩ p.entry disk =
      (⟨j.segment, { j.writer with failed := true }⟩, .error error)) :
    Represents sha ⟨j.segment, { j.writer with failed := true }⟩ es (some p.entry) := by
  rcases append_cases h.before disk with ⟨j', happ, -⟩ | ⟨j', error', happ, hrep⟩
  · rw [happend] at happ
    simp at happ
  · rw [happend] at happ
    simp only [Prod.mk.injEq] at happ
    rw [happ.1]
    exact hrep

theorem Appending.acknowledge (h : Appending sha j es p) (whole : p.written = p.entry.size) :
    Represents sha
      ⟨j.segment, ⟨(j.writer.nextSequence + 1) % 2 ^ 64, p.offset + p.entry.size, false⟩⟩
      (es ++ [p.entry]) none := by
  have happend := h.append_synced whole
  rcases append_cases h.before .synced with ⟨j', happ, hrep⟩ | ⟨j', error', happ, -⟩
  · rw [happend] at happ
    simp only [Prod.mk.injEq] at happ
    rw [happ.1]
    exact hrep
  · rw [happend] at happ
    simp at happ

end

/-! ## What the readers have returned -/

/-- `count` calls over the records of `es`: each of these in order, then clean ends of file. -/
def answers (es : List Entry) (count : ℕ) : List (Except ReadError (Option Record)) :=
  (List.range count).map fun i => .ok (recordsOf 0 1 es)[i]?

theorem answers_succ (es : List Entry) (count : ℕ) :
    answers es (count + 1) = answers es count ++ [.ok (recordsOf 0 1 es)[count]?] := by
  simp [answers, List.range_succ]

/-- A running call began after the bound was asked for, so every state it sees still starts with the
    records of `es`. -/
structure Reads (sha : Sha256) (es : List Entry) (r : LimitedReader) : Prop where
  limit : r.bound.limit = totalSize es
  fileSize : r.reader.fileSize = totalSize es
  offset : r.reader.offset = totalSize (es.take r.results.length)
  nextSequence : r.results.length ≤ es.length → r.reader.nextSequence = r.results.length + 1
  results : r.results = answers es r.results.length
  call : ∀ states, r.call = some states →
    ∀ segment ∈ states, ∃ tail, segment.bytes = image sha 1 es ++ tail

section
variable {sha : Sha256} {es : List Entry} {r : LimitedReader}

/-- Bytes mixed from states that agree below the file size are again these records. -/
theorem Seen.bytes {states : List Segment} {seen : Segment}
    (hstates : ∀ segment ∈ states, ∃ tail, segment.bytes = image sha 1 es ++ tail)
    (hseen : Seen states (totalSize es) seen) : ∃ tail, seen.bytes = image sha 1 es ++ tail := by
  have htake : seen.bytes.take (totalSize es) = image sha 1 es := by
    apply List.ext_getElem?
    intro position
    by_cases hlt : position < totalSize es
    · obtain ⟨segment, hmem, hbyte⟩ := hseen position hlt
      obtain ⟨tail, htail⟩ := hstates segment hmem
      rw [List.getElem?_take_of_lt hlt, hbyte, htail,
        List.getElem?_append_left (by rw [image_length]; exact hlt)]
    · rw [List.getElem?_eq_none (by rw [List.length_take]; omega),
        List.getElem?_eq_none (by rw [image_length]; omega)]
  exact ⟨seen.bytes.drop (totalSize es), by rw [← htake, List.take_append_drop]⟩

/-- The call number `i` returns the record `i`, or a clean end of file after the last one. -/
theorem readNext_limited {seen : Segment} {reader : Reader} {i : ℕ} (hes : es.length < 2 ^ 63)
    (hbytes : ∃ tail, seen.bytes = image sha 1 es ++ tail) (hsize : reader.fileSize = totalSize es)
    (hoffset : reader.offset = totalSize (es.take i))
    (hsequence : i ≤ es.length → reader.nextSequence = i + 1) :
    readNext sha { reader with contents := some seen } =
      .ok ((recordsOf 0 1 es)[i]?.map fun record =>
        (record, ⟨some seen, totalSize es, totalSize (es.take (i + 1)), i + 2⟩)) := by
  obtain ⟨tail, hbytes⟩ := hbytes
  rw [hsize, hoffset]
  by_cases hlt : i < es.length
  · obtain ⟨pre, e, post, rfl, rfl⟩ : ∃ pre e post, es = pre ++ e :: post ∧ pre.length = i :=
      ⟨es.take i, es[i], es.drop (i + 1), by rw [List.getElem_cons_drop, List.take_append_drop],
        by rw [List.length_take]; omega⟩
    have htotal : totalSize (pre ++ e :: post) = totalSize pre + (e.size + totalSize post) := by
      simp [totalSize]
    have hnext : (pre ++ e :: post).take (pre.length + 1) = pre ++ [e] := by
      rw [List.take_append, List.take_of_length_le (by omega), Nat.add_sub_cancel_left]
      rfl
    have hrest : seen.bytes.drop (totalSize pre) =
        e.record sha (pre.length + 1) ++ (image sha (pre.length + 2) post ++ tail) := by
      rw [hbytes, image_append, image, ← image_length sha 1 pre, List.append_assoc, List.drop_left,
        Nat.add_comm 1 pre.length, List.append_assoc]
    have hfits : totalSize pre + e.size ≤ totalSize (pre ++ e :: post) := by omega
    have hread := readNext_record_within sha _ (by omega : pre.length + 1 < 2 ^ 64) hfits hrest
    rw [hsequence hlt.le, recordsOf_getElem, List.take_left, hnext, hread, Option.map_some,
      Nat.zero_add, Nat.add_comm 1 pre.length, Nat.mod_eq_of_lt (by omega)]
    simp [totalSize]
  · have hnone : (recordsOf 0 1 es)[i]? = none :=
      List.getElem?_eq_none (by rw [recordsOf_length]; omega)
    rw [hnone, List.take_of_length_le (by omega)]
    simp [readNext]

theorem Reads.open {segment : Segment} {bound : Bound} (hlimit : bound.limit = totalSize es)
    (hbytes : ∃ tail, segment.bytes = image sha 1 es ++ tail) :
    Reads sha es (.open segment bound) := by
  obtain ⟨tail, hbytes⟩ := hbytes
  have hlen := congrArg List.length hbytes
  rw [List.length_append, image_length] at hlen
  refine ⟨hlimit, ?_, rfl, fun _ => rfl, rfl, ?_⟩
  · change min segment.bytes.length bound.limit = _
    omega
  · intro states h
    simp [LimitedReader.open] at h

theorem Reads.begin {segment : Segment} (h : Reads sha es r)
    (hbytes : ∃ tail, segment.bytes = image sha 1 es ++ tail) :
    Reads sha es { r with call := some [segment] } := by
  refine ⟨h.limit, h.fileSize, h.offset, h.nextSequence, h.results, ?_⟩
  intro states hstates s hs
  cases hstates
  rw [List.mem_singleton.mp hs]
  exact hbytes

theorem Reads.observe {segment : Segment} (h : Reads sha es r)
    (hbytes : ∃ tail, segment.bytes = image sha 1 es ++ tail) : Reads sha es (r.observe segment) := by
  refine ⟨h.limit, h.fileSize, h.offset, h.nextSequence, h.results, ?_⟩
  intro states hstates s hs
  obtain ⟨before, hbefore, rfl⟩ := Option.map_eq_some_iff.mp hstates
  rcases List.mem_append.mp hs with hs | hs
  · exact h.call before hbefore s hs
  · rw [List.mem_singleton.mp hs]
    exact hbytes

theorem Reads.return {states : List Segment} {seen : Segment} (hes : es.length < 2 ^ 63)
    (h : Reads sha es r) (hcall : r.call = some states) (hseen : Seen states r.reader.fileSize seen) :
    Reads sha es (r.return sha seen) := by
  have hbytes := Seen.bytes (h.call states hcall) (h.fileSize ▸ hseen)
  have hread := readNext_limited hes hbytes h.fileSize h.offset h.nextSequence
  have hresults : ∀ answer, answer = Except.ok (recordsOf 0 1 es)[r.results.length]? →
      r.results ++ [answer] = answers es (r.results ++ [answer]).length := by
    intro answer hanswer
    rw [List.length_append, List.length_singleton, answers_succ, ← h.results, hanswer]
  simp only [LimitedReader.return, hread]
  cases hrecord : (recordsOf 0 1 es)[r.results.length]? with
  | none =>
    have hend : es.length ≤ r.results.length := by
      rw [List.getElem?_eq_none_iff, recordsOf_length] at hrecord
      exact hrecord
    refine ⟨h.limit, h.fileSize, ?_, ?_, hresults _ ?_, nofun⟩
    · change r.reader.offset = _
      rw [h.offset, List.take_of_length_le hend, List.take_of_length_le (by simp; omega)]
    · intro hle
      simp at hle
      omega
    · rw [hrecord]
      rfl
  | some record =>
    refine ⟨h.limit, rfl, ?_, fun _ => ?_, hresults _ ?_, nofun⟩
    · change totalSize _ = totalSize (es.take (r.results ++ [_]).length)
      rw [List.length_append, List.length_singleton]
    · change _ = (r.results ++ [_]).length + 1
      rw [List.length_append, List.length_singleton]
      rfl
    · rw [hrecord]
      rfl

end

/-! ## Every run -/

/-- The invariant of a run that found the records of `before` in the file. -/
structure Safe (sha : Sha256) (before : List Entry) (w : World) : Prop where
  writer : Holds sha w (before ++ w.acknowledged)
  bounds : ∀ bound ∈ w.bounds, bound.limit = totalSize (before ++ bound.acknowledged) ∧
    bound.acknowledged <+: w.acknowledged
  readers : ∀ r ∈ w.readers, r.bound.acknowledged <+: w.acknowledged ∧
    Reads sha (before ++ r.bound.acknowledged) r

section
variable {sha : Sha256} {before : List Entry} {w w' : World}

theorem Safe.durableEnd (h : Safe sha before w) :
    w.journal.writer.durableEnd = totalSize (before ++ w.acknowledged) := by
  cases h.writer with
  | idle torn pending hrep => exact hrep.durableEnd
  | appending p pending happ => exact happ.before.durableEnd

theorem Safe.start {j : Journal} (h : Represents sha j before none) : Safe sha before (.start j) where
  writer := .idle none rfl (by rw [World.start, List.append_nil]; exact h)
  bounds _ hmem := absurd hmem List.not_mem_nil
  readers _ hmem := absurd hmem List.not_mem_nil

/-- A step of the writer that leaves file, bounds and readers alone. -/
theorem Safe.of_writer (h : Safe sha before w) {acknowledged : List Entry}
    (hbeginning : w.acknowledged <+: acknowledged) (hacked : w'.acknowledged = acknowledged)
    (hbounds : w'.bounds = w.bounds) (hreaders : w'.readers = w.readers)
    (hwriter : Holds sha w' (before ++ acknowledged)) : Safe sha before w' := by
  subst hacked
  refine ⟨hwriter, ?_, ?_⟩
  · intro bound hmem
    obtain ⟨hlimit, hearlier⟩ := h.bounds bound (hbounds ▸ hmem)
    exact ⟨hlimit, hearlier.trans hbeginning⟩
  · intro r hmem
    obtain ⟨hearlier, hreads⟩ := h.readers r (hreaders ▸ hmem)
    exact ⟨hearlier.trans hbeginning, hreads⟩

/-- A step of one reader. -/
theorem Safe.of_reader (h : Safe sha before w) {left right : List LimitedReader} {r r' : LimitedReader}
    (hsplit : w.readers = left ++ r :: right) (hbound : r'.bound = r.bound)
    (hreads : Reads sha (before ++ r.bound.acknowledged) r → Reads sha (before ++ r.bound.acknowledged) r') :
    Safe sha before { w with readers := left ++ r' :: right } := by
  refine ⟨?_, h.bounds, ?_⟩
  · cases h.writer with
    | idle torn pending hrep => exact .idle torn pending hrep
    | appending p pending happ => exact .appending p pending happ
  · intro s hs
    rcases List.mem_append.mp hs with hs | hs
    · exact h.readers s (by rw [hsplit]; exact List.mem_append_left _ hs)
    rcases List.mem_cons.mp hs with rfl | hs
    · obtain ⟨hearlier, hold⟩ := h.readers r (by rw [hsplit]; simp)
      rw [hbound]
      exact ⟨hearlier, hreads hold⟩
    · exact h.readers s (by rw [hsplit]; exact List.mem_append_right _ (List.mem_cons_of_mem _ hs))

theorem Safe.pending (h : Safe sha before w) {p : Pending} (hp : w.pending = some p) :
    Appending sha w.journal (before ++ w.acknowledged) p := by
  cases h.writer with
  | idle torn pending hrep => simp [hp] at pending
  | appending q pending happ =>
    rw [hp, Option.some.injEq] at pending
    rw [pending]
    exact happ

theorem Safe.write (h : Safe sha before w) {p : Pending} (hp : w.pending = some p) (count : ℕ) :
    Safe sha before (w.write sha p count) := by
  obtain ⟨written, hpending, happ⟩ := (h.pending hp).write count
  have hholds : Holds sha (w.write sha p count) (before ++ w.acknowledged) := .appending _ hpending happ
  refine ⟨hholds, h.bounds, ?_⟩
  intro r hmem
  obtain ⟨old, hold, rfl⟩ := List.mem_map.mp hmem
  obtain ⟨hearlier, hreads⟩ := h.readers old hold
  refine ⟨hearlier, hreads.observe ?_⟩
  exact hholds.bytes_prefix ((List.prefix_append_right_inj before).mpr hearlier)

/-- Each step keeps the invariant. -/
theorem Safe.step (h : Safe sha before w) (hstep : Step sha w w') : Safe sha before w' := by
  cases hstep with
  | refuse hfailed => exact h
  | beginAppend e idle hfailed =>
    refine h.of_writer (List.prefix_refl _) rfl rfl rfl (.appending _ rfl ?_)
    cases h.writer with
    | idle torn pending hrep =>
      cases torn with
      | none => exact .begin hrep e
      | some torn =>
        have hbad := hrep.failed
        rw [hfailed] at hbad
        simp at hbad
    | appending p pending happ => simp [idle] at pending
  | write p count hp => exact h.write hp count
  | writeError p hp part =>
    have happ := h.pending hp
    exact h.of_writer (List.prefix_refl _) rfl rfl rfl (.idle _ rfl (happ.fail happ.append_writeError))
  | syncError p hp whole =>
    have happ := h.pending hp
    exact h.of_writer (List.prefix_refl _) rfl rfl rfl
      (.idle _ rfl (happ.fail (happ.append_syncError whole)))
  | synced p hp whole =>
    have hrep := (h.pending hp).acknowledge whole
    rw [List.append_assoc] at hrep
    exact h.of_writer (List.prefix_append _ _) rfl rfl rfl (.idle none rfl hrep)
  | getDurableEnd idle =>
    refine ⟨?_, ?_, h.readers⟩
    · cases h.writer with
      | idle torn pending hrep => exact .idle torn pending hrep
      | appending p pending happ => exact .appending p pending happ
    · intro bound hmem
      rcases List.mem_cons.mp hmem with rfl | hmem
      · exact ⟨h.durableEnd, List.prefix_refl _⟩
      · exact h.bounds bound hmem
  | openReader bound hbound =>
    obtain ⟨hlimit, hearlier⟩ := h.bounds bound hbound
    refine ⟨?_, h.bounds, ?_⟩
    · cases h.writer with
      | idle torn pending hrep => exact .idle torn pending hrep
      | appending p pending happ => exact .appending p pending happ
    · intro r hmem
      rcases List.mem_cons.mp hmem with rfl | hmem
      · refine ⟨hearlier, .open hlimit ?_⟩
        exact h.writer.bytes_prefix ((List.prefix_append_right_inj before).mpr hearlier)
      · exact h.readers r hmem
  | beginRead left right r hsplit idle =>
    obtain ⟨hearlier, -⟩ := h.readers r (by rw [hsplit]; simp)
    have hbytes := h.writer.bytes_prefix ((List.prefix_append_right_inj before).mpr hearlier)
    exact h.of_reader hsplit rfl fun hreads => hreads.begin hbytes
  | endRead left right r states seen hsplit running hseen =>
    obtain ⟨⟨later, hlater⟩, -⟩ := h.readers r (by rw [hsplit]; simp)
    have hcount := h.writer.length_lt
    rw [← hlater, List.length_append, List.length_append] at hcount
    refine h.of_reader hsplit rfl fun hreads => hreads.return ?_ running hseen
    rw [List.length_append]
    omega

theorem Safe.run (h : Safe sha before w) (hrun : Run sha w w') : Safe sha before w' := by
  induction hrun with
  | refl => exact h
  | tail _ hstep ih => exact ih.step hstep

/-- The writer has failed and no append is running. -/
def Failed (w : World) : Prop := w.journal.writer.failed = true ∧ w.pending = none

/-- No step of a failed writer's world appends, or moves the durable end. -/
theorem Failed.step (h : Failed w) (hstep : Step sha w w') :
    Failed w' ∧ w'.acknowledged = w.acknowledged ∧
      w'.journal.writer.durableEnd = w.journal.writer.durableEnd := by
  obtain ⟨hfailed, hidle⟩ := h
  cases hstep with
  | beginAppend e idle hok => simp [hfailed] at hok
  | write p count hp => simp [hidle] at hp
  | writeError p hp part => simp [hidle] at hp
  | syncError p hp whole => simp [hidle] at hp
  | synced p hp whole => simp [hidle] at hp
  | refuse => exact ⟨⟨hfailed, hidle⟩, rfl, rfl⟩
  | getDurableEnd => exact ⟨⟨hfailed, hidle⟩, rfl, rfl⟩
  | openReader => exact ⟨⟨hfailed, hidle⟩, rfl, rfl⟩
  | beginRead => exact ⟨⟨hfailed, hidle⟩, rfl, rfl⟩
  | endRead => exact ⟨⟨hfailed, hidle⟩, rfl, rfl⟩

theorem Failed.run (h : Failed w) (hrun : Run sha w w') :
    Failed w' ∧ w'.acknowledged = w.acknowledged ∧
      w'.journal.writer.durableEnd = w.journal.writer.durableEnd := by
  induction hrun with
  | refl => exact ⟨h, rfl, rfl⟩
  | tail _ hstep ih =>
    obtain ⟨hfailed, hacked, hend⟩ := ih
    obtain ⟨hfailed', hacked', hend'⟩ := hfailed.step hstep
    exact ⟨hfailed', hacked'.trans hacked, hend'.trans hend⟩

theorem Safe.failed (h : Safe sha before w) (hfailed : w.journal.writer.failed = true) : Failed w := by
  refine ⟨hfailed, ?_⟩
  cases h.writer with
  | idle torn pending hrep => exact pending
  | appending p pending happ =>
    have hok : w.journal.writer.failed = false := happ.before.failed
    simp [hfailed] at hok

end

/-- In any run of appends, requests for the durable end and reads, each reader returns the records
    below its bound and then clean ends of file. A failed writer appends nothing more. -/
theorem bounded_reader_safety (sha : Sha256) {found : Option Segment} {j : Journal}
    (hopen : Journal.new sha found = .ok j) {w : World} (hrun : Run sha (.start j) w) :
    ∃ before, j.segment.bytes = image sha 1 before ∧
      w.journal.writer.durableEnd = totalSize (before ++ w.acknowledged) ∧
      (∀ r ∈ w.readers, r.bound.acknowledged <+: w.acknowledged ∧
        r.bound.limit = totalSize (before ++ r.bound.acknowledged) ∧
        r.results = answers (before ++ r.bound.acknowledged) r.results.length) ∧
      (w.journal.writer.failed = true → ∀ w', Run sha w w' →
        w'.journal.writer.failed = true ∧ w'.acknowledged = w.acknowledged ∧
          w'.journal.writer.durableEnd = w.journal.writer.durableEnd) := by
  obtain ⟨before, hrep, -⟩ := new_represents sha hopen
  obtain ⟨n, hbytes⟩ := hrep.bytes
  have hsafe := (Safe.start hrep).run hrun
  refine ⟨before, by simpa using hbytes, hsafe.durableEnd, ?_, ?_⟩
  · intro r hr
    obtain ⟨hearlier, hreads⟩ := hsafe.readers r hr
    exact ⟨hearlier, hreads.limit, hreads.results⟩
  · intro hfailed w' hlater
    obtain ⟨hstill, hacked, hend⟩ := (hsafe.failed hfailed).run hlater
    exact ⟨hstill.1, hacked, hend⟩

/-- A reader whose only call runs while an append beyond its bound fails. -/
theorem bounded_reader_safety_failing :
    ∃ w before, w.journal.writer.failed = true ∧ w.readers.map LimitedReader.results = [[.ok none]] ∧
      Segment.empty.bytes = image sha256 1 before ∧
      w.journal.writer.durableEnd = totalSize (before ++ w.acknowledged) ∧
      (∀ r ∈ w.readers, r.bound.acknowledged <+: w.acknowledged ∧
        r.bound.limit = totalSize (before ++ r.bound.acknowledged) ∧
        r.results = answers (before ++ r.bound.acknowledged) r.results.length) ∧
      (w.journal.writer.failed = true → ∀ w', Run sha256 w w' →
        w'.journal.writer.failed = true ∧ w'.acknowledged = w.acknowledged ∧
          w'.journal.writer.durableEnd = w.journal.writer.durableEnd) := by
  let e : Entry := ⟨.flagChanged, ⟨[1, 2, 3], by decide⟩⟩
  let data := ((e.record sha256 1).drop 0).take 70
  have hpart : (Segment.empty.extend data).bytes.length - 0 < e.size := by
    have hlen := List.length_take_le' (maxOffset - Segment.empty.bytes.length) data
    have hdata : data.length ≤ 70 := List.length_take_le 70 ((e.record sha256 1).drop 0)
    have hsize : e.size = 78 := by decide
    change (data.take (maxOffset - Segment.empty.bytes.length)).length < e.size
    omega
  have hrun := ((((((Relation.ReflTransGen.refl (r := Step sha256) (a := .start ⟨.empty, ⟨1, 0, false⟩⟩)).tail
    (.getDurableEnd _ rfl)).tail (.beginAppend _ e rfl rfl)).tail
    (.openReader _ ⟨0, []⟩ (List.mem_singleton.mpr rfl))).tail
    (.beginRead _ [] [] _ rfl rfl)).tail (.write _ _ 70 rfl)).tail (.writeError _ _ rfl hpart)
  have hread := hrun.tail (.endRead _ [] [] _ _ .empty rfl rfl nofun)
  obtain ⟨before, hsafe⟩ := @bounded_reader_safety sha256 none _ rfl _ hread
  exact ⟨_, before, rfl, rfl, hsafe⟩

end Wyrebox.BoundedReader
