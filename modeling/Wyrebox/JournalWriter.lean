import Wyrebox.JournalReader

set_option autoImplicit false

/-!
# The journal writer and torn-suffix recovery

The writer appends one record at a time and acknowledges it once it is synced. What the disk
does with each append is a parameter; a crash may lose any part of what was not synced.
-/
namespace Wyrebox.JournalWriter
open LittleEndian ByteField JournalRecord JournalScan JournalReader

structure Writer where
  nextSequence : ℕ
  durableEnd : ℕ
  failed : Bool
  deriving DecidableEq, Repr

/-- An open journal: the locked segment file and the writer that holds the lock. -/
structure Journal where
  segment : Segment
  writer : Writer

/-- `wyrebox_journal_writer_new`; `none` is a segment file that `O_CREAT` has to make. -/
def Journal.new (sha : Sha256) (found : Option Segment) : Except ReadError Journal :=
  let segment := found.getD .empty
  if segment.bytes.length ≠ 0 then
    match replayExistingSegment sha segment with
    | .error error => .error error
    | .ok nextSequence => .ok ⟨segment, nextSequence, segment.bytes.length, false⟩
  else .ok ⟨segment, 1, segment.bytes.length, false⟩

/-- What the disk does with one append. -/
inductive Disk where
  | seekFailed
  | writeFailed (written : ℕ)
  | syncFailed
  | synced
  deriving DecidableEq, Repr

inductive AppendError where
  | failedState
  | seekFailed
  | writeFailed
  | syncFailed
  deriving DecidableEq, Repr

structure Position where
  offset : ℕ
  sequence : ℕ
  deriving DecidableEq, Repr

/-- `wyrebox_journal_writer_append`. A record that would pass the largest file offset cannot
    be written whole, whatever the disk does. -/
def Journal.append (sha : Sha256) (j : Journal) (e : Entry) (disk : Disk) :
    Journal × Except AppendError Position :=
  if j.writer.failed then (j, .error .failedState)
  else
    let offset := j.segment.bytes.length
    let sequence := j.writer.nextSequence
    let record := e.record sha sequence
    let failed := { j.writer with failed := true }
    match disk with
    | .seekFailed => (⟨j.segment, failed⟩, .error .seekFailed)
    | .writeFailed written => (⟨j.segment.extend (record.take written), failed⟩, .error .writeFailed)
    | .syncFailed =>
      if maxOffset < offset + record.length then
        (⟨j.segment.extend record, failed⟩, .error .writeFailed)
      else (⟨j.segment.extend record, failed⟩, .error .syncFailed)
    | .synced =>
      if maxOffset < offset + record.length then
        (⟨j.segment.extend record, failed⟩, .error .writeFailed)
      else
        (⟨j.segment.extend record,
            ⟨(sequence + 1) % 2 ^ 64, offset + record.length, false⟩⟩, .ok ⟨offset, sequence⟩)

def Journal.appendAll (sha : Sha256) : Journal → List (Entry × Disk) → Journal
  | j, [] => j
  | j, (e, disk) :: attempts => (j.append sha e disk).1.appendAll sha attempts

/-- The entries whose append returned success, in order. -/
def Journal.acknowledged (sha : Sha256) : Journal → List (Entry × Disk) → List Entry
  | _, [] => []
  | j, (e, disk) :: attempts =>
    match j.append sha e disk with
    | (j, .ok _) => e :: j.acknowledged sha attempts
    | (j, .error _) => j.acknowledged sha attempts

/-- A crash keeps everything that was synced and the first `kept` bytes of the rest. -/
def Journal.crash (j : Journal) (kept : ℕ) : Segment := j.segment.truncate (j.writer.durableEnd + kept)

inductive RecoverError where
  | notRecoverable
  | busy
  | offsetTooLarge
  deriving DecidableEq, Repr

/-- `initial` is what the unlocked scan sees, `locked` the file once the lock is held.
    The result is the file afterwards and the safe end offset and sequence. -/
def recoverTornSuffix (sha : Sha256) (initial : Option Segment) (locked : Segment) :
    Segment × Except RecoverError (ℕ × ℕ) :=
  let initialPrefix := scanSafePrefix sha (initial.map Segment.bytes)
  let lockedPrefix := scanSafePrefix sha (some locked.bytes)
  if !initialPrefix.isRecoverableTornSuffix then (locked, .error .notRecoverable)
  else if (initial.getD .empty).bytes.length ≠ locked.bytes.length ∨
      initialPrefix ≠ lockedPrefix ∨ !lockedPrefix.isRecoverableTornSuffix then
    (locked, .error .busy)
  else if maxOffset < lockedPrefix.safeEndOffset then (locked, .error .offsetTooLarge)
  else (locked.truncate lockedPrefix.safeEndOffset,
    .ok (lockedPrefix.safeEndOffset, lockedPrefix.lastSafeSequence))

/-! ## The journal as a log of entries -/

/-- The file holds the acknowledged entries and, once the writer has failed, some first bytes
    of the record it failed on. -/
structure Represents (sha : Sha256) (j : Journal) (es : List Entry) (torn : Option Entry) : Prop where
  bytes : ∃ n, j.segment.bytes = image sha 1 es ++
    (torn.elim [] fun e => (e.record sha (es.length + 1)).take n)
  durableEnd : j.writer.durableEnd = totalSize es
  nextSequence : torn = none → j.writer.nextSequence = es.length + 1
  failed : j.writer.failed = torn.isSome

theorem Represents.length_lt {sha : Sha256} {j : Journal} {es : List Entry} {torn : Option Entry}
    (h : Represents sha j es torn) : es.length < 2 ^ 63 := by
  obtain ⟨n, hbytes⟩ := h.bytes
  have hfile := j.segment.size_le
  have hlen := congrArg List.length hbytes
  have hes := length_le_totalSize es
  rw [List.length_append, image_length] at hlen
  rw [maxOffset] at hfile
  omega

theorem new_represents (sha : Sha256) {found : Option Segment} {j : Journal}
    (h : Journal.new sha found = .ok j) : ∃ es, Represents sha j es none ∧
      j.segment = found.getD .empty := by
  simp only [Journal.new] at h
  split at h
  · split at h
    · simp at h
    · rename_i hreplay
      obtain ⟨es, himage, hnext⟩ := replayExistingSegment_sound sha hreplay
      simp only [Except.ok.injEq] at h
      subst h
      refine ⟨es, ⟨⟨0, by simpa using himage⟩, ?_, fun _ => hnext, rfl⟩, rfl⟩
      change (found.getD .empty).bytes.length = totalSize es
      rw [himage, image_length]
  · rename_i hempty
    simp only [ne_eq, Decidable.not_not, List.length_eq_zero_iff] at hempty
    simp only [Except.ok.injEq] at h
    subst h
    exact ⟨[], ⟨⟨0, by simpa [image] using hempty⟩, by simp [hempty, totalSize], fun _ => rfl, rfl⟩,
      rfl⟩

/-- An intact journal opens, and the writer continues after its last record. -/
theorem new_of_image (sha : Sha256) {segment : Segment} {es : List Entry}
    (h : segment.bytes = image sha 1 es) :
    Journal.new sha (some segment) = .ok ⟨segment, es.length + 1, totalSize es, false⟩ := by
  have hlen : segment.bytes.length = totalSize es := by rw [h, image_length]
  simp only [Journal.new, Option.getD_some, hlen, replayExistingSegment_image sha h]
  split
  · rfl
  · rename_i hzero
    have hes := length_le_totalSize es
    have : es.length = 0 := by omega
    simp [this]

theorem extend_bytes {segment : Segment} {data : List UInt8}
    (h : segment.bytes.length + data.length ≤ maxOffset) :
    (segment.extend data).bytes = segment.bytes ++ data := by
  simp only [Segment.extend]
  rw [List.take_of_length_le (by omega)]

section
variable {sha : Sha256} {j : Journal} {es : List Entry} {e : Entry}

/-- What one append can do to a writer that has not failed. -/
theorem append_cases (h : Represents sha j es none) (disk : Disk) :
    (∃ j', j.append sha e disk = (j', .ok ⟨totalSize es, es.length + 1⟩) ∧
      Represents sha j' (es ++ [e]) none) ∨
    (∃ j' error, j.append sha e disk = (j', .error error) ∧ Represents sha j' es (some e)) := by
  obtain ⟨n, hbytes⟩ := h.bytes
  simp only [Option.elim_none, List.append_nil] at hbytes
  have hlen : j.segment.bytes.length = totalSize es := by rw [hbytes, image_length]
  have hnext := h.nextSequence rfl
  have hfailed : j.writer.failed = false := h.failed
  have hcount := h.length_lt
  -- every failing append leaves some first bytes of the record behind
  have torn : ∀ k, Represents sha
      ⟨j.segment.extend ((e.record sha (es.length + 1)).take k),
        ⟨es.length + 1, j.writer.durableEnd, true⟩⟩ es (some e) := fun k =>
    { bytes := ⟨min k (maxOffset - j.segment.bytes.length), by
        simp only [Segment.extend, Option.elim_some, hbytes, List.take_take]
        rw [Nat.min_comm]⟩
      durableEnd := h.durableEnd
      nextSequence := fun hnone => absurd hnone (by simp)
      failed := rfl }
  have tornAll : Represents sha
      ⟨j.segment.extend (e.record sha (es.length + 1)),
        ⟨es.length + 1, j.writer.durableEnd, true⟩⟩ es (some e) := by
    have hall := torn (e.record sha (es.length + 1)).length
    rwa [List.take_length] at hall
  simp only [Journal.append, hfailed, Bool.false_eq_true, if_false, hnext]
  cases disk with
  | seekFailed =>
    refine Or.inr ⟨_, _, rfl, ⟨⟨0, by simpa using hbytes⟩, h.durableEnd, by simp, rfl⟩⟩
  | writeFailed written => exact Or.inr ⟨_, _, rfl, torn written⟩
  | syncFailed =>
    dsimp only
    split
    · exact Or.inr ⟨_, _, rfl, tornAll⟩
    · exact Or.inr ⟨_, _, rfl, tornAll⟩
  | synced =>
    dsimp only
    split
    · exact Or.inr ⟨_, _, rfl, tornAll⟩
    · rename_i hfit
      refine Or.inl ⟨_, by rw [hlen], ⟨⟨0, ?_⟩, ?_, fun _ => ?_, rfl⟩⟩
      · simp only [Option.elim_none, List.append_nil]
        rw [extend_bytes (by omega), hbytes, image_append, Nat.add_comm 1]
        simp [image]
      · change totalSize es + (e.record sha (es.length + 1)).length = _
        rw [Entry.record_length]
        simp [totalSize]
      · change (es.length + 1 + 1) % 2 ^ 64 = _
        rw [List.length_append, List.length_singleton, Nat.mod_eq_of_lt (by omega)]

theorem append_of_failed (h : j.writer.failed = true) (disk : Disk) :
    j.append sha e disk = (j, .error .failedState) := by
  simp [Journal.append, h]

theorem append_synced (hlive : j.writer.failed = false) (hfit : j.segment.bytes.length + e.size ≤ maxOffset) :
    (j.append sha e .synced).2 = .ok ⟨j.segment.bytes.length, j.writer.nextSequence⟩ := by
  simp [Journal.append, hlive, Entry.record_length, Nat.not_lt.mpr hfit]

/-- A failed writer acknowledges nothing more and leaves the file alone. -/
theorem appendAll_of_failed (sha : Sha256) (h : j.writer.failed = true) (attempts : List (Entry × Disk)) :
    j.appendAll sha attempts = j ∧ j.acknowledged sha attempts = [] := by
  induction attempts with
  | nil => exact ⟨rfl, rfl⟩
  | cons attempt attempts ih =>
    rw [Journal.appendAll, Journal.acknowledged, append_of_failed h]
    exact ih

/-- Any sequence of appends acknowledges the entries before the first failing one, and
    the file holds these and some first bytes of that one. -/
theorem appendAll_represents (h : Represents sha j es none) (attempts : List (Entry × Disk)) :
    let acked := j.acknowledged sha attempts
    acked = (attempts.take acked.length).map Prod.fst ∧
      Represents sha (j.appendAll sha attempts) (es ++ acked)
        (attempts[acked.length]?.map Prod.fst) := by
  induction attempts generalizing j es with
  | nil => exact ⟨rfl, by simpa [Journal.acknowledged, Journal.appendAll] using h⟩
  | cons attempt attempts ih =>
    obtain ⟨e, disk⟩ := attempt
    rcases append_cases (e := e) h disk with ⟨j', happ, hrep⟩ | ⟨j', error, happ, hrep⟩
    · obtain ⟨hacked, hall⟩ := ih hrep
      simp only [Journal.acknowledged, Journal.appendAll, happ]
      refine ⟨?_, ?_⟩
      · simpa using hacked
      · simpa using hall
    · obtain ⟨hsame, hnone⟩ := appendAll_of_failed sha hrep.failed attempts
      simp only [Journal.acknowledged, Journal.appendAll, happ, hsame, hnone]
      exact ⟨rfl, by simpa using hrep⟩

end

end Wyrebox.JournalWriter
