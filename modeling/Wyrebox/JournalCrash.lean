import Wyrebox.JournalWriter
import Wyrebox.Sha256Reference

set_option autoImplicit false

/-!
# Crash consistency

A crash cuts the last record at any byte. The scan finds the whole records before the cut,
recovery truncates the file to them, and the reopened writer continues after them.
-/
namespace Wyrebox.JournalCrash
open LittleEndian ByteField JournalRecord JournalScan JournalReader JournalWriter

def sha256 : Sha256 := ⟨Sha256Reference.digest, Sha256Reference.digest_length⟩

/-- The scan of `segment` reports the whole records `safe` and nothing more. -/
structure ScanFinds (sha : Sha256) (segment : Segment) (safe : List Entry) : Prop where
  contents : segment.bytes.take (totalSize safe) = image sha 1 safe
  safeEndOffset : (scanSafePrefix sha (some segment.bytes)).safeEndOffset = totalSize safe
  lastSafeSequence : (scanSafePrefix sha (some segment.bytes)).lastSafeSequence = safe.length
  hasLastSafeSequence :
    (scanSafePrefix sha (some segment.bytes)).hasLastSafeSequence = !safe.isEmpty

/-- `segment` holds exactly the records `safe`, and a writer opened on it continues them. -/
structure Resumes (sha : Sha256) (segment : Segment) (safe : List Entry) : Prop where
  contents : segment.bytes = image sha 1 safe
  opens : ∃ j, Journal.new sha (some segment) = .ok j ∧
    j.writer.nextSequence = safe.length + 1 ∧
    ∀ e : Entry, totalSize safe + e.size ≤ maxOffset →
      (j.append sha e .synced).2 = .ok ⟨totalSize safe, safe.length + 1⟩

theorem resumes_of_image (sha : Sha256) {segment : Segment} {safe : List Entry}
    (h : segment.bytes = image sha 1 safe) : Resumes sha segment safe := by
  refine ⟨h, _, new_of_image sha h, rfl, ?_⟩
  intro e hfit
  have hlen : segment.bytes.length = totalSize safe := by rw [h, image_length]
  simp [Journal.append, hlen, Entry.record_length, Nat.not_lt.mpr hfit]

/-- The file a crash leaves: whole records, then perhaps some first bytes of one more. -/
inductive CrashImage (sha : Sha256) (segment : Segment) (safe : List Entry) : Prop where
  | intact (h : segment.bytes = image sha 1 safe)
  | torn (e : Entry) (n : ℕ) (hpos : 0 < n) (hn : n < e.size)
      (h : segment.bytes = image sha 1 safe ++ (e.record sha (safe.length + 1)).take n)

section
variable {sha : Sha256} {segment : Segment} {safe : List Entry}

theorem CrashImage.length_lt (h : CrashImage sha segment safe) : safe.length + 1 < 2 ^ 64 := by
  have hfile := segment.size_le
  have hsafe := length_le_totalSize safe
  rw [maxOffset] at hfile
  cases h with
  | intact h =>
    rw [h, image_length] at hfile
    omega
  | torn e n hpos hn h =>
    rw [h, List.length_append, image_length] at hfile
    omega

theorem CrashImage.scanFinds (h : CrashImage sha segment safe) : ScanFinds sha segment safe := by
  have hlen := h.length_lt
  cases h with
  | intact h =>
    have htake : segment.bytes.take (totalSize safe) = image sha 1 safe := by
      rw [h, ← image_length sha 1 safe, List.take_length]
    cases safe with
    | nil =>
      rw [image] at h
      exact ⟨htake, by rw [h]; rfl, by rw [h]; rfl, by rw [h]; rfl⟩
    | cons e es =>
      have hscan := scanSafePrefix_image sha (List.cons_ne_nil e es) hlen
      rw [← h] at hscan
      exact ⟨htake, by rw [hscan], by rw [hscan], by rw [hscan]; rfl⟩
  | torn e n hpos hn h =>
    obtain ⟨reason, required, -, hscan⟩ := scanSafePrefix_torn sha safe e hpos hn hlen
    rw [← h] at hscan
    refine ⟨?_, by rw [hscan], by rw [hscan], by rw [hscan]⟩
    rw [h, ← image_length sha 1 safe, List.take_left]

/-- Recovery refuses an intact file: there is nothing to truncate. -/
theorem recover_intact (h : segment.bytes = image sha 1 safe) (hlen : safe.length + 1 < 2 ^ 64) :
    recoverTornSuffix sha (some segment) segment = (segment, .error .notRecoverable) := by
  have hsuffix : (scanSafePrefix sha (some segment.bytes)).isRecoverableTornSuffix = false := by
    cases safe with
    | nil =>
      rw [h, image]
      rfl
    | cons e es =>
      rw [h, scanSafePrefix_image sha (List.cons_ne_nil e es) hlen]
      rfl
  simp [recoverTornSuffix, hsuffix]

theorem recover_torn {e : Entry} {n : ℕ} (hpos : 0 < n) (hn : n < e.size)
    (h : segment.bytes = image sha 1 safe ++ (e.record sha (safe.length + 1)).take n)
    (hlen : safe.length + 1 < 2 ^ 64) (hsafe : safe ≠ []) :
    recoverTornSuffix sha (some segment) segment =
      (segment.truncate (totalSize safe), .ok (totalSize safe, safe.length)) := by
  have hfinds := (CrashImage.torn e n hpos hn h).scanFinds
  have hsuffix : (scanSafePrefix sha (some segment.bytes)).isRecoverableTornSuffix = true := by
    rw [h, isRecoverableTornSuffix_torn sha safe e hpos hn hlen]
    simpa using hsafe
  have hoffset : ¬maxOffset < totalSize safe := by
    have hfile := segment.size_le
    rw [h, List.length_append, image_length] at hfile
    omega
  simp [recoverTornSuffix, hsuffix, hfinds.safeEndOffset, hfinds.lastSafeSequence, hoffset]

/-- Without a whole record recovery refuses and leaves the torn bytes in place. -/
theorem recover_torn_first {e : Entry} {n : ℕ} (hpos : 0 < n) (hn : n < e.size)
    (h : segment.bytes = (e.record sha 1).take n) :
    recoverTornSuffix sha (some segment) segment = (segment, .error .notRecoverable) := by
  have hsuffix : (scanSafePrefix sha (some segment.bytes)).isRecoverableTornSuffix = false := by
    have hnil := isRecoverableTornSuffix_torn sha [] e hpos hn (by simp)
    rw [h]
    exact hnil
  simp [recoverTornSuffix, hsuffix]

/-- Recovery ends with exactly the whole records, whether or not it had to cut. -/
theorem CrashImage.recovers (h : CrashImage sha segment safe) (hsafe : safe ≠ []) :
    let recovery := recoverTornSuffix sha (some segment) segment
    recovery.1.bytes = image sha 1 safe ∧
      ((scanSafePrefix sha (some segment.bytes)).unsafeSuffixFound = true →
        recovery.2 = .ok (totalSize safe, safe.length)) := by
  have hlen := h.length_lt
  cases h with
  | intact h =>
    rw [recover_intact h hlen]
    refine ⟨h, fun hfound => ?_⟩
    rw [h, scanSafePrefix_image sha hsafe hlen] at hfound
    exact absurd hfound (by simp)
  | torn e n hpos hn h =>
    have hcontents := (CrashImage.torn e n hpos hn h).scanFinds.contents
    rw [recover_torn hpos hn h hlen hsafe]
    exact ⟨hcontents, fun _ => rfl⟩

theorem CrashImage.refuses (h : CrashImage sha segment []) :
    recoverTornSuffix sha (some segment) segment = (segment, .error .notRecoverable) := by
  cases h with
  | intact h => exact recover_intact h (by simp)
  | torn e n hpos hn h => exact recover_torn_first hpos hn h

end

/-- The bytes that survive a crash are the acknowledged records, and some first bytes of the
    record that was being written. -/
theorem crash_image {sha : Sha256} {j : Journal} {es : List Entry} {torn : Option Entry}
    (h : Represents sha j es torn) (kept : ℕ) :
    CrashImage sha (j.crash kept) es ∨
      ∃ e, torn = some e ∧ CrashImage sha (j.crash kept) (es ++ [e]) := by
  obtain ⟨n, hbytes⟩ := h.bytes
  have hcrash : (j.crash kept).bytes = image sha 1 es ++
      (torn.elim [] fun e => (e.record sha (es.length + 1)).take n).take kept := by
    change j.segment.bytes.take (j.writer.durableEnd + kept) = _
    rw [h.durableEnd, hbytes, ← image_length sha 1 es, List.take_append,
      List.take_of_length_le (by omega), Nat.add_sub_cancel_left]
  cases torn with
  | none => exact Or.inl (.intact (by simpa using hcrash))
  | some e =>
    rw [Option.elim_some, List.take_take] at hcrash
    by_cases hzero : min kept n = 0
    · exact Or.inl (.intact (by simpa [hzero] using hcrash))
    by_cases hwhole : min kept n < e.size
    · exact Or.inl (.torn e (min kept n) (by omega) hwhole hcrash)
    · refine Or.inr ⟨e, rfl, .intact ?_⟩
      rw [hcrash, image_append, Nat.add_comm 1,
        List.take_of_length_le (by rw [Entry.record_length]; omega)]
      simp [image]

/-- What holds of the file `crashed` that a run of appends and a crash leave behind. `before`
    are the records found when the writer was opened. -/
structure CrashConsistent (sha : Sha256) (j : Journal) (attempts : List (Entry × Disk))
    (crashed : Segment) (before safe : List Entry) : Prop where
  opened : j.segment.bytes = image sha 1 before
  acknowledged : j.acknowledged sha attempts =
    (attempts.take (j.acknowledged sha attempts).length).map Prod.fst
  safe_eq : safe = before ++ j.acknowledged sha attempts ∨
    ∃ e disk, attempts[(j.acknowledged sha attempts).length]? = some (e, disk) ∧
      safe = before ++ j.acknowledged sha attempts ++ [e]
  scan : ScanFinds sha crashed safe
  recovered : safe ≠ [] →
    Resumes sha (recoverTornSuffix sha (some crashed) crashed).1 safe ∧
      ((scanSafePrefix sha (some crashed.bytes)).unsafeSuffixFound = true →
        (recoverTornSuffix sha (some crashed) crashed).2 = .ok (totalSize safe, safe.length))
  refused : safe = [] →
    recoverTornSuffix sha (some crashed) crashed = (crashed, .error .notRecoverable)

/-- Any run of appends, cut by a crash at any byte of its unacknowledged rest. -/
theorem crash_recovery (sha : Sha256) {found : Option Segment} {j : Journal}
    (hopen : Journal.new sha found = .ok j) (attempts : List (Entry × Disk)) (kept : ℕ) :
    ∃ before safe, CrashConsistent sha j attempts ((j.appendAll sha attempts).crash kept)
      before safe := by
  obtain ⟨before, hrep, -⟩ := new_represents sha hopen
  obtain ⟨hacked, hall⟩ := appendAll_represents hrep attempts
  obtain ⟨n, hbytes⟩ := hrep.bytes
  have hopened : j.segment.bytes = image sha 1 before := by simpa using hbytes
  have finish : ∀ safe, CrashImage sha ((j.appendAll sha attempts).crash kept) safe →
      (safe = before ++ j.acknowledged sha attempts ∨
        ∃ e disk, attempts[(j.acknowledged sha attempts).length]? = some (e, disk) ∧
          safe = before ++ j.acknowledged sha attempts ++ [e]) →
      CrashConsistent sha j attempts ((j.appendAll sha attempts).crash kept) before safe := by
    intro safe himage hsafe
    exact
      { opened := hopened
        acknowledged := hacked
        safe_eq := hsafe
        scan := himage.scanFinds
        recovered := fun hne =>
          ⟨resumes_of_image sha (himage.recovers hne).1, (himage.recovers hne).2⟩
        refused := by
          rintro rfl
          exact himage.refuses }
  rcases crash_image hall kept with himage | ⟨e, htorn, himage⟩
  · exact ⟨before, _, finish _ himage (Or.inl rfl)⟩
  · obtain ⟨⟨e', disk⟩, hget, rfl⟩ := Option.map_eq_some_iff.mp htorn
    exact ⟨before, _, finish _ himage (Or.inr ⟨e', disk, hget, rfl⟩)⟩

/-- Two appends on a new segment, the second cut inside its event name. -/
theorem crash_recovery_second_append :
    ∃ before safe, CrashConsistent sha256 ⟨.empty, ⟨1, 0, false⟩⟩
      [(⟨.flagChanged, ⟨[1, 2, 3], by decide⟩⟩, .synced),
        (⟨.messageDelivered, ⟨[4], by decide⟩⟩, .writeFailed 70)]
      ((Journal.appendAll sha256 ⟨.empty, ⟨1, 0, false⟩⟩
        [(⟨.flagChanged, ⟨[1, 2, 3], by decide⟩⟩, .synced),
          (⟨.messageDelivered, ⟨[4], by decide⟩⟩, .writeFailed 70)]).crash 70) before safe :=
  @crash_recovery sha256 none _ rfl _ 70

end Wyrebox.JournalCrash
