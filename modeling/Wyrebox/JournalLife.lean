import Wyrebox.JournalAgreement
import Wyrebox.JournalCrash

set_option autoImplicit false

/-!
# The life of a journal

Processes come and go, appends fail, and the machine may stop at any time. Through all of it the file
holds whole records and at most a piece of one more; only a crash takes records away, and none that was
synced.
-/
namespace Wyrebox.JournalLife
open LittleEndian ByteField JournalRecord JournalScan JournalReader JournalWriter JournalCrash JournalAgreement

/-- The segment file, how many of its bytes no crash takes away, and the writer of the running
    process if there is one. -/
structure JournalState where
  segment : Segment
  synced : ℕ
  writer : Option Writer

def JournalState.initial : JournalState := ⟨.empty, 0, none⟩

/-- `wyrebox_journal_writer_append` by the writer `w` of the running process. -/
def JournalState.append (sha : Sha256) (s : JournalState) (w : Writer) (e : Entry) (disk : Disk) :
    JournalState × Except AppendError Position :=
  let (j, result) := Journal.append sha ⟨s.segment, w⟩ e disk
  (⟨j.segment, if result.isOk then j.segment.bytes.length else s.synced, some j.writer⟩, result)

/-- What a reader of the whole file gets. -/
def records (sha : Sha256) (s : JournalState) : List Record := (readSegment sha (some s.segment)).1

/-- What happens to the journal other than appends. -/
inductive Maintain (sha : Sha256) : JournalState → JournalState → Prop where
  /-- The process ends, and a crash may take away what was not synced. -/
  | stop (s : JournalState) (kept : ℕ) :
      Maintain sha s ⟨s.segment.truncate (s.synced + kept), s.synced, none⟩
  | recover (s : JournalState) (h : s.writer = none) :
      Maintain sha s ⟨(recoverTornSuffix sha (some s.segment) s.segment).1, s.synced, none⟩
  | start (s : JournalState) (j : Journal) (h : s.writer = none)
      (hopen : Journal.new sha (some s.segment) = .ok j) :
      Maintain sha s ⟨j.segment, s.synced, some j.writer⟩

/-! ## Reading a file that ends in a torn record -/

/-- A reader passes the entries at its position and goes on after them. -/
theorem readAll_prefix (sha : Sha256) (segment : Segment) (es : List Entry) (tail : List UInt8)
    (fuel position sequence : ℕ) (hs : sequence + es.length < 2 ^ 64)
    (hrest : segment.bytes.drop position = image sha sequence es ++ tail) :
    readAll sha (fuel + es.length) (.at segment position sequence) =
      (recordsOf position sequence es ++
        (readAll sha fuel (.at segment (position + totalSize es) (sequence + es.length))).1,
        (readAll sha fuel (.at segment (position + totalSize es) (sequence + es.length))).2) := by
  induction es generalizing position sequence with
  | nil => simp [recordsOf, totalSize]
  | cons e es ih =>
    rw [List.length_cons] at hs
    rw [image, List.append_assoc] at hrest
    have hnext := readNext_record sha (image sha (sequence + 1) es ++ tail) (by omega : sequence < 2 ^ 64) hrest
    rw [Nat.mod_eq_of_lt (by omega)] at hnext
    have hdrop : segment.bytes.drop (position + e.size) = image sha (sequence + 1) es ++ tail := by
      rw [← List.drop_drop, hrest, ← e.record_length sha sequence, List.drop_left]
    have hstep := ih (position + e.size) (sequence + 1) (by omega) hdrop
    have htotal : totalSize (e :: es) = e.size + totalSize es := by simp [totalSize]
    rw [List.length_cons, ← Nat.add_assoc, readAll, hnext, htotal]
    simp only [hstep, recordsOf, List.cons_append]
    rw [Nat.add_assoc, Nat.add_assoc, Nat.add_comm es.length 1]

section
variable {sha : Sha256} {segment : Segment} {es : List Entry}

theorem readNext_torn {e : Entry} {sequence position n : ℕ} (hs : sequence < 2 ^ 64) (hpos : 0 < n) (hn : n < e.size)
    (hrest : segment.bytes.drop position = (e.record sha sequence).take n) :
    ∃ error, readNext sha (.at segment position sequence) = .error error := by
  have hlen := congrArg List.length hrest
  rw [List.length_drop, List.length_take, Entry.record_length] at hlen
  rcases turn_agrees sha (by omega : position < segment.bytes.length) hs with
    ⟨record, size, hscan, -⟩ | ⟨_, _, _, error, -, hread⟩
  · obtain ⟨reason, required, hstop, -⟩ := scanRecord_torn sha e (by omega : sequence < 256 ^ 8) hn
    rw [hrest, hstop] at hscan
    cases hscan
  · exact ⟨error, hread⟩

/-- The whole records are read; a torn one after them is an error. -/
theorem readSegment_crashImage (h : CrashImage sha segment es) :
    (JournalReader.readSegment sha (some segment)).1 = recordsOf 0 1 es ∧
      ((JournalReader.readSegment sha (some segment)).2 = none ↔ segment.bytes = image sha 1 es) := by
  have hlen := h.length_lt
  cases h with
  | intact h =>
    rw [readSegment_image sha h]
    exact ⟨rfl, fun _ => h, fun _ => rfl⟩
  | torn e n hpos hn h =>
    have hcut : min n e.size = n := Nat.min_eq_left hn.le
    have hsize := length_le_totalSize es
    have hbytes := congrArg List.length h
    rw [List.length_append, image_length, List.length_take, Entry.record_length, hcut] at hbytes
    have hdrop : segment.bytes.drop (0 + totalSize es) = (e.record sha (1 + es.length)).take n := by
      rw [h, Nat.zero_add, ← image_length sha 1 es, List.drop_left, Nat.add_comm 1]
    obtain ⟨error, herror⟩ := readNext_torn (by omega : 1 + es.length < 2 ^ 64) hpos hn hdrop
    have hread := readAll_prefix sha segment es _ (totalSize es - es.length + n + 1) 0 1 (by omega)
      (by rw [List.drop_zero]; exact h)
    rw [readAll, herror] at hread
    have hfuel : segment.bytes.length + 1 = totalSize es - es.length + n + 1 + es.length := by omega
    rw [JournalReader.readSegment, Option.getD_some, hfuel, Reader.new_eq_at, hread, List.append_nil]
    refine ⟨rfl, fun hnone => by simp at hnone, fun hintact => ?_⟩
    have := congrArg List.length hintact
    rw [image_length] at this
    omega

theorem recordOf_injective {e e' : Entry} {offset sequence : ℕ} (h : recordOf e offset sequence = recordOf e' offset sequence) :
    e = e' := by
  obtain ⟨eventType, data, hsize⟩ := e
  obtain ⟨eventType', data', hsize'⟩ := e'
  simp only [recordOf, Record.mk.injEq, true_and] at h
  obtain ⟨rfl, rfl⟩ := h
  rfl

theorem recordsOf_injective {es fs : List Entry} {offset sequence : ℕ}
    (h : recordsOf offset sequence es = recordsOf offset sequence fs) : es = fs := by
  induction es generalizing fs offset sequence with
  | nil =>
    cases fs with
    | nil => rfl
    | cons f fs => cases h
  | cons e es ih =>
    cases fs with
    | nil => cases h
    | cons f fs =>
      simp only [recordsOf, List.cons.injEq] at h
      obtain ⟨hhead, htail⟩ := h
      obtain rfl := recordOf_injective hhead
      rw [ih htail]

/-! ## Cutting a file -/

theorem totalSize_append (es fs : List Entry) : totalSize (es ++ fs) = totalSize es + totalSize fs := by
  simp [totalSize]

theorem totalSize_take_le (es : List Entry) {m n : ℕ} (h : m ≤ n) : totalSize (es.take m) ≤ totalSize (es.take n) := by
  obtain ⟨k, rfl⟩ := Nat.exists_eq_add_of_le h
  rw [List.take_add, totalSize_append]
  omega

/-- Consecutive records cut at any byte leave the records before the cut and a piece of the next. -/
theorem take_image (sha : Sha256) (es : List Entry) (sequence m : ℕ) :
    ∃ n ≤ es.length, totalSize (es.take n) ≤ m ∧ (n < es.length → m < totalSize (es.take (n + 1))) ∧
      ((image sha sequence es).take m = image sha sequence (es.take n) ∨
        ∃ e : Entry, ∃ r, 0 < r ∧ r < e.size ∧
          (image sha sequence es).take m = image sha sequence (es.take n) ++ (e.record sha (sequence + n)).take r) := by
  induction es generalizing sequence m with
  | nil => exact ⟨0, le_refl _, Nat.zero_le _, fun h => absurd h (by simp), .inl (by simp [image])⟩
  | cons e es ih =>
    have hrec := e.record_length sha sequence
    by_cases hwhole : e.size ≤ m
    · obtain ⟨n, hn, hle, hnext, hcut⟩ := ih (sequence + 1) (m - e.size)
      have htake : (image sha sequence (e :: es)).take m =
          e.record sha sequence ++ (image sha (sequence + 1) es).take (m - e.size) := by
        rw [image, List.take_append, List.take_of_length_le (by omega), hrec]
      have hsize : ∀ k, totalSize ((e :: es).take (k + 1)) = e.size + totalSize (es.take k) := by
        intro k
        simp [totalSize]
      refine ⟨n + 1, by rw [List.length_cons]; omega, by rw [hsize]; omega, ?_, ?_⟩
      · intro hlt
        rw [List.length_cons] at hlt
        have := hnext (by omega)
        rw [hsize]
        omega
      · rw [htake, List.take_succ_cons, image]
        rcases hcut with hcut | ⟨e', r, hr, hlt, hcut⟩
        · exact .inl (by rw [hcut])
        · refine .inr ⟨e', r, hr, hlt, ?_⟩
          rw [hcut, List.append_assoc, Nat.add_right_comm sequence, Nat.add_assoc sequence]
    · have htake : (image sha sequence (e :: es)).take m = (e.record sha sequence).take m := by
        rw [image, List.take_append_of_le_length (by omega)]
      refine ⟨0, Nat.zero_le _, Nat.zero_le _, fun _ => by simp [totalSize]; omega, ?_⟩
      rw [htake, List.take_zero, image]
      by_cases hzero : m = 0
      · exact .inl (by rw [hzero, List.take_zero])
      · exact .inr ⟨e, m, by omega, by omega, by rw [List.nil_append, Nat.add_zero]⟩

/-- A file of whole records and a torn one is a cut of a file of whole records. -/
theorem CrashImage.eq_take (h : CrashImage sha segment es) :
    ∃ fs m, fs.length ≤ 1 ∧ segment.bytes = (image sha 1 (es ++ fs)).take m ∧ totalSize es ≤ m ∧
      (fs ≠ [] → m < totalSize (es ++ fs)) := by
  cases h with
  | intact h =>
    refine ⟨[], totalSize es, by simp, ?_, le_refl _, fun hne => absurd rfl hne⟩
    rw [List.append_nil, ← image_length sha 1 es, List.take_length, h]
  | torn e n hpos hn h =>
    refine ⟨[e], totalSize es + n, by simp, ?_, Nat.le_add_right .., fun _ => ?_⟩
    · have hlast : image sha (1 + es.length) [e] = e.record sha (es.length + 1) := by
        rw [image, image, List.append_nil, Nat.add_comm]
      have himage : (image sha 1 es).take ((image sha 1 es).length + n) = image sha 1 es :=
        List.take_of_length_le (Nat.le_add_right ..)
      rw [h, image_append, hlast, ← image_length sha 1 es, List.take_append, himage, Nat.add_sub_cancel_left]
    · rw [totalSize_append]
      simp only [totalSize, List.map_cons, List.map_nil, List.sum_cons, List.sum_nil]
      omega

/-- Whatever a crash leaves is again whole records and at most a piece of one more. -/
theorem CrashImage.truncate (h : CrashImage sha segment es) (m : ℕ) :
    ∃ n ≤ es.length, CrashImage sha (segment.truncate m) (es.take n) ∧
      ∀ k ≤ es.length, totalSize (es.take k) ≤ m → k ≤ n := by
  obtain ⟨fs, limit, hfs, hbytes, hall, hrest⟩ := CrashImage.eq_take h
  have hcut : (segment.truncate m).bytes = (image sha 1 (es ++ fs)).take (min m limit) := by
    change segment.bytes.take m = _
    rw [hbytes, List.take_take]
  obtain ⟨n, hn, hle, hnext, hfound⟩ := take_image sha (es ++ fs) 1 (min m limit)
  have hes : n ≤ es.length := by
    by_contra hgt
    rw [List.length_append] at hn
    have hwhole : (es ++ fs).take n = es ++ fs := List.take_of_length_le (by rw [List.length_append]; omega)
    have hlt := hrest fun hnil => by
      rw [hnil, List.length_nil] at hn
      omega
    rw [hwhole] at hle
    omega
  have htake : (es ++ fs).take n = es.take n := List.take_append_of_le_length hes
  rw [htake] at hle hfound
  refine ⟨n, hes, ?_, ?_⟩
  · rcases hfound with hwhole | ⟨e, r, hr, hlt, htorn⟩
    · exact .intact (hcut.trans hwhole)
    · refine .torn e r hr hlt ?_
      rw [hcut, htorn, List.length_take, Nat.min_eq_left hes, Nat.add_comm 1]
  · intro k hk hfits
    by_contra hgt
    have hstep := hnext (by rw [List.length_append]; omega)
    rw [List.take_append_of_le_length (by omega)] at hstep
    have hsmall := totalSize_take_le es (by omega : n + 1 ≤ k)
    have hwhole := totalSize_take_le es hk
    rw [List.take_length] at hwhole
    omega

end

/-! ## What the journal holds -/

/-- The file holds the whole records `es` and at most a piece of one more, and no crash takes away the
    first `k` of them. -/
structure Holds (sha : Sha256) (s : JournalState) (es : List Entry) (k : ℕ) : Prop where
  file : CrashImage sha s.segment es
  synced : s.synced = totalSize (es.take k)
  synced_le : k ≤ es.length
  live : ∀ w, s.writer = some w → w.failed = false → Represents sha ⟨s.segment, w⟩ es none

section
variable {sha : Sha256} {s s' : JournalState} {es : List Entry} {k : ℕ}

theorem holds_initial (sha : Sha256) : Holds sha .initial [] 0 :=
  ⟨.intact rfl, rfl, le_refl _, fun w hw => by cases hw⟩

theorem Holds.records (h : Holds sha s es k) : records sha s = recordsOf 0 1 es :=
  (readSegment_crashImage h.file).1

/-- The whole records of a file that a writer works on, a torn one included once it is whole. -/
theorem represents_crashImage {j : Journal} {torn : Option Entry} (h : Represents sha j es torn) :
    CrashImage sha j.segment es ∨ ∃ e, torn = some e ∧ CrashImage sha j.segment (es ++ [e]) := by
  have hall : j.crash j.segment.bytes.length = j.segment := by
    rw [Journal.crash, Segment.truncate]
    congr 1
    exact List.take_of_length_le (Nat.le_add_left ..)
  have hcrash := crash_image h j.segment.bytes.length
  rwa [hall] at hcrash

/-- An append adds its entry, or fails; after a failure the entry may be there or not. -/
theorem Holds.append (h : Holds sha s es k) {w : Writer} (hw : s.writer = some w) (e : Entry) (disk : Disk) :
    (∃ s', s.append sha w e disk = (s', .ok ⟨totalSize es, es.length + 1⟩) ∧
      Holds sha s' (es ++ [e]) (es.length + 1)) ∨
    (∃ s' error, s.append sha w e disk = (s', .error error) ∧
      (Holds sha s' es k ∨ Holds sha s' (es ++ [e]) k)) := by
  cases hfailed : w.failed with
  | true =>
    refine .inr ⟨s, .failedState, ?_, .inl h⟩
    rw [JournalState.append, append_of_failed hfailed]
    obtain ⟨segment, synced, writer⟩ := s
    cases hw
    rfl
  | false =>
    rcases append_cases (h.live w hw hfailed) disk with ⟨j, happ, hrep⟩ | ⟨j, error, happ, hrep⟩
    · refine .inl ⟨⟨j.segment, j.segment.bytes.length, some j.writer⟩, by rw [JournalState.append, happ]; rfl, ?_⟩
      obtain ⟨n, hbytes⟩ := hrep.bytes
      rw [Option.elim_none, List.append_nil] at hbytes
      have hlen : es.length + 1 = (es ++ [e]).length := by rw [List.length_append, List.length_singleton]
      refine ⟨.intact hbytes, ?_, hlen.le, fun w' hw' _ => ?_⟩
      · rw [hlen, List.take_length, hbytes, image_length]
      · cases hw'
        exact hrep
    · have hs' : s.append sha w e disk = (⟨j.segment, s.synced, some j.writer⟩, .error error) := by
        rw [JournalState.append, happ]
        rfl
      have hdead : ∀ w', some j.writer = some w' → w'.failed ≠ false := by
        rintro w' hw' hlive
        cases hw'
        have := hrep.failed
        rw [hlive] at this
        cases this
      refine .inr ⟨_, error, hs', ?_⟩
      rcases represents_crashImage hrep with himage | ⟨e', he', himage⟩
      · exact .inl ⟨himage, h.synced, h.synced_le, fun w' hw' hlive => absurd hlive (hdead w' hw')⟩
      · cases he'
        refine .inr ⟨himage, ?_, ?_, fun w' hw' hlive => absurd hlive (hdead w' hw')⟩
        · rw [List.take_append_of_le_length h.synced_le]
          exact h.synced
        · rw [List.length_append]
          exact h.synced_le.trans (Nat.le_add_right ..)

/-- Nothing else adds a record, and what is lost was not synced. -/
theorem Holds.maintain (h : Holds sha s es k) (hstep : Maintain sha s s') :
    ∃ n, k ≤ n ∧ n ≤ es.length ∧ Holds sha s' (es.take n) k := by
  cases hstep with
  | stop kept =>
    obtain ⟨n, hn, himage, hkept⟩ := CrashImage.truncate h.file (s.synced + kept)
    have hk : k ≤ n := by
      refine hkept k h.synced_le ?_
      rw [← h.synced]
      exact Nat.le_add_right ..
    refine ⟨n, hk, hn, himage, ?_, ?_, fun w hw => by cases hw⟩
    · rw [List.take_take, Nat.min_eq_left hk]
      exact h.synced
    · rw [List.length_take]
      exact Nat.le_min.mpr ⟨hk, h.synced_le⟩
  | recover hstopped =>
    refine ⟨es.length, h.synced_le, le_refl _, ?_⟩
    rw [List.take_length]
    refine ⟨?_, h.synced, h.synced_le, fun w hw => by cases hw⟩
    by_cases hempty : es = []
    · subst hempty
      rw [h.file.refuses]
      exact h.file
    · exact .intact (h.file.recovers hempty).1
  | start j hstopped hopen =>
    obtain ⟨fs, hrep, hsegment⟩ := new_represents sha hopen
    rw [Option.getD_some] at hsegment
    obtain ⟨m, hbytes⟩ := hrep.bytes
    rw [Option.elim_none, List.append_nil] at hbytes
    have hsame : es = fs := by
      have hread := (readSegment_crashImage h.file).1
      rw [← hsegment, readSegment_image sha hbytes] at hread
      exact (recordsOf_injective hread).symm
    refine ⟨es.length, h.synced_le, le_refl _, ?_⟩
    rw [List.take_length]
    refine ⟨?_, h.synced, h.synced_le, fun w hw _ => ?_⟩
    · rw [hsegment]
      exact h.file
    · cases hw
      rw [hsame]
      exact hrep

end
end Wyrebox.JournalLife
