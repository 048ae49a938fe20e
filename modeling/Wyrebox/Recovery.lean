import Wyrebox.DeliveryProjection
import Wyrebox.SchemaMigration

set_option autoImplicit false

/-!
# Recovery of the catalog

After a restart the catalog is used or built again. It is used where the journal and the objects bear out its
checkpoint.
-/
namespace Wyrebox.Recovery
open JournalRecord JournalReader JournalWriter JournalScan JournalResume JournalLife ReplayValidation
open DeliveryProjection (fileBytes reads_new_iff Life)
open Schema (MetadataState MigrationError validateMaterializationCheckpoint versionCurrent)

/-- `WyreboxRecoveryMaterializedStateDecision`. -/
inductive Decision where
  | useMaterializedState
  | rebuildMaterializedState
  deriving DecidableEq, Repr

inductive DecideError where
  | rootMissing
  | objects (error : ReplayError)
  | checkpoint (error : MigrationError)

section
variable (sha : Sha256)

/-- The reader is a new one, of a journal whose segment may be missing. -/
def validateCanonicalObjects (objectStore : Option ObjectFiles) (journalReader : Option (Option Segment)) :
    Except ReplayError Unit :=
  match objectStore, journalReader with
  | some files, some segment => validateAll sha files (.new segment)
  | _, _ => .ok ()

def validateCheckpoint (journalReader : Option (Option Segment)) (state : MetadataState) :
    Except MigrationError Unit :=
  match journalReader with
  | some segment => validateMaterializationCheckpoint sha segment state
  | none => .ok ()

/-- `wyrebox_recovery_materialized_state_decider_decide`; the paths are given by what is found there. -/
def deciderDecide (rootExists catalogExists : Bool) (objectStore : Option ObjectFiles)
    (journalReader : Option (Option Segment)) (state : MetadataState) : Except DecideError Decision :=
  if rootExists = false then .error .rootMissing
  else if catalogExists = false then .ok .rebuildMaterializedState
  else if state.materializationCheckpointPresent = false then .ok .rebuildMaterializedState
  else match validateCanonicalObjects sha objectStore journalReader with
    | .error error => .error (.objects error)
    | .ok () =>
      match validateCheckpoint sha journalReader state with
      | .error error => .error (.checkpoint error)
      | .ok () =>
        if state.schemaVersionPresent = true ∧ state.schemaVersion = versionCurrent then .ok .useMaterializedState
        else .ok .rebuildMaterializedState

end

/-! ## What is borne out -/

/-- The object that a record refers to is there, of its size and its hash. -/
structure Intact (sha : Sha256) (files : ObjectFiles) (record : Record) : Prop where
  sound : ∀ code, ¬Failure sha files record code
  readable : ∀ error, ¬Fatal files record error

/-- The whole file is records, their objects are intact, and the checkpoint is the place and number of a record. -/
structure BornOut (sha : Sha256) (files : ObjectFiles) (segment : Option Segment) (state : MetadataState)
    (es : List Entry) : Prop where
  bytes : fileBytes segment = image sha 1 es
  intact : ∀ record ∈ recordsOf 0 1 es, Intact sha files record
  checkpoint : ∃ e, Entry.record sha e state.materializationCheckpointSequence <+:
    (fileBytes segment).drop state.materializationCheckpointJournalOffset

/-- The catalog has the schema of this program. -/
def IsCurrent (state : MetadataState) : Prop :=
  state.schemaVersionPresent = true ∧ state.schemaVersion = versionCurrent

section
variable {sha : Sha256} {files : ObjectFiles}

theorem intact_iff {record : Record} : validateRecord sha files record = .ok () ↔ Intact sha files record :=
  validateRecord_ok_iff.trans ⟨fun h => ⟨h.1, h.2⟩, fun h => ⟨h.sound, h.readable⟩⟩

/-! ## Reading a whole file -/

lemma fileBytes_length_lt (segment : Option Segment) : (fileBytes segment).length < 2 ^ 63 := by
  cases segment with
  | none => simp [fileBytes]
  | some file =>
    have hfile := file.size_le
    rw [maxOffset] at hfile
    change file.bytes.length < 2 ^ 63
    omega

lemma length_of_image {segment : Option Segment} {es : List Entry} (h : fileBytes segment = image sha 1 es) :
    es.length < 2 ^ 63 := by
  have hlength := fileBytes_length_lt segment
  rw [h, image_length] at hlength
  exact (length_le_totalSize es).trans_lt hlength

/-- The strict validation passes a file of records whose objects are intact, and nothing else. -/
theorem validateAll_iff (segment : Option Segment) : validateAll sha files (.new segment) = .ok () ↔
    ∃ es, fileBytes segment = image sha 1 es ∧ ∀ record ∈ recordsOf 0 1 es, Intact sha files record := by
  obtain ⟨records, stop, hreads, hlength⟩ := reads_total sha _ (.new segment) le_rfl
  have hfuel : records.length < fuelFor (.new segment) := Nat.lt_succ_of_le hlength
  rw [validateAll, validateRecords_eq hreads hfuel, validateList_strict]
  constructor
  · rintro ⟨rfl, hall⟩
    obtain ⟨es, himage, rfl⟩ := (reads_new_iff segment).mp hreads
    exact ⟨es, himage, fun record hrecord => intact_iff.mp (hall record hrecord)⟩
  · rintro ⟨es, himage, hintact⟩
    obtain ⟨rfl, rfl⟩ := DeliveryProjection.reads_unique hreads ((reads_new_iff segment).mpr ⟨es, himage, rfl⟩)
    exact ⟨rfl, fun record hrecord => intact_iff.mpr (hintact record hrecord)⟩

/-- A file of records has no unsafe suffix. -/
theorem scan_image {file : Segment} {es : List Entry} (h : file.bytes = image sha 1 es) :
    (scanSafePrefix sha (some file.bytes)).unsafeSuffixFound = false := by
  have hcount := @length_of_image sha (some file) es h
  cases es with
  | nil =>
    rw [h]
    rfl
  | cons e es => rw [h, scanSafePrefix_image sha (List.cons_ne_nil e es) (by omega)]

theorem checkpoint_iff {segment : Option Segment} {es : List Entry} {state : MetadataState}
    (h : fileBytes segment = image sha 1 es) (hpresent : state.materializationCheckpointPresent = true)
    (hs : state.materializationCheckpointSequence < 2 ^ 64) :
    validateMaterializationCheckpoint sha segment state = .ok () ↔
      ∃ e, Entry.record sha e state.materializationCheckpointSequence <+:
        (fileBytes segment).drop state.materializationCheckpointJournalOffset := by
  cases segment with
  | none =>
    have hnone : ∀ e : Entry, ¬ Entry.record sha e state.materializationCheckpointSequence <+:
        (fileBytes none).drop state.materializationCheckpointJournalOffset := by
      intro e hprefix
      have hlength := hprefix.length_le
      have hpos := e.size_pos
      rw [Entry.record_length, List.length_drop] at hlength
      change e.size ≤ 0 - _ at hlength
      omega
    have hseek : seekAfterCheckpoint sha (.new none) state.materializationCheckpointJournalOffset
        state.materializationCheckpointSequence =
          .error (.invalidOffset state.materializationCheckpointJournalOffset) := if_pos (.inl rfl)
    simp only [hnone, exists_false, iff_false]
    rw [validateMaterializationCheckpoint, hpresent, hseek, Option.map_none]
    nofun
  | some file =>
    change _ ↔ ∃ e, Entry.record sha e _ <+: file.bytes.drop _
    rw [← (image_roundTrips sha h).accepted _ _ hs, validateMaterializationCheckpoint, Option.map_some,
      scan_image h, hpresent]
    cases hseek : seekAfterCheckpoint sha (.new (some file)) state.materializationCheckpointJournalOffset
      state.materializationCheckpointSequence with
    | error error => simp
    | ok reader => simp

/-! ## The decision -/

/-- The catalog is used where it is current and borne out, and built again where it is missing, has no checkpoint,
    or is borne out and of another version. Where the journal, an object or the checkpoint contradicts it, nothing
    is decided. -/
theorem decision_exact {segment : Option Segment} {state : MetadataState} (rootExists catalogExists : Bool)
    (hs : state.materializationCheckpointSequence < 2 ^ 64) :
    (deciderDecide sha rootExists catalogExists (some files) (some segment) state =
        .ok .useMaterializedState ↔
      rootExists = true ∧ catalogExists = true ∧ state.materializationCheckpointPresent = true ∧
        (∃ es, BornOut sha files segment state es) ∧ IsCurrent state) ∧
    (deciderDecide sha rootExists catalogExists (some files) (some segment) state =
        .ok .rebuildMaterializedState ↔
      rootExists = true ∧ (catalogExists = false ∨ state.materializationCheckpointPresent = false ∨
        (∃ es, BornOut sha files segment state es) ∧ ¬IsCurrent state)) := by
  cases rootExists with
  | false => simp [deciderDecide]
  | true =>
    cases catalogExists with
    | false => simp [deciderDecide]
    | true =>
      cases hpresent : state.materializationCheckpointPresent with
      | false => simp [deciderDecide, hpresent]
      | true =>
        have hborn : (∃ es, BornOut sha files segment state es) ↔
            validateAll sha files (.new segment) = .ok () ∧
              validateMaterializationCheckpoint sha segment state = .ok () := by
          rw [validateAll_iff]
          constructor
          · rintro ⟨es, hborn⟩
            exact ⟨⟨es, hborn.bytes, hborn.intact⟩, (checkpoint_iff hborn.bytes hpresent hs).mpr hborn.checkpoint⟩
          · rintro ⟨⟨es, hbytes, hintact⟩, hcheckpoint⟩
            exact ⟨es, hbytes, hintact, (checkpoint_iff hbytes hpresent hs).mp hcheckpoint⟩
        rw [hborn]
        cases hobjects : validateAll sha files (.new segment) with
        | error error => simp [deciderDecide, hpresent, validateCanonicalObjects, hobjects]
        | ok done =>
          cases hcheckpoint : validateMaterializationCheckpoint sha segment state with
          | error error =>
            simp [deciderDecide, hpresent, validateCanonicalObjects, hobjects, validateCheckpoint, hcheckpoint]
          | ok done =>
            by_cases hcurrent : IsCurrent state
            · have hversion := hcurrent
              rw [IsCurrent] at hversion
              simp [deciderDecide, hpresent, validateCanonicalObjects, hobjects, validateCheckpoint, hcheckpoint,
                hcurrent, hversion]
            · have hversion := hcurrent
              rw [IsCurrent] at hversion
              simp [deciderDecide, hpresent, validateCanonicalObjects, hobjects, validateCheckpoint, hcheckpoint,
                hcurrent, hversion]

/-! ## Journals that live on -/

/-- What becomes of a journal. -/
inductive Later (sha : Sha256) (s : JournalState) : JournalState → Prop where
  | refl : Later sha s s
  | append {s' : JournalState} (h : Later sha s s') {w : Writer} (hw : s'.writer = some w) (e : Entry)
      (disk : Disk) : Later sha s (s'.append sha w e disk).1
  | maintain {s' s'' : JournalState} (h : Later sha s s') (hstep : Maintain sha s' s'') : Later sha s s''

/-- What no crash can take away stays. -/
theorem Later.holds {s s' : JournalState} (h : Later sha s s') {es : List Entry} {k : ℕ} (hholds : Holds sha s es k) :
    ∃ es' k', Holds sha s' es' k' ∧ k ≤ k' ∧ es'.take k = es.take k := by
  induction h with
  | refl => exact ⟨es, k, hholds, le_rfl, rfl⟩
  | append h hw e disk ih =>
    obtain ⟨es', k', hs', hle, htake⟩ := ih
    have hbound := hs'.synced_le
    have hgrown : (es' ++ [e]).take k = es.take k := by
      rw [List.take_append_of_le_length (by omega)]
      exact htake
    rcases hs'.append hw e disk with ⟨s'', happ, hnext⟩ | ⟨s'', error, happ, hnext | hnext⟩
    · rw [happ]
      exact ⟨_, _, hnext, by omega, hgrown⟩
    · rw [happ]
      exact ⟨_, _, hnext, hle, htake⟩
    · rw [happ]
      exact ⟨_, _, hnext, hle, hgrown⟩
  | maintain h hstep ih =>
    obtain ⟨es', k', hs', hle, htake⟩ := ih
    obtain ⟨n, hn, -, hnext⟩ := hs'.maintain hstep
    exact ⟨_, _, hnext, hle, by rw [List.take_take, Nat.min_eq_left (by omega), htake]⟩

/-- A checkpoint at a record of a file of records is borne out as far as the objects are intact. -/
theorem bornOut_iff {file : Segment} {es fs : List Entry} {e : Entry} {state : MetadataState}
    (hbytes : file.bytes = image sha 1 (es ++ e :: fs))
    (hoffset : state.materializationCheckpointJournalOffset = totalSize es)
    (hsequence : state.materializationCheckpointSequence = es.length + 1) :
    (∃ fs, BornOut sha files (some file) state fs) ↔
      ∀ record ∈ recordsOf 0 1 (es ++ e :: fs), Intact sha files record := by
  constructor
  · rintro ⟨gs, hborn⟩
    have hsame : recordsOf 0 1 gs = recordsOf 0 1 (es ++ e :: fs) := by
      have hread := readSegment_image sha hbytes
      rw [readSegment_image sha (show file.bytes = image sha 1 gs from hborn.bytes), Prod.mk.injEq] at hread
      exact hread.1
    rw [← hsame]
    exact hborn.intact
  · intro hintact
    refine ⟨_, hbytes, hintact, e, ?_⟩
    rw [hoffset, hsequence]
    change _ <+: file.bytes.drop _
    rw [drop_image_append es (e :: fs) hbytes]
    exact List.prefix_append _ _

/-- A checkpoint at an acknowledged record: whatever happens to the journal afterwards, the catalog is used where
    the journal reads to its end and the objects are intact; after a recovery of the journal, it does. -/
theorem acknowledged_checkpoint {s acknowledged later : JournalState} {w : Writer} {e : Entry} {disk : Disk}
    {position : Position} {state : MetadataState} (hlife : Life sha s) (hw : s.writer = some w)
    (hack : s.append sha w e disk = (acknowledged, .ok position)) (hlater : Later sha acknowledged later)
    (hpresent : state.materializationCheckpointPresent = true)
    (hoffset : state.materializationCheckpointJournalOffset = position.offset)
    (hsequence : state.materializationCheckpointSequence = position.sequence) (hcurrent : IsCurrent state) :
    (deciderDecide sha true true (some files) (some (some later.segment)) state = .ok .useMaterializedState ↔
      (readSegment sha (some later.segment)).2 = none ∧ ∀ record ∈ records sha later, Intact sha files record) ∧
    (deciderDecide sha true true (some files)
        (some (some (recoverTornSuffix sha (some later.segment) later.segment).1)) state =
          .ok .useMaterializedState ↔ ∀ record ∈ records sha later, Intact sha files record) := by
  obtain ⟨es, k, hholds⟩ := hlife.holds
  obtain ⟨hposition, hacked⟩ : position = ⟨totalSize es, es.length + 1⟩ ∧
      Holds sha acknowledged (es ++ [e]) (es.length + 1) := by
    rcases hholds.append hw e disk with ⟨s', happ, hnext⟩ | ⟨s', error, happ, -⟩
    · rw [happ, Prod.mk.injEq, Except.ok.injEq] at hack
      obtain ⟨rfl, rfl⟩ := hack
      exact ⟨rfl, hnext⟩
    · rw [happ, Prod.mk.injEq] at hack
      cases hack.2
  subst hposition
  obtain ⟨es', k', hlast, -, htake⟩ := hlater.holds hacked
  -- the acknowledged record is where it was
  obtain ⟨fs, rfl⟩ : ∃ fs, es' = es ++ e :: fs := by
    refine ⟨es'.drop (es.length + 1), ?_⟩
    have hsplit := List.take_append_drop (es.length + 1) es'
    have hall : (es ++ [e]).take (es.length + 1) = es ++ [e] := List.take_of_length_le (by simp)
    rw [htake, hall, List.append_assoc, List.singleton_append] at hsplit
    exact hsplit.symm
  have hbound : state.materializationCheckpointSequence < 2 ^ 64 := by
    have hcount := hlast.file.length_lt
    rw [List.length_append, List.length_cons] at hcount
    rw [hsequence]
    change es.length + 1 < _
    omega
  have huse : ∀ file : Segment, file.bytes = image sha 1 (es ++ e :: fs) →
      (deciderDecide sha true true (some files) (some (some file)) state = .ok .useMaterializedState ↔
        ∀ record ∈ records sha later, Intact sha files record) := by
    intro file hbytes
    rw [(decision_exact true true hbound).1, bornOut_iff hbytes hoffset hsequence, hlast.records]
    simp only [hpresent, hcurrent, true_and, and_true]
  constructor
  · have hread := (readSegment_crashImage hlast.file).2
    by_cases hintact : later.segment.bytes = image sha 1 (es ++ e :: fs)
    · rw [huse later.segment hintact, hread]
      exact ⟨fun h => ⟨hintact, h⟩, And.right⟩
    · rw [(decision_exact true true hbound).1, hread]
      refine ⟨fun h => ?_, fun h => absurd h.1 hintact⟩
      obtain ⟨gs, hborn⟩ := h.2.2.2.1
      have hgs : later.segment.bytes = image sha 1 gs := hborn.bytes
      have hrecords := (readSegment_crashImage hlast.file).1
      rw [readSegment_image sha hgs] at hrecords
      rw [recordsOf_injective hrecords] at hgs
      exact absurd hgs hintact
  · exact huse _ (hlast.file.recovers (by simp)).1

end

/-! The first record of a journal, which is the checkpoint. -/

def savedState : MetadataState := ⟨true, versionCurrent, true, true, 0, 1⟩

lemma savedState_bound : savedState.materializationCheckpointSequence < 2 ^ 64 := by decide

def noObjects : ObjectFiles := fun _ => .notFound []

theorem decision_exact_saved :
    (deciderDecide JournalCrash.sha256 true true (some noObjects) (some (some .empty)) savedState =
        .ok .useMaterializedState ↔
      true = true ∧ true = true ∧ savedState.materializationCheckpointPresent = true ∧
        (∃ es, BornOut JournalCrash.sha256 noObjects (some .empty) savedState es) ∧ IsCurrent savedState) ∧
    (deciderDecide JournalCrash.sha256 true true (some noObjects) (some (some .empty)) savedState =
        .ok .rebuildMaterializedState ↔
      true = true ∧ (true = false ∨ savedState.materializationCheckpointPresent = false ∨
        (∃ es, BornOut JournalCrash.sha256 noObjects (some .empty) savedState es) ∧ ¬IsCurrent savedState)) :=
  decision_exact true true savedState_bound

def keywordEntry : Entry := ⟨.keywordChanged, .empty⟩

def acknowledgedJournal : JournalState :=
  (DeliveryProjection.freshJournal.append JournalCrash.sha256 ⟨1, 0, false⟩ keywordEntry .synced).1

lemma keywordEntry_fits : Segment.empty.bytes.length + keywordEntry.size ≤ maxOffset := by decide

lemma acknowledgedJournal_appended :
    DeliveryProjection.freshJournal.append JournalCrash.sha256 ⟨1, 0, false⟩ keywordEntry .synced =
      (acknowledgedJournal, .ok ⟨0, 1⟩) :=
  Prod.ext rfl (@append_synced JournalCrash.sha256 ⟨.empty, ⟨1, 0, false⟩⟩ keywordEntry rfl keywordEntry_fits)

theorem acknowledged_checkpoint_first :
    (deciderDecide JournalCrash.sha256 true true (some noObjects) (some (some acknowledgedJournal.segment))
        savedState = .ok .useMaterializedState ↔
      (readSegment JournalCrash.sha256 (some acknowledgedJournal.segment)).2 = none ∧
        ∀ record ∈ records JournalCrash.sha256 acknowledgedJournal, Intact JournalCrash.sha256 noObjects record) ∧
    (deciderDecide JournalCrash.sha256 true true (some noObjects)
        (some (some (recoverTornSuffix JournalCrash.sha256 (some acknowledgedJournal.segment)
          acknowledgedJournal.segment).1)) savedState = .ok .useMaterializedState ↔
      ∀ record ∈ records JournalCrash.sha256 acknowledgedJournal, Intact JournalCrash.sha256 noObjects record) :=
  acknowledged_checkpoint DeliveryProjection.freshJournal_life rfl acknowledgedJournal_appended .refl rfl rfl rfl
    ⟨rfl, rfl⟩

end Wyrebox.Recovery
