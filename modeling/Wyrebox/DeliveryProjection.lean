import Wyrebox.FactSnapshot
import Wyrebox.FactsExtractedPayload
import Wyrebox.FlagChangedPayload
import Wyrebox.JournalLife
import Wyrebox.MembershipsCopiedPayload
import Wyrebox.MembershipsExpungedPayload
import Wyrebox.ReplayValidation

set_option autoImplicit false

/-!
# The delivery projection

Replaying the journal file decodes its records into the log that the catalog is built from.
-/
namespace Wyrebox.DeliveryProjection
open JournalRecord JournalReader JournalWriter JournalLife Event Catchup
open FactSnapshot (mutationEvent)
open ReplayValidation (Reads reads_total fuelFor ObjectFiles CheckFailure objectCheck)

inductive ReplayError where
  | journal (error : ReadError)
  | undecodable (payload : List UInt8) (sequence : ℕ) (reason : List UInt8)
  | object (record : ProjectionRecord) (failure : CheckFailure)
  deriving DecidableEq

/-- The object that a record names, with its size. -/
def objectOf : Event → Option (CString × ℕ)
  | .messageDelivered delivery => some (delivery.objectKey, delivery.sizeBytes)
  | .messageAppended append => some (append.objectKey, append.sizeBytes)
  | _ => none

/-- A read that fails has cleared the record. -/
def ReplayError.message : ReplayError → List UInt8
  | .journal error => ascii ("failed to read journal at sequence 0: " ++ error.message)
  | .undecodable payload sequence reason =>
    ascii "failed to decode " ++ payload ++ ascii (" payload at sequence " ++ toString sequence ++ ": ") ++ reason
  | .object record failure =>
    let key := ((objectOf record.event).map fun object => object.1.bytes).getD []
    let place := ascii ((if isMessageAppended record then "MessageAppended" else "MessageDelivered") ++
      " record at sequence " ++ toString record.position.sequence)
    match failure with
    | .missing reason => place ++ ascii " references unavailable raw object " ++ key ++ ascii ": " ++ reason
    | .sizeMismatch found =>
      place ++ ascii ": raw object " ++ key ++ ascii (" has mismatched size: expected " ++
        toString (((objectOf record.event).map Prod.snd).getD 0) ++ ", got " ++ toString found)
    | .hashMismatch => place ++ ascii " references raw object " ++ key ++ ascii " with SHA-256 mismatch"
    | .invalidKey reason => place ++ ascii " references invalid raw object key " ++ key ++ ascii (": " ++ reason)
    | .unreadable reason => place ++ ascii ": failed to read raw object " ++ key ++ ascii ": " ++ reason

/-! ## One record -/

section
variable {ε α : Type}

/-- What the `append_*_record` functions share: the payload is decoded, and becomes an event. -/
def appendRecord (payload : List UInt8) (reason : ε → List UInt8) (decode : List UInt8 → Except ε α) (event : α → Event)
    (record : Record) : Except ReplayError Event :=
  match decode record.payload with
  | .error error => .error (.undecodable payload record.sequence (reason error))
  | .ok decoded => .ok (event decoded)

end

def appendDeliveredRecord : Record → Except ReplayError Event :=
  appendRecord (ascii "MessageDelivered") (fun error => ascii error.message) MessageDeliveredPayload.decodePayload
    .messageDelivered

def appendFlagChangedRecord : Record → Except ReplayError Event :=
  appendRecord (ascii "FlagChanged") (fun error => ascii (error.message "FlagChanged")) FlagChangedPayload.decodePayload
    .flagChanged

def appendFactsExtractedRecord : Record → Except ReplayError Event :=
  appendRecord (ascii "FactsExtracted") (·.message) FactsExtractedPayload.decodePayload .factsExtracted

def appendMembershipChangeRecord : Record → Except ReplayError Event :=
  appendRecord (ascii "DerivedViewMembershipChanged") (fun error => ascii (error.message "DerivedViewMembershipChanged"))
    DerivedViewPayload.decodePayload .derivedViewMembershipChanged

def appendMembershipsExpungedRecord : Record → Except ReplayError Event :=
  appendRecord (ascii "MembershipsExpunged") (fun error => ascii (error.message "MembershipsExpunged"))
    MembershipsExpungedPayload.decodePayload .membershipsExpunged

def appendMembershipsCopiedRecord (isMove : Bool) : Record → Except ReplayError Event :=
  appendRecord (ascii (if isMove then "MembershipsMoved" else "MembershipsCopied"))
    (fun error => ascii (error.message "MembershipsCopied")) MembershipsCopiedPayload.decodePayload
    (if isMove then .membershipsMoved else .membershipsCopied)

def appendMessageAppendedRecord : Record → Except ReplayError Event :=
  appendRecord (ascii "MessageAppended") (fun error => ascii error.message) MessageAppendedPayload.decodePayload
    .messageAppended

/-- The kind in the payload has to agree with the type of the record. -/
def appendFactMutationRecord (record : Record) : Except ReplayError Event :=
  match FactMutationPayload.decodeRequest record.payload with
  | .error error => .error (.undecodable (ascii "fact mutation") record.sequence (ascii error.message))
  | .ok mutation =>
    if mutationEvent mutation.kind ≠ record.eventType then
      .error (.undecodable (ascii "fact mutation") record.sequence
        (ascii "mutation does not match the journal event"))
    else .ok (.factMutated mutation)

def appendMutation (record : Record) : Option (Except ReplayError Event) :=
  match record.eventType with
  | .flagChanged => some (appendFlagChangedRecord record)
  | .factInserted | .factRetracted => some (appendFactMutationRecord record)
  | .factsExtracted => some (appendFactsExtractedRecord record)
  | .derivedViewMembershipChanged => some (appendMembershipChangeRecord record)
  | .membershipsExpunged => some (appendMembershipsExpungedRecord record)
  | .membershipsCopied => some (appendMembershipsCopiedRecord false record)
  | .membershipsMoved => some (appendMembershipsCopiedRecord true record)
  | .messageAppended => some (appendMessageAppendedRecord record)
  | .messageDelivered | .keywordChanged | .daemonAuditRecorded => none

/-- The body of the loop: what the record says, if it is one that is projected. -/
def decodeRecord (includeMutations : Bool) (record : Record) : Except ReplayError (Option Event) :=
  match if includeMutations then appendMutation record else none with
  | some result => result.map some
  | none => if record.eventType ≠ .messageDelivered then .ok none else (appendDeliveredRecord record).map some

def entryAt (record : Record) (event : Event) : ProjectionRecord := ⟨⟨record.offset, record.sequence⟩, event⟩

/-! ## The replay -/

section
variable (sha : Sha256) (includeMutations : Bool)

/-- The loop of `projection_replay`. -/
def replayLoop : ℕ → Reader → List ProjectionRecord → Except ReplayError (List ProjectionRecord)
  | 0, _, found => .ok found
  | fuel + 1, reader, found =>
    match readNext sha reader with
    | .error error => .error (.journal error)
    | .ok none => .ok found
    | .ok (some (record, reader)) =>
      match decodeRecord includeMutations record with
      | .error error => .error error
      | .ok event => replayLoop fuel reader (found ++ (event.map (entryAt record)).toList)

def projectionReplay (reader : Reader) : Except ReplayError (List ProjectionRecord) :=
  replayLoop sha includeMutations (fuelFor reader) reader []

/-- `wyrebox_delivery_projection_replay_records`. -/
def replayRecords (reader : Reader) : Except ReplayError (List ProjectionRecord) := projectionReplay sha false reader

/-- `wyrebox_delivery_projection_replay_records_with_mutations`. -/
def replayRecordsWithMutations (reader : Reader) : Except ReplayError (List ProjectionRecord) :=
  projectionReplay sha true reader

/-- `wyrebox_delivery_projection_check_record_object` of a record that names an object. -/
def checkRecordObject (files : ObjectFiles) (record : ProjectionRecord) : Except ReplayError Unit :=
  match objectOf record.event with
  | none => .ok ()
  | some (key, size) =>
    match objectCheck sha files key size with
    | .error failure => .error (.object record failure)
    | .ok () => .ok ()

def checkObjects (files : ObjectFiles) : List ProjectionRecord → Except ReplayError Unit
  | [] => .ok ()
  | record :: records =>
    match checkRecordObject sha files record with
    | .error error => .error error
    | .ok () => checkObjects files records

/-- `wyrebox_delivery_projection_replay_all`. -/
def replayAll (files : ObjectFiles) (reader : Reader) : Except ReplayError (List ProjectionRecord) :=
  match replayRecords sha reader with
  | .error error => .error error
  | .ok records =>
    match checkObjects sha files records with
    | .error error => .error error
    | .ok () => .ok records

end

/-! ## The loop over the records that are read -/

section
variable {sha : Sha256} {includeMutations : Bool} {reader : Reader} {records : List Record} {stop : Option ReadError}

/-- The records are projected up to the first that is not decoded, or to where the reader stops. -/
def projectList (includeMutations : Bool) (stop : Option ReadError) :
    List Record → Except ReplayError (List ProjectionRecord)
  | [] =>
    match stop with
    | none => .ok []
    | some error => .error (.journal error)
  | record :: records =>
    match decodeRecord includeMutations record with
    | .error error => .error error
    | .ok event => (projectList includeMutations stop records).map ((event.map (entryAt record)).toList ++ ·)

theorem replayLoop_eq (h : Reads sha reader records stop) {fuel : ℕ} (hfuel : records.length < fuel)
    (found : List ProjectionRecord) :
    replayLoop sha includeMutations fuel reader found = (projectList includeMutations stop records).map (found ++ ·) := by
  induction h generalizing fuel found with
  | eof h =>
    cases fuel with
    | zero => exact absurd hfuel (Nat.not_lt_zero _)
    | succ fuel => simp [replayLoop, h, projectList, Except.map]
  | error h =>
    cases fuel with
    | zero => exact absurd hfuel (Nat.not_lt_zero _)
    | succ fuel => simp [replayLoop, h, projectList, Except.map]
  | @record reader next record records stop h hnext ih =>
    cases fuel with
    | zero => exact absurd hfuel (Nat.not_lt_zero _)
    | succ fuel =>
      rw [List.length_cons] at hfuel
      simp only [replayLoop, h, projectList]
      cases hrecord : decodeRecord includeMutations record with
      | error error => rfl
      | ok event =>
        simp only [ih (Nat.lt_of_succ_lt_succ hfuel)]
        cases projectList includeMutations stop records with
        | error error => rfl
        | ok rest => simp only [Except.map, List.append_assoc]

/-- What a record says if it is decoded. -/
def eventOf (includeMutations : Bool) (record : Record) : Option Event :=
  ((decodeRecord includeMutations record).toOption).join

def Decodes (includeMutations : Bool) (record : Record) : Prop :=
  (decodeRecord includeMutations record).toOption.isSome = true

theorem decodes_of_ok {record : Record} {event : Option Event} (h : decodeRecord includeMutations record = .ok event) :
    Decodes includeMutations record ∧ eventOf includeMutations record = event := by
  rw [Decodes, eventOf, h]
  exact ⟨rfl, rfl⟩

def projected (includeMutations : Bool) (record : Record) : Option ProjectionRecord :=
  (eventOf includeMutations record).map (entryAt record)

theorem projectList_eq_ok {found : List ProjectionRecord} :
    projectList includeMutations stop records = .ok found ↔
      stop = none ∧ (∀ record ∈ records, Decodes includeMutations record) ∧
        found = records.filterMap (projected includeMutations) := by
  induction records generalizing found with
  | nil =>
    cases stop with
    | none => simp [projectList, eq_comm]
    | some error => simp [projectList]
  | cons record records ih =>
    rw [projectList]
    cases hrecord : decodeRecord includeMutations record with
    | error error =>
      have hnot : ¬Decodes includeMutations record := by
        intro hdecodes
        rw [Decodes, hrecord] at hdecodes
        cases hdecodes
      simp [hnot]
    | ok event =>
      obtain ⟨hdecodes, hevent⟩ := decodes_of_ok hrecord
      have hcons : (record :: records).filterMap (projected includeMutations) =
          (event.map (entryAt record)).toList ++ records.filterMap (projected includeMutations) := by
        rw [List.filterMap_cons, projected, hevent]
        cases event <;> rfl
      simp only [List.forall_mem_cons, hdecodes, true_and, hcons]
      cases hrest : projectList includeMutations stop records with
      | error error =>
        constructor
        · intro h
          cases h
        · rintro ⟨hstop, hall, -⟩
          rw [ih.mpr ⟨hstop, hall, rfl⟩] at hrest
          cases hrest
      | ok rest =>
        obtain ⟨hstop, hall, rfl⟩ := ih.mp hrest
        simp only [Except.map, Except.ok.injEq]
        exact ⟨fun h => ⟨hstop, hall, h.symm⟩, fun h => h.2.2.symm⟩

theorem reads_unique {records' : List Record} {stop' : Option ReadError} (h : Reads sha reader records stop)
    (h' : Reads sha reader records' stop') : records = records' ∧ stop = stop' := by
  induction h generalizing records' stop' with
  | eof h =>
    cases h' with
    | eof _ => exact ⟨rfl, rfl⟩
    | error h' | record h' _ => rw [h] at h'; cases h'
  | error h =>
    cases h' with
    | error h' => rw [h] at h'; cases h'; exact ⟨rfl, rfl⟩
    | eof h' | record h' _ => rw [h] at h'; cases h'
  | record h hnext ih =>
    cases h' with
    | eof h' | error h' => rw [h] at h'; cases h'
    | record h' hnext' =>
      rw [h] at h'
      cases h'
      obtain ⟨rfl, rfl⟩ := ih hnext'
      exact ⟨rfl, rfl⟩

/-- A replay of a reader that returns `records`. -/
theorem projectionReplay_eq (h : Reads sha reader records stop) (hlength : records.length ≤ reader.fileSize - reader.offset) :
    projectionReplay sha includeMutations reader = projectList includeMutations stop records := by
  rw [projectionReplay, replayLoop_eq h (by rw [fuelFor]; omega)]
  cases projectList includeMutations stop records <;> simp [Except.map]

end

/-! ## The journal as a log -/

section
variable {sha : Sha256} {includeMutations : Bool} {segment : Segment} {records : List Record}

/-- The outcome depends on the place of a record only in the texts of its errors. -/
theorem decodeRecord_toOption (eventType : EventType) (payload : List UInt8) (offset sequence offset' sequence' : ℕ) :
    (decodeRecord includeMutations ⟨offset, sequence, eventType, payload⟩).toOption =
      (decodeRecord includeMutations ⟨offset', sequence', eventType, payload⟩).toOption := by
  have happend : ∀ {ε α : Type} (name : List UInt8) (reason : ε → List UInt8) (decode : List UInt8 → Except ε α)
      (event : α → Event),
      ((appendRecord name reason decode event ⟨offset, sequence, eventType, payload⟩).map some).toOption =
        ((appendRecord name reason decode event ⟨offset', sequence', eventType, payload⟩).map some).toOption := by
    intro ε α name reason decode event
    simp only [appendRecord]
    cases decode payload <;> rfl
  have hmutation : ((appendFactMutationRecord ⟨offset, sequence, eventType, payload⟩).map some).toOption =
      ((appendFactMutationRecord ⟨offset', sequence', eventType, payload⟩).map some).toOption := by
    simp only [appendFactMutationRecord]
    cases FactMutationPayload.decodeRequest payload with
    | error error => rfl
    | ok mutation =>
      by_cases hkind : mutationEvent mutation.kind = eventType
      · simp only [hkind, ne_eq, not_true_eq_false, if_false]
      · simp only [hkind, ne_eq, not_false_eq_true, if_true]
        rfl
  cases includeMutations with
  | false =>
    cases eventType with
    | messageDelivered => exact happend _ _ _ _
    | _ => rfl
  | true =>
    cases eventType with
    | factInserted | factRetracted => exact hmutation
    | keywordChanged | daemonAuditRecorded => rfl
    | _ => exact happend _ _ _ _

/-- What an appended entry says. -/
def eventOfEntry (e : Entry) : Option Event := eventOf true (recordOf e 0 1)

def EntryDecodes (e : Entry) : Prop := Decodes true (recordOf e 0 1)

theorem eventOf_recordOf (e : Entry) (offset sequence : ℕ) : eventOf true (recordOf e offset sequence) = eventOfEntry e := by
  rw [eventOfEntry, eventOf, eventOf]
  exact congrArg Option.join (decodeRecord_toOption e.eventType e.payload.data offset sequence 0 1)

theorem decodes_recordOf (e : Entry) (offset sequence : ℕ) : Decodes true (recordOf e offset sequence) ↔ EntryDecodes e := by
  rw [EntryDecodes, Decodes, Decodes]
  exact iff_of_eq (congrArg (Option.isSome · = true)
    (decodeRecord_toOption e.eventType e.payload.data offset sequence 0 1))

/-- The log of the entries that a journal holds. -/
def logOf (es : List Entry) : Log := es.foldl (fun log e => log.append (eventOfEntry e) (e.size - 64)) .empty

theorem logOf_append (es : List Entry) (e : Entry) : logOf (es ++ [e]) = (logOf es).append (eventOfEntry e) (e.size - 64) :=
  List.foldl_concat _ _ _ _

theorem foldl_append_spec (es : List Entry) (log : Log) :
    let result := es.foldl (fun log e => log.append (eventOfEntry e) (e.size - 64)) log
    result.records = log.records ++ (recordsOf log.nextOffset log.nextSequence es).filterMap (projected true) ∧
      result.nextOffset = log.nextOffset + totalSize es ∧ result.nextSequence = log.nextSequence + es.length := by
  induction es generalizing log with
  | nil => exact ⟨(List.append_nil _).symm, rfl, rfl⟩
  | cons e es ih =>
    obtain ⟨hrecords, hoffset, hsequence⟩ := ih (log.append (eventOfEntry e) (e.size - 64))
    have hsize := e.headerSize_lt_size
    have hnext : (log.append (eventOfEntry e) (e.size - 64)).nextOffset = log.nextOffset + e.size := by
      change log.nextOffset + (64 + (e.size - 64)) = _
      rw [headerSize] at hsize
      omega
    have hnumber : (log.append (eventOfEntry e) (e.size - 64)).nextSequence = log.nextSequence + 1 := rfl
    have hhead : projected true (recordOf e log.nextOffset log.nextSequence) =
        (eventOfEntry e).map fun event => ⟨log.nextPosition, event⟩ := by
      rw [projected, eventOf_recordOf]
      rfl
    rw [hnext, hnumber] at hrecords
    rw [hnext] at hoffset
    rw [hnumber] at hsequence
    refine ⟨?_, ?_, ?_⟩
    · rw [List.foldl_cons, hrecords, recordsOf, List.filterMap_cons, hhead]
      change (log.records ++ _) ++ _ = _
      rw [List.append_assoc]
      cases eventOfEntry e <;> rfl
    · rw [List.foldl_cons, hoffset, totalSize, totalSize, List.map_cons, List.sum_cons]
      omega
    · rw [List.foldl_cons, hsequence, List.length_cons]
      omega

theorem logOf_spec (es : List Entry) : (logOf es).records = (recordsOf 0 1 es).filterMap (projected true) ∧
    (logOf es).nextOffset = totalSize es ∧ (logOf es).nextSequence = es.length + 1 := by
  obtain ⟨hrecords, hoffset, hsequence⟩ := foldl_append_spec es .empty
  refine ⟨hrecords, ?_, ?_⟩
  · rw [logOf, hoffset]
    exact Nat.zero_add _
  · rw [logOf, hsequence]
    exact Nat.add_comm _ _

/-! ## What a reader that ends cleanly has read -/

theorem image_of_reads {position sequence : ℕ} (hs : sequence + (segment.bytes.length - position) + 1 < 2 ^ 64)
    (h : Reads sha (.at segment position sequence) records none) :
    ∃ es : List Entry, segment.bytes.drop position = image sha sequence es ∧ records = recordsOf position sequence es := by
  generalize hreader : Reader.at segment position sequence = reader at h
  generalize hstop : (none : Option ReadError) = stop at h
  induction h generalizing position sequence with
  | eof h =>
    subst hreader
    exact ⟨[], List.drop_eq_nil_of_le (readNext_eof sha h), rfl⟩
  | error h => cases hstop
  | record h hnext ih =>
    subst hreader
    obtain ⟨e, tail, hrest, rfl, rfl⟩ := readNext_sound sha h
    have hlen := congrArg List.length hrest
    rw [List.length_drop, List.length_append, Entry.record_length] at hlen
    have hpos := e.size_pos
    rw [Nat.mod_eq_of_lt (by omega)] at ih
    obtain ⟨es, himage, hrecords⟩ := ih (by omega) rfl hstop
    refine ⟨e :: es, ?_, by rw [recordsOf, hrecords]⟩
    rw [← List.drop_drop, hrest, ← e.record_length sha sequence, List.drop_left] at himage
    rw [hrest, image, himage]

theorem reads_of_image {position sequence : ℕ} {es : List Entry} (hs : sequence + es.length < 2 ^ 64)
    (hpos : position ≤ segment.bytes.length) (h : segment.bytes.drop position = image sha sequence es) :
    Reads sha (.at segment position sequence) (recordsOf position sequence es) none := by
  induction es generalizing position sequence with
  | nil =>
    have hlen := congrArg List.length h
    rw [List.length_drop, image, List.length_nil] at hlen
    obtain rfl : position = segment.bytes.length := by omega
    exact .eof (readNext_end sha segment sequence)
  | cons e es ih =>
    rw [List.length_cons] at hs
    have hlen := congrArg List.length h
    rw [List.length_drop, image_length, totalSize, List.map_cons, List.sum_cons] at hlen
    have hnext := readNext_record sha (image sha (sequence + 1) es) (by omega : sequence < 2 ^ 64) h
    rw [Nat.mod_eq_of_lt (by omega)] at hnext
    exact .record hnext (ih (by omega) (by omega) (drop_image sha h))

def fileBytes (segment : Option Segment) : List UInt8 := (segment.map Segment.bytes).getD []

theorem reads_new_iff (segment : Option Segment) : Reads sha (.new segment) records none ↔
    ∃ es : List Entry, fileBytes segment = image sha 1 es ∧ records = recordsOf 0 1 es := by
  cases segment with
  | none =>
    have hend : readNext sha (.new none) = .ok none := rfl
    constructor
    · intro h
      cases h with
      | eof _ => exact ⟨[], rfl, rfl⟩
      | record h _ =>
        rw [hend] at h
        cases h
    · rintro ⟨es, himage, rfl⟩
      have hlen := congrArg List.length himage
      rw [image_length] at hlen
      have hes := length_le_totalSize es
      obtain rfl : es = [] := List.length_eq_zero_iff.mp (Nat.le_zero.mp (hes.trans hlen.ge))
      exact .eof hend
  | some segment =>
    have hfile := segment.size_le
    rw [maxOffset] at hfile
    rw [Reader.new_eq_at]
    constructor
    · intro h
      obtain ⟨es, himage, hrecords⟩ := image_of_reads (by omega) h
      exact ⟨es, himage, hrecords⟩
    · rintro ⟨es, himage, rfl⟩
      have hlen := congrArg List.length himage
      rw [image_length] at hlen
      have hes := length_le_totalSize es
      change segment.bytes.length = _ at hlen
      exact reads_of_image (by omega) (Nat.zero_le _) (by rw [List.drop_zero]; exact himage)

/-- The replay of a journal file and the abstract log: the file is a sequence of records all of which decode,
    and the records found are those of the log that their appends make. -/
theorem replay_iff (segment : Option Segment) (found : List ProjectionRecord) :
    replayRecordsWithMutations sha (.new segment) = .ok found ↔ ∃ es : List Entry,
      fileBytes segment = image sha 1 es ∧ (∀ e ∈ es, EntryDecodes e) ∧ found = (logOf es).records := by
  obtain ⟨records, stop, hreads, hlength⟩ := reads_total sha _ (Reader.new segment) le_rfl
  have hdecodes : ∀ es : List Entry, (∀ record ∈ recordsOf 0 1 es, Decodes true record) ↔ ∀ e ∈ es, EntryDecodes e := by
    intro es
    suffices h : ∀ offset sequence, (∀ record ∈ recordsOf offset sequence es, Decodes true record) ↔
        ∀ e ∈ es, EntryDecodes e from h 0 1
    induction es with
    | nil => simp [recordsOf]
    | cons e es ih =>
      intro offset sequence
      rw [recordsOf, List.forall_mem_cons, List.forall_mem_cons, decodes_recordOf, ih]
  rw [replayRecordsWithMutations, projectionReplay_eq hreads hlength, projectList_eq_ok]
  constructor
  · rintro ⟨rfl, hall, rfl⟩
    obtain ⟨es, himage, rfl⟩ := (reads_new_iff segment).mp hreads
    exact ⟨es, himage, (hdecodes es).mp hall, (logOf_spec es).1.symm⟩
  · rintro ⟨es, himage, hall, rfl⟩
    obtain ⟨rfl, rfl⟩ := reads_unique hreads ((reads_new_iff segment).mpr ⟨es, himage, rfl⟩)
    exact ⟨rfl, (hdecodes es).mpr hall, (logOf_spec es).1⟩

/-- The journals that processes work on and leave behind. -/
inductive Life (sha : Sha256) : JournalState → Prop where
  | initial : Life sha .initial
  | append {s : JournalState} (h : Life sha s) {w : Writer} (hw : s.writer = some w) (e : Entry) (disk : Disk) :
      Life sha (s.append sha w e disk).1
  | maintain {s s' : JournalState} (h : Life sha s) (hstep : Maintain sha s s') : Life sha s'

theorem Life.holds {s : JournalState} (h : Life sha s) : ∃ es k, Holds sha s es k := by
  induction h with
  | initial => exact ⟨[], 0, holds_initial sha⟩
  | append h hw e disk ih =>
    obtain ⟨es, k, hholds⟩ := ih
    rcases hholds.append hw e disk with ⟨s', hs', hnext⟩ | ⟨s', error, hs', hnext | hnext⟩
    · rw [hs']
      exact ⟨_, _, hnext⟩
    · rw [hs']
      exact ⟨_, _, hnext⟩
    · rw [hs']
      exact ⟨_, _, hnext⟩
  | maintain h hstep ih =>
    obtain ⟨es, k, hholds⟩ := ih
    obtain ⟨n, -, -, hnext⟩ := hholds.maintain hstep
    exact ⟨_, _, hnext⟩

theorem Holds.image {s : JournalState} {es : List Entry} {k : ℕ} (h : Holds sha s es k) {w : Writer}
    (hw : s.writer = some w) (hlive : w.failed = false) : s.segment.bytes = image sha 1 es := by
  obtain ⟨n, hbytes⟩ := (h.live w hw hlive).bytes
  rwa [Option.elim_none, List.append_nil] at hbytes

/-- A journal of whole records is replayed as their log. -/
theorem replay_image {es : List Entry} (h : segment.bytes = image sha 1 es) (found : List ProjectionRecord) :
    replayRecordsWithMutations sha (.new (some segment)) = .ok found ↔
      (∀ e ∈ es, EntryDecodes e) ∧ found = (logOf es).records := by
  rw [replay_iff]
  constructor
  · rintro ⟨fs, himage, hall, rfl⟩
    have hsame : es = fs := by
      have hread := readSegment_image sha h
      rw [readSegment_image sha (show segment.bytes = image sha 1 fs from himage), Prod.mk.injEq] at hread
      exact (recordsOf_injective hread.1).symm
    subst hsame
    exact ⟨hall, rfl⟩
  · rintro ⟨hall, rfl⟩
    exact ⟨es, h, hall, rfl⟩

end

/-- A process has just opened its first journal. -/
def freshJournal : JournalState := ⟨.empty, 0, some ⟨1, 0, false⟩⟩

lemma freshJournal_life : Life JournalCrash.sha256 freshJournal :=
  .maintain .initial (.start _ ⟨.empty, ⟨1, 0, false⟩⟩ rfl rfl)

section
variable {sha : Sha256} {reader : Reader} {files : ObjectFiles}

theorem appendRecord_eq_ok {ε α : Type} {name : List UInt8} {reason : ε → List UInt8} {decode : List UInt8 → Except ε α}
    {makeEvent : α → Event} {record : Record} {event : Event} :
    appendRecord name reason decode makeEvent record = .ok event ↔
      ∃ decoded, decode record.payload = .ok decoded ∧ event = makeEvent decoded := by
  rw [appendRecord]
  cases decode record.payload with
  | error error => simp
  | ok decoded => simp [eq_comm]

theorem decodeRecord_false (record : Record) : decodeRecord false record =
    if record.eventType ≠ .messageDelivered then .ok none else decodeRecord true record := by
  by_cases htype : record.eventType = .messageDelivered
  · have hnone : appendMutation record = none := by rw [appendMutation, htype]
    simp only [decodeRecord, htype, hnone, Bool.false_eq_true, ite_self, ne_eq, not_true_eq_false, if_false]
  · simp only [decodeRecord, htype, Bool.false_eq_true, if_false, ne_eq, not_false_eq_true, if_true]

/-- The event of a record has the kind of the record. -/
theorem isDelivery_of_decoded {record : Record} {event : Event} (h : decodeRecord true record = .ok (some event)) :
    isDelivery (entryAt record event) = true ↔ record.eventType = .messageDelivered := by
  have hmap : ∀ {result : Except ReplayError Event}, result.map some = .ok (some event) → result = .ok event := by
    intro result hresult
    cases result with
    | error error => cases hresult
    | ok found => cases hresult; rfl
  obtain ⟨offset, sequence, eventType, payload⟩ := record
  rw [decodeRecord, if_pos rfl] at h
  cases eventType with
  | messageDelivered =>
    simp only [appendMutation, ne_eq, not_true_eq_false, if_false] at h
    have hresult := hmap h
    rw [appendDeliveredRecord, appendRecord_eq_ok] at hresult
    obtain ⟨decoded, -, rfl⟩ := hresult
    exact iff_of_true rfl rfl
  | factInserted | factRetracted =>
    simp only [appendMutation] at h
    have hresult := hmap h
    rw [appendFactMutationRecord] at hresult
    split at hresult
    · cases hresult
    · split at hresult
      · cases hresult
      · cases hresult
        exact iff_of_false Bool.false_ne_true (by simp)
  | keywordChanged | daemonAuditRecorded => cases h
  | flagChanged | factsExtracted | derivedViewMembershipChanged | membershipsExpunged | membershipsCopied
  | membershipsMoved | messageAppended =>
    simp only [appendMutation] at h
    obtain ⟨decoded, -, rfl⟩ := appendRecord_eq_ok.mp (hmap h)
    exact iff_of_false Bool.false_ne_true (by simp)

/-- What the replay without mutations takes of a record. -/
theorem projected_false {record : Record} (h : Decodes true record) : Decodes false record ∧
    projected false record = (projected true record).filter isDelivery := by
  cases hdecoded : decodeRecord true record with
  | error error =>
    rw [Decodes, hdecoded] at h
    cases h
  | ok event =>
    obtain ⟨-, hevent⟩ := decodes_of_ok hdecoded
    by_cases htype : record.eventType = .messageDelivered
    · have hsame : decodeRecord false record = .ok event := by
        rw [decodeRecord_false, if_neg (not_not.mpr htype), hdecoded]
      obtain ⟨hdecodes, hevent'⟩ := decodes_of_ok hsame
      rw [projected, projected, hevent, hevent']
      refine ⟨hdecodes, ?_⟩
      cases event with
      | none => rfl
      | some event =>
        exact (Option.filter_some_pos ((isDelivery_of_decoded hdecoded).mpr htype)).symm
    · have hnone : decodeRecord false record = .ok none := by rw [decodeRecord_false, if_pos htype]
      obtain ⟨hdecodes, hevent'⟩ := decodes_of_ok hnone
      rw [projected, projected, hevent, hevent']
      refine ⟨hdecodes, ?_⟩
      cases event with
      | none => rfl
      | some event =>
        exact (Option.filter_some_neg (Bool.not_eq_true _ ▸ mt (isDelivery_of_decoded hdecoded).mp htype)).symm

theorem filterMap_projected_false {records : List Record} (h : ∀ record ∈ records, Decodes true record) :
    records.filterMap (projected false) = (records.filterMap (projected true)).filter isDelivery := by
  induction records with
  | nil => rfl
  | cons record records ih =>
    rw [List.forall_mem_cons] at h
    rw [List.filterMap_cons, List.filterMap_cons, (projected_false h.1).2, ih h.2]
    cases hrecord : projected true record with
    | none => rfl
    | some entry =>
      by_cases hentry : isDelivery entry = true
      · rw [Option.filter_some_pos hentry, List.filter_cons_of_pos hentry]
      · rw [Option.filter_some_neg (Bool.not_eq_true _ ▸ hentry), List.filter_cons_of_neg hentry]

/-- Only a payload that is no delivery's can make the two replays differ. -/
theorem projectList_error {records : List Record} {error : ReplayError}
    (h : ∀ record ∈ records, Decodes false record) (herror : projectList true none records = .error error) :
    ∃ record ∈ records, record.eventType ≠ .messageDelivered ∧ decodeRecord true record = .error error := by
  induction records with
  | nil => cases herror
  | cons record records ih =>
    rw [List.forall_mem_cons] at h
    rw [projectList] at herror
    cases hdecoded : decodeRecord true record with
    | error error' =>
      rw [hdecoded] at herror
      cases herror
      refine ⟨record, List.mem_cons_self, fun htype => ?_, hdecoded⟩
      have hfalse := h.1
      rw [Decodes, decodeRecord_false, if_neg (not_not.mpr htype), hdecoded] at hfalse
      cases hfalse
    | ok event =>
      simp only [hdecoded] at herror
      cases hrest : projectList true none records with
      | error error' =>
        rw [hrest] at herror
        cases herror
        obtain ⟨record', hmem, hother, hfailed⟩ := ih h.2 hrest
        exact ⟨record', List.mem_cons_of_mem _ hmem, hother, hfailed⟩
      | ok found =>
        rw [hrest] at herror
        cases herror

open ReplayValidation (validateAll validateRecord validateObjectReference validateRecords_eq validateList_strict)

theorem checkObjects_eq_ok {records : List ProjectionRecord} :
    checkObjects sha files records = .ok () ↔ ∀ record ∈ records, checkRecordObject sha files record = .ok () := by
  induction records with
  | nil => simp [checkObjects]
  | cons record records ih =>
    rw [checkObjects, List.forall_mem_cons, ← ih]
    cases checkRecordObject sha files record with
    | error error => simp
    | ok => simp

theorem validateObjectReference_eq_ok {name : String} {sequence size : ℕ} {key : CString} :
    validateObjectReference sha files name sequence key size = .ok () ↔ objectCheck sha files key size = .ok () := by
  rw [validateObjectReference]
  cases objectCheck sha files key size with
  | ok => exact iff_of_true rfl rfl
  | error failure => cases failure <;> simp

theorem checkRecordObject_eq_ok {record : ProjectionRecord} : checkRecordObject sha files record = .ok () ↔
    ∀ object, objectOf record.event = some object → objectCheck sha files object.1 object.2 = .ok () := by
  rw [checkRecordObject]
  cases objectOf record.event with
  | none => simp
  | some object =>
    obtain ⟨key, size⟩ := object
    simp only [Option.some.injEq, forall_eq']
    cases objectCheck sha files key size with
    | error failure => simp
    | ok => simp

/-- The validator looks at the same object as the check of the decoded record. -/
theorem validateRecord_eq_ok {record : Record} {event : Option Event} (h : decodeRecord true record = .ok event) :
    validateRecord sha files record = .ok () ↔
      ∀ object, event.bind objectOf = some object → objectCheck sha files object.1 object.2 = .ok () := by
  have hmap : ∀ {result : Except ReplayError Event}, result.map some = .ok event → ∃ found, result = .ok found ∧
      event = some found := by
    intro result hresult
    cases result with
    | error error => cases hresult
    | ok found => cases hresult; exact ⟨found, rfl, rfl⟩
  obtain ⟨offset, sequence, eventType, payload⟩ := record
  rw [decodeRecord, if_pos rfl] at h
  cases eventType with
  | messageDelivered =>
    simp only [appendMutation, ne_eq, not_true_eq_false, if_false] at h
    obtain ⟨found, hfound, rfl⟩ := hmap h
    rw [appendDeliveredRecord, appendRecord_eq_ok] at hfound
    obtain ⟨decoded, hdecoded, rfl⟩ := hfound
    simp only [validateRecord, ReplayValidation.validateMessageDeliveredRecord, hdecoded, Option.bind_some, objectOf,
      Option.some.injEq, forall_eq', validateObjectReference_eq_ok]
  | messageAppended =>
    simp only [appendMutation] at h
    obtain ⟨found, hfound, rfl⟩ := hmap h
    rw [appendMessageAppendedRecord, appendRecord_eq_ok] at hfound
    obtain ⟨decoded, hdecoded, rfl⟩ := hfound
    simp only [validateRecord, ReplayValidation.validateMessageAppendedRecord, hdecoded, Option.bind_some, objectOf,
      Option.some.injEq, forall_eq', validateObjectReference_eq_ok]
  | factInserted | factRetracted =>
    simp only [appendMutation] at h
    obtain ⟨found, hfound, rfl⟩ := hmap h
    rw [appendFactMutationRecord] at hfound
    split at hfound
    · cases hfound
    · split at hfound
      · cases hfound
      · cases hfound
        exact iff_of_true rfl fun object hobject => by cases hobject
  | keywordChanged | daemonAuditRecorded =>
    cases h
    exact iff_of_true rfl fun object hobject => by cases hobject
  | flagChanged | factsExtracted | derivedViewMembershipChanged | membershipsExpunged | membershipsCopied
  | membershipsMoved =>
    simp only [appendMutation] at h
    obtain ⟨found, hfound, rfl⟩ := hmap h
    obtain ⟨decoded, -, rfl⟩ := appendRecord_eq_ok.mp hfound
    exact iff_of_true rfl fun object hobject => by cases hobject

/-- A delivery that the validator accepts is decoded. -/
theorem decodes_of_validated {record : Record} (h : validateRecord sha files record = .ok ()) : Decodes false record := by
  by_cases htype : record.eventType = .messageDelivered
  · rw [Decodes, decodeRecord_false, if_neg (not_not.mpr htype)]
    cases hdecoded : MessageDeliveredPayload.decodePayload record.payload with
    | error error =>
      simp only [validateRecord, htype, ReplayValidation.validateMessageDeliveredRecord, hdecoded] at h
      cases h
    | ok decoded =>
      have hnone : appendMutation record = none := by rw [appendMutation, htype]
      simp only [decodeRecord, if_true, hnone, htype, ne_eq, not_true_eq_false, if_false, appendDeliveredRecord,
        appendRecord, hdecoded]
      rfl
  · rw [Decodes, decodeRecord_false, if_pos htype]
    rfl

/-- The check of what is decoded from a record. -/
theorem checked_of_validated {includeMutations : Bool} {record : Record} {entry : ProjectionRecord}
    (h : validateRecord sha files record = .ok ()) (hentry : projected includeMutations record = some entry) :
    checkRecordObject sha files entry = .ok () := by
  rw [projected, Option.map_eq_some_iff] at hentry
  obtain ⟨event, hevent, rfl⟩ := hentry
  have hdecoded : decodeRecord true record = .ok (some event) := by
    cases includeMutations with
    | true =>
      cases hresult : decodeRecord true record with
      | error error =>
        rw [eventOf, hresult] at hevent
        cases hevent
      | ok found => rw [← (decodes_of_ok hresult).2, hevent]
    | false =>
      cases hresult : decodeRecord false record with
      | error error =>
        rw [eventOf, hresult] at hevent
        cases hevent
      | ok found =>
        rw [(decodes_of_ok hresult).2] at hevent
        subst hevent
        rw [decodeRecord_false] at hresult
        split at hresult
        · cases hresult
        · exact hresult
  rw [checkRecordObject_eq_ok]
  exact (validateRecord_eq_ok hdecoded).mp h

/-- Where the whole journal replays, the validator accepts it exactly when every raw object that the replayed
    records name passes its check; and a journal that the validator accepts replays with its objects checked. -/
theorem validator_agrees (sha : Sha256) (files : ObjectFiles) (reader : Reader) :
    (∀ found, replayRecordsWithMutations sha reader = .ok found →
      (validateAll sha files reader = .ok () ↔ checkObjects sha files found = .ok ())) ∧
    (validateAll sha files reader = .ok () → ∃ found, replayAll sha files reader = .ok found) := by
  obtain ⟨records, stop, hreads, hlength⟩ := reads_total sha _ reader le_rfl
  have hvalid : validateAll sha files reader = .ok () ↔
      stop = none ∧ ∀ record ∈ records, validateRecord sha files record = .ok () := by
    rw [validateAll, validateRecords_eq hreads (by rw [fuelFor]; omega), validateList_strict]
  rw [hvalid, replayRecordsWithMutations, projectionReplay_eq hreads hlength, replayAll, replayRecords,
    projectionReplay_eq hreads hlength]
  refine ⟨fun found h => ?_, fun h => ?_⟩
  · obtain ⟨hstop, hall, rfl⟩ := projectList_eq_ok.mp h
    rw [checkObjects_eq_ok]
    constructor
    · rintro ⟨-, hvalidated⟩ entry hentry
      obtain ⟨record, hmem, hprojected⟩ := List.mem_filterMap.mp hentry
      exact checked_of_validated (hvalidated record hmem) hprojected
    · intro hchecked
      refine ⟨hstop, fun record hmem => ?_⟩
      cases hdecoded : decodeRecord true record with
      | error error =>
        have hdecodes := hall record hmem
        rw [Decodes, hdecoded] at hdecodes
        cases hdecodes
      | ok event =>
        rw [validateRecord_eq_ok hdecoded]
        intro object hobject
        obtain ⟨said, rfl, hsaid⟩ := Option.bind_eq_some_iff.mp hobject
        have hentry : projected true record = some (entryAt record said) := by
          rw [projected, (decodes_of_ok hdecoded).2]
          rfl
        exact checkRecordObject_eq_ok.mp (hchecked _ (List.mem_filterMap.mpr ⟨record, hmem, hentry⟩)) object hsaid
  · obtain ⟨rfl, hvalidated⟩ := h
    have hfound : projectList false none records = .ok (records.filterMap (projected false)) :=
      projectList_eq_ok.mpr ⟨rfl, fun record hmem => decodes_of_validated (hvalidated record hmem), rfl⟩
    have hchecked : checkObjects sha files (records.filterMap (projected false)) = .ok () := by
      rw [checkObjects_eq_ok]
      intro entry hentry
      obtain ⟨record, hmem, hprojected⟩ := List.mem_filterMap.mp hentry
      exact checked_of_validated (hvalidated record hmem) hprojected
    rw [hfound]
    simp only [hchecked]
    exact ⟨_, rfl⟩

end

end Wyrebox.DeliveryProjection
