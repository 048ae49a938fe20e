import Mathlib.Data.List.ReduceOption
import Mathlib.Data.List.Sort
import Wyrebox.Catchup
import Wyrebox.FactRecords
import Wyrebox.FactReplay
import Wyrebox.JournalCrash

set_option autoImplicit false

/-!
# The two readers of fact history

The snapshot folds a journal's fact mutations into a table of active facts in memory; the
materializer folds them into rows. Read over the same file, both see the same active facts.
-/
namespace Wyrebox.FactSnapshot
open JournalRecord JournalReader Event Catalog Materializer Catchup Fallible
open FactRecords FactReplay SwitchReplay
open FactMutationPayload (RequestError decodeRequest decodeRequest_valid Valid)
open JournalWriter (Position)

/-! ## The snapshot -/

inductive SnapshotError where
  | read (error : ReadError)
  | request (error : RequestError)
  | eventMismatch
  | fact (error : FactError)

/-- The hash table of active facts by identity key. Its order is no order that GLib promises. -/
abbrev Active : Type := List (List UInt8 × FactRecord)

/-- `wyrebox_daemon_fact_mutation_to_event`. -/
def mutationEvent : FactMutationKind → EventType
  | .insert => .factInserted
  | .retract => .factRetracted

def mutationSource (scopeId : CString) : CString := .literal "fact-mutation:" ++ scopeId

def requestKey (request : FactMutation) : List UInt8 :=
  identityKey request.predicateId (mutationSource request.scopeId) request.arguments

def applyFactInsert (active : Active) (request : FactMutation) (sequence : ℕ) : Except SnapshotError Active :=
  if active.any fun entry => entry.1 = requestKey request then .ok active
  else
    match recordInit request.predicateId request.arguments (mutationSource request.scopeId) confidenceExact
      sequence with
    | .error error => .error (.fact error)
    | .ok record => .ok (active ++ [(requestKey request, record)])

def applyFactRetract (active : Active) (request : FactMutation) : Active :=
  active.filter fun entry => entry.1 ≠ requestKey request

def applyFactMutationRecord (active : Active) (record : Record) : Except SnapshotError Active :=
  match decodeRequest record.payload with
  | .error error => .error (.request error)
  | .ok request =>
    if record.eventType ≠ mutationEvent request.kind then .error .eventMismatch
    else
      match request.kind with
      | .insert => applyFactInsert active request record.sequence
      | .retract => .ok (applyFactRetract active request)

def strcmp (s t : CString) : Ordering :=
  if s.bytes < t.bytes then .lt else if s = t then .eq else .gt

def compareArgs : List CString → List CString → Ordering
  | [], [] => .eq
  | [], _ :: _ => .lt
  | _ :: _, [] => .gt
  | left :: lefts, right :: rights => (strcmp left right).then (compareArgs lefts rights)

def compareFactRecords (left right : FactRecord) : Ordering :=
  ((strcmp left.predicate right.predicate).then (strcmp left.source right.source)).then
    (compareArgs left.args right.args)

def sortedRecords (active : Active) : List FactRecord :=
  (active.map Prod.snd).mergeSort fun left right => compareFactRecords left right != .gt

def isFactMutation (eventType : EventType) : Bool := eventType == .factInserted || eventType == .factRetracted

/-- One turn of the loop of `load_active`. -/
def loadRecord (active : Active) (record : Record) : Except SnapshotError Active :=
  if isFactMutation record.eventType then applyFactMutationRecord active record else .ok active

/-- `wyrebox_fact_journal_snapshot_load_active`. -/
def loadActive (sha : Sha256) (segment : Option Segment) : Except SnapshotError (List FactRecord) := do
  let (records, error) := readSegment sha segment
  let active ← records.foldlM loadRecord []
  match error with
  | some error => .error (.read error)
  | none => .ok (sortedRecords active)

/-! ## The projection and a fresh replay -/

inductive ProjectionError where
  | read (error : ReadError)
  | factMutation (sequence : ℕ) (detail : String)
  | other

def appendFactMutationRecord (record : Record) : Except ProjectionError ProjectionRecord :=
  match decodeRequest record.payload with
  | .error error => .error (.factMutation record.sequence error.message)
  | .ok mutation =>
    if mutationEvent mutation.kind ≠ record.eventType then
      .error (.factMutation record.sequence "mutation does not match the journal event")
    else .ok ⟨⟨record.offset, record.sequence⟩, .factMutated mutation⟩

/-- One turn of the loop of `projection_replay`; `others` decodes the remaining projected events. -/
def projectRecord (others : Record → Except ProjectionError ProjectionRecord) (record : Record) :
    Except ProjectionError (Option ProjectionRecord) :=
  match record.eventType with
  | .factInserted | .factRetracted => (appendFactMutationRecord record).map some
  | .keywordChanged | .daemonAuditRecorded => .ok none
  | _ => (others record).map some

/-- `projection_replay` with mutations. -/
def projectionReplay (others : Record → Except ProjectionError ProjectionRecord) (sha : Sha256)
    (segment : Option Segment) : Except ProjectionError (List ProjectionRecord) := do
  let (records, error) := readSegment sha segment
  let entries ← records.mapM (projectRecord others)
  match error with
  | some error => .error (.read error)
  | none => .ok entries.reduceOption

/-- A pass over everything from an empty catalog. -/
def freshReplay (seed : Provisioned) (records : List ProjectionRecord) : Progress × Bool :=
  passLoop seed ⟨true, true, fun _ => .none⟩ true ⟨.initial seed, [], [], []⟩ (runs records)

/-! ## The table of active facts -/

def recordOf (id : FactId) (since : Position) : FactRecord :=
  ⟨id.predicate, id.args, id.source, confidenceExact, since.sequence⟩

def keyOf (id : FactId) : List UInt8 := identityKey id.predicate id.source id.args

lemma keyOf_injective : Function.Injective keyOf := by
  intro id id' h
  obtain ⟨_, _, _⟩ := id
  obtain ⟨_, _, _⟩ := id'
  obtain ⟨rfl, rfl, rfl⟩ := identityKey_inj h
  rfl

/-- The table holds the facts whose switch is on, each since it was last turned on. -/
structure Mirrors (active : Active) (switches : FactId → Switch Position) : Prop where
  nodup : (active.map Prod.fst).Nodup
  mem_iff : ∀ key record, (key, record) ∈ active ↔ ∃ mutation since,
    switches (factId mutation) = some (since, none) ∧ key = keyOf (factId mutation) ∧
      record = recordOf (factId mutation) since

section
variable {active : Active} {switches : FactId → Switch Position} {request : FactMutation}
  {position : Position}

lemma Mirrors.empty : Mirrors [] fun _ => none := ⟨List.nodup_nil, by simp⟩

/-- The switch of one fact turned, the others left. -/
def turned (switches : FactId → Switch Position) (request : FactMutation) (position : Position) :
    FactId → Switch Position :=
  Function.update switches (factId request)
    (turn (switches (factId request)) (request.kind = .insert, position))

lemma Mirrors.any_iff (h : Mirrors active switches) :
    active.any (fun entry => entry.1 = requestKey request) = true ↔ IsOn (switches (factId request)) := by
  rw [List.any_eq_true]
  constructor
  · rintro ⟨⟨key, record⟩, hmem, hkey⟩
    obtain ⟨mutation, since, hon, hkey', -⟩ := (h.mem_iff key record).mp hmem
    have hid : factId mutation = factId request := keyOf_injective (hkey' ▸ of_decide_eq_true hkey)
    exact ⟨since, hid ▸ hon⟩
  · rintro ⟨since, hon⟩
    exact ⟨(keyOf (factId request), recordOf (factId request) since),
      (h.mem_iff _ _).mpr ⟨request, since, hon, rfl, rfl⟩, decide_eq_true rfl⟩

lemma Mirrors.insert (h : Mirrors active switches) (hvalid : Valid request) (hposition : position.sequence ≠ 0)
    (hkind : request.kind = .insert) :
    ∃ active', applyFactInsert active request position.sequence = .ok active' ∧
      Mirrors active' (turned switches request position) := by
  have hturn : decide (request.kind = .insert) = true := decide_eq_true hkind
  by_cases hon : IsOn (switches (factId request))
  · refine ⟨active, if_pos (h.any_iff.mpr hon), ?_⟩
    have hsame : turned switches request position = switches := by
      obtain ⟨since, hon⟩ := hon
      have hstays : turn (switches (factId request)) (true, position) = switches (factId request) := by
        rw [hon]
        rfl
      rw [turned, hturn, hstays, Function.update_eq_self]
    rw [hsame]
    exact h
  · have hsource : mutationSource request.scopeId ≠ .empty := by
      intro hempty
      have hbytes := congrArg CString.bytes hempty
      rw [mutationSource, CString.bytes_append] at hbytes
      exact absurd (List.append_eq_nil_iff.mp hbytes).1 (by decide)
    have hrecord : recordInit request.predicateId request.arguments (mutationSource request.scopeId)
        confidenceExact position.sequence = .ok (recordOf (factId request) position) :=
      recordInit_of_valid hvalid hsource hposition
    have hfresh : ∀ record, (requestKey request, record) ∉ active := by
      intro record hmem
      exact hon (h.any_iff.mp (List.any_eq_true.mpr ⟨_, hmem, decide_eq_true rfl⟩))
    have hself : turned switches request position (factId request) = some (position, none) := by
      rw [turned, hturn, Function.update_self, turn_on_eq_of_not _ hon]
    refine ⟨active ++ [(requestKey request, recordOf (factId request) position)], ?_, ?_, ?_⟩
    · rw [applyFactInsert, if_neg (fun hany => hon (h.any_iff.mp hany)), hrecord]
    · rw [List.map_append, List.nodup_append]
      refine ⟨h.nodup, List.nodup_singleton _, ?_⟩
      intro key hkey other hother
      obtain ⟨entry, hentry, rfl⟩ := List.mem_map.mp hkey
      rw [List.mem_singleton.mp hother]
      intro heq
      have heq' : entry.1 = requestKey request := heq
      exact hfresh entry.2 (heq' ▸ hentry)
    · intro key record
      rw [List.mem_append, List.mem_singleton, Prod.mk.injEq, h.mem_iff]
      constructor
      · rintro (⟨mutation, since, hswitch, hkey, hrec⟩ | ⟨hkey, hrec⟩)
        · have hne : factId mutation ≠ factId request := fun heq => hon ⟨since, heq ▸ hswitch⟩
          exact ⟨mutation, since, by rw [turned, Function.update_of_ne hne, hswitch], hkey, hrec⟩
        · exact ⟨request, position, hself, hkey, hrec⟩
      · rintro ⟨mutation, since, hswitch, hkey, hrec⟩
        by_cases hid : factId mutation = factId request
        · rw [hid, hself, Option.some.injEq, Prod.mk.injEq] at hswitch
          rw [hid] at hkey hrec
          exact .inr ⟨hkey, hswitch.1 ▸ hrec⟩
        · rw [turned, Function.update_of_ne hid] at hswitch
          exact .inl ⟨mutation, since, hswitch, hkey, hrec⟩

lemma Mirrors.retract (h : Mirrors active switches) (hkind : request.kind = .retract) :
    Mirrors (applyFactRetract active request) (turned switches request position) := by
  have hturn : decide (request.kind = .insert) = false := by rw [hkind]; rfl
  have hoff : ∀ since, turned switches request position (factId request) ≠ some (since, none) := by
    intro since hswitch
    rw [turned, hturn, Function.update_self] at hswitch
    exact not_isOn_turn_off _ _ ⟨since, hswitch⟩
  refine ⟨h.nodup.sublist (List.filter_sublist.map _), ?_⟩
  intro key record
  rw [applyFactRetract, List.mem_filter, h.mem_iff, decide_eq_true_eq]
  constructor
  · rintro ⟨⟨mutation, since, hswitch, hkey, hrec⟩, hne⟩
    have hid : factId mutation ≠ factId request := fun heq => hne (by rw [hkey, heq]; rfl)
    exact ⟨mutation, since, by rw [turned, Function.update_of_ne hid, hswitch], hkey, hrec⟩
  · rintro ⟨mutation, since, hswitch, hkey, hrec⟩
    have hid : factId mutation ≠ factId request := fun heq => hoff since (heq ▸ hswitch)
    rw [turned, Function.update_of_ne hid] at hswitch
    refine ⟨⟨mutation, since, hswitch, hkey, hrec⟩, fun heq => hid ?_⟩
    exact keyOf_injective (hkey ▸ heq)

end

/-! ## The same file read twice -/

section
variable {others : Record → Except ProjectionError ProjectionRecord} {sha : Sha256}

/-- The mutations of a projected journal with their positions. -/
def mutationsOf (entries : List ProjectionRecord) : List (FactMutation × Position) :=
  entries.filterMap fun entry =>
    match entry.event with
    | .factMutated mutation => some (mutation, entry.position)
    | _ => none

/-- Events that neither reader looks at, besides fact mutations. -/
def isFactJournalEvent (eventType : EventType) : Bool :=
  isFactMutation eventType || eventType == .keywordChanged || eventType == .daemonAuditRecorded

lemma replay_turnsOf_singleton (switches : FactId → Switch Position) (request : FactMutation)
    (position : Position) :
    (fun id => replay (turnsOf [(request, position)] id) (switches id)) = turned switches request position := by
  funext id
  rw [turnsOf_cons, turned]
  by_cases hid : factId request = id
  · subst hid
    rw [if_pos rfl, Function.update_self]
    rfl
  · rw [if_neg hid, Function.update_of_ne (Ne.symm hid)]
    rfl

/-- What a record of a fact journal does to both readers. -/
lemma record_cases {record : Record} (hevent : isFactJournalEvent record.eventType = true) :
    (∃ request, decodeRequest record.payload = .ok request ∧
      (∀ active, loadRecord active record = match request.kind with
        | .insert => applyFactInsert active request record.sequence
        | .retract => .ok (applyFactRetract active request)) ∧
      projectRecord others record = .ok (some ⟨⟨record.offset, record.sequence⟩, .factMutated request⟩)) ∨
    ((∀ active, loadRecord active record = .ok active) ∧ projectRecord others record = .ok none) ∨
    ((∀ active, ∃ error, loadRecord active record = .error error) ∧
      ∃ error, projectRecord others record = .error error) := by
  by_cases hmutation : isFactMutation record.eventType = true
  · have hproject : projectRecord others record = (appendFactMutationRecord record).map some := by
      simp only [isFactMutation, Bool.or_eq_true, beq_iff_eq] at hmutation
      rcases hmutation with htype | htype <;> rw [projectRecord, htype]
    have hload : ∀ active, loadRecord active record = applyFactMutationRecord active record :=
      fun active => if_pos hmutation
    cases hdecode : decodeRequest record.payload with
    | error error =>
      right
      right
      refine ⟨fun active => ⟨.request error, ?_⟩, .factMutation record.sequence error.message, ?_⟩
      · rw [hload, applyFactMutationRecord, hdecode]
      · rw [hproject, appendFactMutationRecord, hdecode]
        rfl
    | ok request =>
      by_cases htype : record.eventType = mutationEvent request.kind
      · left
        refine ⟨request, rfl, fun active => ?_, ?_⟩
        · rw [hload, applyFactMutationRecord, hdecode]
          exact if_neg (not_not.mpr htype)
        · rw [hproject, appendFactMutationRecord, hdecode]
          simp only [htype, ne_eq, not_true_eq_false, if_false]
          rfl
      · right
        right
        refine ⟨fun active => ⟨.eventMismatch, ?_⟩,
          .factMutation record.sequence "mutation does not match the journal event", ?_⟩
        · rw [hload, applyFactMutationRecord, hdecode]
          exact if_pos htype
        · rw [hproject, appendFactMutationRecord, hdecode]
          simp only [ne_eq, Ne.symm htype, not_false_eq_true, if_true]
          rfl
  · right
    left
    refine ⟨fun active => if_neg hmutation, ?_⟩
    rw [Bool.not_eq_true] at hmutation
    simp only [isFactJournalEvent, hmutation, Bool.false_or, Bool.or_eq_true, beq_iff_eq] at hevent
    rcases hevent with htype | htype <;> rw [projectRecord, htype]

lemma Mirrors.apply {active : Active} {switches : FactId → Switch Position} {request : FactMutation}
    {position : Position} (h : Mirrors active switches) (hvalid : Valid request) (hposition : position.sequence ≠ 0) :
    ∃ active', (match request.kind with
      | .insert => applyFactInsert active request position.sequence
      | .retract => .ok (applyFactRetract active request)) = .ok active' ∧
      Mirrors active' fun id => replay (turnsOf [(request, position)] id) (switches id) := by
  rw [replay_turnsOf_singleton]
  cases hkind : request.kind with
  | insert => exact h.insert hvalid hposition hkind
  | retract => exact ⟨_, rfl, h.retract hkind⟩

lemma turnsOf_append (log log' : List (FactMutation × Position)) (id : FactId) :
    turnsOf (log ++ log') id = turnsOf log id ++ turnsOf log' id := by
  simp only [turnsOf, List.filter_append, List.map_append]

/-- The readers go through the same records and fail together. -/
lemma records_agree {records : List Record} (hevents : ∀ record ∈ records, isFactJournalEvent record.eventType = true)
    (hsequences : ∀ record ∈ records, record.sequence ≠ 0) {active : Active}
    {switches : FactId → Switch Position} (hmirrors : Mirrors active switches) :
    (∃ active' entries, records.foldlM loadRecord active = .ok active' ∧
      records.mapM (projectRecord others) = .ok entries ∧
      (∀ entry ∈ entries.reduceOption, ∃ mutation, entry.event = .factMutated mutation ∧
        Complete mutation entry.position) ∧
      Mirrors active' fun id => replay (turnsOf (mutationsOf entries.reduceOption) id) (switches id)) ∨
    ((∃ error, records.foldlM loadRecord active = .error error) ∧
      ∃ error, records.mapM (projectRecord others) = .error error) := by
  induction records generalizing active switches with
  | nil => exact .inl ⟨active, [], rfl, rfl, by simp, hmirrors⟩
  | cons record records ih =>
    rw [List.forall_mem_cons] at hevents hsequences
    rw [List.foldlM_cons, List.mapM_cons]
    have hstep := @record_cases others record hevents.1
    rcases hstep with ⟨request, hdecode, hload, hproject⟩ | ⟨hload, hproject⟩ | ⟨hload, error, hproject⟩
    · have hvalid := decodeRequest_valid hdecode
      obtain ⟨active₁, hfirst, hmirrors₁⟩ :=
        @Mirrors.apply active switches request ⟨record.offset, record.sequence⟩ hmirrors hvalid hsequences.1
      rw [hload, hproject, hfirst]
      rcases ih hevents.2 hsequences.2 hmirrors₁ with
        ⟨active', entries, hrest, hentries, hcomplete, hmirrors'⟩ | ⟨⟨error, hrest⟩, error', hentries⟩
      · left
        refine ⟨active', some ⟨⟨record.offset, record.sequence⟩, .factMutated request⟩ :: entries, hrest, ?_, ?_, ?_⟩
        · rw [hentries]
          rfl
        · rw [List.reduceOption_cons_of_some]
          refine List.forall_mem_cons.mpr ⟨⟨request, rfl, hvalid.scopeId, ?_, hsequences.1⟩, hcomplete⟩
          obtain ⟨b, bs, hbytes, -⟩ := hvalid.predicateId
          intro hempty
          rw [hempty] at hbytes
          exact List.cons_ne_nil b bs hbytes.symm
        · rw [List.reduceOption_cons_of_some]
          have hlog : ∀ id, turnsOf (mutationsOf (⟨⟨record.offset, record.sequence⟩, .factMutated request⟩ ::
              entries.reduceOption)) id = turnsOf [(request, ⟨record.offset, record.sequence⟩)] id ++
              turnsOf (mutationsOf entries.reduceOption) id :=
            fun id => turnsOf_append [(request, ⟨record.offset, record.sequence⟩)] _ id
          simp only [hlog, replay_append]
          exact hmirrors'
      · right
        refine ⟨⟨error, hrest⟩, error', ?_⟩
        rw [hentries]
        rfl
    · rw [hload, hproject]
      rcases ih hevents.2 hsequences.2 hmirrors with
        ⟨active', entries, hrest, hentries, hcomplete, hmirrors'⟩ | ⟨⟨error, hrest⟩, error', hentries⟩
      · left
        refine ⟨active', none :: entries, hrest, ?_, ?_, ?_⟩
        · rw [hentries]
          rfl
        · rwa [List.reduceOption_cons_of_none]
        · rwa [List.reduceOption_cons_of_none]
      · right
        refine ⟨⟨error, hrest⟩, error', ?_⟩
        rw [hentries]
        rfl
    · right
      obtain ⟨error', hfail⟩ := hload active
      rw [hfail, hproject]
      exact ⟨⟨error', rfl⟩, error, rfl⟩

/-- The reader numbers records from one and its file ends long before the numbers do. -/
lemma readAll_sequences {segment : Segment} (fuel position sequence : ℕ) (hpos : 1 ≤ sequence)
    (hle : sequence ≤ position + 1) :
    ∀ record ∈ (readAll sha fuel (.at segment position sequence)).1, record.sequence ≠ 0 := by
  induction fuel generalizing position sequence with
  | zero => simp [readAll]
  | succ fuel ih =>
    cases hread : readNext sha (.at segment position sequence) with
    | error error => simp [readAll, hread]
    | ok result =>
      cases result with
      | none => simp [readAll, hread]
      | some found =>
        obtain ⟨record, next⟩ := found
        obtain ⟨e, tail, hrest, hrecord, hnext⟩ := readNext_sound sha hread
        have hlength := congrArg List.length hrest
        rw [List.length_drop, List.length_append, Entry.record_length] at hlength
        have hsize := e.headerSize_lt_size
        have hfile := segment.size_le
        rw [maxOffset] at hfile
        have hmod : (sequence + 1) % 2 ^ 64 = sequence + 1 := Nat.mod_eq_of_lt (by omega)
        simp only [readAll, hread, List.forall_mem_cons]
        refine ⟨?_, ?_⟩
        · rw [hrecord]
          exact Nat.one_le_iff_ne_zero.mp hpos
        · rw [hnext, hmod]
          exact ih (position + e.size) (sequence + 1) (by omega) (by omega)

lemma readSegment_sequences (segment : Option Segment) :
    ∀ record ∈ (readSegment sha segment).1, record.sequence ≠ 0 := by
  cases segment with
  | none => simp [readSegment, readAll, readNext, Reader.new, Reader.newWithLimit]
  | some segment =>
    rw [readSegment, Reader.new_eq_at]
    exact readAll_sequences _ 0 1 (le_refl 1) (le_refl 1)

end

/-! ## The replay of the projected mutations -/

section
variable {seed : Provisioned} {cat cat' : Catalog} {mutation : FactMutation} {position : Position}

lemma applyRun_mutation (h : applyMutation cat (mutation, position) = .ok cat') (checkpoint : Option Position)
    (advance : Bool) : ∃ checkpoint', applyRun seed ⟨⟨position, .factMutated mutation⟩, []⟩ advance
      { cat with checkpoint := checkpoint } = .ok { cat' with checkpoint := checkpoint' } := by
  cases hresult : applyFactMutation (cat.session mutation.scopeId) mutation position with
  | error error =>
    rw [applyMutation, hresult] at h
    simp [Except.map] at h
  | ok s =>
    rw [applyMutation, hresult] at h
    have hcat : cat' = cat.withSession mutation.scopeId s := (Except.ok.inj h).symm
    subst hcat
    have hrecords : applyRecords seed ⟨⟨position, .factMutated mutation⟩, []⟩
        ({ cat with checkpoint := checkpoint }.session mutation.scopeId) = .ok s := hresult
    rw [applyRun, show Run.account ⟨⟨position, .factMutated mutation⟩, []⟩ = mutation.scopeId from rfl, hrecords]
    cases advance with
    | true => exact ⟨saveCheckpoint checkpoint position, rfl⟩
    | false => exact ⟨checkpoint, rfl⟩

lemma runs_cons_mutation (entries : List ProjectionRecord) :
    runs (⟨position, .factMutated mutation⟩ :: entries) = ⟨⟨position, .factMutated mutation⟩, []⟩ :: runs entries := by
  rw [runs]
  cases runs entries with
  | nil => rfl
  | cons run more => simp [isDelivery]

/-- A pass over fact mutations commits each of them. -/
lemma passLoop_mutations {entries : List ProjectionRecord}
    (hmutations : ∀ entry ∈ entries, ∃ mutation, entry.event = .factMutated mutation)
    (h : applyMutations cat (mutationsOf entries) = .ok cat') {advance : Bool} {p : Progress}
    (hholds : p.holds = []) {checkpoint : Option Position} (hcat : p.catalog = { cat with checkpoint := checkpoint }) :
    ∃ p' checkpoint', passLoop seed ⟨true, true, fun _ => .none⟩ advance p (runs entries) = (p', true) ∧
      p'.holds = [] ∧ p'.catalog = { cat' with checkpoint := checkpoint' } := by
  induction entries generalizing cat p checkpoint with
  | nil =>
    obtain rfl : cat = cat' := Except.ok.inj h
    exact ⟨p, checkpoint, rfl, hholds, hcat⟩
  | cons entry entries ih =>
    rw [List.forall_mem_cons] at hmutations
    obtain ⟨⟨mutation, hevent⟩, hrest⟩ := hmutations
    obtain ⟨position, event⟩ := entry
    obtain rfl : event = .factMutated mutation := hevent
    change applyMutations cat ((mutation, position) :: mutationsOf entries) = .ok cat' at h
    rw [applyMutations, List.foldlM_cons] at h
    obtain ⟨cat₁, hfirst, h⟩ := bind_eq_ok.mp h
    obtain ⟨checkpoint₁, happly⟩ := @applyRun_mutation seed cat cat₁ mutation position hfirst checkpoint advance
    have hstep : stepRun seed ⟨true, true, fun _ => .none⟩ advance p ⟨⟨position, .factMutated mutation⟩, []⟩ =
        some (p.commit ⟨⟨position, .factMutated mutation⟩, []⟩ { cat₁ with checkpoint := checkpoint₁ }) := by
      simp only [stepRun, isHeld, hholds, List.any_nil, Bool.false_eq_true, if_false, checksObjects, isDelivery,
        isMessageAppended, Bool.or_self, false_and, reduceCtorEq, List.isEmpty_nil, Bool.and_true, hcat, happly]
    rw [runs_cons_mutation, passLoop, hstep]
    exact ih hrest h hholds rfl

end

/-! ## Agreement -/

/-- The row is the active fact of the record. -/
structure IsActiveRow (fact : FactRecord) (scopeId : CString) (row : Fact) : Prop where
  source : fact.source = mutationSource scopeId
  accountId : row.accountId = scopeId
  messageId : row.messageId = fact.args.head?.getD .empty
  confidencePpm : row.confidencePpm = fact.confidencePpm
  createdAtUnixUs : row.createdAtUnixUs = fact.createdAtUnixUs
  active : row.retractedAtUnixUs = 0

/-- The readers fail together. When they do not, the replay commits every record, and the snapshot
    lists each active row once and nothing else. -/
def ReadersAgree (seed : Provisioned) (snapshot : Except SnapshotError (List FactRecord))
    (projection : Except ProjectionError (List ProjectionRecord)) : Prop :=
  match snapshot, projection with
  | .ok facts, .ok entries => ∃ p, freshReplay seed entries = (p, true) ∧ p.holds = [] ∧
    (facts.map fun fact => (fact.predicate, fact.source, fact.args)).Nodup ∧
    ∀ fact, fact ∈ facts ↔ ∃ scopeId row,
      p.catalog.facts ⟨fact.predicate, fact.source, fact.args⟩ = some row ∧ IsActiveRow fact scopeId row
  | .error _, .error _ => True
  | _, _ => False

section
variable {seed : Provisioned} {cat : Catalog} {active : Active} {switches : FactId → Switch Position}

lemma mem_sortedRecords (hmirrors : Mirrors active switches) (fact : FactRecord) :
    fact ∈ sortedRecords active ↔ ∃ mutation since,
      switches (factId mutation) = some (since, none) ∧ fact = recordOf (factId mutation) since := by
  rw [sortedRecords, List.mem_mergeSort, List.mem_map]
  constructor
  · rintro ⟨⟨key, record⟩, hmem, rfl⟩
    obtain ⟨mutation, since, hswitch, -, hrecord⟩ := (hmirrors.mem_iff key record).mp hmem
    exact ⟨mutation, since, hswitch, hrecord⟩
  · rintro ⟨mutation, since, hswitch, rfl⟩
    exact ⟨(keyOf (factId mutation), recordOf (factId mutation) since),
      (hmirrors.mem_iff _ _).mpr ⟨mutation, since, hswitch, rfl, rfl⟩, rfl⟩

lemma sortedRecords_nodup (hmirrors : Mirrors active switches) :
    ((sortedRecords active).map fun fact => (fact.predicate, fact.source, fact.args)).Nodup := by
  have hperm := (List.mergeSort_perm (active.map Prod.snd) fun left right =>
    compareFactRecords left right != .gt).map fun fact => (fact.predicate, fact.source, fact.args)
  refine hperm.nodup_iff.mpr ?_
  have hkeys : active.map Prod.fst = ((active.map Prod.snd).map fun fact =>
      (fact.predicate, fact.source, fact.args)).map fun id => identityKey id.1 id.2.1 id.2.2 := by
    rw [List.map_map, List.map_map]
    apply List.map_congr_left
    rintro ⟨key, record⟩ hmem
    obtain ⟨mutation, since, -, rfl, rfl⟩ := (hmirrors.mem_iff key record).mp hmem
    rfl
  have hnodup := hmirrors.nodup
  rw [hkeys] at hnodup
  exact hnodup.of_map _

/-- The rows of switches that are on are the active rows of the catalog. -/
lemma active_rows (htracks : Tracks (.initial seed) cat switches) (fact : FactRecord) :
    (∃ mutation since, switches (factId mutation) = some (since, none) ∧
      fact = recordOf (factId mutation) since) ↔
    ∃ scopeId row, cat.facts ⟨fact.predicate, fact.source, fact.args⟩ = some row ∧
      IsActiveRow fact scopeId row := by
  constructor
  · rintro ⟨mutation, since, hswitch, rfl⟩
    have hrow := htracks.rows mutation
    rw [hswitch, Option.map_some] at hrow
    exact ⟨mutation.scopeId, _, hrow, rfl, rfl, rfl, rfl, rfl, rfl⟩
  · rintro ⟨scopeId, row, hrow, hactive⟩
    obtain ⟨predicate, args, source, confidencePpm, createdAtUnixUs⟩ := fact
    obtain rfl : source = mutationSource scopeId := hactive.source
    have hswitch := htracks.rows ⟨.insert, predicate, scopeId, args⟩
    change cat.facts ⟨predicate, mutationSource scopeId, args⟩ = _ at hswitch
    rw [hrow] at hswitch
    obtain ⟨⟨since, off⟩, hsome, hrow'⟩ := Option.map_eq_some_iff.mp hswitch.symm
    have hon : off = none := by
      cases off with
      | none => rfl
      | some off =>
        have hretracted := hactive.active
        rw [← hrow'] at hretracted
        exact absurd hretracted (htracks.stamped _ _ _ hsome)
    subst hon
    refine ⟨⟨.insert, predicate, scopeId, args⟩, since, hsome, ?_⟩
    have hconfidence := hactive.confidencePpm
    have hcreated := hactive.createdAtUnixUs
    rw [← hrow'] at hconfidence hcreated
    exact congrArg₂ (FactRecord.mk predicate args (mutationSource scopeId)) hconfidence.symm hcreated.symm

end

/-- Over one file of fact mutations the snapshot and the materializer see the same active facts. -/
theorem snapshot_agrees (sha : Sha256) (seed : Provisioned)
    (others : Record → Except ProjectionError ProjectionRecord) (segment : Option Segment)
    (hevents : ∀ record ∈ (readSegment sha segment).1, isFactJournalEvent record.eventType = true) :
    ReadersAgree seed (loadActive sha segment) (projectionReplay others sha segment) := by
  have hsequences := @readSegment_sequences sha segment
  rw [loadActive, projectionReplay]
  generalize readSegment sha segment = found at hevents hsequences ⊢
  obtain ⟨records, error⟩ := found
  simp only at hevents hsequences ⊢
  rcases @records_agree others records hevents hsequences _ _ Mirrors.empty with
    ⟨active, entries, hload, hproject, hcomplete, hmirrors⟩ | ⟨⟨_, hload⟩, _, hproject⟩
  · rw [hload, hproject]
    cases error with
    | some error => trivial
    | none =>
      change ∃ p, freshReplay seed entries.reduceOption = (p, true) ∧ _
      have hlog : ∀ record ∈ mutationsOf entries.reduceOption, Complete record.1 record.2 := by
        rintro record hrecord
        obtain ⟨entry, hentry, hmutation⟩ := List.mem_filterMap.mp hrecord
        obtain ⟨mutation, hevent, hcomplete⟩ := hcomplete entry hentry
        rw [hevent] at hmutation
        rw [← Option.some.inj hmutation]
        exact hcomplete
      obtain ⟨cat, hrun, htracks⟩ := (@tracks_start (.initial seed) rfl).run hlog
      obtain ⟨p, checkpoint, hpass, hholds, hcat⟩ := @passLoop_mutations seed _ cat entries.reduceOption
        (fun entry hentry => (hcomplete entry hentry).imp fun _ h => h.1) hrun true
        ⟨.initial seed, [], [], []⟩ rfl none rfl
      refine ⟨p, hpass, hholds, sortedRecords_nodup hmirrors, fun fact => ?_⟩
      rw [mem_sortedRecords hmirrors, active_rows htracks, hcat]
  · rw [hload, hproject]
    trivial

def urgentEntry (kind : FactMutationKind) : Entry :=
  ⟨mutationEvent kind, ⟨FactMutationPayload.layout (urgentFact kind), by cases kind <;> decide⟩⟩

/-- A file in which a fact is inserted, retracted and inserted again. -/
theorem snapshot_agrees_reinsert : ∃ segment : Segment,
    segment.bytes = image JournalCrash.sha256 1
      [urgentEntry .insert, urgentEntry .retract, urgentEntry .insert] ∧
    ReadersAgree noSeed (loadActive JournalCrash.sha256 (some segment))
      (projectionReplay (fun _ => .error .other) JournalCrash.sha256 (some segment)) := by
  have hsize : (image JournalCrash.sha256 1 [urgentEntry .insert, urgentEntry .retract,
      urgentEntry .insert]).length ≤ maxOffset := by
    rw [image_length]
    decide
  obtain ⟨segment, hbytes⟩ : ∃ segment : Segment, segment.bytes = image JournalCrash.sha256 1
      [urgentEntry .insert, urgentEntry .retract, urgentEntry .insert] := ⟨⟨_, hsize⟩, rfl⟩
  refine ⟨segment, hbytes, snapshot_agrees JournalCrash.sha256 noSeed _ (some segment) ?_⟩
  rw [readSegment_image JournalCrash.sha256 hbytes]
  decide

end Wyrebox.FactSnapshot
