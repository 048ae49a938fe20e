import Wyrebox.IngestionRuns

set_option autoImplicit false

/-!
# Objects before journal records

A record of a new message is appended only after its message is stored, on every path and whatever fails.
-/
namespace Wyrebox.Ingestion
open JournalRecord JournalReader JournalWriter JournalLife PayloadText Eml
open MessageDeliveredPayload (Identity)

/-- The object with this key is on the disk whatever happens, and it holds `sizeBytes` bytes if SHA-256 has
    no collision among the stored messages. -/
def DurablyStored (sha : Sha256) (store : ObjectStore.World) (objectKey : CString) (sizeBytes : ℕ) : Prop :=
  ∃ contents, CrashFs.Durable store.fs (ObjectStore.objectPath (ObjectStore.checksumBytes sha contents)) contents ∧
    objectKey = objectKeyOf sha contents ∧ (ObjectStore.CollisionFree sha store → contents.length = sizeBytes)

theorem Stored.durablyStored {sha : Sha256} {store : ObjectStore.World} {objectKey : CString} {sizeBytes : ℕ}
    (h : Stored sha store objectKey sizeBytes) (hinv : ObjectStore.Inv sha store) :
    DurablyStored sha store objectKey sizeBytes := by
  obtain ⟨put, bytes, hdone, rfl, rfl⟩ := h
  obtain ⟨contents, hdurable⟩ := hinv.holds put _ hdone
  change CrashFs.Durable store.fs (ObjectStore.objectPath (ObjectStore.checksumBytes sha bytes)) contents at hdurable
  obtain ⟨-, hpath⟩ := @ObjectStore.Inv.read sha store hinv (ObjectStore.objectPath (ObjectStore.checksumBytes sha bytes))
    trivial contents hdurable.read
  refine ⟨contents, hpath ▸ hdurable, objectKeyOf_eq_iff.mpr (ObjectStore.digest_eq_of_path hpath), fun hfree => ?_⟩
  have hstored := (ObjectStore.stored_done hinv hfree hdone).read
  rw [hdurable.read, Option.some.injEq] at hstored
  rw [hstored]

/-- In any interleaving of deliveries and APPEND requests with failures, crashes and restarts at any step,
    every record of a new message decodes, and names an object that is durably stored. -/
theorem object_before_journal (sha : Sha256) {σ : System} (hrun : Run sha .initial σ) :
    ∀ record ∈ records sha σ.journal, NamesMessage record.eventType →
      ∃ objectKey sizeBytes, references record.eventType record.payload = some (objectKey, sizeBytes) ∧
        DurablyStored sha σ.store objectKey sizeBytes := by
  obtain ⟨es, k, hinv⟩ := (inv_initial sha).run hrun
  intro record hrecord hnames
  rw [hinv.holds.records] at hrecord
  obtain ⟨e, he, htype, hpayload⟩ := mem_recordsOf hrecord
  rw [← htype] at hnames ⊢
  rw [← hpayload]
  obtain ⟨objectKey, sizeBytes, hreferences, hstored⟩ := hinv.valid e he hnames
  exact ⟨objectKey, sizeBytes, hreferences, hstored.durablyStored hinv.store⟩

/-! ## A delivery -/

/-- The calls of one put, the rest of the system standing by. -/
theorem run_drive {sha : Sha256} {start σ : System} {put : ℕ} {p : ObjectStore.Put} (hrun : Run sha start σ)
    (hp : σ.store.puts put = some p) (replies : List ObjectStore.Reply) :
    Run sha start { σ with store := (σ.store.drive sha put p replies).1 } := by
  induction replies generalizing σ p with
  | nil => exact hrun
  | cons reply replies ih =>
    exact ih (hrun.tail (.store σ _ (.act σ.store put p reply hp))) (ObjectStore.World.setPut_self ..)

/-- A message without headers, and its only delivery. -/
def sampleRequest : DeliveryRequest :=
  ⟨⟨[13, 10, 13, 10], by decide⟩, ⟨some (.literal "id"), none, some (.literal "me"), none, []⟩⟩

theorem sample_parse : parseBytes sampleRequest.bytes = .ok (initial 4) := rfl

theorem sample_entry (sha : Sha256) : ∃ e, e.size = 233 ∧
    entryOf (.deliver sampleRequest) (initial 4) (objectKeyOf sha sampleRequest.bytes.data) 0 0 = .ok e := by
  have hkey := isSha256ObjectKey_objectKeyOf sha sampleRequest.bytes.data
  have hlen : (objectKeyOf sha sampleRequest.bytes.data).bytes.length = 71 := by
    simp only [isSha256ObjectKey, Bool.and_eq_true, beq_iff_eq] at hkey
    exact hkey.1.1
  generalize objectKeyOf sha sampleRequest.bytes.data = key at hkey hlen
  have hlayout : (MessageDeliveredPayload.layout key 4 (initial 4).toMetadata 0 sampleRequest.identity).length =
      153 := by
    rw [MessageDeliveredPayload.layout, List.length_append, MessageDeliveredPayload.fixedFields]
    simp only [List.length_append, LittleEndian.encode_length, hlen]
    rfl
  have hfits : (MessageDeliveredPayload.layout key 4 (initial 4).toMetadata 0 sampleRequest.identity).length ≤
      2 ^ 63 - 1 := by
    rw [hlayout]
    decide
  have hencode : MessageDeliveredPayload.encodeWithIdentity key 4 (some (initial 4).toMetadata) 0
      sampleRequest.identity = .ok ⟨_, hfits⟩ := by
    rw [MessageDeliveredPayload.encodeWithIdentity, Option.getD_some, hkey, hlen, if_neg (by decide), if_neg (by decide)]
    exact dif_pos hfits
  refine ⟨⟨.messageDelivered, ⟨_, hfits⟩⟩, ?_, ?_⟩
  · rw [Entry.size, hlayout]
    rfl
  · have hdelivered : MessageDeliveredPayload.encodeWithIdentity key sampleRequest.bytes.data.length
        (some (initial 4).toMetadata) (0 : UInt64).toNat sampleRequest.identity = .ok ⟨_, hfits⟩ := hencode
    rw [entryOf]
    simp only [hdelivered]

def startedJournal : JournalState := ⟨.empty, 0, some ⟨1, 0, false⟩⟩

/-- The delivery has the append lock and begins to store its message. -/
theorem sample_locked (sha : Sha256) : ∃ σ, Run sha .initial σ ∧ σ.journal = startedJournal ∧
    σ.holder = some 0 ∧ σ.store = ObjectStore.World.empty.setPut .empty 0 ⟨sampleRequest.bytes.data, .checkRoot⟩ ∧
    σ.calls 0 = some ⟨.deliver sampleRequest, .storing (initial 4) 0 0⟩ ∧ ∀ k, k ≠ 0 → σ.calls k = none := by
  let started : System := { System.initial with journal := startedJournal }
  let begun := started.setStage 0 (.deliver sampleRequest) .begun
  let parsed := begun.setStage 0 (.deliver sampleRequest) (.parsed (initial 4))
  let locked : System := { (parsed.beginPut 0 sampleRequest.bytes).setStage 0 (.deliver sampleRequest)
    (.storing (initial 4) 0 0) with holder := some 0 }
  have hstart : Step sha .initial started := .maintain .initial _ rfl (.start .initial ⟨.empty, ⟨1, 0, false⟩⟩ rfl rfl)
  have hbegin : Step sha started begun := .begin started 0 (.deliver sampleRequest) rfl rfl
  have hparse : Step sha begun parsed := .parse begun 0 (.deliver sampleRequest) (System.setStage_calls_self ..)
  have hlock : Step sha parsed locked :=
    .lockDelivery parsed 0 sampleRequest (initial 4) 0 (System.setStage_calls_self ..) rfl rfl
  refine ⟨locked, (((Relation.ReflTransGen.single hstart).tail hbegin).tail hparse).tail hlock, rfl, rfl, rfl, ?_, ?_⟩
  · simp [locked, System.setStage]
  · intro k hk
    simp [locked, parsed, begun, started, System.setStage, System.beginPut, System.initial, hk]

theorem startedJournal_holds (sha : Sha256) : Holds sha startedJournal [] 0 := by
  have hstart : Maintain sha .initial startedJournal := .start .initial ⟨.empty, ⟨1, 0, false⟩⟩ rfl rfl
  obtain ⟨n, -, -, hholds⟩ := (holds_initial sha).maintain hstart
  rwa [List.take_nil] at hholds

/-- The first append of a journal. -/
theorem startedJournal_append {sha : Sha256} {e : Entry} (hsize : e.size = 233) :
    ∃ journal, startedJournal.append sha ⟨1, 0, false⟩ e .synced = (journal, .ok ⟨0, 1⟩) ∧
      records sha journal = [recordOf e 0 1] ∧ journal.writer.isSome = true := by
  have hfit : Segment.empty.bytes.length + e.size ≤ maxOffset := by
    rw [hsize]
    decide
  have hok : (startedJournal.append sha ⟨1, 0, false⟩ e .synced).2 = .ok ⟨0, 1⟩ := by
    exact @append_synced sha ⟨.empty, ⟨1, 0, false⟩⟩ e rfl hfit
  rcases (startedJournal_holds sha).append rfl e .synced with ⟨journal, happ, hholds⟩ | ⟨journal, error, happ, -⟩
  · refine ⟨journal, happ, hholds.records, ?_⟩
    have hjournal : (startedJournal.append sha ⟨1, 0, false⟩ e .synced).1 = journal := congrArg Prod.fst happ
    rw [← hjournal]
    rfl
  · rw [happ] at hok
    cases hok

/-- The journal after the delivery holds its record alone, and the call has returned where it lies. -/
theorem sample_delivered (sha : Sha256) : ∃ σ e, Run sha .initial σ ∧ records sha σ.journal = [recordOf e 0 1] ∧
    e.eventType = .messageDelivered ∧ σ.holder = none ∧ σ.journal.writer.isSome = true ∧
    σ.calls 0 = some ⟨.deliver sampleRequest, .appended ⟨objectKeyOf sha sampleRequest.bytes.data, 4, 0, 1⟩⟩ ∧
    ∀ k, k ≠ 0 → σ.calls k = none := by
  obtain ⟨σ, hrun, hjournal, hholder, hstore, hcall, hothers⟩ := sample_locked sha
  obtain ⟨e, hsize, hentry⟩ := sample_entry sha
  obtain ⟨journal, happ, hrecords, hwriter⟩ := @startedJournal_append sha e hsize
  have hput : σ.store.puts 0 = some ⟨sampleRequest.bytes.data, .checkRoot⟩ := by
    rw [hstore]
    exact ObjectStore.World.setPut_self ..
  let replies : List ObjectStore.Reply := [.success, .success, .success, .success, .name [], .count 4, .success,
    .success, .success, .success, .success, .success]
  let driven := (σ.store.drive sha 0 ⟨sampleRequest.bytes.data, .checkRoot⟩ replies).1
  have hdriven : Run sha .initial { σ with store := driven } := run_drive hrun hput replies
  have hdone : driven.puts 0 = some ⟨sampleRequest.bytes.data, .done⟩ := by
    simp only [driven, replies, hstore]
    simp [ObjectStore.World.drive, ObjectStore.Put.act, CrashFs.Fs.empty, CrashFs.Fs.mkdir, CrashFs.Fs.syncRoot,
      CrashFs.Fs.create, CrashFs.Fs.setEntry, ObjectStore.World.setPut, CrashFs.Fs.append, CrashFs.Fs.syncFile,
      CrashFs.Fs.syncDir, ObjectStore.Put.tempPath, ObjectStore.Put.parentDir, ObjectStore.Put.path,
      ObjectStore.Put.hex, ObjectStore.objectPath, sampleRequest]
  have hfinish : Step sha { σ with store := driven } _ :=
    .finish { σ with store := driven } 0 (.deliver sampleRequest) (initial 4) 0 0 0 sampleRequest.bytes.data
      ⟨1, 0, false⟩ .synced hcall hdone (congrArg JournalState.writer hjournal) hholder
  have hresult : System.finish sha { σ with store := driven } 0 (.deliver sampleRequest) (initial 4) 0 0
      ⟨1, 0, false⟩ .synced = { ({ σ with store := driven } : System).setStage 0 (.deliver sampleRequest)
        (.appended ⟨objectKeyOf sha sampleRequest.bytes.data, 4, 0, 1⟩) with journal, holder := none } := by
    simp only [System.finish, Request.bytes, hentry, hjournal, happ]
    rfl
  rw [hresult] at hfinish
  refine ⟨_, e, hdriven.tail hfinish, hrecords, ?_, rfl, hwriter, ?_, ?_⟩
  · exact (entryOf_deliver hentry (parseBytes_within sample_parse)).1
  · exact System.setStage_calls_self { σ with store := driven } 0 _ _
  · intro k hk
    exact (System.setStage_calls_of_ne _ hk ..).trans (hothers k hk)

theorem object_before_journal_delivery : ∃ σ, Run JournalCrash.sha256 .initial σ ∧
    (∃ record ∈ records JournalCrash.sha256 σ.journal, NamesMessage record.eventType) ∧
    ∀ record ∈ records JournalCrash.sha256 σ.journal, NamesMessage record.eventType →
      ∃ objectKey sizeBytes, references record.eventType record.payload = some (objectKey, sizeBytes) ∧
        DurablyStored JournalCrash.sha256 σ.store objectKey sizeBytes := by
  obtain ⟨σ, e, hrun, hrecords, htype, -⟩ := sample_delivered JournalCrash.sha256
  refine ⟨σ, hrun, ⟨recordOf e 0 1, ?_, .inl htype⟩, object_before_journal JournalCrash.sha256 hrun⟩
  rw [hrecords]
  exact List.mem_singleton.mpr rfl

end Wyrebox.Ingestion
