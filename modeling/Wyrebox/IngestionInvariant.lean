import Wyrebox.Ingestion

set_option autoImplicit false

/-!
# What every step of ingestion keeps

Every record names an object that some put has finished. A delivery that holds the append lock has seen
that no record has its identity, and nothing is appended before it is done.
-/
namespace Wyrebox.Ingestion
open JournalRecord JournalReader JournalWriter JournalLife PayloadText Event Eml Fallible
open MessageDeliveredPayload (Identity Fits stored)

/-! ## Records and the store -/

/-- Some put of `sizeBytes` bytes with this key has returned success. -/
def Stored (sha : Sha256) (store : ObjectStore.World) (objectKey : CString) (sizeBytes : ℕ) : Prop :=
  ∃ put bytes, store.puts put = some ⟨bytes, .done⟩ ∧ objectKey = objectKeyOf sha bytes ∧ sizeBytes = bytes.length

/-- The object key and the size that a record of a new message names. -/
def references (eventType : EventType) (payload : List UInt8) : Option (CString × ℕ) :=
  match eventType with
  | .messageDelivered => (MessageDeliveredPayload.decodePayload payload).toOption.map fun p => (p.objectKey, p.sizeBytes)
  | .messageAppended => (MessageAppendedPayload.decodePayload payload).toOption.map fun p => (p.objectKey, p.sizeBytes)
  | _ => none

def NamesMessage (eventType : EventType) : Prop := eventType = .messageDelivered ∨ eventType = .messageAppended

def EntryValid (sha : Sha256) (store : ObjectStore.World) (e : Entry) : Prop :=
  NamesMessage e.eventType →
    ∃ objectKey sizeBytes, references e.eventType e.payload.data = some (objectKey, sizeBytes) ∧
      Stored sha store objectKey sizeBytes

/-- The identity under which a record answers a delivery. -/
def identityOf (eventType : EventType) (payload : List UInt8) : Option (CString × CString) :=
  match eventType with
  | .messageDelivered =>
    (MessageDeliveredPayload.decodePayload payload).toOption.bind fun p =>
      p.deliveryId.map fun deliveryId => (deliveryId, normalizeQueueId p.queueId)
  | _ => none

def recordIdentity (record : Record) : Option (CString × CString) := identityOf record.eventType record.payload

def entryIdentity (e : Entry) : Option (CString × CString) := identityOf e.eventType e.payload.data

def requestIdentity (identity : Identity) : Option (CString × CString) :=
  identity.deliveryId.map fun deliveryId => (deliveryId, normalizeQueueId identity.queueId)

/-- The payload has the content and the envelope of the request. -/
structure Carries (sha : Sha256) (payload : MessageDelivered) (request : DeliveryRequest) : Prop where
  objectKey : payload.objectKey = objectKeyOf sha request.bytes.data
  sizeBytes : payload.sizeBytes = request.bytes.data.length
  identity : request.identity.deliveryId.isSome = true →
    request.identity = ⟨payload.deliveryId, payload.queueId, payload.accountIdentity, payload.envelopeSender,
      payload.recipients⟩

/-- A record with an identity was appended for a delivery with this identity. -/
def HasOriginal (sha : Sha256) (e : Entry) : Prop :=
  ∀ identity, entryIdentity e = some identity → ∃ payload request,
    MessageDeliveredPayload.decodePayload e.payload.data = .ok payload ∧ Carries sha payload request ∧
      requestIdentity request.identity = some identity

/-! ## The invariant -/

/-- `es` are the whole records of the journal, and no crash takes away the first `k`. -/
structure Inv (sha : Sha256) (σ : System) (es : List Entry) (k : ℕ) : Prop where
  store : ObjectStore.Inv sha σ.store
  holds : Holds sha σ.journal es k
  valid : ∀ e ∈ es, EntryValid sha σ.store e
  unique : (es.filterMap entryIdentity).Nodup
  original : ∀ e ∈ es, HasOriginal sha e
  parsed : ∀ i request metadata, σ.calls i = some ⟨request, .parsed metadata⟩ →
    Within request.bytes.data.length metadata
  storing : ∀ i request metadata put reservedUid, σ.calls i = some ⟨request, .storing metadata put reservedUid⟩ →
    Within request.bytes.data.length metadata ∧ ∃ stage, σ.store.puts put = some ⟨request.bytes.data, stage⟩
  holder : ∀ i request metadata put reservedUid, σ.calls i = some ⟨request, .storing metadata put reservedUid⟩ →
    request.locks = true → σ.holder = some i
  locked : ∀ i request metadata put reservedUid,
    σ.calls i = some ⟨.deliver request, .storing metadata put reservedUid⟩ →
      ∀ e ∈ es, ∀ identity, entryIdentity e = some identity → requestIdentity request.identity ≠ some identity
  appended : ∀ i request result, σ.calls i = some ⟨.deliver request, .appended result⟩ →
    ∃ n e payload, n < k ∧ es[n]? = some e ∧ e.eventType = .messageDelivered ∧
      MessageDeliveredPayload.decodePayload e.payload.data = .ok payload ∧ Carries sha payload request ∧
      result = ⟨payload.objectKey, payload.sizeBytes, totalSize (es.take n), n + 1⟩

section
variable {sha : Sha256} {σ σ' : System} {es : List Entry} {k : ℕ}

theorem inv_initial (sha : Sha256) : Inv sha .initial [] 0 where
  store := ObjectStore.Inv.empty sha
  holds := holds_initial sha
  valid := by simp
  unique := List.nodup_nil
  original := by simp
  parsed := by simp [System.initial]
  storing := by simp [System.initial]
  holder := by simp [System.initial]
  locked := by simp [System.initial]
  appended := by simp [System.initial]

/-- A put keeps its bytes. -/
theorem put_run {store store' : ObjectStore.World} {put : ℕ} {bytes : List UInt8} {stage : ObjectStore.Stage}
    (h : store.puts put = some ⟨bytes, stage⟩) (hrun : ObjectStore.Run sha store store') :
    ∃ stage', store'.puts put = some ⟨bytes, stage'⟩ := by
  induction hrun with
  | refl => exact ⟨stage, h⟩
  | tail _ hnext ih =>
    obtain ⟨stage', hput⟩ := ih
    rcases hnext with hstep | hcrash
    · cases hstep with
      | begin put' bytes' hnone =>
        have hne : put ≠ put' := by
          rintro rfl
          rw [hnone] at hput
          cases hput
        exact ⟨stage', by rw [ObjectStore.World.setPut_of_ne _ _ hne, hput]⟩
      | act put' p reply hp =>
        by_cases hne : put = put'
        · subst hne
          rw [hp, Option.some.injEq] at hput
          exact ⟨_, by rw [ObjectStore.World.setPut_self, hput]⟩
        · exact ⟨stage', by rw [ObjectStore.World.setPut_of_ne _ _ hne, hput]⟩
      | kill put' p hp =>
        by_cases hne : put = put'
        · subst hne
          rw [hp, Option.some.injEq] at hput
          exact ⟨_, by rw [ObjectStore.World.setPut_self, hput, ObjectStore.Put.crash]⟩
        · exact ⟨stage', by rw [ObjectStore.World.setPut_of_ne _ _ hne, hput]⟩
    · obtain ⟨fs, hfs⟩ := hcrash
      exact ⟨stage'.afterCrash, congrArg (Option.map ObjectStore.Put.crash) hput⟩

theorem Stored.run {store store' : ObjectStore.World} {objectKey : CString} {sizeBytes : ℕ}
    (h : Stored sha store objectKey sizeBytes) (hrun : ObjectStore.Run sha store store') :
    Stored sha store' objectKey sizeBytes := by
  obtain ⟨put, bytes, hdone, hkey, hsize⟩ := h
  exact ⟨put, bytes, ObjectStore.done_run hdone hrun, hkey, hsize⟩

theorem EntryValid.run {store store' : ObjectStore.World} {e : Entry} (h : EntryValid sha store e)
    (hrun : ObjectStore.Run sha store store') : EntryValid sha store' e := by
  intro hnames
  obtain ⟨objectKey, sizeBytes, hreferences, hstored⟩ := h hnames
  exact ⟨objectKey, sizeBytes, hreferences, hstored.run hrun⟩

/-- Steps of the object store do not matter to the invariant. -/
theorem Inv.storeRun (h : Inv sha σ es k) {store : ObjectStore.World} (hrun : ObjectStore.Run sha σ.store store) :
    Inv sha { σ with store } es k :=
  { h with
    store := h.store.run hrun
    valid := fun e he => (h.valid e he).run hrun
    storing := fun i request metadata put reservedUid hcall => by
      obtain ⟨hwithin, stage, hput⟩ := h.storing i request metadata put reservedUid hcall
      exact ⟨hwithin, put_run hput hrun⟩ }

@[simp] theorem System.setStage_calls_self (σ : System) (i : ℕ) (request : Request) (stage : Stage) :
    (σ.setStage i request stage).calls i = some ⟨request, stage⟩ := Function.update_self ..

theorem System.setStage_calls_of_ne (σ : System) {i j : ℕ} (h : j ≠ i) (request : Request) (stage : Stage) :
    (σ.setStage i request stage).calls j = σ.calls j := Function.update_of_ne h ..

/-- A call takes a stage that has to be accounted for. -/
theorem Inv.setStage (h : Inv sha σ es k) (i : ℕ) {request : Request} {stage : Stage}
    (hparsed : ∀ metadata, stage = .parsed metadata → Within request.bytes.data.length metadata)
    (hstoring : ∀ metadata put reservedUid, stage = .storing metadata put reservedUid →
      (Within request.bytes.data.length metadata ∧ ∃ stage, σ.store.puts put = some ⟨request.bytes.data, stage⟩) ∧
      (request.locks = true → σ.holder = some i) ∧
      ∀ delivery, request = .deliver delivery → ∀ e ∈ es, ∀ identity, entryIdentity e = some identity →
        requestIdentity delivery.identity ≠ some identity)
    (happended : ∀ delivery result, request = .deliver delivery → stage = .appended result →
      ∃ n e payload, n < k ∧ es[n]? = some e ∧ e.eventType = .messageDelivered ∧
        MessageDeliveredPayload.decodePayload e.payload.data = .ok payload ∧ Carries sha payload delivery ∧
        result = ⟨payload.objectKey, payload.sizeBytes, totalSize (es.take n), n + 1⟩) :
    Inv sha (σ.setStage i request stage) es k := by
  have hcases : ∀ {j request' stage'}, (σ.setStage i request stage).calls j = some ⟨request', stage'⟩ →
      (j = i ∧ request' = request ∧ stage' = stage) ∨ σ.calls j = some ⟨request', stage'⟩ := by
    intro j request' stage' hcall
    by_cases hj : j = i
    · subst hj
      rw [System.setStage_calls_self, Option.some.injEq, Call.mk.injEq] at hcall
      exact .inl ⟨rfl, hcall.1.symm, hcall.2.symm⟩
    · rw [System.setStage_calls_of_ne _ hj] at hcall
      exact .inr hcall
  refine ⟨h.store, h.holds, h.valid, h.unique, h.original, ?_, ?_, ?_, ?_, ?_⟩
  · intro j request' metadata hcall
    rcases hcases hcall with ⟨rfl, rfl, hstage⟩ | hold
    · exact hparsed metadata hstage.symm
    · exact h.parsed j request' metadata hold
  · intro j request' metadata put reservedUid hcall
    rcases hcases hcall with ⟨rfl, rfl, hstage⟩ | hold
    · exact (hstoring metadata put reservedUid hstage.symm).1
    · exact h.storing j request' metadata put reservedUid hold
  · intro j request' metadata put reservedUid hcall
    rcases hcases hcall with ⟨rfl, rfl, hstage⟩ | hold
    · exact (hstoring metadata put reservedUid hstage.symm).2.1
    · exact h.holder j request' metadata put reservedUid hold
  · intro j delivery metadata put reservedUid hcall
    rcases hcases hcall with ⟨rfl, hrequest, hstage⟩ | hold
    · exact (hstoring metadata put reservedUid hstage.symm).2.2 delivery hrequest.symm
    · exact h.locked j delivery metadata put reservedUid hold
  · intro j delivery result hcall
    rcases hcases hcall with ⟨rfl, hrequest, hstage⟩ | hold
    · exact happended delivery result hrequest.symm hstage.symm
    · exact h.appended j delivery result hold

/-- The stages that promise nothing. -/
def Stage.Idle : Stage → Prop
  | .parsed _ | .storing _ _ _ | .appended _ => False
  | _ => True

theorem Inv.setIdle (h : Inv sha σ es k) (i : ℕ) (request : Request) {stage : Stage} (hidle : stage.Idle) :
    Inv sha (σ.setStage i request stage) es k := by
  refine h.setStage i ?_ ?_ ?_
  · rintro metadata rfl
    exact hidle.elim
  · rintro metadata put reservedUid rfl
    exact hidle.elim
  · rintro delivery result - rfl
    exact hidle.elim

/-! ## The record of a call -/

theorem fits_of_within {bytes : GBytes} {metadata : EmlMetadata} (h : Within bytes.data.length metadata) :
    Fits metadata.toMetadata := by
  have hsize := bytes.size_le
  have hspan : ∀ span, SpanWithin bytes.data.length span → span.start < 2 ^ 64 ∧ span.stop < 2 ^ 64 := by
    intro span hspan
    cases hvalid : span.valid with
    | false =>
      obtain ⟨hstart, hstop⟩ := hspan.absent hvalid
      omega
    | true =>
      obtain ⟨hstart, hstop⟩ := hspan.valid hvalid
      omega
  exact ⟨h.duplicateMessageIdCount, hspan _ h.messageIdSpan, hspan _ h.subjectSpan⟩

theorem decode_delivered {bytes : GBytes} {metadata : EmlMetadata} (h : Within bytes.data.length metadata)
    {objectKey : CString} {now : UInt64} {identity : Identity} {payload : GBytes}
    (hencode : MessageDeliveredPayload.encodeWithIdentity objectKey bytes.data.length (some metadata.toMetadata)
      now.toNat identity = .ok payload) :
    MessageDeliveredPayload.decodePayload payload.data =
      .ok (stored objectKey bytes.data.length (some metadata.toMetadata) now.toNat identity) := by
  have hsize := bytes.size_le
  exact MessageDeliveredPayload.decode_encode hencode (by omega) now.toNat_lt (fits_of_within h)

theorem appendFields_fits {request : AppendRequest} {metadata : EmlMetadata}
    (h : Within request.bytes.data.length metadata) (objectKey : CString) (reservedUid : UInt64) :
    MessageAppendedPayload.Fits (appendFields request metadata objectKey reservedUid) := by
  have hsize := request.bytes.size_le
  have hfits := fits_of_within h
  exact
    { uids := ⟨request.uidValidity.toNat_lt, reservedUid.toNat_lt⟩
      sizeBytes := by
        change request.bytes.data.length < 2 ^ 64
        omega
      internalDateUnixUs := request.internalDateUnixUs.toNat_lt
      duplicateMessageIdCount := hfits.duplicateMessageIdCount
      messageIdSpan := hfits.messageIdSpan
      subjectSpan := hfits.subjectSpan }

/-- What validation returns are the fields themselves. -/
theorem validatePayload_eq_ok {fields : MessageAppendedPayload.Fields} {payload : MessageAppended}
    (h : MessageAppendedPayload.validatePayload fields = .ok payload) :
    some payload.objectKey = fields.objectKey ∧ payload.sizeBytes = fields.sizeBytes := by
  simp only [MessageAppendedPayload.validatePayload, bind_eq_ok, ite_error_eq_ok] at h
  obtain ⟨account, -, mailbox, -, -, key, hkey, _, -, _, -, _, -, _, -, hpayload⟩ := h
  rw [Except.ok.injEq] at hpayload
  subst hpayload
  refine ⟨?_, rfl⟩
  cases hfound : fields.objectKey with
  | none =>
    rw [hfound] at hkey
    cases hkey
  | some found =>
    rw [hfound, MessageAppendedPayload.validateObjectKey, ite_ok_eq_ok, Except.ok.injEq] at hkey
    rw [hkey.2]

/-- The record of a call names the call's object and size. -/
theorem references_entryOf {request : Request} {metadata : EmlMetadata} {objectKey : CString}
    {reservedUid now : UInt64} {e : Entry} (h : entryOf request metadata objectKey reservedUid now = .ok e)
    (hwithin : Within request.bytes.data.length metadata) :
    references e.eventType e.payload.data = some (objectKey, request.bytes.data.length) := by
  cases request with
  | deliver request =>
    simp only [entryOf] at h
    split at h
    · cases h
    · rename_i payload hencode
      cases h
      rw [references, decode_delivered hwithin hencode]
      rfl
  | ingest bytes =>
    simp only [entryOf] at h
    split at h
    · cases h
    · rename_i payload hencode
      cases h
      rw [references, decode_delivered hwithin hencode]
      rfl
  | append request =>
    simp only [entryOf] at h
    split at h
    · cases h
    · rename_i bytes hencode
      cases h
      obtain ⟨payload, hvalid, hdecode⟩ :=
        MessageAppendedPayload.decode_encode hencode (appendFields_fits hwithin objectKey reservedUid)
      obtain ⟨hkey, hsize⟩ := validatePayload_eq_ok hvalid
      rw [references, hdecode]
      change some (payload.objectKey, payload.sizeBytes) = _
      rw [Option.some.inj hkey, hsize]
      rfl

/-- The record of a delivery has the delivery's content and envelope. -/
theorem entryOf_deliver {request : DeliveryRequest} {metadata : EmlMetadata} {reservedUid now : UInt64} {e : Entry}
    (h : entryOf (.deliver request) metadata (objectKeyOf sha request.bytes.data) reservedUid now = .ok e)
    (hwithin : Within request.bytes.data.length metadata) :
    e.eventType = .messageDelivered ∧ entryIdentity e = requestIdentity request.identity ∧
      ∃ payload, MessageDeliveredPayload.decodePayload e.payload.data = .ok payload ∧ Carries sha payload request := by
  simp only [entryOf] at h
  split at h
  · cases h
  · rename_i payload hencode
    cases h
    have hdecode := decode_delivered hwithin hencode
    refine ⟨rfl, ?_, _, hdecode, rfl, rfl, fun hsome => ?_⟩
    · rw [entryIdentity, identityOf, hdecode]
      change Option.map _ _ = _
      cases hdelivery : request.identity.deliveryId with
      | none => simp [stored, MessageDeliveredPayload.payloadOf, hdelivery, requestIdentity, Identity.absent]
      | some deliveryId => simp [stored, MessageDeliveredPayload.payloadOf, hdelivery, requestIdentity]
    · simp only [stored, MessageDeliveredPayload.payloadOf, hsome, if_true]

/-- No other record answers a delivery. -/
theorem entryIdentity_entryOf {request : Request} {metadata : EmlMetadata} {objectKey : CString}
    {reservedUid now : UInt64} {e : Entry} (h : entryOf request metadata objectKey reservedUid now = .ok e)
    (hwithin : Within request.bytes.data.length metadata) (hother : ∀ delivery, request ≠ .deliver delivery) :
    entryIdentity e = none := by
  cases request with
  | deliver request => exact absurd rfl (hother request)
  | ingest bytes =>
    simp only [entryOf] at h
    split at h
    · cases h
    · rename_i payload hencode
      cases h
      rw [entryIdentity, identityOf, decode_delivered hwithin hencode]
      rfl
  | append request =>
    simp only [entryOf] at h
    split at h
    · cases h
    · cases h
      rfl

end
end Wyrebox.Ingestion
