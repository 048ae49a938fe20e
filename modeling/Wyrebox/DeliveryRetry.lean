import Wyrebox.ObjectBeforeJournal

set_option autoImplicit false

/-!
# Delivery retries

An identity has one record at most, and a retry is answered from it: it returns where the record lies, or
it fails, and it appends nothing.
-/
namespace Wyrebox.Ingestion
open JournalRecord JournalReader JournalWriter JournalLife PayloadText Event Eml
open MessageDeliveredPayload (Identity)

/-- `record` was appended for `original`. -/
structure RecordOf (sha : Sha256) (record : Record) (original : DeliveryRequest) : Prop where
  eventType : record.eventType = .messageDelivered
  carries : ∃ payload, MessageDeliveredPayload.decodePayload record.payload = .ok payload ∧ Carries sha payload original

/-- What the original delivery returned, if it returned. -/
def resultOf (sha : Sha256) (record : Record) (original : DeliveryRequest) : IngestResult :=
  ⟨objectKeyOf sha original.bytes.data, original.bytes.data.length, record.offset, record.sequence⟩

structure SameEnvelope (request original : DeliveryRequest) : Prop where
  accountIdentity : request.identity.accountIdentity = original.identity.accountIdentity
  envelopeSender : request.identity.envelopeSender = original.identity.envelopeSender
  recipients : request.identity.recipients = original.identity.recipients

/-- `request` has the delivery id and the normalized queue id of `original`. -/
def SameIdentity (request original : DeliveryRequest) : Prop :=
  ∃ identity, requestIdentity request.identity = some identity ∧ requestIdentity original.identity = some identity

/-- The stages before a delivery asks for the append lock. -/
def Stage.Waiting : Stage → Prop
  | .begun | .parsed _ => True
  | _ => False

/-- Where a retry stands. -/
inductive Retried (sha : Sha256) (record : Record) (request original : DeliveryRequest) : Stage → Prop where
  | begun : Retried sha record request original .begun
  | parsed (metadata : EmlMetadata) : Retried sha record request original (.parsed metadata)
  | unparsed (error : ParseError) (h : parseBytes request.bytes = .error error) :
      Retried sha record request original (.failed (.parse error))
  | unreadable : Retried sha record request original (.failed .unreadable)
  | killed : Retried sha record request original .killed
  | found (hcontent : sha.digest request.bytes.data = sha.digest original.bytes.data)
      (hsize : request.bytes.data.length = original.bytes.data.length) (henvelope : SameEnvelope request original) :
      Retried sha record request original (.found (resultOf sha record original))
  | exists (h : request.bytes.data ≠ original.bytes.data ∨ ¬SameEnvelope request original) :
      Retried sha record request original (.failed .exists)

/-- What the journal and the calls are like at any time. -/
structure RetryIdempotent (sha : Sha256) (σ : System) : Prop where
  unique : ((records sha σ.journal).filterMap recordIdentity).Nodup
  original : ∀ record ∈ records sha σ.journal, ∀ identity, recordIdentity record = some identity →
    ∃ original, RecordOf sha record original ∧ requestIdentity original.identity = some identity
  returned : ∀ i original result, σ.calls i = some ⟨.deliver original, .appended result⟩ →
    ∃ record ∈ records sha σ.journal, RecordOf sha record original ∧ result = resultOf sha record original
  /-- A call of a delivery that has a record. Its own steps leave the journal alone. -/
  retry : ∀ i request original record stage, σ.calls i = some ⟨.deliver request, stage⟩ → stage.Waiting →
    record ∈ records sha σ.journal → RecordOf sha record original → SameIdentity request original →
      ∀ σ', Run sha σ σ' → ∃ stage, σ'.calls i = some ⟨.deliver request, stage⟩ ∧
        Retried sha record request original stage ∧
          ∀ σ'', Step sha σ' σ'' → σ''.calls i = some ⟨.deliver request, stage⟩ ∨
            σ''.calls i = some ⟨.deliver request, .killed⟩ ∨ σ''.journal = σ'.journal

section
variable {sha : Sha256} {σ σ' : System} {es : List Entry} {k : ℕ}

/-! ## The answer to a retry -/

section
variable {objectKey : CString} {sizeBytes : ℕ} {identity : Identity}

theorem identityOf_of_matches {record : Record} {payload : MessageDelivered}
    (htype : record.eventType = .messageDelivered)
    (hdecode : MessageDeliveredPayload.decodePayload record.payload = .ok payload)
    (hmatches : identityMatches payload identity = true) :
    ∃ i, recordIdentity record = some i ∧ requestIdentity identity = some i := by
  obtain ⟨i, hpayload, hrequest⟩ := identityMatches_iff.mp hmatches
  refine ⟨i, ?_, hrequest⟩
  rw [recordIdentity, htype, identityOf, hdecode]
  exact hpayload

/-- Where identities are unique and every payload decodes, the search finds the record of its identity. -/
theorem findIn_match {error : Option ReadError} {records : List Record}
    (hunique : (records.filterMap recordIdentity).Nodup)
    (hdecodes : ∀ record ∈ records, record.eventType = .messageDelivered →
      ∃ payload, MessageDeliveredPayload.decodePayload record.payload = .ok payload)
    {record : Record} (hmem : record ∈ records) (htype : record.eventType = .messageDelivered)
    {payload : MessageDelivered} (hdecode : MessageDeliveredPayload.decodePayload record.payload = .ok payload)
    (hidentity : identityMatches payload identity = true) :
    findIn objectKey sizeBytes identity error records =
      if retryMatches payload objectKey sizeBytes identity then
        .ok (some ⟨payload.objectKey, payload.sizeBytes, record.offset, record.sequence⟩)
      else .error .exists := by
  obtain ⟨i, hrecord, hrequest⟩ := identityOf_of_matches htype hdecode hidentity
  induction records with
  | nil => cases hmem
  | cons first records ih =>
    rw [findIn]
    rcases List.mem_cons.mp hmem with rfl | hrest
    · simp only [htype, ne_eq, not_true, if_false, hdecode, hidentity, Bool.not_true, Bool.false_eq_true]
      cases retryMatches payload objectKey sizeBytes identity <;> rfl
    · have hnext := ih (hunique.sublist ((List.sublist_cons_self first records).filterMap _))
        (fun r hr => hdecodes r (List.mem_cons_of_mem first hr)) hrest
      by_cases hfirst : first.eventType = .messageDelivered
      · obtain ⟨p, hp⟩ := hdecodes first (List.mem_cons_self ..) hfirst
        have hdiffers : identityMatches p identity = false := by
          by_contra hmatch
          rw [Bool.not_eq_false] at hmatch
          obtain ⟨j, hhead, hj⟩ := identityOf_of_matches hfirst hp hmatch
          obtain rfl : i = j := Option.some.inj (hrequest.symm.trans hj)
          rw [List.filterMap_cons_some hhead] at hunique
          exact (List.nodup_cons.mp hunique).1 (List.mem_filterMap.mpr ⟨record, hrest, hrecord⟩)
        simp only [hfirst, ne_eq, not_true, if_false, hp, hdiffers, Bool.not_false, if_true]
        exact hnext
      · rw [if_pos hfirst]
        exact hnext

end

/-- Every record of a delivery decodes. -/
theorem Inv.decodes (h : Inv sha σ es k) {record : Record} (hmem : record ∈ recordsOf 0 1 es)
    (htype : record.eventType = .messageDelivered) :
    ∃ payload, MessageDeliveredPayload.decodePayload record.payload = .ok payload := by
  obtain ⟨e, he, hsame, hpayload⟩ := mem_recordsOf hmem
  rw [← hsame] at htype
  obtain ⟨objectKey, sizeBytes, hreferences, -⟩ := h.valid e he (.inl htype)
  rw [htype, references, hpayload] at hreferences
  cases hdecode : MessageDeliveredPayload.decodePayload record.payload with
  | error error =>
    rw [hdecode] at hreferences
    cases hreferences
  | ok payload => exact ⟨payload, rfl⟩

theorem retryMatches_iff {payload : MessageDelivered} {original request : DeliveryRequest}
    (hcarries : Carries sha payload original) (hsome : original.identity.deliveryId.isSome = true) :
    retryMatches payload (objectKeyOf sha request.bytes.data) request.bytes.data.length request.identity = true ↔
      sha.digest request.bytes.data = sha.digest original.bytes.data ∧
        request.bytes.data.length = original.bytes.data.length ∧ SameEnvelope request original := by
  have henvelope := hcarries.identity hsome
  have hkey : payload.objectKey = objectKeyOf sha request.bytes.data ↔
      sha.digest request.bytes.data = sha.digest original.bytes.data := by
    rw [hcarries.objectKey, objectKeyOf_eq_iff, eq_comm]
  simp only [retryMatches, Bool.and_eq_true, beq_iff_eq, hkey, hcarries.sizeBytes]
  constructor
  · rintro ⟨⟨⟨⟨hcontent, hsize⟩, haccount⟩, hsender⟩, hrecipients⟩
    refine ⟨hcontent, hsize.symm, ?_, ?_, ?_⟩
    · rw [henvelope, ← haccount]
    · rw [henvelope, ← hsender]
    · rw [henvelope, ← hrecipients]
  · rintro ⟨hcontent, hsize, haccount, hsender, hrecipients⟩
    rw [henvelope] at haccount hsender hrecipients
    exact ⟨⟨⟨⟨hcontent, hsize.symm⟩, haccount.symm⟩, hsender.symm⟩, hrecipients.symm⟩

/-- A retry that gets the lock is answered from the record. -/
theorem Inv.lockDelivery_retry (h : Inv sha σ es k) {i put : ℕ} {request original : DeliveryRequest}
    {metadata : EmlMetadata} {record : Record} (hmem : record ∈ records sha σ.journal)
    (hrecord : RecordOf sha record original) (hidentity : SameIdentity request original) :
    ∃ stage, σ.lockDelivery sha i request metadata put = σ.setStage i (.deliver request) stage ∧
      Retried sha record request original stage := by
  obtain ⟨identity, hrequest, horiginal⟩ := hidentity
  obtain ⟨payload, hdecode, hcarries⟩ := hrecord.carries
  have hsome : original.identity.deliveryId.isSome = true := by
    rw [requestIdentity, Option.map_eq_some_iff] at horiginal
    obtain ⟨deliveryId, hdelivery, -⟩ := horiginal
    rw [hdelivery]
    rfl
  have hpresent : request.identity.deliveryId.isNone = false := by
    rw [requestIdentity, Option.map_eq_some_iff] at hrequest
    obtain ⟨deliveryId, hdelivery, -⟩ := hrequest
    rw [hdelivery]
    rfl
  have hmatches : identityMatches payload request.identity = true := by
    refine identityMatches_iff.mpr ⟨identity, ?_, hrequest⟩
    rw [requestIdentity, hcarries.identity hsome] at horiginal
    exact horiginal
  rw [h.holds.records] at hmem
  have hfind := @find_eq sha σ es k (objectKeyOf sha request.bytes.data) request.bytes.data.length
    request.identity h.holds
  rw [hpresent, if_neg Bool.false_ne_true, findIn_match (by rw [recordsOf_identities]; exact h.unique)
    (fun r hr => h.decodes hr) hmem hrecord.eventType hdecode hmatches] at hfind
  have hiff := @retryMatches_iff sha payload original request hcarries hsome
  rw [System.lockDelivery, hfind]
  cases hretry : retryMatches payload (objectKeyOf sha request.bytes.data) request.bytes.data.length
      request.identity with
  | true =>
    obtain ⟨hcontent, hsize, henvelope⟩ := hiff.mp hretry
    refine ⟨_, rfl, ?_⟩
    rw [hcarries.objectKey, hcarries.sizeBytes]
    exact .found hcontent hsize henvelope
  | false =>
    refine ⟨_, rfl, .exists ?_⟩
    by_contra hsame
    rw [not_or, not_not, not_not] at hsame
    have htrue := hiff.mpr ⟨by rw [hsame.1], by rw [hsame.1], hsame.2⟩
    rw [hretry] at htrue
    cases htrue

/-! ## Steps of other calls -/

def Stage.Active : Stage → Prop
  | .begun | .parsed _ | .storing _ _ _ => True
  | _ => False

/-- A call that is not over belongs to the running process. -/
def Running (σ : System) : Prop :=
  ∀ i request stage, σ.calls i = some ⟨request, stage⟩ → stage.Active → σ.journal.writer.isSome = true

/-- The journal stays as it is, or a record is appended to it. -/
def Kept (sha : Sha256) (journal journal' : JournalState) : Prop :=
  journal' = journal ∨ ∃ w e disk, journal.writer = some w ∧ journal' = (journal.append sha w e disk).1

theorem Kept.writer {journal journal' : JournalState} (h : Kept sha journal journal')
    (hwriter : journal.writer.isSome = true) : journal'.writer.isSome = true := by
  rcases h with rfl | ⟨w, e, disk, -, rfl⟩
  · exact hwriter
  · rfl

/-- The whole records stay when a record is appended. -/
theorem Holds.kept {journal journal' : JournalState} (h : Holds sha journal es k) (hkept : Kept sha journal journal') :
    ∀ record ∈ records sha journal, record ∈ records sha journal' := by
  intro record hmem
  rcases hkept with rfl | ⟨w, e, disk, hwriter, rfl⟩
  · exact hmem
  rw [h.records] at hmem
  have hlonger : record ∈ recordsOf 0 1 (es ++ [e]) := by
    rw [recordsOf_append]
    exact List.mem_append_left _ hmem
  rcases h.append hwriter e disk with ⟨journal', happ, hholds⟩ | ⟨journal', error, happ, hholds | hholds⟩
  · rw [happ, hholds.records]
    exact hlonger
  · rw [happ, hholds.records]
    exact hmem
  · rw [happ, hholds.records]
    exact hlonger

theorem lockDelivery_cases (σ : System) (i put : ℕ) (request : DeliveryRequest) (metadata : EmlMetadata) :
    (σ.lockDelivery sha i request metadata put).journal = σ.journal ∧
      ∃ stage, (σ.lockDelivery sha i request metadata put).calls = (σ.setStage i (.deliver request) stage).calls := by
  rw [System.lockDelivery]
  split
  · exact ⟨rfl, _, rfl⟩
  · exact ⟨rfl, _, rfl⟩
  · exact ⟨rfl, _, rfl⟩

theorem finish_cases (σ : System) (i : ℕ) (request : Request) (metadata : EmlMetadata) (reservedUid now : UInt64)
    {w : Writer} (disk : Disk) (hwriter : σ.journal.writer = some w) :
    Kept sha σ.journal (σ.finish sha i request metadata reservedUid now w disk).journal ∧
      ∃ stage, (σ.finish sha i request metadata reservedUid now w disk).calls = (σ.setStage i request stage).calls := by
  rw [System.finish]
  split
  · exact ⟨.inl rfl, _, rfl⟩
  · rename_i e _
    have hkept : Kept sha σ.journal (σ.journal.append sha w e disk).1 := .inr ⟨w, e, disk, hwriter, rfl⟩
    split
    · rename_i journal error happ
      rw [happ] at hkept
      exact ⟨hkept, _, rfl⟩
    · rename_i journal position happ
      rw [happ] at hkept
      exact ⟨hkept, _, rfl⟩

/-- A step changes one call, which is not over yet, or none, unless the process ends. -/
theorem step_cases (hstep : Step sha σ σ') :
    (∃ j request stage, σ'.calls = (σ.setStage j request stage).calls ∧ Kept sha σ.journal σ'.journal ∧
      (σ.calls j = none ∧ σ.journal.writer.isSome = true ∨
        ∃ stage, σ.calls j = some ⟨request, stage⟩ ∧ stage.Active)) ∨
    (σ'.calls = σ.calls ∧ (Kept sha σ.journal σ'.journal ∨ σ.journal.writer = none)) ∨
    σ'.calls = fun i => (σ.calls i).map Call.stop := by
  cases hstep with
  | begin i request hnone hrunning => exact .inl ⟨i, request, _, rfl, .inl rfl, .inl ⟨hnone, hrunning⟩⟩
  | parse i request hcall => exact .inl ⟨i, request, _, rfl, .inl rfl, .inr ⟨_, hcall, trivial⟩⟩
  | reject i request metadata hcall => exact .inl ⟨i, _, _, rfl, .inl rfl, .inr ⟨_, hcall, trivial⟩⟩
  | unreadable i request metadata hcall _ => exact .inl ⟨i, _, _, rfl, .inl rfl, .inr ⟨_, hcall, trivial⟩⟩
  | lockDelivery i request metadata put hcall _ _ =>
    obtain ⟨hjournal, stage, hcalls⟩ := @lockDelivery_cases sha σ i put request metadata
    exact .inl ⟨i, _, stage, hcalls, .inl hjournal, .inr ⟨_, hcall, trivial⟩⟩
  | lockAppend i request metadata put reservedUid hcall _ _ =>
    exact .inl ⟨i, _, _, rfl, .inl rfl, .inr ⟨_, hcall, trivial⟩⟩
  | beginIngest i bytes metadata put hcall _ => exact .inl ⟨i, _, _, rfl, .inl rfl, .inr ⟨_, hcall, trivial⟩⟩
  | storeFailed i request metadata put reservedUid bytes hcall _ =>
    exact .inl ⟨i, request, _, rfl, .inl rfl, .inr ⟨_, hcall, trivial⟩⟩
  | finish i request metadata put reservedUid now bytes w disk hcall _ hwriter _ =>
    obtain ⟨hkept, stage, hcalls⟩ := @finish_cases sha σ i request metadata reservedUid now w disk hwriter
    exact .inl ⟨i, request, stage, hcalls, hkept, .inr ⟨_, hcall, trivial⟩⟩
  | other w e disk _ _ hwriter _ => exact .inr (.inl ⟨rfl, .inl (.inr ⟨w, e, disk, hwriter, rfl⟩)⟩)
  | store store _ => exact .inr (.inl ⟨rfl, .inl (.inl rfl)⟩)
  | stop store kept _ => exact .inr (.inr rfl)
  | maintain journal hstopped _ => exact .inr (.inl ⟨rfl, .inr hstopped⟩)

theorem stop_not_active (stage : Stage) : ¬stage.stop.Active := by
  cases stage <;> exact id

theorem Running.step (h : Running σ) (hstep : Step sha σ σ') : Running σ' := by
  intro i request stage hcall hactive
  rcases step_cases hstep with ⟨j, request', stage', hcalls, hkept, hold⟩ | ⟨hcalls, hjournal⟩ | hcalls
  · refine hkept.writer ?_
    rcases hold with ⟨-, hwriter⟩ | ⟨stage'', hcall', hactive'⟩
    · exact hwriter
    · exact h j request' stage'' hcall' hactive'
  · rw [hcalls] at hcall
    have hwriter := h i request stage hcall hactive
    rcases hjournal with hkept | hnone
    · exact hkept.writer hwriter
    · rw [hnone] at hwriter
      cases hwriter
  · rw [hcalls] at hcall
    obtain ⟨call, -, hstop⟩ := Option.map_eq_some_iff.mp hcall
    rw [Call.stop, Call.mk.injEq] at hstop
    rw [← hstop.2] at hactive
    exact (stop_not_active _ hactive).elim

theorem running_of_run (hrun : Run sha .initial σ) : Running σ := by
  induction hrun with
  | refl => exact fun i request stage hcall => by cases hcall
  | tail _ hstep ih => exact ih.step hstep

/-- A call that is over stays as it is. -/
theorem over_step {i : ℕ} {request : Request} {stage : Stage} (hcall : σ.calls i = some ⟨request, stage⟩)
    (hover : ¬stage.Active) (hstep : Step sha σ σ') : σ'.calls i = some ⟨request, stage⟩ := by
  rcases step_cases hstep with ⟨j, request', stage', hcalls, -, hold⟩ | ⟨hcalls, -⟩ | hcalls
  · rw [hcalls]
    by_cases hj : i = j
    · subst hj
      rcases hold with ⟨hnone, -⟩ | ⟨stage'', hcall', hactive⟩
      · rw [hcall] at hnone
        cases hnone
      · rw [hcall, Option.some.injEq, Call.mk.injEq] at hcall'
        rw [hcall'.2] at hover
        exact (hover hactive).elim
    · rw [System.setStage_calls_of_ne _ hj, hcall]
  · rw [hcalls, hcall]
  · rw [hcalls]
    simp only [hcall, Option.map_some, Call.stop]
    cases stage with
    | begun => exact (hover trivial).elim
    | parsed metadata => exact (hover trivial).elim
    | storing metadata put reservedUid => exact (hover trivial).elim
    | found result => rfl
    | appended result => rfl
    | failed error => rfl
    | killed => rfl

/-! ## Steps of a retry -/

theorem own_step {i j : ℕ} {request : Request} {stage : Stage}
    (h : (σ.setStage j request stage).calls i ≠ σ.calls i) : i = j := by
  by_contra hne
  exact h (System.setStage_calls_of_ne _ hne ..)

/-- The steps of a delivery that has not asked for the lock yet. -/
theorem waiting_step {i : ℕ} {request : DeliveryRequest} {stage : Stage}
    (hcall : σ.calls i = some ⟨.deliver request, stage⟩) (hwaiting : stage.Waiting) (hstep : Step sha σ σ')
    (hchanged : σ'.calls i ≠ σ.calls i) :
    (stage = .begun ∧ σ' = σ.setStage i (.deliver request) (match parseBytes request.bytes with
      | .error error => .failed (.parse error)
      | .ok metadata => .parsed metadata)) ∨
    (∃ metadata, stage = .parsed metadata ∧ (σ' = σ.setStage i (.deliver request) (.failed .unreadable) ∨
      ∃ put, σ' = σ.lockDelivery sha i request metadata put)) ∨
    σ'.calls i = some ⟨.deliver request, .killed⟩ := by
  cases hstep with
  | begin j request' hnone _ =>
    obtain rfl := own_step hchanged
    rw [hcall] at hnone
    cases hnone
  | parse j request' hcall' =>
    obtain rfl := own_step hchanged
    rw [hcall] at hcall'
    cases hcall'
    exact .inl ⟨rfl, rfl⟩
  | reject j request' metadata hcall' =>
    obtain rfl := own_step hchanged
    rw [hcall] at hcall'
    cases hcall'
  | unreadable j request' metadata hcall' _ =>
    obtain rfl := own_step hchanged
    rw [hcall] at hcall'
    cases hcall'
    exact .inr (.inl ⟨metadata, rfl, .inl rfl⟩)
  | lockDelivery j request' metadata put hcall' _ _ =>
    obtain ⟨-, stage', hcalls⟩ := @lockDelivery_cases sha σ j put request' metadata
    rw [hcalls] at hchanged
    obtain rfl := own_step hchanged
    rw [hcall] at hcall'
    cases hcall'
    exact .inr (.inl ⟨metadata, rfl, .inr ⟨put, rfl⟩⟩)
  | lockAppend j request' metadata put reservedUid hcall' _ _ =>
    obtain rfl := own_step hchanged
    rw [hcall] at hcall'
    cases hcall'
  | beginIngest j bytes metadata put hcall' _ =>
    obtain rfl := own_step hchanged
    rw [hcall] at hcall'
    cases hcall'
  | storeFailed j request' metadata put reservedUid bytes hcall' _ =>
    obtain rfl := own_step hchanged
    rw [hcall] at hcall'
    cases hcall'
    exact hwaiting.elim
  | finish j request' metadata put reservedUid now bytes w disk hcall' _ hwriter _ =>
    obtain ⟨-, stage', hcalls⟩ := @finish_cases sha σ j request' metadata reservedUid now w disk hwriter
    rw [hcalls] at hchanged
    obtain rfl := own_step hchanged
    rw [hcall] at hcall'
    cases hcall'
    exact hwaiting.elim
  | other w e disk _ _ _ _ => exact (hchanged rfl).elim
  | store store _ => exact (hchanged rfl).elim
  | stop store kept _ =>
    refine .inr (.inr ?_)
    simp only [hcall, Option.map_some, Call.stop]
    cases stage with
    | begun => rfl
    | parsed metadata => rfl
    | _ => exact hwaiting.elim
  | maintain journal _ _ => exact (hchanged rfl).elim

/-- A call that retries the delivery of `record`, which is there as long as the call is not over. -/
structure Retrying (sha : Sha256) (σ : System) (i : ℕ) (record : Record) (request original : DeliveryRequest)
    (stage : Stage) : Prop where
  call : σ.calls i = some ⟨.deliver request, stage⟩
  retried : Retried sha record request original stage
  present : stage.Active → record ∈ records sha σ.journal

theorem Retried.waiting {record : Record} {request original : DeliveryRequest} {stage : Stage}
    (h : Retried sha record request original stage) (hactive : stage.Active) : stage.Waiting := by
  cases h with
  | begun => trivial
  | parsed metadata => trivial
  | _ => exact hactive.elim

theorem Retrying.step {i : ℕ} {record : Record} {request original : DeliveryRequest} {stage : Stage}
    (h : Retrying sha σ i record request original stage) (hinv : Inv sha σ es k) (hrunning : Running σ)
    (hrecord : RecordOf sha record original) (hidentity : SameIdentity request original) (hstep : Step sha σ σ') :
    ∃ stage', Retrying sha σ' i record request original stage' ∧
      (stage' = stage ∨ stage' = .killed ∨ σ'.journal = σ.journal) := by
  by_cases hactive : stage.Active
  · by_cases hsame : σ'.calls i = σ.calls i
    · refine ⟨stage, ⟨hsame.trans h.call, h.retried, fun _ => ?_⟩, .inl rfl⟩
      have hpresent := h.present hactive
      rcases step_cases hstep with ⟨-, -, -, -, hkept, -⟩ | ⟨-, hkept | hstopped⟩ | hcalls
      · exact Holds.kept hinv.holds hkept record hpresent
      · exact Holds.kept hinv.holds hkept record hpresent
      · have hwriter := hrunning i _ stage h.call hactive
        rw [hstopped] at hwriter
        cases hwriter
      · simp only [hcalls, h.call, Option.map_some, Option.some.injEq] at hsame
        have hstop : stage.stop = stage := congrArg Call.stage hsame
        rw [← hstop] at hactive
        exact (stop_not_active stage hactive).elim
    · rcases waiting_step h.call (h.retried.waiting hactive) hstep hsame with
        ⟨-, rfl⟩ | ⟨metadata, -, rfl | ⟨put, rfl⟩⟩ | hkilled
      · refine ⟨_, ⟨System.setStage_calls_self .., ?_, fun _ => h.present hactive⟩, .inr (.inr rfl)⟩
        cases hparse : parseBytes request.bytes with
        | error error => exact .unparsed error hparse
        | ok metadata => exact .parsed metadata
      · exact ⟨_, ⟨System.setStage_calls_self .., .unreadable, fun _ => h.present hactive⟩, .inr (.inr rfl)⟩
      · obtain ⟨stage', heq, hretried⟩ :=
          @Inv.lockDelivery_retry sha σ es k hinv i put request original metadata record (h.present hactive) hrecord hidentity
        rw [heq]
        exact ⟨stage', ⟨System.setStage_calls_self .., hretried, fun _ => h.present hactive⟩, .inr (.inr rfl)⟩
      · exact ⟨_, ⟨hkilled, .killed, fun hcontra => hcontra.elim⟩, .inr (.inl rfl)⟩
  · exact ⟨stage, ⟨over_step h.call hactive hstep, h.retried, fun hcontra => (hactive hcontra).elim⟩, .inl rfl⟩

theorem Retrying.run {i : ℕ} {record : Record} {request original : DeliveryRequest} {stage : Stage}
    (h : Retrying sha σ i record request original stage) (hreached : Run sha .initial σ)
    (hrecord : RecordOf sha record original) (hidentity : SameIdentity request original) (hrun : Run sha σ σ') :
    ∃ stage', Retrying sha σ' i record request original stage' := by
  induction hrun with
  | refl => exact ⟨stage, h⟩
  | tail hrest hstep ih =>
    obtain ⟨stage', hretrying⟩ := ih
    obtain ⟨es, k, hinv⟩ := (inv_initial sha).run (hreached.trans hrest)
    obtain ⟨stage'', hnext, -⟩ :=
      hretrying.step hinv (running_of_run (hreached.trans hrest)) hrecord hidentity hstep
    exact ⟨stage'', hnext⟩

end

/-! ## Every history of deliveries -/

/-- In any interleaving and any history of deliveries, with failures, crashes and restarts at any step, an
    identity has one record at most, and a retry is answered from it without an append. -/
theorem delivery_retry_idempotence (sha : Sha256) {σ : System} (hrun : Run sha .initial σ) :
    RetryIdempotent sha σ := by
  obtain ⟨es, k, hinv⟩ := (inv_initial sha).run hrun
  have hrecords := hinv.holds.records
  refine ⟨?_, ?_, ?_, ?_⟩
  · rw [hrecords, recordsOf_identities]
    exact hinv.unique
  · intro record hmem identity hidentity
    rw [hrecords] at hmem
    obtain ⟨e, he, htype, hpayload⟩ := mem_recordsOf hmem
    rw [recordIdentity, ← htype, ← hpayload] at hidentity
    obtain ⟨payload, original, hdecode, hcarries, hsame⟩ := hinv.original e he identity hidentity
    refine ⟨original, ⟨?_, payload, hpayload ▸ hdecode, hcarries⟩, hsame⟩
    rw [← htype]
    by_contra hother
    rw [identityOf.eq_def] at hidentity
    split at hidentity
    · rename_i heq
      exact hother heq
    · cases hidentity
  · intro i original result hcall
    obtain ⟨n, e, payload, hn, he, htype, hdecode, hcarries, rfl⟩ := hinv.appended i original result hcall
    obtain ⟨hlt, rfl⟩ := List.getElem?_eq_some_iff.mp he
    have hsplit : es.take n ++ es[n] :: es.drop (n + 1) = es := by
      rw [List.getElem_cons_drop, List.take_append_drop]
    have hlen : (es.take n).length = n := by rw [List.length_take, Nat.min_eq_left hlt.le]
    refine ⟨recordOf es[n] (totalSize (es.take n)) (n + 1), ?_, ⟨htype, payload, hdecode, hcarries⟩, ?_⟩
    · have hget := recordsOf_getElem 0 1 (es.take n) (es.drop (n + 1)) es[n]
      rw [hsplit, hlen, Nat.zero_add, Nat.add_comm 1] at hget
      rw [hrecords]
      exact List.mem_of_getElem? hget
    · rw [hcarries.objectKey, hcarries.sizeBytes]
      rfl
  · intro i request original record waiting hcall hwaiting hmem hrecord hidentity σ' hrest
    have hretried : Retried sha record request original waiting := by
      cases waiting with
      | begun => exact .begun
      | parsed metadata => exact .parsed metadata
      | _ => exact hwaiting.elim
    have hbegun : Retrying sha σ i record request original waiting := ⟨hcall, hretried, fun _ => hmem⟩
    obtain ⟨stage, hretrying⟩ := hbegun.run hrun hrecord hidentity hrest
    refine ⟨stage, hretrying.call, hretrying.retried, fun σ'' hstep => ?_⟩
    have hreached : Run sha .initial σ' := hrun.trans hrest
    obtain ⟨es', k', hinv'⟩ := (inv_initial sha).run hreached
    obtain ⟨stage', hnext, rfl | rfl | hjournal⟩ :=
      hretrying.step hinv' (running_of_run hreached) hrecord hidentity hstep
    · exact .inl hnext.call
    · exact .inr (.inl hnext.call)
    · exact .inr (.inr hjournal)

/-! ## A delivery and its retry -/

/-- The delivery has returned, and a second call of the same identity begins. -/
theorem sample_retry (sha : Sha256) (bytes : GBytes) : ∃ σ record, Run sha .initial σ ∧
    record ∈ records sha σ.journal ∧ RecordOf sha record sampleRequest ∧
    SameIdentity ⟨bytes, sampleRequest.identity⟩ sampleRequest ∧
    σ.calls 1 = some ⟨.deliver ⟨bytes, sampleRequest.identity⟩, .begun⟩ := by
  obtain ⟨σ, e, hrun, hrecords, htype, -, hwriter, hcall, hothers⟩ := sample_delivered sha
  obtain ⟨es, k, hinv⟩ := (inv_initial sha).run hrun
  obtain ⟨n, e', payload, -, he, htype', hdecode, hcarries, -⟩ := hinv.appended 0 sampleRequest _ hcall
  have hone : es = [e] := recordsOf_injective (hinv.holds.records.symm.trans hrecords)
  subst hone
  obtain rfl : e' = e := List.mem_singleton.mp (List.mem_of_getElem? he)
  have hbegin : Step sha σ _ :=
    .begin σ 1 (.deliver ⟨bytes, sampleRequest.identity⟩) (hothers 1 (by decide)) hwriter
  refine ⟨_, recordOf e' 0 1, hrun.tail hbegin, ?_, ⟨htype, payload, hdecode, hcarries⟩, ⟨_, rfl, rfl⟩, ?_⟩
  · change recordOf e' 0 1 ∈ records sha σ.journal
    rw [hrecords]
    exact List.mem_singleton.mpr rfl
  · exact System.setStage_calls_self ..

theorem delivery_retry_idempotence_sample : ∃ σ record, Run JournalCrash.sha256 .initial σ ∧
    record ∈ records JournalCrash.sha256 σ.journal ∧ RecordOf JournalCrash.sha256 record sampleRequest ∧
    σ.calls 1 = some ⟨.deliver sampleRequest, .begun⟩ ∧ RetryIdempotent JournalCrash.sha256 σ := by
  obtain ⟨σ, record, hrun, hmem, hrecord, -, hcall⟩ := sample_retry JournalCrash.sha256 sampleRequest.bytes
  exact ⟨σ, record, hrun, hmem, hrecord, hcall, delivery_retry_idempotence JournalCrash.sha256 hrun⟩

/-- A retry with other bytes that are not a message is refused before its record is looked for. -/
theorem retry_without_separator : ¬∀ (σ σ' : System) (i : ℕ) (request original : DeliveryRequest) (record : Record)
    (error : IngestError), Run JournalCrash.sha256 .initial σ → record ∈ records JournalCrash.sha256 σ.journal →
      RecordOf JournalCrash.sha256 record original → SameIdentity request original →
        request.bytes.data ≠ original.bytes.data → σ.calls i = some ⟨.deliver request, .begun⟩ →
          Run JournalCrash.sha256 σ σ' → σ'.calls i = some ⟨.deliver request, .failed error⟩ → error = .exists := by
  intro hall
  obtain ⟨σ, record, hrun, hmem, hrecord, hidentity, hcall⟩ :=
    sample_retry JournalCrash.sha256 ⟨[1], by decide⟩
  have hparse : Step JournalCrash.sha256 σ _ := .parse σ 1 _ hcall
  have hexists := hall σ _ 1 _ sampleRequest record (.parse .missingSeparator) hrun hmem hrecord hidentity (by decide)
    hcall (.single hparse) (System.setStage_calls_self ..)
  cases hexists

end Wyrebox.Ingestion
