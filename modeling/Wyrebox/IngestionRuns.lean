import Wyrebox.IngestionInvariant

set_option autoImplicit false

/-!
# Runs of ingestion

The invariant holds in every state that calls, appends, failures, crashes and restarts can reach.
-/
namespace Wyrebox.Ingestion
open JournalRecord JournalReader JournalWriter JournalLife PayloadText Event Eml Fallible
open MessageDeliveredPayload (Identity)

section
variable {sha : Sha256} {σ σ' : System} {es : List Entry} {k : ℕ}

/-! ## Finding an earlier attempt -/

section
variable (objectKey : CString) (sizeBytes : ℕ) (identity : Identity)

/-- The search among the records that are read before `error`. -/
def findIn (error : Option ReadError) : List Record → Except IngestError (Option IngestResult)
  | [] => match error with
    | none => .ok none
    | some error => .error (.journal error)
  | record :: records =>
    if record.eventType ≠ .messageDelivered then findIn error records
    else match MessageDeliveredPayload.decodePayload record.payload with
      | .error error => .error (.payload error)
      | .ok payload =>
        if !identityMatches payload identity then findIn error records
        else if !retryMatches payload objectKey sizeBytes identity then .error .exists
        else .ok (some ⟨payload.objectKey, payload.sizeBytes, record.offset, record.sequence⟩)

theorem findLoop_eq (fuel : ℕ) (reader : Reader) : findLoop objectKey sizeBytes identity sha fuel reader =
    findIn objectKey sizeBytes identity (readAll sha fuel reader).2 (readAll sha fuel reader).1 := by
  induction fuel generalizing reader with
  | zero => rfl
  | succ fuel ih =>
    rw [findLoop, readAll]
    cases readNext sha reader with
    | error error => rfl
    | ok result =>
      cases result with
      | none => rfl
      | some next =>
        obtain ⟨record, reader⟩ := next
        simp only [ih]
        rw [findIn] <;> rfl

end

section
variable {objectKey : CString} {sizeBytes : ℕ} {identity : Identity}

theorem identityMatches_iff {payload : MessageDelivered} : identityMatches payload identity = true ↔
    ∃ i, (payload.deliveryId.map fun deliveryId => (deliveryId, normalizeQueueId payload.queueId)) = some i ∧
      requestIdentity identity = some i := by
  rw [identityMatches, requestIdentity]
  cases payload.deliveryId with
  | none => simp
  | some deliveryId =>
    cases identity.deliveryId with
    | none => simp
    | some deliveryId' =>
      simp only [Option.isSome_some, Bool.true_and, Bool.and_eq_true, beq_iff_eq, Option.map_some, Option.some.injEq,
        exists_eq_left', Prod.mk.injEq]
      constructor
      · rintro ⟨rfl, hqueue⟩
        exact ⟨rfl, hqueue.symm⟩
      · rintro ⟨rfl, hqueue⟩
        exact ⟨rfl, hqueue.symm⟩

/-- A search that finds nothing has passed every record. -/
theorem not_found {error : Option ReadError} {records : List Record}
    (h : findIn objectKey sizeBytes identity error records = .ok none) {record : Record} (hmem : record ∈ records)
    {i : CString × CString} (hrecord : recordIdentity record = some i) :
    requestIdentity identity ≠ some i := by
  induction records with
  | nil => cases hmem
  | cons first records ih =>
    rw [findIn] at h
    rcases List.mem_cons.mp hmem with rfl | hrest
    · intro hrequest
      by_cases hdelivered : record.eventType = .messageDelivered
      · rw [if_neg (not_not.mpr hdelivered)] at h
        rw [recordIdentity, hdelivered, identityOf] at hrecord
        cases hdecode : MessageDeliveredPayload.decodePayload record.payload with
        | error error =>
          rw [hdecode] at hrecord
          cases hrecord
        | ok payload =>
          rw [hdecode] at h hrecord
          have hmatch := (@identityMatches_iff identity payload).mpr ⟨i, hrecord, hrequest⟩
          simp only [hmatch, Bool.not_true, Bool.false_eq_true, if_false] at h
          split at h <;> cases h
      · rw [recordIdentity, identityOf.eq_def] at hrecord
        split at hrecord
        · rename_i heq
          exact hdelivered heq
        · cases hrecord
    · split at h
      · exact ih h hrest
      · split at h
        · cases h
        · split at h
          · exact ih h hrest
          · split at h <;> cases h

theorem recordsOf_contents (offset sequence : ℕ) (es : List Entry) :
    (recordsOf offset sequence es).map (fun record => (record.eventType, record.payload)) =
      es.map fun e => (e.eventType, e.payload.data) := by
  induction es generalizing offset sequence with
  | nil => rfl
  | cons e es ih =>
    rw [recordsOf, List.map_cons, List.map_cons, ih]
    rfl

/-- A record of the journal is that of an entry. -/
theorem mem_recordsOf {offset sequence : ℕ} {record : Record} (h : record ∈ recordsOf offset sequence es) :
    ∃ e ∈ es, e.eventType = record.eventType ∧ e.payload.data = record.payload := by
  have hmem : (record.eventType, record.payload) ∈
      (recordsOf offset sequence es).map fun record => (record.eventType, record.payload) :=
    List.mem_map.mpr ⟨record, h, rfl⟩
  rw [recordsOf_contents] at hmem
  obtain ⟨e, he, hsame⟩ := List.mem_map.mp hmem
  rw [Prod.mk.injEq] at hsame
  exact ⟨e, he, hsame⟩

theorem recordsOf_identities (offset sequence : ℕ) (es : List Entry) :
    (recordsOf offset sequence es).filterMap recordIdentity = es.filterMap entryIdentity := by
  have hcontents := congrArg (List.filterMap fun content => identityOf content.1 content.2)
    (recordsOf_contents offset sequence es)
  rw [List.filterMap_map, List.filterMap_map] at hcontents
  exact hcontents

theorem find_eq (h : Holds sha σ.journal es k) : findDeliveryRetryResult objectKey sizeBytes identity sha
    σ.journal.segment = if identity.deliveryId.isNone then .ok none
      else findIn objectKey sizeBytes identity (readSegment sha (some σ.journal.segment)).2 (recordsOf 0 1 es) := by
  rw [findDeliveryRetryResult, findLoop_eq, ← (readSegment_crashImage h.file).1]
  rfl

/-- A delivery that finds no earlier attempt has an identity of its own. -/
theorem not_found_identity (h : Holds sha σ.journal es k)
    (hfind : findDeliveryRetryResult objectKey sizeBytes identity sha σ.journal.segment = .ok none) {e : Entry}
    (he : e ∈ es) {i : CString × CString} (hentry : entryIdentity e = some i) : requestIdentity identity ≠ some i := by
  rw [find_eq h] at hfind
  split at hfind
  · rename_i hnone
    rw [requestIdentity, Option.isNone_iff_eq_none.mp hnone]
    exact fun hcontra => by cases hcontra
  · have hmem : (e.eventType, e.payload.data) ∈ es.map fun e => (e.eventType, e.payload.data) :=
      List.mem_map_of_mem he
    rw [← recordsOf_contents 0 1 es] at hmem
    obtain ⟨record, hrecord, hsame⟩ := List.mem_map.mp hmem
    rw [Prod.mk.injEq] at hsame
    refine not_found hfind hrecord ?_
    rw [recordIdentity, hsame.1, hsame.2]
    exact hentry

end

/-! ## The journal changes -/

/-- The records that survive a crash. -/
theorem Inv.cut (h : Inv sha σ es k) {journal : JournalState} {n : ℕ} (hn : k ≤ n)
    (hholds : Holds sha journal (es.take n) k) : Inv sha { σ with journal } (es.take n) k where
  store := h.store
  holds := hholds
  valid e he := h.valid e (List.mem_of_mem_take he)
  unique := h.unique.sublist ((List.take_sublist n es).filterMap entryIdentity)
  original e he := h.original e (List.mem_of_mem_take he)
  parsed := h.parsed
  storing := h.storing
  holder := h.holder
  locked i request metadata put reservedUid hcall e he :=
    h.locked i request metadata put reservedUid hcall e (List.mem_of_mem_take he)
  appended i request result hcall := by
    obtain ⟨m, e, payload, hm, he, hrest⟩ := h.appended i request result hcall
    refine ⟨m, e, payload, hm, ?_, ?_⟩
    · rw [List.getElem?_take_of_lt (by omega)]
      exact he
    · rw [List.take_take, Nat.min_eq_left (by omega)]
      exact hrest

/-- One more record, while no delivery holds the lock. -/
theorem Inv.extend (h : Inv sha σ es k) (hfree : σ.holder = none) {journal : JournalState} {e : Entry} {k' : ℕ}
    (hk : k ≤ k') (hholds : Holds sha journal (es ++ [e]) k') (hvalid : EntryValid sha σ.store e)
    (hnew : ∀ e' ∈ es, ∀ i, entryIdentity e' = some i → entryIdentity e ≠ some i) (horiginal : HasOriginal sha e) :
    Inv sha { σ with journal } (es ++ [e]) k' where
  store := h.store
  holds := hholds
  valid e' he' := by
    rcases List.mem_append.mp he' with hold | hlast
    · exact h.valid e' hold
    · rw [List.mem_singleton.mp hlast]
      exact hvalid
  unique := by
    rw [List.filterMap_append, List.nodup_append]
    refine ⟨h.unique, ?_, ?_⟩
    · cases hidentity : entryIdentity e with
      | none => simp [hidentity]
      | some i => simp [hidentity]
    · rintro i hi j hj rfl
      obtain ⟨e', he', hi'⟩ := List.mem_filterMap.mp hi
      obtain ⟨e'', he'', hj'⟩ := List.mem_filterMap.mp hj
      rw [List.mem_singleton.mp he''] at hj'
      exact hnew e' he' i hi' hj'
  original e' he' := by
    rcases List.mem_append.mp he' with hold | hlast
    · exact h.original e' hold
    · rw [List.mem_singleton.mp hlast]
      exact horiginal
  parsed := h.parsed
  storing := h.storing
  holder := h.holder
  locked i request metadata put reservedUid hcall := by
    have hholder := h.holder i (.deliver request) metadata put reservedUid hcall rfl
    rw [hfree] at hholder
    cases hholder
  appended i request result hcall := by
    obtain ⟨m, e', payload, hm, he', hrest⟩ := h.appended i request result hcall
    have hlen := (List.getElem?_eq_some_iff.mp he').1
    refine ⟨m, e', payload, by omega, ?_, ?_⟩
    · rw [List.getElem?_append_left hlen]
      exact he'
    · rw [List.take_append_of_le_length (by omega)]
      exact hrest

/-- A call that had the lock, or needs none, gives it up. -/
theorem Inv.release (h : Inv sha σ es k) (i : ℕ) (request : Request) {stage : Stage} (hidle : stage.Idle)
    (hholder : σ.holder = none ∨ σ.holder = some i) :
    Inv sha { σ.setStage i request stage with holder := none } es k :=
  { h.setIdle i request hidle with
    holder := fun j request' metadata put reservedUid hcall hlocks => by
      exfalso
      have hholds := (h.setIdle i request hidle).holder j request' metadata put reservedUid hcall hlocks
      change σ.holder = some j at hholds
      rcases hholder with hnone | hsome
      · rw [hnone] at hholds
        cases hholds
      · rw [hsome, Option.some.injEq] at hholds
        subst hholds
        change (σ.setStage i request stage).calls i = _ at hcall
        rw [System.setStage_calls_self, Option.some.injEq, Call.mk.injEq] at hcall
        rw [hcall.2] at hidle
        exact hidle }

/-- A free lock is taken. -/
theorem Inv.lock (h : Inv sha σ es k) (hfree : σ.holder = none) (holder : Option ℕ) :
    Inv sha { σ with holder } es k :=
  { h with
    holder := fun i request metadata put reservedUid hcall hlocks => by
      have hholder := h.holder i request metadata put reservedUid hcall hlocks
      rw [hfree] at hholder
      cases hholder }

/-! ## Steps -/

/-- Every stage of a call is over when its process ends, but what it returned stays returned. -/
theorem stop_eq_some {call : Option Call} {request : Request} {stage : Stage}
    (h : call.map Call.stop = some ⟨request, stage⟩) : stage.Idle ∨
      ∃ result, stage = .appended result ∧ call = some ⟨request, .appended result⟩ := by
  obtain ⟨⟨request', stage'⟩, rfl, hstop⟩ := Option.map_eq_some_iff.mp h
  rw [Call.stop, Call.mk.injEq] at hstop
  obtain ⟨rfl, rfl⟩ := hstop
  cases stage' with
  | appended result => exact .inr ⟨result, rfl, rfl⟩
  | _ => exact .inl trivial

theorem Inv.stop (h : Inv sha σ es k) :
    Inv sha { σ with holder := none, calls := fun i => (σ.calls i).map Call.stop } es k where
  store := h.store
  holds := h.holds
  valid := h.valid
  unique := h.unique
  original := h.original
  parsed i request metadata hcall := by
    rcases stop_eq_some hcall with hidle | ⟨result, hstage, -⟩
    · exact hidle.elim
    · cases hstage
  storing i request metadata put reservedUid hcall := by
    rcases stop_eq_some hcall with hidle | ⟨result, hstage, -⟩
    · exact hidle.elim
    · cases hstage
  holder i request metadata put reservedUid hcall := by
    rcases stop_eq_some hcall with hidle | ⟨result, hstage, -⟩
    · exact hidle.elim
    · cases hstage
  locked i request metadata put reservedUid hcall := by
    rcases stop_eq_some hcall with hidle | ⟨result, hstage, -⟩
    · exact hidle.elim
    · cases hstage
  appended i request result hcall := by
    rcases stop_eq_some hcall with hidle | ⟨result', hstage, hcall'⟩
    · exact hidle.elim
    · cases hstage
      exact h.appended i request result hcall'

/-- A call begins to store its message. -/
theorem Inv.beginPut (h : Inv sha σ es k) {i put : ℕ} {request : Request} {metadata : EmlMetadata}
    {reservedUid : UInt64} (hparsed : σ.calls i = some ⟨request, .parsed metadata⟩) (hput : σ.store.puts put = none)
    (hholder : request.locks = true → σ.holder = some i)
    (hlocked : ∀ delivery, request = .deliver delivery → ∀ e ∈ es, ∀ identity, entryIdentity e = some identity →
      requestIdentity delivery.identity ≠ some identity) :
    Inv sha ((σ.beginPut put request.bytes).setStage i request (.storing metadata put reservedUid)) es k := by
  have hstore := h.storeRun (.single (.inl (.begin σ.store put request.bytes.data hput)))
  refine hstore.setStage i ?_ ?_ ?_
  · rintro metadata' hstage
    cases hstage
  · rintro metadata' put' reservedUid' hstage
    cases hstage
    exact ⟨⟨h.parsed i request metadata hparsed, .checkRoot, ObjectStore.World.setPut_self ..⟩, hholder, hlocked⟩
  · rintro delivery result - hstage
    cases hstage

theorem Inv.lockDelivery (h : Inv sha σ es k) {i put : ℕ} {request : DeliveryRequest} {metadata : EmlMetadata}
    (hparsed : σ.calls i = some ⟨.deliver request, .parsed metadata⟩) (hfree : σ.holder = none)
    (hput : σ.store.puts put = none) : Inv sha (σ.lockDelivery sha i request metadata put) es k := by
  rw [System.lockDelivery]
  cases hfind : findDeliveryRetryResult (objectKeyOf sha request.bytes.data) request.bytes.data.length
      request.identity sha σ.journal.segment with
  | error error => exact h.setIdle i _ trivial
  | ok found =>
    cases found with
    | some result => exact h.setIdle i _ trivial
    | none =>
      refine (h.lock hfree (some i)).beginPut hparsed hput (fun _ => rfl) ?_
      rintro delivery heq e he identity hentry
      cases heq
      exact not_found_identity h.holds hfind he hentry

/-- A call appends its record. -/
theorem Inv.finish (h : Inv sha σ es k) {i put : ℕ} {request : Request} {metadata : EmlMetadata}
    {reservedUid now : UInt64} {bytes : List UInt8} {w : Writer} {disk : Disk}
    (hcall : σ.calls i = some ⟨request, .storing metadata put reservedUid⟩)
    (hput : σ.store.puts put = some ⟨bytes, .done⟩) (hwriter : σ.journal.writer = some w)
    (hlock : σ.holder = if request.locks then some i else none) :
    ∃ es' k', Inv sha (σ.finish sha i request metadata reservedUid now w disk) es' k' := by
  obtain ⟨hwithin, stage, hstored⟩ := h.storing i request metadata put reservedUid hcall
  have hfree : σ.holder = none ∨ σ.holder = some i := by
    rw [hlock]
    split
    · exact .inr rfl
    · exact .inl rfl
  rw [System.finish]
  cases hentry : entryOf request metadata (objectKeyOf sha request.bytes.data) reservedUid now with
  | error error => exact ⟨es, k, h.release i request trivial hfree⟩
  | ok e =>
    have hidle := h.release i request (show Stage.killed.Idle from trivial) hfree
    have hvalid : EntryValid sha σ.store e := by
      refine fun _ => ⟨_, _, references_entryOf hentry hwithin, put, request.bytes.data, ?_, rfl, rfl⟩
      rw [hput, Option.some.injEq, ObjectStore.Put.mk.injEq] at hstored
      rw [hput, hstored.1]
    have hnew : ∀ e' ∈ es, ∀ identity, entryIdentity e' = some identity → entryIdentity e ≠ some identity := by
      intro e' he' identity hidentity
      by_cases hdeliver : ∃ delivery, request = .deliver delivery
      · obtain ⟨delivery, rfl⟩ := hdeliver
        rw [(entryOf_deliver hentry hwithin).2.1]
        exact h.locked i delivery metadata put reservedUid hcall e' he' identity hidentity
      · rw [entryIdentity_entryOf hentry hwithin fun delivery hcontra => hdeliver ⟨delivery, hcontra⟩]
        exact fun hcontra => by cases hcontra
    have horiginal : HasOriginal sha e := by
      intro identity hidentity
      by_cases hdeliver : ∃ delivery, request = .deliver delivery
      · obtain ⟨delivery, rfl⟩ := hdeliver
        obtain ⟨-, hsame, payload, hdecode, hcarries⟩ := entryOf_deliver hentry hwithin
        exact ⟨payload, delivery, hdecode, hcarries, hsame.symm.trans hidentity⟩
      · rw [entryIdentity_entryOf hentry hwithin fun delivery hcontra => hdeliver ⟨delivery, hcontra⟩] at hidentity
        cases hidentity
    have hset : ∀ stage journal, ({ σ.setStage i request .killed with holder := none, journal := journal } :
        System).setStage i request stage = { σ.setStage i request stage with journal := journal, holder := none } := by
      intro stage journal
      simp only [System.setStage, Function.update_idem]
    rcases h.holds.append hwriter e disk with ⟨journal, happ, hholds⟩ | ⟨journal, error, happ, hholds⟩
    · have hext := hidle.extend rfl (h.holds.synced_le.trans (Nat.le_succ _)) hholds hvalid hnew horiginal
      refine ⟨es ++ [e], es.length + 1, ?_⟩
      simp only [happ]
      rw [← hset]
      refine hext.setStage i ?_ ?_ ?_
      · rintro metadata' hstage
        cases hstage
      · rintro metadata' put' reservedUid' hstage
        cases hstage
      · rintro delivery result rfl hstage
        cases hstage
        obtain ⟨htype, -, payload, hdecode, hcarries⟩ := entryOf_deliver hentry hwithin
        refine ⟨es.length, e, payload, Nat.lt_succ_self _, List.getElem?_concat_length, htype, hdecode, hcarries, ?_⟩
        rw [hcarries.objectKey, hcarries.sizeBytes, List.take_left]
        rfl
    · obtain ⟨es', hext⟩ : ∃ es', Inv sha { σ.setStage i request .killed with holder := none, journal := journal } es' k := by
        rcases hholds with hsame | hlonger
        · refine ⟨es, ?_⟩
          rw [← List.take_length (l := es)] at hsame
          have hcut := hidle.cut h.holds.synced_le hsame
          rwa [List.take_length] at hcut
        · exact ⟨_, hidle.extend rfl (le_refl k) hlonger hvalid hnew horiginal⟩
      refine ⟨es', k, ?_⟩
      simp only [happ]
      rw [← hset]
      exact hext.setIdle i request trivial

/-- Any other record. -/
theorem Inv.other (h : Inv sha σ es k) {w : Writer} {e : Entry} (disk : Disk) (hdelivered : e.eventType ≠ .messageDelivered)
    (happended : e.eventType ≠ .messageAppended) (hwriter : σ.journal.writer = some w) (hfree : σ.holder = none) :
    ∃ es' k', Inv sha { σ with journal := (σ.journal.append sha w e disk).1 } es' k' := by
  have hvalid : EntryValid sha σ.store e := fun hnames => (hnames.elim hdelivered happended).elim
  have hidentity : entryIdentity e = none := by
    rw [entryIdentity, identityOf.eq_def]
    split
    · rename_i heq
      exact absurd heq hdelivered
    · rfl
  have hnew : ∀ e' ∈ es, ∀ identity, entryIdentity e' = some identity → entryIdentity e ≠ some identity := by
    intro e' _ identity _
    rw [hidentity]
    exact fun hcontra => by cases hcontra
  have horiginal : HasOriginal sha e := by
    intro identity hcontra
    rw [hidentity] at hcontra
    cases hcontra
  rcases h.holds.append hwriter e disk with ⟨journal, happ, hholds⟩ | ⟨journal, error, happ, hholds⟩
  · rw [happ]
    exact ⟨_, _, h.extend hfree (h.holds.synced_le.trans (Nat.le_succ _)) hholds hvalid hnew horiginal⟩
  · rw [happ]
    rcases hholds with hsame | hlonger
    · rw [← List.take_length (l := es)] at hsame
      exact ⟨_, k, h.cut h.holds.synced_le hsame⟩
    · exact ⟨_, _, h.extend hfree (le_refl k) hlonger hvalid hnew horiginal⟩

theorem Inv.step (h : Inv sha σ es k) (hstep : Step sha σ σ') : ∃ es' k', Inv sha σ' es' k' := by
  cases hstep with
  | begin i request _ _ => exact ⟨es, k, h.setIdle i request trivial⟩
  | parse i request hcall =>
    refine ⟨es, k, ?_⟩
    cases hparse : parseBytes request.bytes with
    | error error => exact h.setIdle i request trivial
    | ok metadata =>
      refine h.setStage i ?_ ?_ ?_
      · rintro metadata' hstage
        cases hstage
        exact parseBytes_within hparse
      · rintro metadata' put reservedUid hstage
        cases hstage
      · rintro delivery result - hstage
        cases hstage
  | reject i request metadata _ => exact ⟨es, k, h.setIdle i _ trivial⟩
  | unreadable i request metadata _ _ => exact ⟨es, k, h.setIdle i _ trivial⟩
  | lockDelivery i request metadata put hcall hfree hput => exact ⟨es, k, h.lockDelivery hcall hfree hput⟩
  | lockAppend i request metadata put reservedUid hcall hfree hput =>
    refine ⟨es, k, (h.lock hfree (some i)).beginPut hcall hput (fun _ => rfl) ?_⟩
    rintro delivery heq
    cases heq
  | beginIngest i bytes metadata put hcall hput =>
    refine ⟨es, k, h.beginPut hcall hput (fun hlocks => by cases hlocks) ?_⟩
    rintro delivery heq
    cases heq
  | storeFailed i request metadata put reservedUid bytes hcall hput =>
    refine ⟨es, k, ?_⟩
    cases hlocks : request.locks with
    | false => exact h.setIdle i request trivial
    | true => exact h.release i request trivial (.inr (h.holder i request metadata put reservedUid hcall hlocks))
  | finish i request metadata put reservedUid now bytes w disk hcall hput hwriter hlock =>
    exact h.finish hcall hput hwriter hlock
  | other w e disk hdelivered happended hwriter hfree => exact h.other disk hdelivered happended hwriter hfree
  | store store hstore => exact ⟨es, k, h.storeRun (.single (.inl hstore))⟩
  | stop store kept hstore =>
    obtain ⟨n, hk, hn, hholds⟩ := h.holds.maintain (.stop σ.journal kept)
    refine ⟨es.take n, k, ?_⟩
    have hstopped := (h.cut hk hholds).stop
    rcases hstore with rfl | hcrash
    · exact hstopped
    · exact hstopped.storeRun (.single (.inr hcrash))
  | maintain journal _ hmaintain =>
    obtain ⟨n, hk, hn, hholds⟩ := h.holds.maintain hmaintain
    exact ⟨es.take n, k, h.cut hk hholds⟩

theorem Inv.run (h : Inv sha σ es k) (hrun : Run sha σ σ') : ∃ es' k', Inv sha σ' es' k' := by
  induction hrun with
  | refl => exact ⟨es, k, h⟩
  | tail _ hstep ih =>
    obtain ⟨es', k', hinv⟩ := ih
    exact hinv.step hstep

end
end Wyrebox.Ingestion
