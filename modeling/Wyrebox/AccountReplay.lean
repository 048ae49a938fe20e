import Wyrebox.AccountRows
import Wyrebox.Catchup

set_option autoImplicit false

/-!
# Replay of one account's rows

What a record does to the rows of its account depends on those rows alone. The tables shared by
all accounts only decide whether the record is accepted.
-/
namespace Wyrebox.AccountReplay
open Catalog Materializer Event Fallible AccountRows
open JournalWriter (Position)

/-! ## Rows without the shared tables -/

section
variable (seed : Provisioned) (account : CString)

/-- A new message's membership, with the UIDNEXT it counts. -/
def deliverMembership (mailboxId : CString) (t : AccountTables) (uidnext : ℕ)
    (delivery : Position × MessageRecord) : Except InvalidData (AccountTables × ℕ) := do
  let (position, record) := delivery
  let membershipId := deliveryMembershipId mailboxId position
  require (record.objectKey ≠ .empty) .objectKeyEmpty
  let t ← ensureMessage t position record
  let t ← ensureMessageHeaders t position record
  let found ← ensureMembershipExact t mailboxId membershipId position record
  if found then .ok (t, uidnext)
  else do
    let t ← insertMembership t mailboxId membershipId position record uidnext
    .ok (t, (uidnext + 1) % 2 ^ 64)

def deliverRows (t : AccountTables) (deliveries : List (Position × MessageRecord)) :
    Except InvalidData AccountTables := do
  let mailboxId ← resolveInboxId t account
  let t ← ensureMailbox seed account t mailboxId inboxName
  let t ← t.insertUidState (.mailbox mailboxId) ⟨1, mailboxUidvalidity⟩
  let uidnext ← selectUidnext t mailboxId
  let (t, uidnext) ← deliveries.foldlM
    (fun progress delivery => deliverMembership mailboxId progress.1 progress.2 delivery) (t, uidnext)
  t.updateUidnext (.mailbox mailboxId) fun _ => uidnext

def appendRows (t : AccountTables) (append : MessageAppended) (position : Position) :
    Except InvalidData AccountTables := do
  let t ← ensureAppendDestination seed t append
  let t ← ensureMessage t position (appendedRecord append)
  let t ← ensureMessageHeaders t position (appendedRecord append)
  insertAppendMembership t append position

def extractionRows (t : AccountTables) (extraction : FactsExtracted) (position : Position) :
    Except InvalidData AccountTables := do
  require (extraction.accountId ≠ .empty ∧ extraction.messageId ≠ .empty ∧ position.sequence ≠ 0)
    .factsExtractedIncomplete
  match t.extractions extraction.messageId with
  | some _ => .ok t
  | none => do
    require (∀ fact ∈ extraction.facts, fact.args.head? = some extraction.messageId) .factOfOtherMessage
    let row : FactExtraction := ⟨extraction.facts.length, position⟩
    .ok { t with extractions := Function.update t.extractions extraction.messageId (some row) }

def upsertViewRow (t : AccountTables) (change : DerivedViewMembershipChanged) :
    Except InvalidData AccountTables :=
  match t.derived.find? fun row => row.membershipId = change.membershipId with
  | some row => do
    require (row.viewId = change.viewId ∧ row.messageId = change.messageId ∧ row.uid = change.uid ∧
      row.ruleVersionHash = change.ruleVersionHash) .viewMembershipChangedIdentity
    .ok (updateDerivedRow t change.membershipId change.isVisible change.materializedAtUnixUs)
  | none =>
    insertDerivedRow t ⟨change.membershipId, change.viewId, change.messageId, change.uid,
      change.isVisible, change.ruleVersionHash, change.materializedAtUnixUs⟩

def viewRows (t : AccountTables) (change : DerivedViewMembershipChanged) :
    Except InvalidData AccountTables := do
  require (change.uid ≠ 0 ∧ change.uid ≠ maxGuint64 ∧ change.uidvalidity ≠ 0) .viewMembershipIncomplete
  let t ← upsertViewRow t change
  advanceViewUidState t change

def mutationRows (t : AccountTables) (mutation : FactMutation) (position : Position) :
    Except InvalidData AccountTables := do
  require (mutation.scopeId ≠ .empty ∧ mutation.predicateId ≠ .empty ∧ position.sequence ≠ 0)
    .factMutationIncomplete
  .ok t

/-- The account's rows after one record. -/
def rows (t : AccountTables) (record : ProjectionRecord) : Except InvalidData AccountTables :=
  match record.event with
  | .messageDelivered delivery =>
    deliverRows seed account t [(record.position, deliveredRecord delivery)]
  | .flagChanged change => applyFlagChange t change record.position
  | .factMutated mutation => mutationRows t mutation record.position
  | .factsExtracted extraction => extractionRows t extraction record.position
  | .derivedViewMembershipChanged change => viewRows t change
  | .membershipsExpunged expunge => applyMembershipsExpunged t expunge record.position
  | .membershipsCopied copy => applyMembershipsCopied false t copy record.position
  | .membershipsMoved move => applyMembershipsCopied true t move record.position
  | .messageAppended append => appendRows seed t append record.position

/-- The account's rows after its records in order. -/
def replayRows (t : AccountTables) (records : List ProjectionRecord) : Except InvalidData AccountTables :=
  records.foldlM (rows seed account) t

end

/-! ## The shared tables -/

/-- The rows of the shared tables that a record needs. -/
structure Fits (objects : Registry CString ℕ) (derivedOwner : Registry CString CString)
    (record : ProjectionRecord) : Prop where
  delivered : ∀ delivery, record.event = .messageDelivered delivery →
    objects delivery.objectKey = some delivery.sizeBytes
  appended : ∀ append, record.event = .messageAppended append →
    objects append.objectKey = some append.sizeBytes
  changed : ∀ change, record.event = .derivedViewMembershipChanged change →
    derivedOwner change.membershipId = some change.accountId

lemma Fits.mono {objects objects' : Registry CString ℕ} {owner owner' : Registry CString CString}
    {record : ProjectionRecord} (h : Fits objects owner record) (hobjects : objects.Within objects')
    (howner : owner.Within owner') : Fits objects' owner' record where
  delivered := fun delivery heq => hobjects _ _ (h.delivered delivery heq)
  appended := fun append heq => hobjects _ _ (h.appended append heq)
  changed := fun change heq => howner _ _ (h.changed change heq)

section
variable {seed : Provisioned} {account : CString} {s s' : Session} {t' : AccountTables}
  {objects : Registry CString ℕ} {owner : Registry CString CString}

lemma ensureObject_eq_ok {record : MessageRecord} (h : ensureObject s record = .ok s') :
    ∃ objects, s.objects.register record.objectKey record.sizeBytes = some objects ∧
      s' = { s with objects := objects } := by
  unfold ensureObject at h
  split at h
  · rename_i objects hobjects
    cases h
    exact ⟨objects, hobjects, rfl⟩
  · simp at h

lemma exists_ensureObject {record : MessageRecord} (hwithin : s.objects.Within objects)
    (hkey : objects record.objectKey = some record.sizeBytes) :
    ∃ objects', ensureObject s record = .ok { s with objects := objects' } ∧
      objects'.Within objects := by
  obtain ⟨objects', hregister, hwithin'⟩ := hwithin.exists_register hkey
  exact ⟨objects', by rw [ensureObject, hregister], hwithin'⟩

/-- One session is as far as the other in everything the accounts share. -/
structure SharedWithin (s s' : Session) : Prop where
  objects : s.objects.Within s'.objects
  owner : s.derivedOwner.Within s'.derivedOwner

lemma SharedWithin.refl (s : Session) : SharedWithin s s := ⟨.refl _, .refl _⟩

lemma SharedWithin.trans {s s' s'' : Session} (h : SharedWithin s s') (h' : SharedWithin s' s'') :
    SharedWithin s s'' := ⟨h.objects.trans h'.objects, h.owner.trans h'.owner⟩

/-! ### Deliveries -/

lemma applyRecord_rows {mailboxId : CString} {uidnext uidnext' : ℕ} {delivery : Position × MessageRecord}
    (h : applyRecord mailboxId (s, uidnext) delivery = .ok (s', uidnext')) :
    deliverMembership mailboxId s.tables uidnext delivery = .ok (s'.tables, uidnext') ∧
      SharedWithin s s' ∧ s'.objects delivery.2.objectKey = some delivery.2.sizeBytes := by
  obtain ⟨position, record⟩ := delivery
  simp only [applyRecord, bind_eq_ok] at h
  obtain ⟨u, hkey, s₁, hobject, t₁, hmessage, t₂, hheaders, found, hfound, h⟩ := h
  obtain ⟨objects, hregister, rfl⟩ := ensureObject_eq_ok hobject
  obtain ⟨hself, hwithin, -⟩ := Registry.register_eq_some hregister
  simp only [deliverMembership, bind_eq_ok]
  cases found with
  | true =>
    cases h
    exact ⟨⟨u, hkey, t₁, hmessage, t₂, hheaders, true, hfound, rfl⟩, ⟨hwithin, .refl _⟩, hself⟩
  | false =>
    simp only [Bool.false_eq_true, if_false, bind_eq_ok] at h
    obtain ⟨t₃, hinsert, heq⟩ := h
    cases heq
    refine ⟨⟨u, hkey, t₁, hmessage, t₂, hheaders, false, hfound, ?_⟩, ⟨hwithin, .refl _⟩, hself⟩
    simp only [Bool.false_eq_true, if_false, bind_eq_ok]
    exact ⟨t₃, hinsert, rfl⟩

lemma rows_applyRecord {mailboxId : CString} {uidnext uidnext' : ℕ} {delivery : Position × MessageRecord}
    (h : deliverMembership mailboxId s.tables uidnext delivery = .ok (t', uidnext'))
    (hwithin : s.objects.Within objects)
    (hkey : objects delivery.2.objectKey = some delivery.2.sizeBytes) :
    ∃ objects', applyRecord mailboxId (s, uidnext) delivery =
      .ok ({ s with objects := objects', tables := t' }, uidnext') ∧ objects'.Within objects := by
  obtain ⟨position, record⟩ := delivery
  obtain ⟨objects', hobject, hwithin'⟩ := exists_ensureObject hwithin hkey
  simp only [deliverMembership, bind_eq_ok] at h
  obtain ⟨u, hnonempty, t₁, hmessage, t₂, hheaders, found, hfound, h⟩ := h
  refine ⟨objects', ?_, hwithin'⟩
  simp only [applyRecord, bind_eq_ok]
  refine ⟨u, hnonempty, _, hobject, t₁, hmessage, t₂, hheaders, found, hfound, ?_⟩
  cases found with
  | true =>
    cases h
    rfl
  | false =>
    simp only [Bool.false_eq_true, if_false, bind_eq_ok] at h ⊢
    obtain ⟨t₃, hinsert, heq⟩ := h
    cases heq
    exact ⟨_, hinsert, rfl⟩

lemma foldl_applyRecord_rows {mailboxId : CString} {uidnext uidnext' : ℕ}
    {deliveries : List (Position × MessageRecord)}
    (h : deliveries.foldlM (applyRecord mailboxId) (s, uidnext) = .ok (s', uidnext')) :
    deliveries.foldlM (fun progress delivery => deliverMembership mailboxId progress.1 progress.2 delivery)
        (s.tables, uidnext) = .ok (s'.tables, uidnext') ∧
      SharedWithin s s' ∧ ∀ delivery ∈ deliveries, s'.objects delivery.2.objectKey =
        some delivery.2.sizeBytes := by
  induction deliveries generalizing s uidnext with
  | nil =>
    cases h
    exact ⟨rfl, .refl _, by simp⟩
  | cons delivery deliveries ih =>
    rw [List.foldlM_cons, bind_eq_ok] at h
    obtain ⟨⟨s₁, uidnext₁⟩, hfirst, hrest⟩ := h
    obtain ⟨hrows, hshared, hkey⟩ := applyRecord_rows hfirst
    obtain ⟨hrows', hshared', hkeys⟩ := ih hrest
    refine ⟨?_, hshared.trans hshared', ?_⟩
    · rw [List.foldlM_cons, bind_eq_ok]
      exact ⟨_, hrows, hrows'⟩
    · rw [List.forall_mem_cons]
      exact ⟨hshared'.objects _ _ hkey, hkeys⟩

lemma rows_foldl_applyRecord {mailboxId : CString} {uidnext uidnext' : ℕ}
    {deliveries : List (Position × MessageRecord)}
    (h : deliveries.foldlM (fun progress delivery => deliverMembership mailboxId progress.1 progress.2
      delivery) (s.tables, uidnext) = .ok (t', uidnext'))
    (hwithin : s.objects.Within objects)
    (hkeys : ∀ delivery ∈ deliveries, objects delivery.2.objectKey = some delivery.2.sizeBytes) :
    ∃ objects', deliveries.foldlM (applyRecord mailboxId) (s, uidnext) =
      .ok ({ s with objects := objects', tables := t' }, uidnext') ∧ objects'.Within objects := by
  induction deliveries generalizing s uidnext with
  | nil =>
    cases h
    exact ⟨s.objects, rfl, hwithin⟩
  | cons delivery deliveries ih =>
    rw [List.forall_mem_cons] at hkeys
    rw [List.foldlM_cons, bind_eq_ok] at h
    obtain ⟨⟨t₁, uidnext₁⟩, hfirst, hrest⟩ := h
    obtain ⟨objects₁, happly, hwithin₁⟩ := rows_applyRecord hfirst hwithin hkeys.1
    obtain ⟨objects', happly', hwithin'⟩ :=
      @ih { s with objects := objects₁, tables := t₁ } uidnext₁ hrest hwithin₁ hkeys.2
    refine ⟨objects', ?_, hwithin'⟩
    rw [List.foldlM_cons, bind_eq_ok]
    exact ⟨_, happly, happly'⟩

lemma applyToInbox_rows {deliveries : List (Position × MessageRecord)}
    (h : applyToInbox seed account s deliveries = .ok s') :
    deliverRows seed account s.tables deliveries = .ok s'.tables ∧ SharedWithin s s' ∧
      ∀ delivery ∈ deliveries, s'.objects delivery.2.objectKey = some delivery.2.sizeBytes := by
  simp only [applyToInbox, applyInTransaction, bind_eq_ok] at h
  obtain ⟨mailboxId, hinbox, t₁, hmailbox, t₂, hstate, uidnext, hselect, ⟨s₁, uidnext'⟩, hfold, t₃,
    hupdate, heq⟩ := h
  cases heq
  obtain ⟨hrows, hshared, hkeys⟩ := foldl_applyRecord_rows hfold
  refine ⟨?_, ⟨hshared.objects, hshared.owner⟩, hkeys⟩
  simp only [deliverRows, bind_eq_ok]
  exact ⟨mailboxId, hinbox, t₁, hmailbox, t₂, hstate, uidnext, hselect, _, hrows, hupdate⟩

lemma rows_applyToInbox {deliveries : List (Position × MessageRecord)}
    (h : deliverRows seed account s.tables deliveries = .ok t') (hwithin : s.objects.Within objects)
    (hkeys : ∀ delivery ∈ deliveries, objects delivery.2.objectKey = some delivery.2.sizeBytes) :
    ∃ objects', applyToInbox seed account s deliveries = .ok { s with objects := objects', tables := t' } ∧
      objects'.Within objects := by
  simp only [deliverRows, bind_eq_ok] at h
  obtain ⟨mailboxId, hinbox, t₁, hmailbox, t₂, hstate, uidnext, hselect, ⟨t₃, uidnext'⟩, hfold, hupdate⟩ := h
  obtain ⟨objects', happly, hwithin'⟩ :=
    @rows_foldl_applyRecord { s with tables := t₂ } _ _ _ _ _ _ hfold hwithin hkeys
  refine ⟨objects', ?_, hwithin'⟩
  simp only [applyToInbox, applyInTransaction, bind_eq_ok]
  exact ⟨mailboxId, hinbox, t₁, hmailbox, t₂, hstate, uidnext, hselect, _, happly, t', hupdate, rfl⟩

/-! ### Other records -/

lemma applyMessageAppended_rows {append : MessageAppended} {position : Position}
    (h : applyMessageAppended seed s append position = .ok s') :
    appendRows seed s.tables append position = .ok s'.tables ∧ SharedWithin s s' ∧
      s'.objects append.objectKey = some append.sizeBytes := by
  simp only [applyMessageAppended, bind_eq_ok] at h
  obtain ⟨t₁, hdestination, s₁, hobject, t₂, hmessage, t₃, hheaders, t₄, hinsert, heq⟩ := h
  obtain ⟨objects, hregister, rfl⟩ := ensureObject_eq_ok hobject
  obtain ⟨hself, hwithin, -⟩ := Registry.register_eq_some hregister
  cases heq
  refine ⟨?_, ⟨hwithin, .refl _⟩, hself⟩
  simp only [appendRows, bind_eq_ok]
  exact ⟨t₁, hdestination, t₂, hmessage, t₃, hheaders, hinsert⟩

lemma rows_applyMessageAppended {append : MessageAppended} {position : Position}
    (h : appendRows seed s.tables append position = .ok t') (hwithin : s.objects.Within objects)
    (hkey : objects append.objectKey = some append.sizeBytes) :
    ∃ objects', applyMessageAppended seed s append position =
      .ok { s with objects := objects', tables := t' } ∧ objects'.Within objects := by
  simp only [appendRows, bind_eq_ok] at h
  obtain ⟨t₁, hdestination, t₂, hmessage, t₃, hheaders, hinsert⟩ := h
  obtain ⟨objects', hobject, hwithin'⟩ :=
    @exists_ensureObject { s with tables := t₁ } objects (appendedRecord append) hwithin hkey
  refine ⟨objects', ?_, hwithin'⟩
  simp only [applyMessageAppended, bind_eq_ok]
  exact ⟨t₁, hdestination, _, hobject, t₂, hmessage, t₃, hheaders, t', hinsert, rfl⟩

lemma insertFactRow_shared (s : Session) (id : FactId) (account messageId : CString) (confidencePpm : ℕ)
    (position : Position) :
    ∃ facts, insertFactRow s id account messageId confidencePpm position = { s with facts := facts } := by
  unfold insertFactRow
  split
  · exact ⟨s.facts, rfl⟩
  · exact ⟨_, rfl⟩

lemma insertFact_shared (s : Session) (id : FactId) (mutation : FactMutation) (position : Position) :
    ∃ facts, insertFact s id mutation position = { s with facts := facts } := by
  have hinsert : ∀ s : Session, ∃ facts, insertFactRow s id mutation.scopeId
      (mutation.arguments.head?.getD .empty) 1000000 position = { s with facts := facts } :=
    fun s => insertFactRow_shared s ..
  unfold insertFact
  simp only
  split
  · split
    · obtain ⟨facts, hfacts⟩ := hinsert (setFact s id _)
      exact ⟨facts, hfacts⟩
    · exact hinsert s
  · exact hinsert s

lemma retractFact_shared (s : Session) (id : FactId) (position : Position) :
    ∃ facts, retractFact s id position = { s with facts := facts } := by
  unfold retractFact
  split
  · split
    · exact ⟨_, rfl⟩
    · exact ⟨s.facts, rfl⟩
  · exact ⟨s.facts, rfl⟩

lemma applyFactMutation_rows {mutation : FactMutation} {position : Position}
    (h : applyFactMutation s mutation position = .ok s') :
    mutationRows s.tables mutation position = .ok s'.tables ∧ SharedWithin s s' := by
  simp only [applyFactMutation, bind_eq_ok] at h
  obtain ⟨u, hguard, h⟩ := h
  have hfacts : ∃ facts, s' = { s with facts := facts } := by
    split at h
    · cases h
      exact insertFact_shared ..
    · cases h
      exact retractFact_shared ..
  obtain ⟨facts, rfl⟩ := hfacts
  simp only [mutationRows, bind_eq_ok]
  exact ⟨⟨u, hguard, trivial⟩, ⟨.refl _, .refl _⟩⟩

lemma rows_applyFactMutation {mutation : FactMutation} {position : Position}
    (h : mutationRows s.tables mutation position = .ok t') :
    ∃ facts, applyFactMutation s mutation position = .ok { s with facts := facts, tables := t' } := by
  simp only [mutationRows, bind_eq_ok] at h
  obtain ⟨u, hguard, heq⟩ := h
  cases heq
  simp only [applyFactMutation, bind_eq_ok]
  split
  · obtain ⟨facts, hfacts⟩ := insertFact_shared s
      ⟨mutation.predicateId, .literal "fact-mutation:" ++ mutation.scopeId, mutation.arguments⟩ mutation position
    exact ⟨facts, u, hguard, by rw [hfacts]⟩
  · obtain ⟨facts, hfacts⟩ := retractFact_shared s
      ⟨mutation.predicateId, .literal "fact-mutation:" ++ mutation.scopeId, mutation.arguments⟩ position
    exact ⟨facts, u, hguard, by rw [hfacts]⟩

lemma foldl_insertExtractedFact {extraction : FactsExtracted} {position : Position} {facts : List FactRecord} :
    (∀ s', facts.foldlM (insertExtractedFact extraction position) s = .ok s' →
      (∀ fact ∈ facts, fact.args.head? = some extraction.messageId) ∧
      ∃ stored, s' = { s with facts := stored }) ∧
    ((∀ fact ∈ facts, fact.args.head? = some extraction.messageId) → ∃ stored,
      facts.foldlM (insertExtractedFact extraction position) s = .ok { s with facts := stored }) := by
  induction facts generalizing s with
  | nil =>
    refine ⟨fun s' h => ?_, fun _ => ⟨s.facts, rfl⟩⟩
    cases h
    exact ⟨by simp, s.facts, rfl⟩
  | cons fact facts ih =>
    obtain ⟨inserted, hinserted⟩ := insertFactRow_shared s ⟨fact.predicate, fact.source, fact.args⟩
      extraction.accountId extraction.messageId fact.confidencePpm position
    constructor
    · intro s' h
      rw [List.foldlM_cons, bind_eq_ok] at h
      obtain ⟨s₁, hfirst, hrest⟩ := h
      simp only [insertExtractedFact, bind_eq_ok, require_eq_ok] at hfirst
      obtain ⟨-, hhead, heq⟩ := hfirst
      rw [hinserted] at heq
      cases heq
      obtain ⟨hall, stored, heq⟩ := ih.1 s' hrest
      exact ⟨List.forall_mem_cons.mpr ⟨hhead, hall⟩, stored, heq⟩
    · intro hall
      rw [List.forall_mem_cons] at hall
      obtain ⟨stored, hstored⟩ := (@ih { s with facts := inserted }).2 hall.2
      refine ⟨stored, ?_⟩
      rw [List.foldlM_cons, bind_eq_ok]
      refine ⟨{ s with facts := inserted }, ?_, hstored⟩
      simp only [insertExtractedFact, bind_eq_ok, require_eq_ok]
      exact ⟨(), hall.1, by rw [hinserted]⟩

lemma applyFactsExtracted_rows {extraction : FactsExtracted} {position : Position}
    (h : applyFactsExtracted s extraction position = .ok s') :
    extractionRows s.tables extraction position = .ok s'.tables ∧ SharedWithin s s' := by
  simp only [applyFactsExtracted, extractionRows, bind_eq_ok] at h ⊢
  obtain ⟨u, hguard, h⟩ := h
  cases hrow : s.tables.extractions extraction.messageId with
  | some row =>
    simp only [hrow] at h
    cases h
    exact ⟨⟨u, hguard, rfl⟩, .refl _⟩
  | none =>
    simp only [hrow] at h
    obtain ⟨hall, stored, heq⟩ := foldl_insertExtractedFact.1 s' h
    subst heq
    refine ⟨⟨u, hguard, ?_⟩, ⟨.refl _, .refl _⟩⟩
    simp only [bind_eq_ok, require_eq_ok]
    exact ⟨(), hall, trivial⟩

lemma rows_applyFactsExtracted {extraction : FactsExtracted} {position : Position}
    (h : extractionRows s.tables extraction position = .ok t') :
    ∃ facts, applyFactsExtracted s extraction position = .ok { s with facts := facts, tables := t' } := by
  simp only [applyFactsExtracted, extractionRows, bind_eq_ok] at h ⊢
  obtain ⟨u, hguard, h⟩ := h
  cases hrow : s.tables.extractions extraction.messageId with
  | some row =>
    simp only [hrow] at h
    cases h
    exact ⟨s.facts, u, hguard, rfl⟩
  | none =>
    simp only [hrow, bind_eq_ok, require_eq_ok] at h
    obtain ⟨-, hall, heq⟩ := h
    cases heq
    obtain ⟨stored, hstored⟩ := (@foldl_insertExtractedFact _ extraction position extraction.facts).2 hall
    exact ⟨stored, u, hguard, hstored⟩

lemma applyMembershipChange_rows {change : DerivedViewMembershipChanged}
    (h : applyMembershipChange s change = .ok s') :
    viewRows s.tables change = .ok s'.tables ∧ SharedWithin s s' ∧
      s'.derivedOwner change.membershipId = some change.accountId := by
  simp only [applyMembershipChange, bind_eq_ok] at h
  obtain ⟨u, hguard, s₁, hupsert, t₁, hadvance, heq⟩ := h
  cases heq
  simp only [viewRows, bind_eq_ok]
  unfold upsertViewMembership at hupsert
  split at hupsert
  · simp at hupsert
  · rename_i owner howner
    obtain ⟨hself, hwithin, -⟩ := Registry.register_eq_some howner
    split at hupsert
    · rename_i row hrow
      simp only [bind_eq_ok] at hupsert
      obtain ⟨u', hidentity, heq⟩ := hupsert
      cases heq
      refine ⟨⟨u, hguard, _, ?_, hadvance⟩, ⟨.refl _, hwithin⟩, hself⟩
      unfold upsertViewRow
      rw [hrow]
      simp only [bind_eq_ok]
      exact ⟨u', hidentity, trivial⟩
    · rename_i hnone
      simp only [bind_eq_ok] at hupsert
      obtain ⟨t₂, hinsert, heq⟩ := hupsert
      cases heq
      refine ⟨⟨u, hguard, _, ?_, hadvance⟩, ⟨.refl _, hwithin⟩, hself⟩
      unfold upsertViewRow
      rw [hnone]
      exact hinsert

lemma rows_applyMembershipChange {change : DerivedViewMembershipChanged}
    (h : viewRows s.tables change = .ok t') (hwithin : s.derivedOwner.Within owner)
    (hkey : owner change.membershipId = some change.accountId) :
    ∃ owner', applyMembershipChange s change = .ok { s with derivedOwner := owner', tables := t' } ∧
      owner'.Within owner := by
  obtain ⟨owner', hregister, hwithin'⟩ := hwithin.exists_register hkey
  simp only [viewRows, bind_eq_ok] at h
  obtain ⟨u, hguard, t₁, hupsert, hadvance⟩ := h
  refine ⟨owner', ?_, hwithin'⟩
  simp only [applyMembershipChange, bind_eq_ok]
  refine ⟨u, hguard, { s with derivedOwner := owner', tables := t₁ }, ?_, t', hadvance, rfl⟩
  unfold upsertViewMembership
  rw [hregister]
  unfold upsertViewRow at hupsert
  split at hupsert
  · rename_i row hrow
    simp only [bind_eq_ok] at hupsert
    obtain ⟨u', hidentity, heq⟩ := hupsert
    cases heq
    simp only [hrow, bind_eq_ok]
    exact ⟨u', hidentity, trivial⟩
  · rename_i hnone
    simp only [hnone, bind_eq_ok]
    exact ⟨t₁, hupsert, rfl⟩

/-! ### One record -/

lemma map_tables_eq_ok {result : Except InvalidData AccountTables}
    (h : (result.map fun t => { s with tables := t }) = .ok s') :
    result = .ok s'.tables ∧ SharedWithin s s' := by
  cases result with
  | error e => simp [Except.map] at h
  | ok t =>
    cases h
    exact ⟨rfl, ⟨.refl _, .refl _⟩⟩

/-- A record that is accepted changes its account's rows as `rows` says. -/
theorem apply_rows {record : ProjectionRecord} (h : apply seed account s record = .ok s') :
    rows seed account s.tables record = .ok s'.tables ∧ SharedWithin s s' ∧
      Fits s'.objects s'.derivedOwner record := by
  obtain ⟨position, event⟩ := record
  cases event with
  | messageDelivered delivery =>
    have hinbox : applyToInbox seed account s [(position, deliveredRecord delivery)] = .ok s' := h
    obtain ⟨hrows, hshared, hkeys⟩ := applyToInbox_rows hinbox
    exact ⟨hrows, hshared, ⟨by rintro _ ⟨⟩; exact hkeys _ (List.mem_singleton_self _), by simp, by simp⟩⟩
  | flagChanged change =>
    obtain ⟨hrows, hshared⟩ := @map_tables_eq_ok s s' (applyFlagChange s.tables change position) h
    exact ⟨hrows, hshared, ⟨by simp, by simp, by simp⟩⟩
  | factMutated mutation =>
    obtain ⟨hrows, hshared⟩ := applyFactMutation_rows h
    exact ⟨hrows, hshared, ⟨by simp, by simp, by simp⟩⟩
  | factsExtracted extraction =>
    obtain ⟨hrows, hshared⟩ := applyFactsExtracted_rows h
    exact ⟨hrows, hshared, ⟨by simp, by simp, by simp⟩⟩
  | derivedViewMembershipChanged change =>
    obtain ⟨hrows, hshared, hkey⟩ := applyMembershipChange_rows h
    exact ⟨hrows, hshared, ⟨by simp, by simp, by rintro _ ⟨⟩; exact hkey⟩⟩
  | membershipsExpunged expunge =>
    obtain ⟨hrows, hshared⟩ := @map_tables_eq_ok s s' (applyMembershipsExpunged s.tables expunge position) h
    exact ⟨hrows, hshared, ⟨by simp, by simp, by simp⟩⟩
  | membershipsCopied copy =>
    obtain ⟨hrows, hshared⟩ := @map_tables_eq_ok s s' (applyMembershipsCopied false s.tables copy position) h
    exact ⟨hrows, hshared, ⟨by simp, by simp, by simp⟩⟩
  | membershipsMoved move =>
    obtain ⟨hrows, hshared⟩ := @map_tables_eq_ok s s' (applyMembershipsCopied true s.tables move position) h
    exact ⟨hrows, hshared, ⟨by simp, by simp, by simp⟩⟩
  | messageAppended append =>
    obtain ⟨hrows, hshared, hkey⟩ := applyMessageAppended_rows h
    exact ⟨hrows, hshared, ⟨by simp, by rintro _ ⟨⟩; exact hkey, by simp⟩⟩

/-- A record that its account's rows accept is accepted wherever the shared tables hold no
    conflicting row. -/
theorem rows_apply {record : ProjectionRecord} (h : rows seed account s.tables record = .ok t')
    (hobjects : s.objects.Within objects) (howner : s.derivedOwner.Within owner)
    (hfits : Fits objects owner record) :
    ∃ s', apply seed account s record = .ok s' ∧ s'.tables = t' ∧ s'.objects.Within objects ∧
      s'.derivedOwner.Within owner := by
  obtain ⟨position, event⟩ := record
  have htables : ∀ {result : Except InvalidData AccountTables}, result = .ok t' →
      ∃ s', (result.map fun t => { s with tables := t }) = .ok s' ∧ s'.tables = t' ∧
        s'.objects.Within objects ∧ s'.derivedOwner.Within owner := by
    rintro result rfl
    exact ⟨_, rfl, rfl, hobjects, howner⟩
  cases event with
  | messageDelivered delivery =>
    obtain ⟨objects', happly, hwithin⟩ := rows_applyToInbox h hobjects
      (List.forall_mem_singleton.mpr (hfits.delivered delivery rfl))
    exact ⟨_, happly, rfl, hwithin, howner⟩
  | flagChanged change => exact @htables (applyFlagChange s.tables change position) h
  | factMutated mutation =>
    obtain ⟨facts, happly⟩ := rows_applyFactMutation h
    exact ⟨_, happly, rfl, hobjects, howner⟩
  | factsExtracted extraction =>
    obtain ⟨facts, happly⟩ := rows_applyFactsExtracted h
    exact ⟨_, happly, rfl, hobjects, howner⟩
  | derivedViewMembershipChanged change =>
    obtain ⟨owner', happly, hwithin⟩ := rows_applyMembershipChange h howner (hfits.changed change rfl)
    exact ⟨_, happly, rfl, hobjects, hwithin⟩
  | membershipsExpunged expunge => exact @htables (applyMembershipsExpunged s.tables expunge position) h
  | membershipsCopied copy => exact @htables (applyMembershipsCopied false s.tables copy position) h
  | membershipsMoved move => exact @htables (applyMembershipsCopied true s.tables move position) h
  | messageAppended append =>
    obtain ⟨objects', happly, hwithin⟩ := rows_applyMessageAppended h hobjects
      (hfits.appended append rfl)
    exact ⟨_, happly, rfl, hwithin, howner⟩

end
end Wyrebox.AccountReplay
