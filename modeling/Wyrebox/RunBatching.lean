import Wyrebox.DeliveryRuns
import Wyrebox.PassState
import Wyrebox.RowFrames

set_option autoImplicit false

/-!
# Runs and single records

A run in one transaction leaves the catalog that its records leave one by one, and a pass applies
exactly the records before their account's hold.
-/
namespace Wyrebox.RunBatching
open Catalog Materializer Catchup Event Fallible PassInvariant CheckpointInvariant
open AccountRows AccountReplay Reapplication FirstApplication DeliveryRuns RowFrames
open JournalWriter (Position)

/-! ## The UIDNEXT column -/

section
variable {seed : Provisioned} {account : CString} {t t' : AccountTables} {position : Position}

lemma fits_of_uidState (hfits : UidnextFits t) (hsame : t'.uidState = t.uidState) : UidnextFits t' := by
  intro ns state hstate
  exact hfits ns state (hsame ▸ hstate)

lemma ensureUidStateValidity_fits {mailboxId : CString} {uidvalidity : ℕ} (hfits : UidnextFits t)
    (h : ensureUidStateValidity t mailboxId uidvalidity = .ok t') : UidnextFits t' := by
  simp only [ensureUidStateValidity, bind_eq_ok] at h
  obtain ⟨t₁, hinsert, -, -, heq⟩ := h
  rw [← Except.ok.inj heq]
  exact insertUidState_fits hfits (by simp [maxGuint64]) hinsert

lemma insertDestination_fits {row : Membership} (huid : row.uid ≤ maxGuint64) (hfits : UidnextFits t)
    (h : insertDestinationMembership t row = .ok t') : UidnextFits t' := by
  simp only [insertDestinationMembership, bind_eq_ok, require_eq_ok] at h
  obtain ⟨-, hne, -, -, t₁, hinsert, hupdate⟩ := h
  obtain ⟨-, -, rfl⟩ := insertMembershipRow_eq_ok hinsert
  have hready : UidnextFits { t with memberships := t.memberships ++ [row] } := fits_of_uidState hfits rfl
  exact updateUidnext_fits hready (fun n hn => max_le hn (Nat.lt_of_le_of_ne huid hne)) hupdate

lemma copyItem_fits {copy : MembershipsCopied} {tombstoneSource : Bool} {indexed : MembershipsCopiedItem × ℕ}
    (huid : indexed.1.dstUid ≤ maxGuint64) (hfits : UidnextFits t)
    (h : applyCopyItem copy tombstoneSource position t indexed = .ok t') : UidnextFits t' := by
  obtain ⟨item, index⟩ := indexed
  obtain ⟨found, t₁, -, hinsert, htombstone⟩ := applyCopyItem_eq_ok.mp h
  have hinserted : UidnextFits t₁ := by
    rcases hinsert with ⟨-, rfl⟩ | ⟨-, hinsert⟩
    · exact hfits
    · simp only [insertCopyMembership, bind_eq_ok] at hinsert
      obtain ⟨-, -, t₂, hrow, hflags⟩ := hinsert
      obtain ⟨flags, rfl⟩ := insertFlags_frame hflags
      exact fits_of_uidState (insertDestination_fits huid hfits hrow) rfl
  rcases htombstone with ⟨-, htombstone⟩ | ⟨-, rfl⟩
  · obtain ⟨memberships, rfl⟩ := tombstone_frame htombstone
    exact fits_of_uidState hinserted rfl
  · exact hinserted

lemma copied_fits {copy : MembershipsCopied} {tombstoneSources : Bool}
    (huids : ∀ item ∈ copy.items, item.dstUid ≤ maxGuint64) (hfits : UidnextFits t)
    (h : applyMembershipsCopied tombstoneSources t copy position = .ok t') : UidnextFits t' := by
  have hfold : ∀ (items : List (MembershipsCopiedItem × ℕ)) (s : AccountTables),
      (∀ indexed ∈ items, indexed.1.dstUid ≤ maxGuint64) → UidnextFits s →
      items.foldlM (applyCopyItem copy tombstoneSources position) s = .ok t' → UidnextFits t' := by
    intro items
    induction items with
    | nil =>
      intro s _ hs h
      rwa [← Except.ok.inj h]
    | cons item items ih =>
      intro s hitems hs h
      rw [List.forall_mem_cons] at hitems
      rw [List.foldlM_cons, bind_eq_ok] at h
      obtain ⟨s₁, hfirst, hrest⟩ := h
      exact ih _ hitems.2 (copyItem_fits hitems.1 hs hfirst) hrest
  simp only [applyMembershipsCopied, ensureCopyDestination, bind_eq_ok] at h
  obtain ⟨t₁, ⟨-, -, hvalidity⟩, hitems⟩ := h
  refine hfold _ _ (fun indexed hindexed => ?_) (ensureUidStateValidity_fits hfits hvalidity) hitems
  exact huids _ (List.fst_mem_of_mem_zipIdx hindexed)

lemma appendRows_fits {append : MessageAppended} (huid : append.uid ≤ maxGuint64) (hfits : UidnextFits t)
    (h : appendRows seed t append position = .ok t') : UidnextFits t' := by
  simp only [appendRows, bind_eq_ok] at h
  obtain ⟨t₁, hdestination, t₂, hmessage, t₃, hheaders, hinsert⟩ := h
  obtain ⟨messages, headers, rfl⟩ := storeMessage_frame hmessage hheaders
  have hready : UidnextFits t₁ := by
    obtain ⟨t₀, hmailbox, hvalidity⟩ := ensureAppendDestination_eq_ok.mp hdestination
    refine ensureUidStateValidity_fits ?_ hvalidity
    rcases hmailbox with ⟨-, rfl⟩ | ⟨-, -, hmailbox⟩
    · exact hfits
    · exact fits_of_uidState hfits (ensureMailbox_uidState hmailbox)
  simp only [insertAppendMembership, bind_eq_ok] at hinsert
  obtain ⟨found, -, hinsert⟩ := hinsert
  split at hinsert
  · rw [← Except.ok.inj hinsert]
    exact fits_of_uidState hready rfl
  · simp only [bind_eq_ok] at hinsert
    obtain ⟨t₄, hrow, hflags⟩ := hinsert
    obtain ⟨flags, rfl⟩ := insertFlags_frame hflags
    have hstored : UidnextFits { t₁ with messages := messages, headers := headers } := fits_of_uidState hready rfl
    exact fits_of_uidState (@insertDestination_fits _ t₄ ⟨_, _, _, append.uid, _, _, _, _, _⟩ huid hstored hrow) rfl

lemma viewRows_fits {change : DerivedViewMembershipChanged} (huid : change.uid ≤ maxGuint64) (hfits : UidnextFits t)
    (h : viewRows t change = .ok t') : UidnextFits t' := by
  simp only [viewRows, advanceViewUidState, bind_eq_ok, require_eq_ok] at h
  obtain ⟨-, ⟨-, hne, -⟩, t₁, hrow, t₂, hinsert, -, -, hupdate⟩ := h
  have hnext : change.uid + 1 ≤ maxGuint64 := Nat.lt_of_le_of_ne huid hne
  have hready : t₁.uidState = t.uidState := by
    unfold upsertViewRow at hrow
    split at hrow
    · simp only [bind_eq_ok] at hrow
      obtain ⟨-, -, heq⟩ := hrow
      rw [← Except.ok.inj heq]
      rfl
    · obtain ⟨-, -, rfl⟩ := insertDerivedRow_eq_ok hrow
      rfl
  exact updateUidnext_fits (insertUidState_fits (fits_of_uidState hfits hready) hnext hinsert)
    (fun n hn => max_le hn hnext) hupdate

lemma rows_fits {record : ProjectionRecord} (hdecoded : Decoded record) (hfits : UidnextFits t)
    (h : rows seed account t record = .ok t') : UidnextFits t' := by
  obtain ⟨position, event⟩ := record
  cases event with
  | messageDelivered delivery => exact deliverRows_fits hfits h
  | flagChanged change =>
    obtain ⟨flags, rfl⟩ := applyFlagChange_frame h
    exact fits_of_uidState hfits rfl
  | factMutated mutation =>
    change mutationRows t mutation position = .ok t' at h
    simp only [mutationRows, bind_eq_ok] at h
    obtain ⟨-, -, heq⟩ := h
    rwa [← Except.ok.inj heq]
  | factsExtracted extraction =>
    change extractionRows t extraction position = .ok t' at h
    simp only [extractionRows, bind_eq_ok] at h
    obtain ⟨-, -, h⟩ := h
    split at h
    · rwa [← Except.ok.inj h]
    · simp only [bind_eq_ok] at h
      obtain ⟨-, -, heq⟩ := h
      rw [← Except.ok.inj heq]
      exact fits_of_uidState hfits rfl
  | derivedViewMembershipChanged change => exact viewRows_fits hdecoded hfits h
  | membershipsExpunged expunge =>
    obtain ⟨memberships, rfl⟩ := expunged_frame h
    exact fits_of_uidState hfits rfl
  | membershipsCopied copy => exact copied_fits hdecoded hfits h
  | membershipsMoved move => exact copied_fits hdecoded hfits h
  | messageAppended append => exact appendRows_fits hdecoded hfits h

lemma replayRows_fits {records : List ProjectionRecord} (hdecoded : ∀ r ∈ records, Decoded r) (hfits : UidnextFits t)
    (h : replayRows seed account t records = .ok t') : UidnextFits t' := by
  induction records generalizing t with
  | nil => rwa [← Except.ok.inj h]
  | cons record records ih =>
    rw [List.forall_mem_cons] at hdecoded
    rw [replayRows, List.foldlM_cons, bind_eq_ok] at h
    obtain ⟨t₁, hfirst, hrest⟩ := h
    exact ih hdecoded.2 (rows_fits hdecoded.1 hfits hfirst) hrest

end

/-! ## Deliveries in one session -/

def registerAll (objects : Registry CString ℕ) (deliveries : List (Position × MessageRecord)) :
    Option (Registry CString ℕ) :=
  deliveries.foldlM (fun objects delivery => objects.register delivery.2.objectKey delivery.2.sizeBytes) objects

section
variable {seed : Provisioned} {account mailboxId : CString} {s s' : Session} {uidnext uidnext' : ℕ}
  {delivery : Position × MessageRecord} {deliveries : List (Position × MessageRecord)}

/-- A delivery registers its object and writes its rows, and neither looks at the other. -/
lemma applyRecord_eq_ok : applyRecord mailboxId (s, uidnext) delivery = .ok (s', uidnext') ↔
    ∃ objects t', s.objects.register delivery.2.objectKey delivery.2.sizeBytes = some objects ∧
      deliverMembership mailboxId s.tables uidnext delivery = .ok (t', uidnext') ∧
      s' = { s with objects := objects, tables := t' } := by
  obtain ⟨position, record⟩ := delivery
  constructor
  · intro h
    have hrows := (applyRecord_rows h).1
    simp only [applyRecord, bind_eq_ok] at h
    obtain ⟨u, hkey, s₁, hobject, t₁, hmessage, t₂, hheaders, found, hfound, h⟩ := h
    obtain ⟨objects, hregister, rfl⟩ := ensureObject_eq_ok hobject
    refine ⟨objects, s'.tables, hregister, hrows, ?_⟩
    cases found with
    | true =>
      cases h
      rfl
    | false =>
      simp only [Bool.false_eq_true, if_false, bind_eq_ok] at h
      obtain ⟨t₃, -, heq⟩ := h
      cases heq
      rfl
  · rintro ⟨objects, t', hregister, hrows, rfl⟩
    simp only [deliverMembership, bind_eq_ok] at hrows
    obtain ⟨u, hkey, t₁, hmessage, t₂, hheaders, found, hfound, hrows⟩ := hrows
    simp only [applyRecord, bind_eq_ok]
    have hobject : ensureObject s record = .ok { s with objects := objects } := by rw [ensureObject, hregister]
    refine ⟨u, hkey, _, hobject, t₁, hmessage, t₂, hheaders, found, hfound, ?_⟩
    cases found with
    | true =>
      cases hrows
      rfl
    | false =>
      simp only [Bool.false_eq_true, if_false, bind_eq_ok] at hrows ⊢
      obtain ⟨t₃, hinsert, heq⟩ := hrows
      cases heq
      exact ⟨_, hinsert, rfl⟩

lemma foldl_applyRecord_eq_ok : deliveries.foldlM (applyRecord mailboxId) (s, uidnext) = .ok (s', uidnext') ↔
    ∃ objects t', registerAll s.objects deliveries = some objects ∧
      deliverAll mailboxId (s.tables, uidnext) deliveries = .ok (t', uidnext') ∧
      s' = { s with objects := objects, tables := t' } := by
  induction deliveries generalizing s uidnext with
  | nil =>
    constructor
    · intro h
      cases h
      exact ⟨_, _, rfl, rfl, rfl⟩
    · rintro ⟨objects, t', hobjects, hrows, rfl⟩
      cases hobjects
      cases hrows
      rfl
  | cons delivery deliveries ih =>
    simp only [registerAll, deliverAll, List.foldlM_cons, bind_eq_ok, Option.bind_eq_bind, Option.bind_eq_some_iff]
    constructor
    · rintro ⟨⟨s₁, uidnext₁⟩, hfirst, hrest⟩
      obtain ⟨objects₁, t₁, hregister, hrows, rfl⟩ := applyRecord_eq_ok.mp hfirst
      obtain ⟨objects, t', hregisters, hrows', rfl⟩ := ih.mp hrest
      exact ⟨objects, t', ⟨objects₁, hregister, hregisters⟩, ⟨_, hrows, hrows'⟩, rfl⟩
    · rintro ⟨objects, t', ⟨objects₁, hregister, hregisters⟩, ⟨⟨t₁, uidnext₁⟩, hrows, hrows'⟩, rfl⟩
      exact ⟨_, applyRecord_eq_ok.mpr ⟨objects₁, t₁, hregister, hrows, rfl⟩,
        ih.mpr ⟨objects, t', hregisters, hrows', rfl⟩⟩

lemma applyToInbox_eq_ok : applyToInbox seed account s deliveries = .ok s' ↔
    ∃ objects t', registerAll s.objects deliveries = some objects ∧
      deliverRows seed account s.tables deliveries = .ok t' ∧ s' = { s with objects := objects, tables := t' } := by
  simp only [applyToInbox, applyInTransaction, deliverRows, bind_eq_ok]
  constructor
  · rintro ⟨mailboxId, hinbox, t₁, hmailbox, t₂, hstate, uidnext, hselect, ⟨s₁, uidnext'⟩, hfold, t₃,
      hupdate, heq⟩
    obtain ⟨objects, t', hobjects, hrows, rfl⟩ := foldl_applyRecord_eq_ok.mp hfold
    cases heq
    exact ⟨objects, t₃, hobjects,
      ⟨mailboxId, hinbox, t₁, hmailbox, t₂, hstate, uidnext, hselect, _, hrows, hupdate⟩, rfl⟩
  · rintro ⟨objects, t', hobjects,
      ⟨mailboxId, hinbox, t₁, hmailbox, t₂, hstate, uidnext, hselect, ⟨t₃, uidnext'⟩, hrows, hupdate⟩, rfl⟩
    exact ⟨mailboxId, hinbox, t₁, hmailbox, t₂, hstate, uidnext, hselect, _,
      foldl_applyRecord_eq_ok.mpr ⟨objects, t₃, hobjects, hrows, rfl⟩, t', hupdate, rfl⟩

/-- Splitting the first delivery from a transaction. -/
lemma applyToInbox_cons (hfits : UidnextFits s.tables) :
    applyToInbox seed account s (delivery :: deliveries) = .ok s' ↔
      ∃ s₁, applyToInbox seed account s [delivery] = .ok s₁ ∧ applyToInbox seed account s₁ deliveries = .ok s' := by
  have hone : ∀ objects objects', registerAll objects [delivery] = some objects' ↔
      objects.register delivery.2.objectKey delivery.2.sizeBytes = some objects' := by
    intro objects objects'
    simp [registerAll]
  have hobjects : ∀ objects', registerAll s.objects (delivery :: deliveries) = some objects' ↔
      ∃ objects₁, registerAll s.objects [delivery] = some objects₁ ∧ registerAll objects₁ deliveries = some objects' := by
    intro objects'
    simp only [hone]
    simp only [registerAll, List.foldlM_cons, Option.bind_eq_bind, Option.bind_eq_some_iff]
  constructor
  · intro h
    obtain ⟨objects', t', hregisters, hrows, rfl⟩ := applyToInbox_eq_ok.mp h
    obtain ⟨objects₁, hfirst, hrest⟩ := (hobjects objects').mp hregisters
    obtain ⟨t₁, hrows₁, hrows'⟩ := (deliverRows_cons hfits).mp hrows
    exact ⟨_, applyToInbox_eq_ok.mpr ⟨objects₁, t₁, hfirst, hrows₁, rfl⟩,
      applyToInbox_eq_ok.mpr ⟨objects', t', hrest, hrows', rfl⟩⟩
  · rintro ⟨s₁, hfirst, hrest⟩
    obtain ⟨objects₁, t₁, hregister, hrows, rfl⟩ := applyToInbox_eq_ok.mp hfirst
    obtain ⟨objects', t', hregisters, hrows', rfl⟩ := applyToInbox_eq_ok.mp hrest
    exact applyToInbox_eq_ok.mpr ⟨objects', t', (hobjects objects').mpr ⟨objects₁, hregister, hregisters⟩,
      (deliverRows_cons hfits).mpr ⟨t₁, hrows, hrows'⟩, rfl⟩

end

/-! ## Runs on the catalog -/

/-- The records one by one, each in a transaction of its own. -/
def applyEach (seed : Provisioned) (advanceCheckpoint : Bool) (cat : Catalog) (records : List ProjectionRecord) :
    Except InvalidData Catalog :=
  records.foldlM (fun cat record => applyRun seed ⟨record, []⟩ advanceCheckpoint cat) cat

def advanced (advanceCheckpoint : Bool) (position : Position) (cat : Catalog) : Catalog :=
  if advanceCheckpoint then { cat with checkpoint := saveCheckpoint cat.checkpoint position } else cat

section
variable {seed : Provisioned} {advance : Bool} {cat cat' : Catalog} {run : Run}
  {records more : List ProjectionRecord} {record : ProjectionRecord}

lemma applyRun_iff : applyRun seed run advance cat = .ok cat' ↔
    ∃ s, applyRecords seed run (cat.session run.account) = .ok s ∧
      cat' = advanced advance run.last.position (cat.withSession run.account s) := by
  unfold applyRun
  split
  · rename_i error herror
    simp [herror]
  · rename_i s hs
    simp only [hs, Except.ok.injEq, exists_eq_left']
    exact eq_comm

lemma applyEach_append : applyEach seed advance cat (records ++ more) = .ok cat' ↔
    ∃ cat₁, applyEach seed advance cat records = .ok cat₁ ∧ applyEach seed advance cat₁ more = .ok cat' := by
  rw [applyEach, List.foldlM_append, bind_eq_ok]
  rfl

lemma applyEach_cons : applyEach seed advance cat (record :: records) = .ok cat' ↔
    ∃ cat₁, applyRun seed ⟨record, []⟩ advance cat = .ok cat₁ ∧ applyEach seed advance cat₁ records = .ok cat' := by
  rw [applyEach, List.foldlM_cons, bind_eq_ok]
  rfl

/-- Raising the checkpoint twice is raising it to the later position. -/
lemma saveCheckpoint_saveCheckpoint {stored : Option Position} {p q : Position} (h : Precedes p q) :
    saveCheckpoint (saveCheckpoint stored p) q = saveCheckpoint stored q := by
  have hq : saveCheckpoint (some p) q = some q := if_pos (.inl h.2)
  cases stored with
  | none => exact hq
  | some c =>
    by_cases hp : c.sequence < p.sequence ∨ (c.sequence = p.sequence ∧ c.offset < p.offset)
    · have hcq : c.sequence < q.sequence := by
        have := h.2
        omega
      rw [show saveCheckpoint (some c) p = some p from if_pos hp, hq]
      exact (if_pos (.inl hcq)).symm
    · rw [show saveCheckpoint (some c) p = some c from if_neg hp]

lemma session_advanced (position : Position) (account : CString) (s : Session) :
    (advanced advance position (cat.withSession account s)).session account = s := by
  have htables : (Function.update cat.tables account s.tables) account = s.tables := Function.update_self ..
  cases advance with
  | false => simp only [advanced, Catalog.session, Catalog.withSession, Bool.false_eq_true, if_false, htables]
  | true => simp only [advanced, Catalog.session, Catalog.withSession, if_true, htables]

lemma advanced_advanced {p q : Position} (h : Precedes p q) (account : CString) (s s' : Session) :
    advanced advance q ((advanced advance p (cat.withSession account s)).withSession account s') =
      advanced advance q (cat.withSession account s') := by
  cases advance with
  | false =>
    simp only [advanced, Catalog.withSession, Bool.false_eq_true, if_false, Function.update_idem]
  | true =>
    simp only [advanced, Catalog.withSession, if_true, Function.update_idem, saveCheckpoint_saveCheckpoint h]

/-- The first delivery of a run in a transaction before the others. -/
lemma applyRun_cons {first next : ProjectionRecord} {rest : List ProjectionRecord} (hfirst : isDelivery first = true)
    (hnext : isDelivery next = true) (haccount : accountOf next = accountOf first)
    (hafter : ∀ r ∈ next :: rest, Precedes first.position r.position)
    (hfits : UidnextFits (cat.tables (accountOf first))) :
    applyRun seed ⟨first, next :: rest⟩ advance cat = .ok cat' ↔
      ∃ cat₁, applyRun seed ⟨first, []⟩ advance cat = .ok cat₁ ∧ applyRun seed ⟨next, rest⟩ advance cat₁ = .ok cat' := by
  obtain ⟨position, event⟩ := first
  cases event with
  | messageDelivered delivery =>
    have hlast : (Run.mk ⟨position, .messageDelivered delivery⟩ (next :: rest)).last = (Run.mk next rest).last :=
      List.getLast_cons (List.cons_ne_nil _ _)
    have hbefore : Precedes position (Run.mk next rest).last.position := hafter _ (Run.last_mem _)
    have hall : ∀ (s s' : Session), UidnextFits s.tables →
        (applyRecords seed ⟨⟨position, .messageDelivered delivery⟩, next :: rest⟩ s = .ok s' ↔
          ∃ s₁, applyRecords seed ⟨⟨position, .messageDelivered delivery⟩, []⟩ s = .ok s₁ ∧
            applyRecords seed ⟨next, rest⟩ s₁ = .ok s') := by
      intro s s' hfits
      simp only [applyRecords, hfirst, hnext, if_true, Run.records, Run.account, haccount,
        List.filterMap_cons_some (show deliveryOf ⟨position, .messageDelivered delivery⟩ =
          some (position, deliveredRecord delivery) from rfl), List.filterMap_nil]
      exact applyToInbox_cons hfits
    have hsame : (Run.mk next rest).account = accountOf ⟨position, .messageDelivered delivery⟩ := haccount
    constructor
    · intro h
      obtain ⟨s', hrecords, rfl⟩ := applyRun_iff.mp h
      obtain ⟨s₁, hone, hrest⟩ := (hall _ _ hfits).mp hrecords
      refine ⟨_, applyRun_iff.mpr ⟨s₁, hone, rfl⟩, applyRun_iff.mpr ⟨s', ?_, ?_⟩⟩
      · rw [hsame]
        exact (congrArg _ (session_advanced ..)).trans hrest
      · rw [hlast, hsame]
        exact (advanced_advanced hbefore ..).symm
    · rintro ⟨cat₁, hone, hrest⟩
      obtain ⟨s₁, hrecord, rfl⟩ := applyRun_iff.mp hone
      obtain ⟨s', hrecords, rfl⟩ := applyRun_iff.mp hrest
      refine applyRun_iff.mpr ⟨s', (hall _ _ hfits).mpr ⟨s₁, hrecord, ?_⟩, ?_⟩
      · rw [hsame] at hrecords
        exact (congrArg _ (session_advanced ..)).symm.trans hrecords
      · rw [hlast, hsame]
        exact advanced_advanced hbefore ..
  | _ => simp [isDelivery] at hfirst

lemma applyRun_fits (hsorted : Sorted run) (hdecoded : ∀ r ∈ run.records, Decoded r)
    (hfits : ∀ account, UidnextFits (cat.tables account)) (h : applyRun seed run advance cat = .ok cat') :
    ∀ account, UidnextFits (cat'.tables account) := by
  obtain ⟨s, hs, rfl⟩ := applyRun_iff.mp h
  obtain ⟨hrows, -, -⟩ := applyRecords_rows hsorted (hfits run.account) hs
  have htables : (advanced advance run.last.position (cat.withSession run.account s)).tables =
      Function.update cat.tables run.account s.tables := by
    cases advance <;> rfl
  intro account
  rw [htables]
  by_cases haccount : account = run.account
  · subst haccount
    rw [Function.update_self]
    exact replayRows_fits hdecoded (hfits _) hrows
  · rw [Function.update_of_ne haccount]
    exact hfits account

lemma single_uniform (record : ProjectionRecord) : Run.Uniform ⟨record, []⟩ := by
  intro r hr
  rw [List.mem_singleton.mp hr]
  rfl

lemma single_sorted (record : ProjectionRecord) : Sorted ⟨record, []⟩ := by
  cases hkind : isDelivery record with
  | true => exact .inl (by simp [Run.records, hkind])
  | false => exact .inr ⟨hkind, rfl⟩

/-- One transaction for a run is a transaction for each of its records. -/
theorem applyRun_eq_applyEach (hu : Run.Uniform run) (hsorted : Sorted run)
    (hdecoded : ∀ r ∈ run.records, Decoded r)
    (hordered : run.records.Pairwise fun r s => Precedes r.position s.position)
    (hfits : ∀ account, UidnextFits (cat.tables account)) :
    applyRun seed run advance cat = .ok cat' ↔ applyEach seed advance cat run.records = .ok cat' := by
  obtain ⟨first, rest⟩ := run
  have hone : ∀ record cat cat', applyRun seed ⟨record, []⟩ advance cat = .ok cat' ↔
      applyEach seed advance cat [record] = .ok cat' := by
    intro record cat cat'
    rw [applyEach_cons]
    constructor
    · exact fun h => ⟨cat', h, rfl⟩
    · rintro ⟨cat₁, h, heq⟩
      rwa [← Except.ok.inj heq]
  rcases hsorted with hall | ⟨-, hrest⟩
  · induction rest generalizing first cat with
    | nil => exact hone ..
    | cons next rest ih =>
      simp only [Run.records, List.forall_mem_cons, List.pairwise_cons] at hall hdecoded hordered
      have haccount : accountOf next = accountOf first := hu next (by simp [Run.records])
      have hnext : Run.Uniform ⟨next, rest⟩ := by
        intro r hr
        exact (hu r (List.mem_cons_of_mem _ hr)).trans haccount.symm
      have hfirst : Run.records ⟨first, next :: rest⟩ = first :: (Run.mk next rest).records := rfl
      rw [hfirst, applyEach_cons, applyRun_cons hall.1 hall.2.1 haccount
        (List.forall_mem_cons.mpr hordered.1) (hfits _)]
      refine exists_congr fun cat₁ => and_congr_right fun hcat₁ => ?_
      have hfits₁ := applyRun_fits (single_sorted first) (List.forall_mem_singleton.mpr hdecoded.1) hfits hcat₁
      exact ih hfits₁ next hnext (List.forall_mem_cons.mpr hdecoded.2) (List.pairwise_cons.mpr hordered.2)
        (List.forall_mem_cons.mpr hall.2)
  · obtain rfl : rest = [] := hrest
    exact hone ..

end

/-! ## What a pass applies -/

/-- The record's account is not held when the pass starts, and the record is before the account's
    hold. -/
def received (prior holds : List Hold) (record : ProjectionRecord) : Bool :=
  !isHeld prior (accountOf record) &&
    holds.all fun hold => hold.accountId ≠ accountOf record ∨ Precedes record.position hold.position

/-- Why a run is held: an object is missing, or the catalog after `before` refuses its records. -/
def Refused (seed : Provisioned) (env : Surroundings) (cat : Catalog) (before : List ProjectionRecord)
    (run : Run) : Prop :=
  (checksObjects run = true ∧ env.fault run.first.position = .objectUnavailable) ∨
    ∃ reached, applyEach seed false cat before = .ok reached ∧
      ∀ cat', applyEach seed false reached run.records ≠ .ok cat'

/-- What a pass that went over `done` has applied: the records before their account's hold, in
    order, and a hold stands at the first record of the run that was refused. -/
structure Received (seed : Provisioned) (env : Surroundings) (start : Progress) (done : List ProjectionRecord)
    (p : Progress) : Prop where
  committed : committedRecords p = committedRecords start ++ done.filter (received start.holds p.holds)
  applied : applyEach seed false start.catalog (done.filter (received start.holds p.holds)) =
    .ok { p.catalog with checkpoint := start.catalog.checkpoint }
  holds : ∃ new, p.holds = start.holds ++ new ∧ ∀ hold ∈ new, ∃ before run after,
    done = before ++ run.records ++ after ∧ hold = ⟨run.account, run.first.position⟩ ∧
      Refused seed env start.catalog (before.filter (received start.holds p.holds)) run

section
variable {seed : Provisioned} {env : Surroundings} {fromCheckpoint : Bool} {start p p' : Progress} {run : Run}
  {done records : List ProjectionRecord} {record : ProjectionRecord} {prior holds : List Hold}

lemma received_append {hold : Hold} (h : hold.accountId ≠ accountOf record ∨ Precedes record.position hold.position) :
    received prior (holds ++ [hold]) record = received prior holds record := by
  simp only [received, List.all_append, List.all_cons, List.all_nil, Bool.and_true]
  rw [decide_eq_true h, Bool.and_true]

lemma received_of_free (h : isHeld (prior ++ holds) (accountOf record) = false) :
    received prior (prior ++ holds) record = true := by
  have hprior : isHeld prior (accountOf record) = false := by
    rw [isHeld_append, Bool.or_eq_false_iff] at h
    exact h.1
  rw [received, hprior, Bool.not_false, Bool.true_and, List.all_eq_true]
  intro hold hmem
  rw [isHeld, List.any_eq_false] at h
  have hne := h hold hmem
  rw [decide_eq_true_eq] at hne
  exact decide_eq_true (.inl hne)

lemma received_of_held {hold : Hold} (hmem : hold ∈ holds) (haccount : hold.accountId = accountOf record)
    (hlate : ¬Precedes record.position hold.position) : received prior holds record = false := by
  rw [received, Bool.and_eq_false_iff, List.all_eq_false]
  exact .inr ⟨hold, hmem, by simp [haccount, hlate]⟩

lemma Precedes.asymm {p q : Position} (h : Precedes p q) : ¬Precedes q p :=
  fun h' => absurd (h.1.trans h'.1) (lt_irrefl _)

/-- The checkpoint decides nothing about a run. -/
lemma applyRun_without_checkpoint {advance : Bool} {cat cat' : Catalog} (checkpoint : Option Position)
    (h : applyRun seed run advance cat = .ok cat') :
    applyRun seed run false { cat with checkpoint := checkpoint } = .ok { cat' with checkpoint := checkpoint } := by
  obtain ⟨s, hs, rfl⟩ := applyRun_iff.mp h
  refine applyRun_iff.mpr ⟨s, hs, ?_⟩
  cases advance <;> rfl

lemma stepRun_refused (h : stepRun seed env fromCheckpoint p run = some (p.addHold run)) :
    (checksObjects run = true ∧ env.fault run.first.position = .objectUnavailable) ∨
      ∀ cat', applyRun seed run (fromCheckpoint && p.holds.isEmpty) p.catalog ≠ .ok cat' := by
  have hmore : ∀ q : Progress, q.holds = p.holds → q ≠ p.addHold run := by
    intro q hq heq
    rw [heq] at hq
    simp [Progress.addHold] at hq
  unfold stepRun at h
  split at h
  · exact absurd (Option.some.inj h) (hmore p rfl)
  · split at h
    · rename_i hmissing
      exact .inl hmissing
    · split at h
      · simp at h
      · split at h
        · exact absurd (Option.some.inj h) (hmore _ rfl)
        · rename_i error herror
          exact .inr fun cat' hcat' => by simp [herror] at hcat'

lemma exists_applyRun {advance advance' : Bool} {cat cat' : Catalog} {checkpoint : Option Position}
    (h : applyRun seed run advance { cat with checkpoint := checkpoint } = .ok cat') :
    ∃ cat'', applyRun seed run advance' cat = .ok cat'' := by
  obtain ⟨s, hs, -⟩ := applyRun_iff.mp h
  exact ⟨_, applyRun_iff.mpr ⟨s, hs, rfl⟩⟩

/-- Records before a hold's position stay received when the hold is added. -/
lemma filter_addHold (hbefore : ∀ r ∈ records, Precedes r.position run.first.position) :
    records.filter (received prior (p.addHold run).holds) = records.filter (received prior p.holds) := by
  refine List.filter_congr fun r hr => ?_
  exact received_append (.inr (hbefore r hr))

lemma filter_refused (hu : Run.Uniform run)
    (hordered : run.records.Pairwise fun r s => Precedes r.position s.position) :
    run.records.filter (received prior (p.addHold run).holds) = [] := by
  rw [List.filter_eq_nil_iff]
  intro r hr
  change ¬received prior (p.holds ++ [⟨run.account, run.first.position⟩]) r = true
  rw [received_of_held (List.mem_append_right _ (List.mem_singleton_self _)) (hu r hr).symm]
  · simp
  · rcases List.mem_cons.mp hr with rfl | hrest
    · exact Precedes.irrefl _
    · exact Precedes.asymm ((List.pairwise_cons.mp hordered).1 r hrest)

lemma Received.skip (h : Received seed env start done p) (hu : Run.Uniform run)
    (hordered : (done ++ run.records).Pairwise fun r s => Precedes r.position s.position)
    (hheld : isHeld p.holds run.account = true) :
    run.records.filter (received start.holds p.holds) = [] := by
  obtain ⟨new, hholds, hnew⟩ := h.holds
  rw [List.filter_eq_nil_iff]
  intro r hr
  rw [hholds, isHeld_append, Bool.or_eq_true] at hheld
  rcases hheld with hprior | hlater
  · simp [received, hu r hr, hprior]
  · rw [isHeld, List.any_eq_true] at hlater
    obtain ⟨hold, hmem, haccount⟩ := hlater
    rw [decide_eq_true_eq] at haccount
    obtain ⟨before, held, after, hdone, hposition, -⟩ := hnew hold hmem
    have hfirst : held.first ∈ done := by
      rw [hdone]
      exact List.mem_append_left _ (List.mem_append_right _ held.first_mem)
    have hlate := (List.pairwise_append.mp hordered).2.2 _ hfirst r hr
    rw [received_of_held (hholds ▸ List.mem_append_right _ hmem) (haccount.trans (hu r hr).symm)]
    · simp
    · rw [hposition]
      exact Precedes.asymm hlate

/-- One turn of the loop. -/
lemma Received.step (h : Received seed env start done p) (hu : Run.Uniform run) (hsorted : Sorted run)
    (hdecoded : ∀ r ∈ run.records, Decoded r)
    (hordered : (done ++ run.records).Pairwise fun r s => Precedes r.position s.position)
    (hfits : ∀ account, UidnextFits (p.catalog.tables account))
    (hstep : stepRun seed env fromCheckpoint p run = some p') :
    Received seed env start (done ++ run.records) p' ∧ ∀ account, UidnextFits (p'.catalog.tables account) := by
  obtain ⟨new, hholds, hnew⟩ := h.holds
  obtain ⟨hdone, hrun, hcross⟩ := List.pairwise_append.mp hordered
  have hlonger : ∀ hold ∈ new, ∃ before held after, done ++ run.records = before ++ held.records ++ after ∧
      hold = ⟨held.account, held.first.position⟩ ∧
      Refused seed env start.catalog (before.filter (received start.holds p.holds)) held := by
    intro hold hmem
    obtain ⟨before, held, after, hsplit, hposition, hrefused⟩ := hnew hold hmem
    exact ⟨before, held, after ++ run.records, by rw [hsplit, List.append_assoc], hposition, hrefused⟩
  have heach : ∀ cat', applyRun seed run false { p.catalog with checkpoint := start.catalog.checkpoint } = .ok cat' ↔
      applyEach seed false { p.catalog with checkpoint := start.catalog.checkpoint } run.records = .ok cat' :=
    fun cat' => applyRun_eq_applyEach hu hsorted hdecoded hrun hfits
  rcases stepRun_eq_some hstep with ⟨hheld, rfl⟩ | ⟨-, rfl⟩ | ⟨hfree, cat, happly, rfl⟩
  · have hnone := h.skip hu hordered hheld
    refine ⟨⟨?_, ?_, new, hholds, hlonger⟩, hfits⟩
    · rw [List.filter_append, hnone, List.append_nil]
      exact h.committed
    · rw [List.filter_append, hnone, List.append_nil]
      exact h.applied
  · have hkept := @filter_addHold p run done start.holds fun r hr => hcross r hr _ run.first_mem
    have hnone := @filter_refused p run start.holds hu hrun
    refine ⟨⟨?_, ?_, new ++ [⟨run.account, run.first.position⟩], ?_, ?_⟩, hfits⟩
    · rw [List.filter_append, hkept, hnone, List.append_nil]
      exact h.committed
    · rw [List.filter_append, hkept, hnone, List.append_nil]
      exact h.applied
    · change p.holds ++ [_] = _
      rw [hholds, List.append_assoc]
    · intro hold hmem
      rcases List.mem_append.mp hmem with hold' | hlast
      · obtain ⟨before, held, after, hsplit, hposition, hrefused⟩ := hnew hold hold'
        refine ⟨before, held, after ++ run.records, by rw [hsplit, List.append_assoc], hposition, ?_⟩
        rwa [@filter_addHold p run before start.holds fun r hr => hcross r (by
          rw [hsplit]
          exact List.mem_append_left _ (List.mem_append_left _ hr)) _ run.first_mem]
      · refine ⟨done, run, [], by rw [List.append_nil], List.mem_singleton.mp hlast, ?_⟩
        rw [hkept]
        rcases stepRun_refused hstep with hmissing | hrefused
        · exact .inl hmissing
        · refine .inr ⟨_, h.applied, fun cat' hcat' => ?_⟩
          obtain ⟨cat'', hcat''⟩ := exists_applyRun ((heach cat').mpr hcat')
          exact hrefused cat'' hcat''
  · have hall : run.records.filter (received start.holds p.holds) = run.records := by
      rw [List.filter_eq_self]
      intro r hr
      rw [hholds]
      exact received_of_free (by rw [← hholds, hu r hr]; exact hfree)
    refine ⟨⟨?_, ?_, new, hholds, hlonger⟩, applyRun_fits hsorted hdecoded hfits happly⟩
    · change committedRecords (p.commit run cat) = _ ++ (done ++ run.records).filter (received start.holds p.holds)
      rw [committedRecords_commit, h.committed, List.filter_append, hall, List.append_assoc]
    · change applyEach seed false start.catalog ((done ++ run.records).filter (received start.holds p.holds)) =
        .ok { cat with checkpoint := start.catalog.checkpoint }
      rw [List.filter_append, hall, applyEach_append]
      exact ⟨_, h.applied, (heach _).mp (applyRun_without_checkpoint _ happly)⟩

/-- The loop stops where a run fails outside the catalog, or goes over every run. -/
lemma Received.loop (h : Received seed env start done p) {more : List Run}
    (hruns : ∀ run ∈ more, Run.Uniform run ∧ Sorted run)
    (hdecoded : ∀ r ∈ more.flatMap Run.records, Decoded r)
    (hordered : (done ++ more.flatMap Run.records).Pairwise fun r s => Precedes r.position s.position)
    (hfits : ∀ account, UidnextFits (p.catalog.tables account)) :
    ∃ reached rest, more.flatMap Run.records = reached ++ rest ∧
      Received seed env start (done ++ reached) (passLoop seed env fromCheckpoint p more).1 ∧
      if (passLoop seed env fromCheckpoint p more).2 = true then rest = []
      else ∃ r, rest.head? = some r ∧ env.fault r.position = .failed := by
  induction more generalizing p done with
  | nil => exact ⟨[], [], rfl, by simpa [passLoop] using h, by simp [passLoop]⟩
  | cons run more ih =>
    rw [List.forall_mem_cons] at hruns
    rw [List.flatMap_cons] at hdecoded hordered ⊢
    rw [List.forall_mem_append] at hdecoded
    rw [passLoop]
    cases hstep : stepRun seed env fromCheckpoint p run with
    | none =>
      refine ⟨[], _, rfl, by simpa using h, ?_⟩
      simp only [Bool.false_eq_true, if_false]
      refine ⟨run.first, rfl, ?_⟩
      unfold stepRun at hstep
      split at hstep
      · simp at hstep
      · split at hstep
        · simp at hstep
        · split at hstep
          · assumption
          · split at hstep <;> simp at hstep
    | some p' =>
      have hrun : (done ++ run.records).Pairwise fun r s => Precedes r.position s.position :=
        hordered.sublist (by simp)
      obtain ⟨hstep', hfits'⟩ := h.step hruns.1.1 hruns.1.2 hdecoded.1 hrun hfits hstep
      obtain ⟨reached, rest, hsplit, hreached, hend⟩ :=
        ih hstep' hruns.2 hdecoded.2 (by rwa [List.append_assoc]) hfits'
      refine ⟨run.records ++ reached, rest, by rw [hsplit, List.append_assoc], ?_, hend⟩
      rwa [← List.append_assoc]

end

/-! ## Passes without a hold -/

/-- A pass that cuts its records into the given runs. -/
def passCut (cut : List ProjectionRecord → List Run) (seed : Provisioned) (env : Surroundings) (log : Log)
    (resumeAfter : Option Position) (priorHolds : List Hold) (cat : Catalog) : Progress × Option Report :=
  match passRecords env log cat resumeAfter with
  | none => (⟨cat, priorHolds, [], []⟩, none)
  | some records =>
    match passLoop seed env (startsAtCheckpoint cat resumeAfter) ⟨cat, priorHolds, [], []⟩ (cut records) with
    | (p, false) => (p, none)
    | (p, true) =>
      (p, some ⟨p.holds, records.length, scannedThrough records resumeAfter,
        p.materializedAccounts.insertionSort CString.Le⟩)

def singles (records : List ProjectionRecord) : List Run := records.map fun record => ⟨record, []⟩

/-- A pass that applies every record on its own. -/
def passEach : Provisioned → Surroundings → Log → Option Position → List Hold → Catalog →
    Progress × Option Report := passCut singles

lemma pass_eq_passCut (seed : Provisioned) : pass seed = passCut runs seed := rfl

/-- Nothing outside the catalog goes wrong at the run. -/
def Unimpeded (env : Surroundings) (run : Run) : Prop :=
  ¬(checksObjects run = true ∧ env.fault run.first.position = .objectUnavailable) ∧
    env.fault run.first.position ≠ .failed

def noteAccount (accounts : List CString) (record : ProjectionRecord) : List CString :=
  if isMembershipChange record then accounts else accounts.insert (accountOf record)

section
variable {seed : Provisioned} {env : Surroundings} {fromCheckpoint : Bool} {p p' : Progress} {run : Run}
  {accounts accounts' : List CString} {cat cat' : Catalog} {runs' : List Run}

lemma foldl_noteAccount (hu : Run.Uniform run) (hsorted : Sorted run) :
    run.records.foldl noteAccount accounts =
      if isMembershipChange run.first then accounts else accounts.insert run.account := by
  have hagain : ∀ (rest : List ProjectionRecord) (accounts : List CString), run.account ∈ accounts →
      (∀ r ∈ rest, accountOf r = run.account) → rest.foldl noteAccount accounts = accounts := by
    intro rest
    induction rest with
    | nil => exact fun _ _ _ => rfl
    | cons record rest ih =>
      intro accounts hmem hrest
      rw [List.forall_mem_cons] at hrest
      have hsame : noteAccount accounts record = accounts := by
        rw [noteAccount, hrest.1, List.insert_of_mem hmem, ite_self]
      rw [List.foldl_cons, hsame]
      exact ih accounts hmem hrest.2
  rw [Run.records, List.foldl_cons]
  rcases hsorted with hall | ⟨-, hrest⟩
  · have hother : isMembershipChange run.first = false := by
      have hfirst := hall _ run.first_mem
      unfold isDelivery at hfirst
      unfold isMembershipChange
      split at hfirst <;> simp_all
    rw [noteAccount, hother]
    exact hagain _ _ (List.mem_insert_self ..) fun r hr => hu r (List.mem_cons_of_mem _ hr)
  · rw [hrest]
    rfl

lemma stepRun_free (hholds : p.holds = []) : (stepRun seed env fromCheckpoint p run = some p' ∧ p'.holds = []) ↔
    Unimpeded env run ∧ ∃ cat, applyRun seed run fromCheckpoint p.catalog = .ok cat ∧ p' = p.commit run cat := by
  have hadvance : (fromCheckpoint && p.holds.isEmpty) = fromCheckpoint := by
    rw [hholds, List.isEmpty_nil, Bool.and_true]
  have hfree : isHeld p.holds run.account = false := by rw [hholds]; rfl
  constructor
  · rintro ⟨hstep, hholds'⟩
    rcases stepRun_eq_some hstep with ⟨hheld, -⟩ | ⟨-, rfl⟩ | ⟨-, cat, happly, rfl⟩
    · simp [hfree] at hheld
    · simp [Progress.addHold] at hholds'
    · refine ⟨⟨fun hmissing => ?_, fun hfailed => ?_⟩, cat, hadvance ▸ happly, rfl⟩
      · rw [stepRun, hfree, if_neg (by simp), if_pos hmissing] at hstep
        have hadd := congrArg Progress.holds (Option.some.inj hstep)
        rw [hholds'] at hadd
        simp [Progress.addHold] at hadd
      · rw [stepRun, hfree, if_neg (by simp), if_pos hfailed] at hstep
        split at hstep
        · have hadd := congrArg Progress.holds (Option.some.inj hstep)
          rw [hholds'] at hadd
          simp [Progress.addHold] at hadd
        · simp at hstep
  · rintro ⟨⟨hobjects, hfault⟩, cat, happly, rfl⟩
    refine ⟨?_, hholds⟩
    rw [stepRun, hfree, if_neg (by simp), if_neg hobjects, if_neg hfault, hadvance, happly]

/-- A loop without holds applies its records one by one. -/
lemma passLoop_free (hruns : ∀ run ∈ runs', Run.Uniform run ∧ Sorted run)
    (hdecoded : ∀ r ∈ runs'.flatMap Run.records, Decoded r)
    (hordered : (runs'.flatMap Run.records).Pairwise fun r s => Precedes r.position s.position)
    (hfits : ∀ account, UidnextFits (p.catalog.tables account)) (hholds : p.holds = []) :
    (∃ q, passLoop seed env fromCheckpoint p runs' = (q, true) ∧ q.holds = [] ∧ q.catalog = cat' ∧
        q.materializedAccounts = accounts') ↔
      (∀ run ∈ runs', Unimpeded env run) ∧
        applyEach seed fromCheckpoint p.catalog (runs'.flatMap Run.records) = .ok cat' ∧
        (runs'.flatMap Run.records).foldl noteAccount p.materializedAccounts = accounts' := by
  induction runs' generalizing p with
  | nil =>
    constructor
    · rintro ⟨q, hloop, -, hcat, haccounts⟩
      cases hloop
      exact ⟨by simp, by rw [← hcat]; rfl, haccounts⟩
    · rintro ⟨-, hcat, haccounts⟩
      exact ⟨p, rfl, hholds, Except.ok.inj hcat, haccounts⟩
  | cons run runs' ih =>
    rw [List.forall_mem_cons] at hruns ⊢
    rw [List.flatMap_cons] at hdecoded hordered ⊢
    rw [List.forall_mem_append] at hdecoded
    obtain ⟨hrun, hmore, -⟩ := List.pairwise_append.mp hordered
    have hnoted : ∀ cat, (p.commit run cat).materializedAccounts =
        run.records.foldl noteAccount p.materializedAccounts := by
      intro cat
      rw [foldl_noteAccount hruns.1.1 hruns.1.2]
      rfl
    have heach := fun cat' => @applyRun_eq_applyEach seed fromCheckpoint p.catalog cat' run hruns.1.1 hruns.1.2
      hdecoded.1 hrun hfits
    rw [applyEach_append, List.foldl_append]
    constructor
    · rintro ⟨q, hloop, hq, hcat, haccounts⟩
      rw [passLoop] at hloop
      cases hstep : stepRun seed env fromCheckpoint p run with
      | none => simp [hstep] at hloop
      | some p₁ =>
        rw [hstep] at hloop
        have hp₁ : p₁.holds = [] := by
          refine passLoop_holds (?_ : (passLoop seed env fromCheckpoint p₁ runs').1.holds = [])
          change passLoop seed env fromCheckpoint p₁ runs' = (q, true) at hloop
          rwa [hloop]
        obtain ⟨hfree, cat, happly, rfl⟩ := (stepRun_free hholds).mp ⟨hstep, hp₁⟩
        obtain ⟨hfrees, hrest, hnotes⟩ := (ih hruns.2 hdecoded.2 hmore
          (applyRun_fits hruns.1.2 hdecoded.1 hfits happly) hp₁).mp ⟨q, hloop, hq, hcat, haccounts⟩
        rw [hnoted] at hnotes
        exact ⟨⟨hfree, hfrees⟩, ⟨cat, (heach cat).mp happly, hrest⟩, hnotes⟩
    · rintro ⟨⟨hfree, hfrees⟩, ⟨cat, hfirst, hrest⟩, hnotes⟩
      have happly := (heach cat).mpr hfirst
      obtain ⟨hstep, hp₁⟩ := (stepRun_free hholds).mpr ⟨hfree, cat, happly, rfl⟩
      rw [passLoop, hstep]
      rw [← hnoted cat] at hnotes
      exact (ih hruns.2 hdecoded.2 hmore (applyRun_fits hruns.1.2 hdecoded.1 hfits happly) hp₁).mpr
        ⟨hfrees, hrest, hnotes⟩

end

/-! ## Passes over a journal -/

section
variable {seed : Provisioned} {env : Surroundings} {log : Log} {resumeAfter : Option Position} {prior : List Hold}
  {cat : Catalog} {records : List ProjectionRecord} {report : Report}

lemma flatMap_singles (records : List ProjectionRecord) : (singles records).flatMap Run.records = records := by
  induction records with
  | nil => rfl
  | cons record records ih =>
    rw [singles, List.map_cons, List.flatMap_cons]
    exact congrArg (record :: ·) ih

lemma singles_sorted : ∀ run ∈ singles records, Run.Uniform run ∧ Sorted run := by
  rw [singles, List.forall_mem_map]
  exact fun record _ => ⟨single_uniform record, single_sorted record⟩

lemma runs_sorted_uniform : ∀ run ∈ runs records, Run.Uniform run ∧ Sorted run :=
  fun run hrun => ⟨runs_uniform run hrun, runs_sorted run hrun⟩

lemma passRecords_within (h : passRecords env log cat resumeAfter = some records) :
    (∀ r ∈ records, r ∈ log.records) ∧ records.Pairwise fun r s => Precedes r.position s.position := by
  obtain ⟨before, hsplit, -⟩ := pendingRecords_spec (passRecords_eq_some h)
  have hordered := log.ordered
  rw [hsplit] at hordered
  refine ⟨fun r hr => ?_, (List.pairwise_append.mp hordered).2.1⟩
  rw [hsplit]
  exact List.mem_append_right _ hr

lemma passCut_eq_some {cut : List ProjectionRecord → List Run} {p : Progress} :
    passCut cut seed env log resumeAfter prior cat = (p, some report) ↔
      ∃ records, passRecords env log cat resumeAfter = some records ∧
        passLoop seed env (startsAtCheckpoint cat resumeAfter) ⟨cat, prior, [], []⟩ (cut records) = (p, true) ∧
        report = ⟨p.holds, records.length, scannedThrough records resumeAfter,
          p.materializedAccounts.insertionSort CString.Le⟩ := by
  unfold passCut
  cases hrecords : passRecords env log cat resumeAfter with
  | none => simp
  | some records =>
    rcases hloop : passLoop seed env (startsAtCheckpoint cat resumeAfter) ⟨cat, prior, [], []⟩ (cut records) with
      ⟨q, completed⟩
    cases completed with
    | false => simp [hloop]
    | true =>
      simp only [hloop, Option.some.injEq, Prod.mk.injEq, exists_eq_left', and_true]
      constructor
      · rintro ⟨rfl, rfl⟩
        exact ⟨rfl, rfl⟩
      · rintro ⟨rfl, rfl⟩
        exact ⟨rfl, rfl⟩

/-- Two ways to cut the records agree where neither holds an account. -/
lemma passCut_free {cut cut' : List ProjectionRecord → List Run} {p : Progress}
    (hcut : ∀ records, ∀ run ∈ cut records, Run.Uniform run ∧ Sorted run)
    (hcut' : ∀ records, ∀ run ∈ cut' records, Run.Uniform run ∧ Sorted run)
    (hall : ∀ records, (cut records).flatMap Run.records = records)
    (hall' : ∀ records, (cut' records).flatMap Run.records = records)
    (hdecoded : ∀ r ∈ log.records, Decoded r) (hfits : ∀ account, UidnextFits (cat.tables account))
    (hfree : ∀ records, passRecords env log cat resumeAfter = some records →
      (∀ run ∈ cut records, Unimpeded env run) → ∀ run ∈ cut' records, Unimpeded env run)
    (h : passCut cut seed env log resumeAfter [] cat = (p, some report)) (hholds : report.holds = []) :
    ∃ q, passCut cut' seed env log resumeAfter [] cat = (q, some report) ∧ q.catalog = p.catalog := by
  obtain ⟨records, hrecords, hloop, rfl⟩ := passCut_eq_some.mp h
  obtain ⟨hmem, hordered⟩ := passRecords_within hrecords
  have hdecoded' : ∀ r ∈ records, Decoded r := fun r hr => hdecoded r (hmem r hr)
  have hfreeLoop : ∀ cut : List ProjectionRecord → List Run,
      (∀ records, ∀ run ∈ cut records, Run.Uniform run ∧ Sorted run) →
      (∀ records, (cut records).flatMap Run.records = records) → ∀ cat' accounts',
      (∃ q, passLoop seed env (startsAtCheckpoint cat resumeAfter) ⟨cat, [], [], []⟩ (cut records) = (q, true) ∧
        q.holds = [] ∧ q.catalog = cat' ∧ q.materializedAccounts = accounts') ↔
      (∀ run ∈ cut records, Unimpeded env run) ∧
        applyEach seed (startsAtCheckpoint cat resumeAfter) cat records = .ok cat' ∧
        records.foldl noteAccount [] = accounts' := by
    intro cut hcut hall cat' accounts'
    have hfree := @passLoop_free seed env (startsAtCheckpoint cat resumeAfter) ⟨cat, [], [], []⟩ accounts' cat'
      (cut records) (hcut records)
    simp only [hall] at hfree
    exact hfree hdecoded' hordered hfits trivial
  obtain ⟨hclear, happly, hnotes⟩ := (hfreeLoop cut hcut hall _ _).mp ⟨p, hloop, hholds, rfl, rfl⟩
  obtain ⟨q, hloop', hq, hcat, haccounts⟩ := (hfreeLoop cut' hcut' hall' _ _).mpr
    ⟨hfree records hrecords hclear, happly, hnotes⟩
  have hsame : p.holds = q.holds := Eq.trans hholds hq.symm
  exact ⟨q, passCut_eq_some.mpr ⟨records, hrecords, hloop', by rw [hsame, haccounts]⟩, hcat⟩

lemma unimpeded_of_singles (h : ∀ run ∈ singles records, Unimpeded env run) : ∀ run ∈ runs records, Unimpeded env run := by
  intro run hrun
  have hfirst : run.first ∈ records := by
    rw [← runs_flatMap records]
    exact List.mem_flatMap_of_mem hrun run.first_mem
  exact h ⟨run.first, []⟩ (List.mem_map_of_mem hfirst)

/-- A pass that started applied the records before their account's hold. -/
lemma pass_received (hdecoded : ∀ r ∈ log.records, Decoded r) (hfits : ∀ account, UidnextFits (cat.tables account))
    (hrecords : passRecords env log cat resumeAfter = some records) :
    ∃ reached rest, records = reached ++ rest ∧
      Received seed env ⟨cat, prior, [], []⟩ reached (pass seed env log resumeAfter prior cat).1 ∧
      if (pass seed env log resumeAfter prior cat).2.isSome = true then rest = []
      else ∃ r, rest.head? = some r ∧ env.fault r.position = .failed := by
  obtain ⟨hmem, hordered⟩ := passRecords_within hrecords
  have hstart : Received seed env ⟨cat, prior, [], []⟩ [] ⟨cat, prior, [], []⟩ :=
    ⟨rfl, rfl, [], (List.append_nil _).symm, by simp⟩
  obtain ⟨reached, rest, hsplit, hreceived, hend⟩ := @Received.loop seed env
    (startsAtCheckpoint cat resumeAfter) _ _ _ hstart (runs records) runs_sorted_uniform
    (by rw [runs_flatMap]; exact fun r hr => hdecoded r (hmem r hr)) (by rw [runs_flatMap]; exact hordered) hfits
  rw [runs_flatMap] at hsplit
  rw [pass_eq _ _ _ _ _ _ hrecords]
  refine ⟨reached, rest, hsplit, hreceived, ?_⟩
  split at hend
  · rename_i hcomplete
    simp only [hcomplete, if_true, Option.isSome_some]
    exact hend
  · rename_i hcomplete
    simp only [hcomplete, if_false, Option.isSome_none, Bool.false_eq_true]
    exact hend

/-- Where no record fails, one transaction for each run and one for each record give the same
    catalog, checkpoint and report. Where records fail, a pass applies the records before their
    account's hold, in journal order; a hold stands at the first record of a run that was refused,
    and a pass ends early only where the database fails. -/
theorem run_batching (hdecoded : ∀ r ∈ log.records, Decoded r) (hfits : ∀ account, UidnextFits (cat.tables account))
    (env : Surroundings) (resumeAfter : Option Position) :
    (∀ p report, passEach seed env log resumeAfter [] cat = (p, some report) → report.holds = [] →
      ∃ q, pass seed env log resumeAfter [] cat = (q, some report) ∧ q.catalog = p.catalog) ∧
    (∀ p report, (∀ r ∈ log.records, Unimpeded env ⟨r, []⟩) →
      pass seed env log resumeAfter [] cat = (p, some report) → report.holds = [] →
      ∃ q, passEach seed env log resumeAfter [] cat = (q, some report) ∧ q.catalog = p.catalog) ∧
    ∀ prior p result, pass seed env log resumeAfter prior cat = (p, result) →
      ∀ records, passRecords env log cat resumeAfter = some records → ∃ reached rest, records = reached ++ rest ∧
        (if result.isSome = true then rest = [] else ∃ r, rest.head? = some r ∧ env.fault r.position = .failed) ∧
        Received seed env ⟨cat, prior, [], []⟩ reached p ∧
        (∀ hold ∈ p.holds, ∀ r ∈ committedRecords p, accountOf r = hold.accountId →
          Precedes r.position hold.position) ∧
        ∀ account, isHeld p.holds account = false →
          (committedRecords p).filter (fun r => accountOf r = account) =
            reached.filter fun r => accountOf r = account := by
  refine ⟨fun p report h hholds => ?_, fun p report hclear h hholds => ?_, ?_⟩
  · rw [pass_eq_passCut]
    exact passCut_free (fun _ => singles_sorted) (fun _ => runs_sorted_uniform) flatMap_singles runs_flatMap
      hdecoded hfits (fun _ _ => unimpeded_of_singles) h hholds
  · rw [pass_eq_passCut] at h
    refine passCut_free (fun _ => runs_sorted_uniform) (fun _ => singles_sorted) runs_flatMap flatMap_singles
      hdecoded hfits (fun records hrecords _ run hrun => ?_) h hholds
    obtain ⟨r, hr, rfl⟩ := List.mem_map.mp hrun
    exact hclear r ((passRecords_within hrecords).1 r hr)
  · intro prior p result hpass records hrecords
    obtain ⟨reached, rest, hsplit, hreceived, hend⟩ := @pass_received seed env log resumeAfter prior cat records
      hdecoded hfits hrecords
    rw [hpass] at hreceived hend
    have hcommitted : committedRecords p = reached.filter (received prior p.holds) := hreceived.committed
    refine ⟨reached, rest, hsplit, hend, hreceived, ?_, ?_⟩
    · intro hold hmem r hr haccount
      rw [hcommitted, List.mem_filter] at hr
      by_contra hlate
      rw [received_of_held hmem haccount.symm hlate] at hr
      simp at hr
    · intro account hfree
      rw [hcommitted, List.filter_filter]
      refine List.filter_congr fun r _ => ?_
      by_cases haccount : accountOf r = account
      · obtain ⟨new, hholds, -⟩ := hreceived.holds
        simp only at hholds
        rw [hholds] at hfree ⊢
        rw [received_of_free (haccount ▸ hfree), Bool.and_true]
      · simp [haccount]

/-- Two deliveries for Alice, the second without an object key, and one for Bob. -/
def refusedLog : Log :=
  ((Log.empty.append (some (PassState.sampleDelivery PassState.alice (.literal "object-1"))) 0).append
    (some (PassState.sampleDelivery PassState.alice .empty)) 0).append
    (some (PassState.sampleDelivery PassState.bob (.literal "object-2"))) 0

/-- The run of Alice's deliveries is held at its first record, and Bob's delivery is applied. -/
theorem run_batching_refused :
    let result := pass PassState.sampleSeed ⟨true, true, fun _ => .none⟩ refusedLog none []
      (.initial PassState.sampleSeed)
    result.1.holds = [⟨PassState.alice, ⟨0, 1⟩⟩] ∧
      (committedRecords result.1).filter (fun r => accountOf r = PassState.bob) =
        refusedLog.records.filter fun r => accountOf r = PassState.bob := by
  have hdecoded : ∀ r ∈ refusedLog.records, Decoded r := by
    simp [refusedLog, Log.append, Log.empty, Decoded, PassState.sampleDelivery]
  have hfits : ∀ account, UidnextFits ((Catalog.initial PassState.sampleSeed).tables account) := by
    intro account ns state hstate
    simp [Catalog.initial, Provisioned.accountTables] at hstate
  obtain ⟨reached, rest, hsplit, hend, -, -, hall⟩ := (@run_batching PassState.sampleSeed refusedLog _
    hdecoded hfits ⟨true, true, fun _ => .none⟩ none).2.2 [] _ _ rfl refusedLog.records rfl
  have hrest : rest = [] := by
    rwa [if_pos (by decide)] at hend
  rw [hrest, List.append_nil] at hsplit
  refine ⟨by decide, ?_⟩
  rw [hsplit]
  exact hall PassState.bob (by decide)

end

end Wyrebox.RunBatching
