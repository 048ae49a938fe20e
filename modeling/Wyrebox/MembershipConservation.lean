import Wyrebox.Convergence
import Wyrebox.Transaction

set_option autoImplicit false

/-!
# Conservation of memberships

COPY, MOVE and EXPUNGE records, each in a transaction of its own that may fail at any statement and
may be run again.
-/
namespace Wyrebox.MembershipConservation
open Catalog Materializer Catchup Event Fallible Transaction
open AccountRows AccountReplay Reapplication FirstApplication DeliveryRuns AccountCatchup
open JournalWriter (Position)

/-! ## The statements of a record -/

/-- `materializer_apply_copy_item` before it tombstones the source. -/
def copyDestination (copy : MembershipsCopied) (position : Position) (indexed : MembershipsCopiedItem × ℕ)
    (t : AccountTables) : Except InvalidData AccountTables := do
  let found ← destinationMembershipExists t copy.destMailboxId indexed.1.messageId indexed.1.dstUid indexed.2
    (itemMembershipId copy.destMailboxId position indexed.2) position
  if found then .ok t else insertCopyMembership t copy position indexed.1 indexed.2

def itemStatements (copy : MembershipsCopied) (tombstoneSource : Bool) (position : Position)
    (indexed : MembershipsCopiedItem × ℕ) : List (AccountTables → Except InvalidData AccountTables) :=
  copyDestination copy position indexed ::
    if tombstoneSource then
      [fun t => tombstoneMembershipUid copy.sourceMailboxId copy.sourceUidvalidity position t indexed.1.srcUid]
    else []

def copyStatements (copy : MembershipsCopied) (tombstoneSources : Bool) (position : Position) :
    List (AccountTables → Except InvalidData AccountTables) :=
  (fun t => ensureCopyDestination t copy) ::
    copy.items.zipIdx.flatMap (itemStatements copy tombstoneSources position)

def expungeStatements (expunge : MembershipsExpunged) (position : Position) :
    List (AccountTables → Except InvalidData AccountTables) :=
  expunge.uids.map fun uid t => tombstoneMembershipUid expunge.mailboxId expunge.uidvalidity position t uid

def isMembershipRecord (record : ProjectionRecord) : Bool :=
  match record.event with
  | .membershipsExpunged _ | .membershipsCopied _ | .membershipsMoved _ => true
  | _ => false

def rowStatements (record : ProjectionRecord) : List (AccountTables → Except InvalidData AccountTables) :=
  match record.event with
  | .membershipsExpunged expunge => expungeStatements expunge record.position
  | .membershipsCopied copy => copyStatements copy false record.position
  | .membershipsMoved move => copyStatements move true record.position
  | _ => []

/-- A statement on the rows of one account. -/
def onAccount (account : CString) (statement : AccountTables → Except InvalidData AccountTables)
    (cat : Catalog) : Except InvalidData Catalog :=
  (statement (cat.tables account)).map fun t => { cat with tables := Function.update cat.tables account t }

def statements (record : ProjectionRecord) (advanceCheckpoint : Bool) :
    List (Catalog → Except InvalidData Catalog) :=
  (rowStatements record).map (onAccount (accountOf record)) ++
    if advanceCheckpoint then
      [fun cat => .ok { cat with checkpoint := saveCheckpoint cat.checkpoint record.position }]
    else []

/-- One call of the materializer and where the database fails in it. -/
structure Attempt where
  record : ProjectionRecord
  advanceCheckpoint : Bool
  faults : Faults Catalog

def attempt (cat : Catalog) (a : Attempt) : Catalog × Bool :=
  let (c, committed) := transact a.faults (statements a.record a.advanceCheckpoint) ⟨cat, none⟩
  (c.current, committed)

def attemptAll (cat : Catalog) (attempts : List Attempt) : Catalog :=
  attempts.foldl (fun cat a => (attempt cat a).1) cat

/-! ## The statements and the records -/

section
variable {t t' : AccountTables} {position : Position}

lemma itemStatements_ok {copy : MembershipsCopied} {tombstoneSource : Bool}
    {indexed : MembershipsCopiedItem × ℕ}
    (h : (itemStatements copy tombstoneSource position indexed).foldlM (fun t statement => statement t) t = .ok t') :
    applyCopyItem copy tombstoneSource position t indexed = .ok t' := by
  obtain ⟨item, index⟩ := indexed
  rw [itemStatements, List.foldlM_cons] at h
  simp only [copyDestination, bind_eq_ok] at h
  obtain ⟨t₁, ⟨found, hfound, hinsert⟩, hsource⟩ := h
  refine applyCopyItem_eq_ok.mpr ⟨found, t₁, hfound, ?_, ?_⟩
  · cases found with
    | true => exact .inl ⟨rfl, (Except.ok.inj hinsert).symm⟩
    | false => exact .inr ⟨rfl, hinsert⟩
  · cases tombstoneSource with
    | true =>
      rw [if_pos rfl, List.foldlM_cons, bind_eq_ok] at hsource
      obtain ⟨t₂, htombstone, hlast⟩ := hsource
      obtain rfl : t₂ = t' := Except.ok.inj hlast
      exact .inl ⟨rfl, htombstone⟩
    | false => exact .inr ⟨rfl, (Except.ok.inj hsource).symm⟩

lemma foldlM_itemStatements {copy : MembershipsCopied} {tombstoneSource : Bool}
    {items : List (MembershipsCopiedItem × ℕ)}
    (h : (items.flatMap (itemStatements copy tombstoneSource position)).foldlM (fun t statement => statement t) t =
      .ok t') : items.foldlM (applyCopyItem copy tombstoneSource position) t = .ok t' := by
  induction items generalizing t with
  | nil => exact h
  | cons indexed items ih =>
    rw [List.flatMap_cons, List.foldlM_append, bind_eq_ok] at h
    obtain ⟨t₁, hfirst, hrest⟩ := h
    rw [List.foldlM_cons, bind_eq_ok]
    exact ⟨t₁, itemStatements_ok hfirst, ih hrest⟩

lemma copyStatements_ok {copy : MembershipsCopied} {tombstoneSources : Bool}
    (h : (copyStatements copy tombstoneSources position).foldlM (fun t statement => statement t) t = .ok t') :
    applyMembershipsCopied tombstoneSources t copy position = .ok t' := by
  rw [copyStatements, List.foldlM_cons, bind_eq_ok] at h
  obtain ⟨t₁, hensure, hitems⟩ := h
  rw [applyMembershipsCopied, bind_eq_ok]
  exact ⟨t₁, hensure, foldlM_itemStatements hitems⟩

lemma expungeStatements_eq (expunge : MembershipsExpunged) :
    (expungeStatements expunge position).foldlM (fun t statement => statement t) t =
      applyMembershipsExpunged t expunge position := by
  rw [expungeStatements, List.foldlM_map]
  rfl

lemma rowStatements_ok {seed : Provisioned} {account : CString} {record : ProjectionRecord}
    (hkind : isMembershipRecord record = true)
    (h : (rowStatements record).foldlM (fun t statement => statement t) t = .ok t') :
    rows seed account t record = .ok t' := by
  obtain ⟨position, event⟩ := record
  cases event with
  | membershipsExpunged expunge => exact (expungeStatements_eq expunge).symm.trans h
  | membershipsCopied copy => exact copyStatements_ok h
  | membershipsMoved move => exact copyStatements_ok h
  | _ => simp [isMembershipRecord] at hkind

lemma foldlM_onAccount {cat cat' : Catalog} {account : CString}
    {l : List (AccountTables → Except InvalidData AccountTables)}
    (h : (l.map (onAccount account)).foldlM (fun cat statement => statement cat) cat = .ok cat') :
    ∃ t', l.foldlM (fun t statement => statement t) (cat.tables account) = .ok t' ∧
      cat' = { cat with tables := Function.update cat.tables account t' } := by
  induction l generalizing cat with
  | nil =>
    obtain rfl : cat = cat' := Except.ok.inj h
    exact ⟨cat.tables account, rfl, by rw [Function.update_eq_self]⟩
  | cons statement l ih =>
    rw [List.map_cons, List.foldlM_cons, bind_eq_ok] at h
    obtain ⟨cat₁, hfirst, hrest⟩ := h
    cases hstatement : statement (cat.tables account) with
    | error error =>
      rw [onAccount, hstatement] at hfirst
      simp [Except.map] at hfirst
    | ok t₁ =>
      rw [onAccount, hstatement] at hfirst
      obtain rfl := Except.ok.inj hfirst
      obtain ⟨t', hmore, rfl⟩ := ih hrest
      simp only [Function.update_self] at hmore
      refine ⟨t', ?_, by simp only [Function.update_idem]⟩
      rw [List.foldlM_cons, bind_eq_ok]
      exact ⟨t₁, hstatement, hmore⟩

lemma applyRun_membership {seed : Provisioned} {cat : Catalog} {record : ProjectionRecord} {advance : Bool}
    (hkind : isMembershipRecord record = true)
    (h : rows seed (accountOf record) (cat.tables (accountOf record)) record = .ok t') :
    applyRun seed ⟨record, []⟩ advance cat = .ok
      { cat with
        tables := Function.update cat.tables (accountOf record) t'
        checkpoint := if advance then saveCheckpoint cat.checkpoint record.position else cat.checkpoint } := by
  have happly : applyRecords seed ⟨record, []⟩ (cat.session (accountOf record)) =
      .ok { cat.session (accountOf record) with tables := t' } := by
    have hmap : apply seed (accountOf record) (cat.session (accountOf record)) record =
        (rows seed (accountOf record) (cat.tables (accountOf record)) record).map
          fun t => { cat.session (accountOf record) with tables := t } := by
      obtain ⟨position, event⟩ := record
      cases event with
      | membershipsExpunged expunge => rfl
      | membershipsCopied copy => rfl
      | membershipsMoved move => rfl
      | _ => simp [isMembershipRecord] at hkind
    have hother : isDelivery record = false := by
      obtain ⟨position, event⟩ := record
      cases event with
      | messageDelivered delivery => simp [isMembershipRecord] at hkind
      | _ => rfl
    rw [applyRecords, if_neg (by simp [hother])]
    exact hmap.trans (by rw [h]; rfl)
  have haccount : (⟨record, []⟩ : Run).account = accountOf record := rfl
  rw [applyRun, haccount, happly]
  cases advance <;> rfl

/-- A committed attempt does what the record does in a pass. -/
theorem attempt_committed {seed : Provisioned} {cat : Catalog} {a : Attempt}
    (hkind : isMembershipRecord a.record = true) (h : (attempt cat a).2 = true) :
    applyRun seed ⟨a.record, []⟩ a.advanceCheckpoint cat = .ok (attempt cat a).1 := by
  cases htransact : transact a.faults (statements a.record a.advanceCheckpoint) ⟨cat, none⟩ with
  | mk c committed =>
    have hattempt : attempt cat a = (c.current, committed) := by rw [attempt, htransact]
    rw [hattempt] at h ⊢
    obtain rfl : committed = true := h
    have hall := transact_committed htransact
    rw [statements, List.foldlM_append, bind_eq_ok] at hall
    obtain ⟨cat₁, hrows, hlast⟩ := hall
    obtain ⟨t', hstatements, rfl⟩ := foldlM_onAccount hrows
    have hresult := @rowStatements_ok _ t' seed (accountOf a.record) _ hkind hstatements
    rw [applyRun_membership hkind hresult]
    cases hadvance : a.advanceCheckpoint with
    | true =>
      rw [hadvance] at hlast
      exact hlast
    | false =>
      rw [hadvance] at hlast
      exact hlast

theorem attempt_failed {cat : Catalog} {a : Attempt} (h : (attempt cat a).2 = false) : (attempt cat a).1 = cat := by
  cases htransact : transact a.faults (statements a.record a.advanceCheckpoint) ⟨cat, none⟩ with
  | mk c committed =>
    have hattempt : attempt cat a = (c.current, committed) := by rw [attempt, htransact]
    rw [hattempt] at h ⊢
    obtain rfl : committed = false := h
    exact transact_failed htransact

end

/-! ## What holds of every membership row -/

def Everywhere (P : Membership → Prop) (t : AccountTables) : Prop := ∀ row ∈ t.memberships, P row

/-- The record at the position inserts visible rows of its own and tombstones others. -/
structure Stable (P : Membership → Prop) (position : Position) : Prop where
  inserted : ∀ row : Membership, row.position = position → row.isVisible = true → row.expunged = none → P row
  tombstoned : ∀ row : Membership, P row → P { row with isVisible := false, expunged := some position }

section
variable {t t' : AccountTables} {position : Position} {P : Membership → Prop}

lemma Everywhere.of_eq (h : Everywhere P t) (hsame : t'.memberships = t.memberships) : Everywhere P t' := by
  rw [Everywhere, hsame]
  exact h

lemma Everywhere.insert {row : Membership} (h : Everywhere P t) (hp : Stable P position)
    (hposition : row.position = position) (hvisible : row.isVisible = true) (hexpunged : row.expunged = none)
    (hinsert : t.insertMembershipRow row = .ok t') : Everywhere P t' := by
  obtain ⟨-, -, rfl⟩ := insertMembershipRow_eq_ok hinsert
  exact List.forall_mem_append.mpr
    ⟨h, List.forall_mem_singleton.mpr (hp.inserted row hposition hvisible hexpunged)⟩

lemma Everywhere.expunge {membershipId : CString} (h : Everywhere P t) (hp : Stable P position) :
    Everywhere P (t.expungeRow membershipId position) := by
  intro row hrow
  obtain ⟨row', hrow', rfl⟩ := List.mem_map.mp hrow
  split
  · exact hp.tombstoned row' (h row' hrow')
  · exact h row' hrow'

lemma Everywhere.foldlM {α ε : Type} {f : AccountTables → α → Except ε AccountTables} {l : List α}
    (hf : ∀ a ∈ l, ∀ s s', f s a = .ok s' → Everywhere P s → Everywhere P s')
    (h : Everywhere P t) (hfold : l.foldlM f t = .ok t') : Everywhere P t' := by
  induction l generalizing t with
  | nil =>
    obtain rfl : t = t' := Except.ok.inj hfold
    exact h
  | cons a l ih =>
    rw [List.foldlM_cons, bind_eq_ok] at hfold
    obtain ⟨s, hfirst, hrest⟩ := hfold
    exact ih (fun b hb => hf b (List.mem_cons_of_mem _ hb)) (hf a List.mem_cons_self t s hfirst h) hrest

lemma Everywhere.tombstone {mailboxId : CString} {uidvalidity uid : ℕ} (h : Everywhere P t)
    (hp : Stable P position) (htombstone : tombstoneMembershipUid mailboxId uidvalidity position t uid = .ok t') :
    Everywhere P t' := by
  unfold tombstoneMembershipUid at htombstone
  split at htombstone
  · simp at htombstone
  · split at htombstone
    · obtain rfl := Except.ok.inj htombstone
      exact h.expunge hp
    · simp only [bind_eq_ok] at htombstone
      obtain ⟨-, -, heq⟩ := htombstone
      obtain rfl : t = t' := Except.ok.inj heq
      exact h

lemma updateUidnext_memberships {ns : Namespace} {f : ℕ → ℕ} (h : t.updateUidnext ns f = .ok t') :
    t'.memberships = t.memberships := by
  unfold AccountTables.updateUidnext at h
  split at h
  · obtain rfl : t = t' := Except.ok.inj h
    rfl
  · simp only [bind_eq_ok] at h
    obtain ⟨-, -, heq⟩ := h
    rw [← Except.ok.inj heq]
    rfl

lemma insertUidState_memberships {ns : Namespace} {state : UidState} (h : t.insertUidState ns state = .ok t') :
    t'.memberships = t.memberships := by
  rcases (insertUidState_eq_ok h).2 with ⟨-, rfl⟩ | ⟨-, rfl⟩ <;> rfl

lemma ensureUidStateValidity_memberships {mailboxId : CString} {uidvalidity : ℕ}
    (h : ensureUidStateValidity t mailboxId uidvalidity = .ok t') : t'.memberships = t.memberships := by
  simp only [ensureUidStateValidity, bind_eq_ok] at h
  obtain ⟨t₁, hinsert, -, -, heq⟩ := h
  rw [← Except.ok.inj heq]
  exact insertUidState_memberships hinsert

lemma insertMailbox_memberships (seed : Provisioned) (account mailboxId imapName : CString) :
    (insertMailbox seed account t mailboxId imapName).memberships = t.memberships := by
  unfold insertMailbox
  split <;> rfl

lemma insertFlags_memberships {mailboxId membershipId : CString} {systemFlags userKeywords : List CString}
    (h : insertFlags mailboxId membershipId position systemFlags userKeywords t = .ok t') :
    t'.memberships = t.memberships := by
  obtain ⟨flags, rfl, -⟩ := insertFlags_flagsOf h
  rfl

lemma Everywhere.insertDestination {row : Membership} (h : Everywhere P t) (hp : Stable P position)
    (hposition : row.position = position) (hvisible : row.isVisible = true) (hexpunged : row.expunged = none)
    (hinsert : insertDestinationMembership t row = .ok t') : Everywhere P t' := by
  simp only [insertDestinationMembership, bind_eq_ok] at hinsert
  obtain ⟨-, -, -, -, t₁, hrow, hupdate⟩ := hinsert
  exact (h.insert hp hposition hvisible hexpunged hrow).of_eq (updateUidnext_memberships hupdate)

lemma Everywhere.copyItem {copy : MembershipsCopied} {tombstoneSource : Bool}
    {indexed : MembershipsCopiedItem × ℕ} (h : Everywhere P t) (hp : Stable P position)
    (hitem : applyCopyItem copy tombstoneSource position t indexed = .ok t') : Everywhere P t' := by
  obtain ⟨item, index⟩ := indexed
  obtain ⟨found, t₁, -, hinsert, htombstone⟩ := applyCopyItem_eq_ok.mp hitem
  have hinserted : Everywhere P t₁ := by
    rcases hinsert with ⟨-, rfl⟩ | ⟨-, hinsert⟩
    · exact h
    · simp only [insertCopyMembership, bind_eq_ok] at hinsert
      obtain ⟨-, -, t₂, hrow, hflags⟩ := hinsert
      exact (h.insertDestination hp rfl rfl rfl hrow).of_eq (insertFlags_memberships hflags)
  rcases htombstone with ⟨-, htombstone⟩ | ⟨-, rfl⟩
  · exact hinserted.tombstone hp htombstone
  · exact hinserted

lemma Everywhere.copied {copy : MembershipsCopied} {tombstoneSources : Bool} (h : Everywhere P t)
    (hp : Stable P position) (hcopy : applyMembershipsCopied tombstoneSources t copy position = .ok t') :
    Everywhere P t' := by
  simp only [applyMembershipsCopied, ensureCopyDestination, bind_eq_ok] at hcopy
  obtain ⟨t₁, ⟨-, -, hvalidity⟩, hitems⟩ := hcopy
  exact (h.of_eq (ensureUidStateValidity_memberships hvalidity)).foldlM
    (fun _ _ _ _ hitem hs => hs.copyItem hp hitem) hitems

lemma storeMessage_memberships {record : MessageRecord} {t₁ : AccountTables}
    (hmessage : ensureMessage t position record = .ok t₁)
    (hheaders : ensureMessageHeaders t₁ position record = .ok t') : t'.memberships = t.memberships := by
  obtain ⟨messages, -, rfl⟩ := ensureMessage_eq_ok hmessage
  obtain ⟨headers, -, rfl⟩ := ensureMessageHeaders_eq_ok hheaders
  rfl

lemma Everywhere.delivered {seed : Provisioned} {account : CString} {record : MessageRecord}
    (h : Everywhere P t) (hp : Stable P position)
    (hdeliver : deliverRows seed account t [(position, record)] = .ok t') : Everywhere P t' := by
  simp only [deliverRows, bind_eq_ok] at hdeliver
  obtain ⟨mailboxId, -, t₁, hmailbox, t₂, hstate, uidnext, -, ⟨t₅, uidnext'⟩, hfold, hupdate⟩ := hdeliver
  rw [List.foldlM_cons, bind_eq_ok] at hfold
  obtain ⟨progress, hmembership, hfold⟩ := hfold
  obtain rfl : progress = (t₅, uidnext') := Except.ok.inj hfold
  simp only [deliverMembership, bind_eq_ok] at hmembership
  obtain ⟨-, -, t₃, hmessage, t₄, hheaders, found, -, hinsert⟩ := hmembership
  obtain ⟨rfl, -⟩ := ensureMailbox_eq_ok hmailbox
  have hstored : Everywhere P t₄ := h.of_eq (((storeMessage_memberships hmessage hheaders).trans
    (insertUidState_memberships hstate)).trans (insertMailbox_memberships ..))
  have hinserted : Everywhere P t₅ := by
    cases found with
    | true =>
      obtain ⟨rfl, -⟩ := Prod.mk.inj (Except.ok.inj hinsert)
      exact hstored
    | false =>
      simp only [Bool.false_eq_true, if_false, bind_eq_ok] at hinsert
      obtain ⟨t₆, hrow, heq⟩ := hinsert
      obtain ⟨rfl, -⟩ := Prod.mk.inj (Except.ok.inj heq)
      exact hstored.insert hp rfl rfl rfl hrow
  exact hinserted.of_eq (updateUidnext_memberships hupdate)

lemma Everywhere.appended {seed : Provisioned} {append : MessageAppended} (h : Everywhere P t)
    (hp : Stable P position) (happend : appendRows seed t append position = .ok t') : Everywhere P t' := by
  simp only [appendRows, bind_eq_ok] at happend
  obtain ⟨t₂, hdestination, t₃, hmessage, t₄, hheaders, hinsert⟩ := happend
  obtain ⟨t₁, hmailbox, hvalidity⟩ := ensureAppendDestination_eq_ok.mp hdestination
  have hmemberships : t₁.memberships = t.memberships := by
    rcases hmailbox with ⟨-, rfl⟩ | ⟨-, -, hmailbox⟩
    · rfl
    · obtain ⟨rfl, -⟩ := ensureMailbox_eq_ok hmailbox
      exact insertMailbox_memberships ..
  have hstored : Everywhere P t₄ := h.of_eq (((storeMessage_memberships hmessage hheaders).trans
    (ensureUidStateValidity_memberships hvalidity)).trans hmemberships)
  simp only [insertAppendMembership, bind_eq_ok] at hinsert
  obtain ⟨found, -, hinsert⟩ := hinsert
  cases found with
  | true =>
    obtain rfl : t₄ = t' := Except.ok.inj hinsert
    exact hstored
  | false =>
    simp only [Bool.false_eq_true, if_false, bind_eq_ok] at hinsert
    obtain ⟨t₅, hrow, hflags⟩ := hinsert
    exact (hstored.insertDestination hp rfl rfl rfl hrow).of_eq (insertFlags_memberships hflags)

lemma viewRows_memberships {change : DerivedViewMembershipChanged} (h : viewRows t change = .ok t') :
    t'.memberships = t.memberships := by
  simp only [viewRows, advanceViewUidState, bind_eq_ok] at h
  obtain ⟨-, -, t₁, hupsert, t₂, hinsert, -, -, hupdate⟩ := h
  have hupserted : t₁.memberships = t.memberships := by
    unfold upsertViewRow at hupsert
    split at hupsert
    · simp only [bind_eq_ok] at hupsert
      obtain ⟨-, -, heq⟩ := hupsert
      rw [← Except.ok.inj heq]
      rfl
    · obtain ⟨-, rfl⟩ := insertDerivedRow_eq_ok hupsert
      rfl
  exact ((updateUidnext_memberships hupdate).trans (insertUidState_memberships hinsert)).trans hupserted

theorem Everywhere.rows {seed : Provisioned} {account : CString} {record : ProjectionRecord} (h : Everywhere P t)
    (hp : Stable P record.position) (hdecoded : Decoded record) (hw : WellFormed t)
    (hrows : AccountReplay.rows seed account t record = .ok t') : Everywhere P t' := by
  obtain ⟨position, event⟩ := record
  cases event with
  | messageDelivered delivery => exact h.delivered hp hrows
  | flagChanged change =>
    have hfirst := rows_first hdecoded (fun move hmove => by simp at hmove) hw hrows
    obtain ⟨row, hrow⟩ : ∃ row, t.findUid change.mailboxId change.uidvalidity change.uid = some row := by
      change applyFlagChange t change position = .ok t' at hrows
      simp only [applyFlagChange, resolveFlagTarget, bind_eq_ok] at hrows
      obtain ⟨membershipId, htarget, -⟩ := hrows
      split at htarget
      · rename_i row hrow
        exact ⟨row, hrow⟩
      · simp at htarget
    obtain ⟨flags, happly, -⟩ := @applyFlagChange_cells position t change row hdecoded hrow
    obtain rfl : t' = { t with flags := flags } := Except.ok.inj (hrows.symm.trans happly)
    exact h
  | factMutated mutation =>
    change mutationRows t mutation position = .ok t' at hrows
    simp only [mutationRows, bind_eq_ok] at hrows
    obtain ⟨-, -, heq⟩ := hrows
    obtain rfl : t = t' := Except.ok.inj heq
    exact h
  | factsExtracted extraction =>
    change extractionRows t extraction position = .ok t' at hrows
    simp only [extractionRows, bind_eq_ok] at hrows
    obtain ⟨-, -, hrows⟩ := hrows
    split at hrows
    · obtain rfl : t = t' := Except.ok.inj hrows
      exact h
    · simp only [bind_eq_ok] at hrows
      obtain ⟨-, -, heq⟩ := hrows
      obtain rfl := Except.ok.inj heq
      exact h
  | derivedViewMembershipChanged change => exact h.of_eq (viewRows_memberships hrows)
  | membershipsExpunged expunge => exact h.foldlM (fun _ _ _ _ hstep hs => hs.tombstone hp hstep) hrows
  | membershipsCopied copy => exact h.copied hp hrows
  | membershipsMoved move => exact h.copied hp hrows
  | messageAppended append => exact h.appended hp hrows

/-- No membership was made or tombstoned by the record at the position. -/
def Untouched (t : AccountTables) (position : Position) : Prop :=
  Everywhere (fun row => row.position ≠ position ∧ row.expunged ≠ some position) t

lemma untouched_stable {other : Position} (hne : position ≠ other) :
    Stable (fun row => row.position ≠ other ∧ row.expunged ≠ some other) position where
  inserted row hposition _ hexpunged := ⟨hposition ▸ hne, by simp [hexpunged]⟩
  tombstoned _ h := ⟨h.1, fun heq => hne (Option.some.inj heq)⟩

/-- A row made by the record at the position is visible unless that record tombstoned it again. -/
def Fresh (t : AccountTables) (position : Position) : Prop :=
  Everywhere (fun row => row.position = position → row.isVisible = true ∨ row.expunged = some position) t

lemma fresh_stable :
    Stable (fun row => row.position = position → row.isVisible = true ∨ row.expunged = some position) position where
  inserted _ _ hvisible _ := fun _ => .inl hvisible
  tombstoned _ _ := fun _ => .inr rfl

lemma Untouched.fresh (h : Untouched t position) : Fresh t position :=
  fun row hrow hposition => absurd hposition (h row hrow).1

/-! ## A record applied to any rows -/

def DestinationAt (t : AccountTables) (mailboxId : CString) (uid : ℕ) (position : Position) : Prop :=
  ∃ row ∈ t.memberships, row.mailboxId = mailboxId ∧ row.uid = uid ∧ row.position = position

lemma DestinationAt.extends {touched : CString → ℕ → Prop} {at' : Position} {mailboxId : CString} {uid : ℕ}
    (h : DestinationAt t mailboxId uid at') (he : Extends position touched t t') :
    DestinationAt t' mailboxId uid at' := by
  obtain ⟨row, hrow, hmailbox, huid, hposition⟩ := h
  obtain ⟨row', hrow', haged⟩ := he.memberships row hrow
  have hsame := Aged.same haged
  exact ⟨row', hrow', hsame.mailboxId.trans hmailbox, hsame.uid.trans huid, hsame.position.trans hposition⟩

def anyUid (_ : CString) (_ : ℕ) : Prop := True

/-- The destination of an item is there, and the source of a MOVE is tombstoned. -/
def MovedItem (copy : MembershipsCopied) (tombstoneSource : Bool) (position : Position)
    (indexed : MembershipsCopiedItem × ℕ) (t : AccountTables) : Prop :=
  DestinationAt t copy.destMailboxId indexed.1.dstUid position ∧
    (tombstoneSource = true →
      Tombstoned t copy.sourceMailboxId copy.sourceUidvalidity indexed.1.srcUid position)

lemma MovedItem.extends {touched : CString → ℕ → Prop} {at' : Position} {copy : MembershipsCopied}
    {tombstoneSource : Bool} {indexed : MembershipsCopiedItem × ℕ}
    (h : MovedItem copy tombstoneSource at' indexed t) (he : Extends position touched t t') (hw : WellFormed t)
    (hw' : WellFormed t') : MovedItem copy tombstoneSource at' indexed t' :=
  ⟨h.1.extends he, fun hmove => Tombstoned.extends he hw hw' (h.2 hmove)⟩

/-- An item may be a source of the same MOVE as well. -/
lemma applyCopyItem_conserves {copy : MembershipsCopied} {tombstoneSource : Bool}
    {indexed : MembershipsCopiedItem × ℕ} (hw : WellFormed t)
    (hstate : HasUidState t copy.destMailboxId copy.destUidvalidity) (huid : indexed.1.dstUid ≤ maxGuint64)
    (h : applyCopyItem copy tombstoneSource position t indexed = .ok t') :
    Progresses position anyUid t t' ∧ MovedItem copy tombstoneSource position indexed t' := by
  obtain ⟨item, index⟩ := indexed
  obtain ⟨found, t₁, hfound, hinsert, htombstone⟩ := applyCopyItem_eq_ok.mp h
  have hinserted : Progresses position anyUid t t₁ ∧ DestinationAt t₁ copy.destMailboxId item.dstUid position := by
    rcases hinsert with ⟨rfl, rfl⟩ | ⟨rfl, hinsert⟩
    · obtain ⟨row, hrow, -, hmailbox, -, huid', -, hposition⟩ := destinationMembershipExists_true.mp hfound
      exact ⟨.refl hw, row, ((findMembership_eq_some hw).mp hrow).1, hmailbox, huid', hposition⟩
    · simp only [insertCopyMembership, bind_eq_ok] at hinsert
      obtain ⟨-, -, t₂, hrow, hflags⟩ := hinsert
      obtain ⟨state, hsome, -⟩ := hstate.exists
      obtain ⟨hprogress, hfind⟩ := @insertMembershipWithFlags_progresses position anyUid t t₂ t₁
        ⟨itemMembershipId copy.destMailboxId position index, copy.destMailboxId, item.messageId, item.dstUid,
          item.internalDateUnixUs, position, index, true, none⟩ _ _ hw ⟨state, hsome⟩ huid hrow hflags
      exact ⟨hprogress, _, ((findMembership_eq_some hprogress.wellFormed).mp hfind).1, rfl, rfl, rfl⟩
  obtain ⟨hprogress, hdestination⟩ := hinserted
  rcases htombstone with ⟨hmove, htombstone⟩ | ⟨hcopy, rfl⟩
  · obtain ⟨hprogress', htombstoned⟩ :=
      @tombstoneMembershipUid_progresses position anyUid t₁ t' _ _ _ hprogress.wellFormed trivial htombstone
    exact ⟨hprogress.trans hprogress', hdestination.extends hprogress'.extended, fun _ => htombstoned⟩
  · exact ⟨hprogress, hdestination, fun hmove => absurd hmove (by simp [hcopy])⟩

/-- Every destination of a MOVE is there and every source is tombstoned by it. -/
def MovedWhole (t : AccountTables) (move : MembershipsCopied) (position : Position) : Prop :=
  ∀ item ∈ move.items, DestinationAt t move.destMailboxId item.dstUid position ∧
    Tombstoned t move.sourceMailboxId move.sourceUidvalidity item.srcUid position

lemma MovedWhole.extends {touched : CString → ℕ → Prop} {at' : Position} {move : MembershipsCopied}
    (h : MovedWhole t move at') (he : Extends position touched t t') (hw : WellFormed t) (hw' : WellFormed t') :
    MovedWhole t' move at' :=
  fun item hitem => ⟨(h item hitem).1.extends he, Tombstoned.extends he hw hw' (h item hitem).2⟩

lemma applyMembershipsCopied_conserves {copy : MembershipsCopied} {tombstoneSources : Bool} (hw : WellFormed t)
    (huids : ∀ item ∈ copy.items, item.dstUid ≤ maxGuint64)
    (h : applyMembershipsCopied tombstoneSources t copy position = .ok t') :
    Progresses position anyUid t t' ∧ (tombstoneSources = true → MovedWhole t' copy position) := by
  simp only [applyMembershipsCopied, ensureCopyDestination, bind_eq_ok, require_eq_ok] at h
  obtain ⟨t₁, ⟨-, -, hvalidity⟩, hitems⟩ := h
  obtain ⟨hprogress, hstate⟩ := @ensureUidStateValidity_progresses position anyUid t t₁ _ _ hw hvalidity
  obtain ⟨hprogress', hall⟩ := @foldlM_establishes position anyUid t₁ t' _ _ _
    (fun s => HasUidState s copy.destMailboxId copy.destUidvalidity) (MovedItem copy tombstoneSources position) _
    (fun s s' hs he => HasUidState.extends he hs)
    (fun indexed hindexed s s' hws hs hstep =>
      applyCopyItem_conserves hws hs (huids _ (fst_mem_of_zipIdx hindexed)) hstep)
    (fun _ _ _ _ hws hss hq => hq.extends hss.extended hws hss.wellFormed)
    hprogress.wellFormed hstate hitems
  refine ⟨hprogress.trans hprogress', fun hmove item hitem => ?_⟩
  obtain ⟨index, hindex, rfl⟩ := List.getElem_of_mem hitem
  have hindexed : (copy.items[index], index) ∈ copy.items.zipIdx :=
    List.mk_mem_zipIdx_iff_getElem?.mpr (List.getElem?_eq_getElem hindex)
  exact ⟨(hall _ hindexed).1, (hall _ hindexed).2 hmove⟩

/-- A record of any kind leaves well-formed rows that extend the old ones. -/
theorem rows_progress {seed : Provisioned} {account : CString} {record : ProjectionRecord}
    (hdecoded : Decoded record) (hw : WellFormed t) (h : AccountReplay.rows seed account t record = .ok t') :
    WellFormed t' ∧ Extends record.position anyUid t t' := by
  by_cases hseparate : SeparateRecord record
  · have hfirst := rows_first hdecoded hseparate hw h
    exact ⟨hfirst.wellFormed, hfirst.extended⟩
  · obtain ⟨position, event⟩ := record
    cases event with
    | membershipsMoved move =>
      have hprogress := (applyMembershipsCopied_conserves hw hdecoded h).1
      exact ⟨hprogress.wellFormed, hprogress.extended⟩
    | _ => exact absurd (fun move hmove => by simp at hmove) hseparate

end

/-! ## Catalogs the materializer reaches -/

/-- Catalogs that committed runs of a journal's records lead to, in any order and any number of times. -/
inductive Reached (seed : Provisioned) (log : Log) : Catalog → Prop where
  | initial : Reached seed log (.initial seed)
  | commit {cat cat' : Catalog} {run : Run} {advanceCheckpoint : Bool} : Reached seed log cat → Run.Uniform run →
    Sorted run → (∀ r ∈ run.records, r ∈ log.records) → applyRun seed run advanceCheckpoint cat = .ok cat' →
    Reached seed log cat'

/-- No MOVE of the journal is there in part. -/
structure Sound (log : Log) (cat : Catalog) : Prop where
  wellFormed : ∀ account, WellFormed (cat.tables account)
  moves : ∀ r ∈ log.records, ∀ move, r.event = .membershipsMoved move →
    Untouched (cat.tables move.accountId) r.position ∨ MovedWhole (cat.tables move.accountId) move r.position

section
variable {seed : Provisioned} {log : Log} {cat cat' : Catalog}

lemma position_injective {r r' : ProjectionRecord} (hr : r ∈ log.records) (hr' : r' ∈ log.records)
    (h : r.position = r'.position) : r = r' := by
  have hnodup : (log.records.map ProjectionRecord.position).Nodup := by
    refine List.pairwise_map.mpr (log.ordered.imp ?_)
    intro r s hp heq
    rw [heq] at hp
    exact Precedes.irrefl _ hp
  exact List.inj_on_of_nodup_map hnodup hr hr' h

lemma rows_sound {account : CString} {t t' : AccountTables} {r mover : ProjectionRecord} {move : MembershipsCopied}
    (hdecoded : ∀ r ∈ log.records, Decoded r) (hr : r ∈ log.records) (hmover : mover ∈ log.records)
    (hmove : mover.event = .membershipsMoved move) (hw : WellFormed t)
    (h : Untouched t mover.position ∨ MovedWhole t move mover.position)
    (hrows : rows seed account t r = .ok t') : Untouched t' mover.position ∨ MovedWhole t' move mover.position := by
  obtain ⟨hw', hextends⟩ := rows_progress (hdecoded r hr) hw hrows
  by_cases hposition : r.position = mover.position
  · obtain rfl := position_injective hr hmover hposition
    obtain ⟨position, event⟩ := r
    obtain rfl : event = .membershipsMoved move := hmove
    exact .inr ((applyMembershipsCopied_conserves hw (hdecoded _ hr) hrows).2 rfl)
  · rcases h with huntouched | hwhole
    · exact .inl (Everywhere.rows huntouched (untouched_stable hposition) (hdecoded r hr) hw hrows)
    · exact .inr (hwhole.extends hextends hw hw')

lemma replayRows_sound {account : CString} {t t' : AccountTables} {records : List ProjectionRecord}
    (hdecoded : ∀ r ∈ log.records, Decoded r) (hmem : ∀ r ∈ records, r ∈ log.records) (hw : WellFormed t)
    (h : replayRows seed account t records = .ok t') :
    WellFormed t' ∧ ∀ mover ∈ log.records, ∀ move, mover.event = .membershipsMoved move →
      Untouched t mover.position ∨ MovedWhole t move mover.position →
      Untouched t' mover.position ∨ MovedWhole t' move mover.position := by
  induction records generalizing t with
  | nil =>
    obtain rfl : t = t' := Except.ok.inj h
    exact ⟨hw, fun _ _ _ _ hsound => hsound⟩
  | cons r records ih =>
    rw [replayRows, List.foldlM_cons, bind_eq_ok] at h
    obtain ⟨t₁, hfirst, hrest⟩ := h
    have hr := hmem r List.mem_cons_self
    have hw₁ := (rows_progress (hdecoded r hr) hw hfirst).1
    obtain ⟨hw', hmoves⟩ := ih (fun s hs => hmem s (List.mem_cons_of_mem _ hs)) hw₁ hrest
    exact ⟨hw', fun mover hmover move hmove hsound =>
      hmoves mover hmover move hmove (rows_sound hdecoded hr hmover hmove hw hsound hfirst)⟩

lemma Reached.sound (hdecoded : ∀ r ∈ log.records, Decoded r) (h : Reached seed log cat) : Sound log cat := by
  induction h with
  | initial =>
    refine ⟨fun account => accountTables_wellFormed seed account, fun r _ move _ => .inl ?_⟩
    simp [Untouched, Everywhere, Catalog.initial, Provisioned.accountTables]
  | commit _ hu hsorted hmem happly ih =>
    rename_i cat cat' run advance _
    obtain ⟨s, hs, -, -, htables⟩ := Convergence.applyRun_eq_ok happly
    obtain ⟨hreplay, -, -⟩ := applyRecords_rows hsorted (fits_of_wellFormed (ih.wellFormed run.account)) hs
    obtain ⟨hw, hmoves⟩ := replayRows_sound hdecoded hmem (ih.wellFormed run.account) hreplay
    constructor
    · intro account
      rw [htables]
      by_cases haccount : account = run.account
      · rw [haccount, Function.update_self]
        exact hw
      · rw [Function.update_of_ne haccount]
        exact ih.wellFormed account
    · intro mover hmover move hmove
      rw [htables]
      by_cases haccount : move.accountId = run.account
      · rw [haccount, Function.update_self]
        exact hmoves mover hmover move hmove (haccount ▸ ih.moves mover hmover move hmove)
      · rw [Function.update_of_ne haccount]
        exact ih.moves mover hmover move hmove

/-! ## What an attempt conserves -/

/-- A row of the UID is invisible now, and none was before. -/
def Hides (t t' : AccountTables) (mailboxId : CString) (uid : ℕ) : Prop :=
  (∀ row ∈ t.memberships, row.mailboxId = mailboxId → row.uid = uid → row.isVisible = true) ∧
    ∃ row ∈ t'.memberships, row.mailboxId = mailboxId ∧ row.uid = uid ∧ row.isVisible = false

/-- The UID has a row of this record now and had none before. The row is visible unless the same
    record tombstones it as well. -/
def Adds (t t' : AccountTables) (mailboxId : CString) (uid : ℕ) (position : Position) : Prop :=
  (∀ row ∈ t.memberships, row.mailboxId = mailboxId → row.uid ≠ uid) ∧
    ∃ row ∈ t'.memberships, row.mailboxId = mailboxId ∧ row.uid = uid ∧ row.position = position ∧
      (row.isVisible = true ∨ row.expunged = some position)

/-- A tombstoned row is as it was, and no other row has its UID. -/
def Kept (t : AccountTables) (row : Membership) : Prop :=
  row ∈ t.memberships ∧
    ∀ other ∈ t.memberships, other.mailboxId = row.mailboxId → other.uid = row.uid → other = row

structure Conserved (cat : Catalog) (a : Attempt) : Prop where
  failed : (attempt cat a).2 = false → (attempt cat a).1 = cat
  moved : ∀ move, a.record.event = .membershipsMoved move → (attempt cat a).2 = true →
    MovedWhole ((attempt cat a).1.tables move.accountId) move a.record.position
  moves : ∀ move, a.record.event = .membershipsMoved move → ∀ item ∈ move.items,
    (Hides (cat.tables move.accountId) ((attempt cat a).1.tables move.accountId) move.sourceMailboxId item.srcUid ↔
      Adds (cat.tables move.accountId) ((attempt cat a).1.tables move.accountId) move.destMailboxId item.dstUid
        a.record.position)
  tombstones : ∀ account, ∀ row ∈ (cat.tables account).memberships, row.isVisible = false →
    Kept ((attempt cat a).1.tables account) row
  expunges : ∀ expunge, a.record.event = .membershipsExpunged expunge → ∀ account,
    ((attempt cat a).1.tables account).uidState = (cat.tables account).uidState
  uidnext : ∀ account, ∀ row ∈ ((attempt cat a).1.tables account).memberships, ∃ state,
    ((attempt cat a).1.tables account).uidState (.mailbox row.mailboxId) = some state ∧ row.uid < state.uidnext

lemma uid_unique {t : AccountTables} {row other : Membership} (hw : WellFormed t) (hrow : row ∈ t.memberships)
    (hother : other ∈ t.memberships) (hmailbox : other.mailboxId = row.mailboxId) (huid : other.uid = row.uid) :
    other = row :=
  List.inj_on_of_nodup_map hw.uids_nodup hother hrow (Prod.ext hmailbox huid)

lemma kept_of_extends {touched : CString → ℕ → Prop} {position : Position} {t t' : AccountTables} {row : Membership}
    (hw' : WellFormed t') (he : Extends position touched t t') (hrow : row ∈ t.memberships)
    (hvisible : row.isVisible = false) : Kept t' row := by
  obtain ⟨row', hrow', haged⟩ := he.memberships row hrow
  rcases haged with rfl | ⟨habsurd, -⟩
  · exact ⟨hrow', fun other hother hmailbox huid => uid_unique hw' hrow' hother hmailbox huid⟩
  · simp [hvisible] at habsurd

/-- The first application of a MOVE hides each source and adds each destination. -/
lemma move_first {position : Position} {t t' : AccountTables} {move : MembershipsCopied} (hw' : WellFormed t')
    (he : Extends position anyUid t t') (huntouched : Untouched t position) (hfresh : Fresh t' position)
    (hwhole : MovedWhole t' move position) {item : MembershipsCopiedItem} (hitem : item ∈ move.items) :
    Hides t t' move.sourceMailboxId item.srcUid ∧ Adds t t' move.destMailboxId item.dstUid position := by
  obtain ⟨⟨added, hadded, hmailbox, huid, hposition⟩, source, hsource, hvisible, hexpunged⟩ := hwhole item hitem
  obtain ⟨-, hmem, hsourceMailbox, hsourceUid⟩ := (findUid_eq_some hw').mp hsource
  constructor
  · refine ⟨fun row hrow hrowMailbox hrowUid => ?_, source, hmem, hsourceMailbox, hsourceUid, hvisible⟩
    by_contra hhidden
    rw [Bool.not_eq_true] at hhidden
    have hsame := (kept_of_extends hw' he hrow hhidden).2 source hmem (hsourceMailbox.trans hrowMailbox.symm)
      (hsourceUid.trans hrowUid.symm)
    exact (huntouched row hrow).2 (hsame ▸ hexpunged)
  · refine ⟨fun row hrow hrowMailbox hrowUid => ?_, added, hadded, hmailbox, huid, hposition,
      hfresh added hadded hposition⟩
    obtain ⟨row', hrow', haged⟩ := he.memberships row hrow
    have hsame := Aged.same haged
    have heq := uid_unique hw' hadded hrow' ((hsame.mailboxId.trans hrowMailbox).trans hmailbox.symm)
      ((hsame.uid.trans hrowUid).trans huid.symm)
    exact (huntouched row hrow).1 (hsame.position.symm.trans (heq ▸ hposition))

/-- A MOVE that is there already hides and adds nothing. -/
lemma move_again {position : Position} {t t' : AccountTables} {move : MembershipsCopied} (hw : WellFormed t)
    (hwhole : MovedWhole t move position) {item : MembershipsCopiedItem} (hitem : item ∈ move.items) :
    ¬Hides t t' move.sourceMailboxId item.srcUid ∧ ¬Adds t t' move.destMailboxId item.dstUid position := by
  obtain ⟨⟨added, hadded, hmailbox, huid, -⟩, source, hsource, hvisible, -⟩ := hwhole item hitem
  obtain ⟨-, hmem, hsourceMailbox, hsourceUid⟩ := (findUid_eq_some hw).mp hsource
  refine ⟨fun hhides => ?_, fun hadds => hadds.1 added hadded hmailbox huid⟩
  have habsurd := hhides.1 source hmem hsourceMailbox hsourceUid
  simp [hvisible] at habsurd

lemma tombstone_uidState {mailboxId : CString} {uidvalidity uid : ℕ} {position : Position} {t t' : AccountTables}
    (h : tombstoneMembershipUid mailboxId uidvalidity position t uid = .ok t') : t'.uidState = t.uidState := by
  unfold tombstoneMembershipUid at h
  split at h
  · simp at h
  · split at h
    · obtain rfl := Except.ok.inj h
      rfl
    · simp only [bind_eq_ok] at h
      obtain ⟨-, -, heq⟩ := h
      rw [Except.ok.inj heq]

lemma expunged_uidState {expunge : MembershipsExpunged} {position : Position} {t t' : AccountTables}
    (h : applyMembershipsExpunged t expunge position = .ok t') : t'.uidState = t.uidState := by
  rw [applyMembershipsExpunged] at h
  generalize expunge.uids = uids at h
  induction uids generalizing t with
  | nil => rw [Except.ok.inj h]
  | cons uid uids ih =>
    rw [List.foldlM_cons, bind_eq_ok] at h
    obtain ⟨t₁, hfirst, hrest⟩ := h
    exact (ih hrest).trans (tombstone_uidState hfirst)

lemma sorted_membership {record : ProjectionRecord} (hkind : isMembershipRecord record = true) :
    Sorted ⟨record, []⟩ := by
  obtain ⟨position, event⟩ := record
  cases event with
  | messageDelivered delivery => simp [isMembershipRecord] at hkind
  | _ => exact .inr ⟨rfl, rfl⟩

lemma uniform_single (record : ProjectionRecord) : Run.Uniform ⟨record, []⟩ :=
  fun _ hr => congrArg accountOf (List.mem_singleton.mp hr)

lemma Reached.attempt {a : Attempt} (h : Reached seed log cat) (hmem : a.record ∈ log.records)
    (hkind : isMembershipRecord a.record = true) : Reached seed log (attempt cat a).1 := by
  cases hcommitted : (MembershipConservation.attempt cat a).2 with
  | false =>
    rw [attempt_failed hcommitted]
    exact h
  | true =>
    exact .commit h (uniform_single a.record) (sorted_membership hkind)
      (fun r hr => (List.mem_singleton.mp hr) ▸ hmem) (attempt_committed hkind hcommitted)

lemma attempt_rows {a : Attempt} (hw : ∀ account, WellFormed (cat.tables account))
    (hkind : isMembershipRecord a.record = true) (hcommitted : (attempt cat a).2 = true) :
    ∃ t', rows seed (accountOf a.record) (cat.tables (accountOf a.record)) a.record = .ok t' ∧
      (attempt cat a).1.tables = Function.update cat.tables (accountOf a.record) t' := by
  obtain ⟨s, hs, -, -, htables⟩ := Convergence.applyRun_eq_ok (@attempt_committed seed _ _ hkind hcommitted)
  obtain ⟨hreplay, -, -⟩ := applyRecords_rows (sorted_membership hkind) (fits_of_wellFormed (hw _)) hs
  exact ⟨s.tables, replayRows_singleton.mp hreplay, htables⟩

lemma hides_self (t : AccountTables) (mailboxId : CString) (uid : ℕ) : ¬Hides t t mailboxId uid := by
  rintro ⟨hbefore, row, hrow, hmailbox, huid, hvisible⟩
  have habsurd := hbefore row hrow hmailbox huid
  simp [hvisible] at habsurd

lemma adds_self (t : AccountTables) (mailboxId : CString) (uid : ℕ) (position : Position) :
    ¬Adds t t mailboxId uid position :=
  fun ⟨hbefore, row, hrow, hmailbox, huid, _⟩ => hbefore row hrow hmailbox huid

lemma kept_self {t : AccountTables} {row : Membership} (hw : WellFormed t) (hrow : row ∈ t.memberships) :
    Kept t row :=
  ⟨hrow, fun _ hother hmailbox huid => uid_unique hw hrow hother hmailbox huid⟩

lemma conserved_of_failed {a : Attempt} (hw : ∀ account, WellFormed (cat.tables account))
    (hcommitted : (attempt cat a).2 = false) : Conserved cat a := by
  have hsame := attempt_failed hcommitted
  refine ⟨fun _ => hsame, fun _ _ habsurd => ?_, fun move _ item _ => ?_, fun account row hrow _ => ?_,
    fun _ _ account => ?_, fun account => ?_⟩
  · simp [hcommitted] at habsurd
  · rw [hsame]
    exact iff_of_false (hides_self _ _ _) (adds_self _ _ _ _)
  · rw [hsame]
    exact kept_self (hw account) hrow
  · rw [hsame]
  · rw [hsame]
    exact (hw account).uid_lt

/-- A MOVE that commits either happened before as a whole or happens now as a whole. -/
lemma conserved_move {position : Position} {t t' : AccountTables} {move : MembershipsCopied} (hw : WellFormed t)
    (huids : ∀ item ∈ move.items, item.dstUid ≤ maxGuint64) (h : applyMembershipsCopied true t move position = .ok t')
    (hsound : Untouched t position ∨ MovedWhole t move position) :
    MovedWhole t' move position ∧ ∀ item ∈ move.items,
      (Hides t t' move.sourceMailboxId item.srcUid ↔ Adds t t' move.destMailboxId item.dstUid position) := by
  obtain ⟨hprogress, hmoved⟩ := applyMembershipsCopied_conserves hw huids h
  have hwhole := hmoved rfl
  refine ⟨hwhole, fun item hitem => ?_⟩
  rcases hsound with huntouched | hbefore
  · have hfresh : Fresh t' position := Everywhere.copied huntouched.fresh fresh_stable h
    obtain ⟨hhides, hadds⟩ :=
      move_first hprogress.wellFormed hprogress.extended huntouched hfresh hwhole hitem
    exact iff_of_true hhides hadds
  · obtain ⟨hhides, hadds⟩ := @move_again position t t' move hw hbefore item hitem
    exact iff_of_false hhides hadds

lemma Reached.conserved_of_committed {a : Attempt} (hdecoded : ∀ r ∈ log.records, Decoded r)
    (h : Reached seed log cat) (hmem : a.record ∈ log.records) (hkind : isMembershipRecord a.record = true)
    (hcommitted : (MembershipConservation.attempt cat a).2 = true) : Conserved cat a := by
  have hsound := h.sound hdecoded
  have hafter := (h.attempt hmem hkind).sound hdecoded
  obtain ⟨t', hrows, htables⟩ := @attempt_rows seed _ _ hsound.wellFormed hkind hcommitted
  obtain ⟨hw', hextends⟩ := rows_progress (hdecoded _ hmem) (hsound.wellFormed _) hrows
  have hown : (MembershipConservation.attempt cat a).1.tables (accountOf a.record) = t' := by
    rw [htables, Function.update_self]
  have hother : ∀ account, account ≠ accountOf a.record →
      (MembershipConservation.attempt cat a).1.tables account = cat.tables account :=
    fun account hne => by rw [htables, Function.update_of_ne hne]
  have hmove : ∀ move, a.record.event = .membershipsMoved move →
      MovedWhole ((MembershipConservation.attempt cat a).1.tables move.accountId) move a.record.position ∧
        ∀ item ∈ move.items,
          (Hides (cat.tables move.accountId) ((MembershipConservation.attempt cat a).1.tables move.accountId)
              move.sourceMailboxId item.srcUid ↔
            Adds (cat.tables move.accountId) ((MembershipConservation.attempt cat a).1.tables move.accountId)
              move.destMailboxId item.dstUid a.record.position) := by
    intro move hevent
    have haccount : accountOf a.record = move.accountId := by
      rw [accountOf, hevent]
      rfl
    have huids := hdecoded _ hmem
    rw [Decoded, hevent] at huids
    rw [rows, hevent, haccount] at hrows
    rw [← haccount, hown, haccount]
    exact conserved_move (hsound.wellFormed _) huids hrows (hsound.moves _ hmem move hevent)
  refine ⟨fun habsurd => ?_, fun move hevent _ => (hmove move hevent).1,
    fun move hevent => (hmove move hevent).2, fun account row hrow hvisible => ?_,
    fun expunge hevent account => ?_, fun account => (hafter.wellFormed account).uid_lt⟩
  · simp [hcommitted] at habsurd
  · by_cases haccount : account = accountOf a.record
    · subst haccount
      rw [hown]
      exact kept_of_extends hw' hextends hrow hvisible
    · rw [hother account haccount]
      exact kept_self (hsound.wellFormed account) hrow
  · by_cases haccount : account = accountOf a.record
    · subst haccount
      rw [rows, hevent] at hrows
      rw [hown]
      exact expunged_uidState hrows
    · rw [hother account haccount]

/-- One attempt conserves the memberships whatever it finds. -/
theorem Reached.conserved {a : Attempt} (hdecoded : ∀ r ∈ log.records, Decoded r) (h : Reached seed log cat)
    (hmem : a.record ∈ log.records) (hkind : isMembershipRecord a.record = true) : Conserved cat a := by
  cases hcommitted : (MembershipConservation.attempt cat a).2 with
  | false => exact conserved_of_failed (h.sound hdecoded).wellFormed hcommitted
  | true => exact h.conserved_of_committed hdecoded hmem hkind hcommitted

lemma Reached.attemptAll {attempts : List Attempt} (h : Reached seed log cat)
    (hattempts : ∀ a ∈ attempts, a.record ∈ log.records ∧ isMembershipRecord a.record = true) :
    Reached seed log (attemptAll cat attempts) := by
  induction attempts generalizing cat with
  | nil => exact h
  | cons a attempts ih =>
    obtain ⟨hmem, hkind⟩ := hattempts a List.mem_cons_self
    exact ih (h.attempt hmem hkind) fun b hb => hattempts b (List.mem_cons_of_mem _ hb)

end

/-- Every attempt of a run conserves the memberships, and the whole run keeps every tombstone. -/
theorem attempts_conserve {seed : Provisioned} {log : Log} {cat : Catalog} {attempts : List Attempt}
    (hdecoded : ∀ r ∈ log.records, Decoded r) (h : Reached seed log cat)
    (hattempts : ∀ a ∈ attempts, a.record ∈ log.records ∧ isMembershipRecord a.record = true) :
    (∀ done a rest, attempts = done ++ a :: rest → Conserved (attemptAll cat done) a) ∧
      ∀ account, ∀ row ∈ (cat.tables account).memberships, row.isVisible = false →
        Kept ((attemptAll cat attempts).tables account) row := by
  constructor
  · rintro done a rest rfl
    obtain ⟨hdone, hrest⟩ := List.forall_mem_append.mp hattempts
    obtain ⟨hmem, hkind⟩ := hrest a List.mem_cons_self
    exact (h.attemptAll hdone).conserved hdecoded hmem hkind
  · induction attempts generalizing cat with
    | nil => exact fun account row hrow _ => kept_self ((h.sound hdecoded).wellFormed account) hrow
    | cons a attempts ih =>
      intro account row hrow hvisible
      obtain ⟨hmem, hkind⟩ := hattempts a List.mem_cons_self
      have hkept := (h.conserved hdecoded hmem hkind).tombstones account row hrow hvisible
      exact ih (h.attempt hmem hkind) (fun b hb => hattempts b (List.mem_cons_of_mem _ hb)) account row hkept.1
        hvisible

/-! ## A sample run -/

def archive : CString := .literal "archive"

def archiveSeed : Provisioned := ⟨[(PassState.alice, ⟨archive, .literal "Archive", true, true⟩)], by simp, by simp⟩

/-- Alice's delivery moves from her inbox to the archive. -/
def archived : MembershipsCopied where
  accountId := PassState.alice
  sourceMailboxId := inboxId PassState.alice
  destMailboxId := archive
  sourceUidvalidity := 1
  destUidvalidity := 1
  items := [⟨1, 5, 0, journalMessageId ⟨0, 1⟩, [], []⟩]

def deliveredRecord : ProjectionRecord :=
  ⟨⟨0, 1⟩, PassState.sampleDelivery PassState.alice (.literal "object-1")⟩

def archivedRecord : ProjectionRecord := ⟨⟨64, 2⟩, .membershipsMoved archived⟩

def expungedRecord : ProjectionRecord := ⟨⟨128, 3⟩, .membershipsExpunged ⟨PassState.alice, archive, 1, [5]⟩⟩

def archiveLog : Log where
  records := [deliveredRecord, archivedRecord, expungedRecord]
  nextOffset := 192
  nextSequence := 4
  ordered := by decide
  bounded := by decide
  numbered := by decide
  next_pos := by decide

def archiveCatalog : Catalog :=
  match applyRun archiveSeed ⟨deliveredRecord, []⟩ true (.initial archiveSeed) with
  | .ok cat => cat
  | .error _ => .initial archiveSeed

/-- The first attempt fails after the destination was written, the second commits, the third finds
    everything done. -/
def archiveAttempts : List Attempt :=
  [⟨archivedRecord, true, fun i => i = 3, fun _ cat => cat⟩, ⟨archivedRecord, true, .none⟩,
    ⟨archivedRecord, false, .none⟩, ⟨expungedRecord, true, .none⟩]

lemma archiveCatalog_reached : Reached archiveSeed archiveLog archiveCatalog :=
  @Reached.commit archiveSeed archiveLog _ _ ⟨deliveredRecord, []⟩ true .initial (uniform_single deliveredRecord)
    (.inl (by decide)) (by simp [Run.records, archiveLog]) rfl

lemma archiveLog_decoded : ∀ r ∈ archiveLog.records, Decoded r := by
  simp [archiveLog, Decoded, deliveredRecord, PassState.sampleDelivery, archivedRecord, archived, expungedRecord,
    maxGuint64]

theorem attempts_conserve_archive :
    ((attemptAll archiveCatalog archiveAttempts).tables PassState.alice).memberships.map
        (fun row => (row.mailboxId, row.uid, row.isVisible)) =
      [(inboxId PassState.alice, 1, false), (archive, 5, false)] ∧
    ∀ done a rest, archiveAttempts = done ++ a :: rest → Conserved (attemptAll archiveCatalog done) a :=
  ⟨by decide, (attempts_conserve archiveLog_decoded archiveCatalog_reached (by decide)).1⟩

end Wyrebox.MembershipConservation
