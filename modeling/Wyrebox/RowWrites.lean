import Mathlib.Logic.Relation
import Wyrebox.AccountCatchup
import Wyrebox.RowFrames

set_option autoImplicit false

/-!
# The statements of a record

Whatever a record does to its account's rows is a sequence of single statements, and each of them
says what it stores. What every statement keeps holds of the rows after any records.
-/
namespace Wyrebox.RowWrites
open Catalog Materializer Catchup Event Fallible
open AccountRows AccountReplay AccountCatchup Reapplication FirstApplication RowFrames
open JournalWriter (Position)
open Relation (ReflTransGen)

/-- The object of a record that brings a new message. -/
def storedObject (record : ProjectionRecord) : Option CString :=
  match record.event with
  | .messageDelivered delivery => some delivery.objectKey
  | .messageAppended append => some append.objectKey
  | _ => none

def changedRow (change : DerivedViewMembershipChanged) : DerivedMembership :=
  ⟨change.membershipId, change.viewId, change.messageId, change.uid, change.isVisible, change.ruleVersionHash,
    change.materializedAtUnixUs⟩

/-- One statement of the record. -/
inductive RowWrite (record : ProjectionRecord) : AccountTables → AccountTables → Prop where
  | newUidState {t : AccountTables} {ns : Namespace} {state : UidState} (hnew : t.uidState ns = none)
      (hpos : 1 ≤ state.uidnext ∧ 1 ≤ state.uidvalidity) : RowWrite record t (t.setUidState ns state)
  | uidnext {t : AccountTables} {ns : Namespace} {state : UidState} {next : ℕ} (hstate : t.uidState ns = some state)
      (hpos : 1 ≤ next) : RowWrite record t (t.setUidState ns { state with uidnext := next })
  | inbox {t : AccountTables} {mailboxId : CString}
      (hnew : ∀ row ∈ t.mailboxes, row.mailboxId ≠ mailboxId ∧ row.imapName ≠ inboxName)
      (hstate : ∃ state, t.uidState (.mailbox mailboxId) = some state) :
      RowWrite record t { t with mailboxes := t.mailboxes ++ [⟨mailboxId, inboxName, true, true⟩] }
  | message {t : AccountTables} {object : CString} {messages : Registry CString Message}
      (hobject : storedObject record = some object)
      (hregister : t.messages.register (journalMessageId record.position) ⟨object, record.position⟩ = some messages) :
      RowWrite record t { t with messages := messages }
  | headers {t : AccountTables} {headers : Registry CString MessageHeaders} :
      RowWrite record t { t with headers := headers }
  | membership {t t' : AccountTables} {row : Membership} (hposition : row.position = record.position)
      (hvisible : row.isVisible = true) (hexpunged : row.expunged = none)
      (hinsert : t.insertMembershipRow row = .ok t') : RowWrite record t t'
  | tombstone {t : AccountTables} {row : Membership} (hrow : row ∈ t.memberships) (hvisible : row.isVisible = true) :
      RowWrite record t (t.expungeRow row.membershipId record.position)
  | flags {t : AccountTables} {flags : FlagTable → CString → CString → Option FlagRow} :
      RowWrite record t { t with flags := flags }
  | extraction {t : AccountTables} {extractions : CString → Option FactExtraction} :
      RowWrite record t { t with extractions := extractions }
  | newDerived {t t' : AccountTables} {change : DerivedViewMembershipChanged}
      (hchange : record.event = .derivedViewMembershipChanged change)
      (hinsert : insertDerivedRow t (changedRow change) = .ok t') : RowWrite record t t'
  | derived {t : AccountTables} {change : DerivedViewMembershipChanged} {row : DerivedMembership}
      (hchange : record.event = .derivedViewMembershipChanged change) (hrow : row ∈ t.derived)
      (hsame : SameIdentity (changedRow change) row) :
      RowWrite record t (updateDerivedRow t change.membershipId change.isVisible change.materializedAtUnixUs)

abbrev Writes (record : ProjectionRecord) : AccountTables → AccountTables → Prop := ReflTransGen (RowWrite record)

section
variable {seed : Provisioned} {account : CString} {record : ProjectionRecord} {t t' : AccountTables}

/-! ## The statements of each part -/

lemma writes_foldlM {α ε : Type} {f : AccountTables → α → Except ε AccountTables} {l : List α}
    (hf : ∀ a ∈ l, ∀ s s', f s a = .ok s' → Writes record s s') (h : l.foldlM f t = .ok t') : Writes record t t' := by
  induction l generalizing t with
  | nil =>
    obtain rfl : t = t' := Except.ok.inj h
    exact .refl
  | cons a l ih =>
    rw [List.foldlM_cons, bind_eq_ok] at h
    obtain ⟨s, hfirst, hrest⟩ := h
    exact (hf a List.mem_cons_self t s hfirst).trans (ih (fun b hb => hf b (List.mem_cons_of_mem _ hb)) hrest)

lemma insertUidState_writes {ns : Namespace} {state : UidState} (h : t.insertUidState ns state = .ok t') :
    Writes record t t' := by
  obtain ⟨hpos, ⟨-, rfl⟩ | ⟨hnew, rfl⟩⟩ := insertUidState_eq_ok h
  · exact .refl
  · exact .single (.newUidState hnew hpos)

lemma updateUidnext_writes {ns : Namespace} {f : ℕ → ℕ} (h : t.updateUidnext ns f = .ok t') : Writes record t t' := by
  cases hstate : t.uidState ns with
  | none =>
    rw [AccountTables.updateUidnext, hstate] at h
    obtain rfl : t = t' := Except.ok.inj h
    exact .refl
  | some state =>
    obtain ⟨hpos, rfl⟩ := updateUidnext_eq_ok hstate h
    exact .single (.uidnext hstate hpos)

lemma ensureUidStateValidity_eq_ok {mailboxId : CString} {uidvalidity : ℕ}
    (h : ensureUidStateValidity t mailboxId uidvalidity = .ok t') :
    t.insertUidState (.mailbox mailboxId) ⟨1, uidvalidity⟩ = .ok t' := by
  simp only [ensureUidStateValidity, bind_eq_ok] at h
  obtain ⟨t₁, hinsert, -, -, heq⟩ := h
  rw [← Except.ok.inj heq]
  exact hinsert

/-- The INBOX row and its UID state are stored by one transaction, in whatever order. -/
lemma inbox_writes {mailboxId : CString} {state : UidState}
    (h : (insertMailbox seed account t mailboxId inboxName).insertUidState (.mailbox mailboxId) state = .ok t') :
    Writes record t t' := by
  unfold insertMailbox at h
  split at h
  · exact insertUidState_writes h
  · rename_i hfree
    simp only [not_or, List.any_eq_true, decide_eq_true_eq, not_exists, not_and] at hfree
    obtain ⟨hpos, ⟨hstate, rfl⟩ | ⟨hnone, rfl⟩⟩ := insertUidState_eq_ok h
    · exact .single (.inbox hfree.2 hstate)
    · have hstored : Writes record t (t.setUidState (.mailbox mailboxId) state) := .single (.newUidState hnone hpos)
      exact hstored.tail (.inbox hfree.2 ⟨state, Function.update_self ..⟩)

lemma storeMessage_writes {stored : MessageRecord} {t₁ : AccountTables} (hobject : storedObject record = some stored.objectKey)
    (hmessage : ensureMessage t record.position stored = .ok t₁)
    (hheaders : ensureMessageHeaders t₁ record.position stored = .ok t') : Writes record t t' := by
  obtain ⟨messages, hregister, rfl⟩ := ensureMessage_eq_ok hmessage
  obtain ⟨headers, -, rfl⟩ := ensureMessageHeaders_eq_ok hheaders
  exact .tail (.single (.message hobject hregister)) .headers

lemma tombstone_writes {mailboxId : CString} {uidvalidity uid : ℕ}
    (h : tombstoneMembershipUid mailboxId uidvalidity record.position t uid = .ok t') : Writes record t t' := by
  unfold tombstoneMembershipUid at h
  split at h
  · simp at h
  · rename_i row hrow
    split at h
    · rename_i hvisible
      obtain rfl := Except.ok.inj h
      have hmem : row ∈ t.memberships := by
        unfold AccountTables.findUid at hrow
        split at hrow
        · exact List.mem_of_find?_eq_some hrow
        · simp at hrow
      exact .single (.tombstone hmem hvisible)
    · simp only [bind_eq_ok] at h
      obtain ⟨-, -, heq⟩ := h
      obtain rfl : t = t' := Except.ok.inj heq
      exact .refl

/-- A new membership with its UID and its flags. -/
lemma insertWithFlags_writes {row : Membership} {mailboxId membershipId : CString} {systemFlags userKeywords : List CString}
    {t₁ : AccountTables} (hposition : row.position = record.position) (hvisible : row.isVisible = true)
    (hexpunged : row.expunged = none) (hrow : insertDestinationMembership t row = .ok t₁)
    (hflags : insertFlags mailboxId membershipId record.position systemFlags userKeywords t₁ = .ok t') :
    Writes record t t' := by
  simp only [insertDestinationMembership, bind_eq_ok] at hrow
  obtain ⟨-, -, -, -, t₂, hinsert, hupdate⟩ := hrow
  obtain ⟨flags, rfl⟩ := insertFlags_frame hflags
  have hinserted : Writes record t t₂ := .single (.membership hposition hvisible hexpunged hinsert)
  exact (hinserted.trans (updateUidnext_writes hupdate)).tail .flags

lemma copyItem_writes {copy : MembershipsCopied} {tombstoneSource : Bool} {indexed : MembershipsCopiedItem × ℕ}
    (h : applyCopyItem copy tombstoneSource record.position t indexed = .ok t') : Writes record t t' := by
  obtain ⟨item, index⟩ := indexed
  obtain ⟨found, t₁, -, hinsert, htombstone⟩ := applyCopyItem_eq_ok.mp h
  have hinserted : Writes record t t₁ := by
    rcases hinsert with ⟨-, rfl⟩ | ⟨-, hinsert⟩
    · exact .refl
    · simp only [insertCopyMembership, bind_eq_ok] at hinsert
      obtain ⟨-, -, t₂, hrow, hflags⟩ := hinsert
      exact insertWithFlags_writes rfl rfl rfl hrow hflags
  rcases htombstone with ⟨-, htombstone⟩ | ⟨-, rfl⟩
  · exact hinserted.trans (tombstone_writes htombstone)
  · exact hinserted

lemma copied_writes {copy : MembershipsCopied} {tombstoneSources : Bool}
    (h : applyMembershipsCopied tombstoneSources t copy record.position = .ok t') : Writes record t t' := by
  simp only [applyMembershipsCopied, ensureCopyDestination, bind_eq_ok] at h
  obtain ⟨t₁, ⟨-, -, hvalidity⟩, hitems⟩ := h
  exact (insertUidState_writes (ensureUidStateValidity_eq_ok hvalidity)).trans
    (writes_foldlM (fun _ _ _ _ hitem => copyItem_writes hitem) hitems)

lemma delivered_writes {stored : MessageRecord} (hobject : storedObject record = some stored.objectKey)
    (h : deliverRows seed account t [(record.position, stored)] = .ok t') : Writes record t t' := by
  simp only [deliverRows, bind_eq_ok] at h
  obtain ⟨mailboxId, -, t₁, hmailbox, t₂, hstate, uidnext, -, ⟨t₅, uidnext'⟩, hfold, hupdate⟩ := h
  obtain ⟨rfl, -⟩ := ensureMailbox_eq_ok hmailbox
  rw [List.foldlM_cons, bind_eq_ok] at hfold
  obtain ⟨progress, hmembership, hfold⟩ := hfold
  obtain rfl : progress = (t₅, uidnext') := Except.ok.inj hfold
  simp only [deliverMembership, bind_eq_ok] at hmembership
  obtain ⟨-, -, t₃, hmessage, t₄, hheaders, found, -, hinsert⟩ := hmembership
  have hstored : Writes record t t₄ := (inbox_writes hstate).trans (storeMessage_writes hobject hmessage hheaders)
  have hinserted : Writes record t t₅ := by
    cases found with
    | true =>
      obtain ⟨rfl, -⟩ := Prod.mk.inj (Except.ok.inj hinsert)
      exact hstored
    | false =>
      simp only [Bool.false_eq_true, if_false, bind_eq_ok] at hinsert
      obtain ⟨t₆, hrow, heq⟩ := hinsert
      obtain ⟨rfl, -⟩ := Prod.mk.inj (Except.ok.inj heq)
      exact hstored.tail (.membership rfl rfl rfl hrow)
  exact hinserted.trans (updateUidnext_writes hupdate)

lemma appended_writes {append : MessageAppended} (hobject : storedObject record = some append.objectKey)
    (h : appendRows seed t append record.position = .ok t') : Writes record t t' := by
  simp only [appendRows, bind_eq_ok] at h
  obtain ⟨t₂, hdestination, t₃, hmessage, t₄, hheaders, hinsert⟩ := h
  obtain ⟨t₁, hmailbox, hvalidity⟩ := ensureAppendDestination_eq_ok.mp hdestination
  have hstate := ensureUidStateValidity_eq_ok hvalidity
  have hready : Writes record t t₂ := by
    rcases hmailbox with ⟨-, rfl⟩ | ⟨-, -, hmailbox⟩
    · exact insertUidState_writes hstate
    · obtain ⟨rfl, -⟩ := ensureMailbox_eq_ok hmailbox
      exact inbox_writes hstate
  have hstored : Writes record t t₄ :=
    hready.trans (@storeMessage_writes record t₂ t₄ (appendedRecord append) t₃ hobject hmessage hheaders)
  simp only [insertAppendMembership, bind_eq_ok] at hinsert
  obtain ⟨found, -, hinsert⟩ := hinsert
  cases found with
  | true =>
    obtain rfl : t₄ = t' := Except.ok.inj hinsert
    exact hstored
  | false =>
    simp only [Bool.false_eq_true, if_false, bind_eq_ok] at hinsert
    obtain ⟨t₅, hrow, hflags⟩ := hinsert
    exact hstored.trans (insertWithFlags_writes rfl rfl rfl hrow hflags)

lemma changed_writes {change : DerivedViewMembershipChanged} (hchange : record.event = .derivedViewMembershipChanged change)
    (h : viewRows t change = .ok t') : Writes record t t' := by
  simp only [viewRows, advanceViewUidState, bind_eq_ok] at h
  obtain ⟨-, -, t₁, hupsert, t₂, hinsert, -, -, hupdate⟩ := h
  have hupserted : RowWrite record t t₁ := by
    unfold upsertViewRow at hupsert
    split at hupsert
    · rename_i row hfound
      simp only [bind_eq_ok, require_eq_ok] at hupsert
      obtain ⟨-, hidentity, heq⟩ := hupsert
      rw [← Except.ok.inj heq]
      have hmatch := List.find?_some hfound
      have hid : row.membershipId = change.membershipId := of_decide_eq_true hmatch
      exact .derived hchange (List.mem_of_find?_eq_some hfound) ⟨hid, hidentity⟩
    · exact .newDerived hchange hupsert
  exact ((ReflTransGen.single hupserted).trans (insertUidState_writes hinsert)).trans (updateUidnext_writes hupdate)

/-- A record changes its account's rows by its statements only. -/
theorem rows_writes (h : rows seed account t record = .ok t') : Writes record t t' := by
  obtain ⟨position, event⟩ := record
  cases event with
  | messageDelivered delivery => exact @delivered_writes seed account _ t t' (deliveredRecord delivery) rfl h
  | flagChanged change =>
    obtain ⟨flags, rfl⟩ := applyFlagChange_frame h
    exact .single .flags
  | factMutated mutation =>
    change mutationRows t mutation position = .ok t' at h
    simp only [mutationRows, bind_eq_ok] at h
    obtain ⟨-, -, heq⟩ := h
    obtain rfl : t = t' := Except.ok.inj heq
    exact .refl
  | factsExtracted extraction =>
    change extractionRows t extraction position = .ok t' at h
    simp only [extractionRows, bind_eq_ok] at h
    obtain ⟨-, -, h⟩ := h
    split at h
    · obtain rfl : t = t' := Except.ok.inj h
      exact .refl
    · simp only [bind_eq_ok] at h
      obtain ⟨-, -, heq⟩ := h
      obtain rfl := Except.ok.inj heq
      exact .single .extraction
  | derivedViewMembershipChanged change => exact changed_writes rfl h
  | membershipsExpunged expunge => exact writes_foldlM (fun _ _ _ _ hstep => tombstone_writes hstep) h
  | membershipsCopied copy => exact copied_writes h
  | membershipsMoved move => exact copied_writes h
  | messageAppended append => exact appended_writes rfl h

/-! ## What the statements keep -/

/-- What each statement of the record keeps, the record keeps. -/
lemma Writes.keep {P : AccountTables → Prop} (hkept : ∀ s s', RowWrite record s s' → P s → P s') (h : Writes record t t')
    (ht : P t) : P t' := by
  induction h with
  | refl => exact ht
  | tail _ hwrite ih => exact hkept _ _ hwrite ih

/-- What every statement of the records keeps holds after them. -/
theorem replayRows_keep {P : AccountTables → Prop} {records : List ProjectionRecord}
    (hkept : ∀ r ∈ records, ∀ s s', RowWrite r s s' → P s → P s') (ht : P t)
    (h : replayRows seed account t records = .ok t') : P t' := by
  induction records generalizing t with
  | nil =>
    obtain rfl : t = t' := Except.ok.inj h
    exact ht
  | cons record records ih =>
    have hsplit : replayRows seed account t ([record] ++ records) = .ok t' := h
    obtain ⟨t₁, hfirst, hrest⟩ := replayRows_append.mp hsplit
    have hwrites := rows_writes (replayRows_singleton.mp hfirst)
    exact ih (fun r hr => hkept r (List.mem_cons_of_mem _ hr)) (hwrites.keep (hkept record List.mem_cons_self) ht) hrest

end
end Wyrebox.RowWrites
