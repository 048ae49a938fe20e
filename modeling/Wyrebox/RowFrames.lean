import Wyrebox.FirstApplication

set_option autoImplicit false

/-!
# What a record leaves alone

Which tables of an account each part of a record may write.
-/
namespace Wyrebox.RowFrames
open Catalog Materializer Catchup Event Fallible
open AccountRows AccountReplay Reapplication FirstApplication
open JournalWriter (Position)

section
variable {t t' : AccountTables} {position : Position}

lemma updateUidnext_frame {ns : Namespace} {f : ℕ → ℕ} (h : t.updateUidnext ns f = .ok t') :
    ∃ uidState, t' = { t with uidState := uidState } := by
  unfold AccountTables.updateUidnext at h
  split at h
  · exact ⟨t.uidState, (Except.ok.inj h).symm⟩
  · simp only [bind_eq_ok] at h
    obtain ⟨-, -, heq⟩ := h
    exact ⟨_, (Except.ok.inj heq).symm⟩

lemma insertUidState_frame {ns : Namespace} {state : UidState} (h : t.insertUidState ns state = .ok t') :
    ∃ uidState, t' = { t with uidState := uidState } := by
  rcases (insertUidState_eq_ok h).2 with ⟨-, rfl⟩ | ⟨-, rfl⟩
  · exact ⟨t'.uidState, rfl⟩
  · exact ⟨_, rfl⟩

lemma ensureUidStateValidity_frame {mailboxId : CString} {uidvalidity : ℕ}
    (h : ensureUidStateValidity t mailboxId uidvalidity = .ok t') :
    ∃ uidState, t' = { t with uidState := uidState } := by
  simp only [ensureUidStateValidity, bind_eq_ok] at h
  obtain ⟨t₁, hinsert, -, -, heq⟩ := h
  rw [← Except.ok.inj heq]
  exact insertUidState_frame hinsert

lemma insertMailbox_frame (seed : Provisioned) (account mailboxId imapName : CString) :
    ∃ mailboxes, insertMailbox seed account t mailboxId imapName = { t with mailboxes := mailboxes } := by
  unfold insertMailbox
  split
  · exact ⟨t.mailboxes, rfl⟩
  · exact ⟨_, rfl⟩

lemma storeMessage_frame {record : MessageRecord} {t₁ : AccountTables} (hmessage : ensureMessage t position record = .ok t₁)
    (hheaders : ensureMessageHeaders t₁ position record = .ok t') :
    ∃ messages headers, t' = { t with messages := messages, headers := headers } := by
  obtain ⟨messages, -, rfl⟩ := ensureMessage_eq_ok hmessage
  obtain ⟨headers, -, rfl⟩ := ensureMessageHeaders_eq_ok hheaders
  exact ⟨messages, headers, rfl⟩

/-! ## Flags -/

lemma applyFlagName_frame {current : CString → Bool} {table : FlagTable} {change : FlagChanged} {membershipId name : CString}
    (h : applyFlagName current table change membershipId position t name = .ok t') :
    ∃ flags, t' = { t with flags := flags } := by
  have hinsert : insertFlagName t table change.mailboxId membershipId position name = .ok t' →
      ∃ flags, t' = { t with flags := flags } := fun h => ⟨_, insertFlagName_eq_ok h⟩
  unfold applyFlagName at h
  split at h
  · split at h
    · exact ⟨_, (Except.ok.inj h).symm⟩
    · exact ⟨t.flags, (Except.ok.inj h).symm⟩
  all_goals
    split at h
    · exact ⟨t.flags, (Except.ok.inj h).symm⟩
    · exact hinsert h

lemma applyFlagTable_frame {table : FlagTable} {change : FlagChanged} {names : List CString} {membershipId : CString}
    (h : applyFlagTable t table change names membershipId position = .ok t') :
    ∃ flags, t' = { t with flags := flags } := by
  have hfold : ∀ (names : List CString) (current : CString → Bool) (s : AccountTables),
      (∃ flags, s = { t with flags := flags }) →
      names.foldlM (applyFlagName current table change membershipId position) s = .ok t' →
      ∃ flags, t' = { t with flags := flags } := by
    intro names current
    induction names with
    | nil =>
      intro s hs h
      rwa [← Except.ok.inj h]
    | cons name names ih =>
      rintro s ⟨flags, rfl⟩ h
      rw [List.foldlM_cons, bind_eq_ok] at h
      obtain ⟨s₁, hfirst, hrest⟩ := h
      obtain ⟨flags', rfl⟩ := applyFlagName_frame hfirst
      exact ih _ ⟨flags', rfl⟩ hrest
  unfold applyFlagTable at h
  refine hfold names _ _ ?_ h
  split
  · exact ⟨_, rfl⟩
  · exact ⟨t.flags, rfl⟩

lemma applyFlagChange_frame {change : FlagChanged} (h : applyFlagChange t change position = .ok t') :
    ∃ flags, t' = { t with flags := flags } := by
  simp only [applyFlagChange, bind_eq_ok] at h
  obtain ⟨membershipId, -, t₁, hsystem, huser⟩ := h
  obtain ⟨flags, rfl⟩ := applyFlagTable_frame hsystem
  obtain ⟨flags', rfl⟩ := applyFlagTable_frame huser
  exact ⟨flags', rfl⟩

lemma insertFlags_frame {mailboxId membershipId : CString} {systemFlags userKeywords : List CString}
    (h : insertFlags mailboxId membershipId position systemFlags userKeywords t = .ok t') :
    ∃ flags, t' = { t with flags := flags } := by
  obtain ⟨flags, rfl, -⟩ := insertFlags_flagsOf h
  exact ⟨flags, rfl⟩

/-! ## Memberships -/

lemma tombstone_frame {mailboxId : CString} {uidvalidity uid : ℕ}
    (h : tombstoneMembershipUid mailboxId uidvalidity position t uid = .ok t') :
    ∃ memberships, t' = { t with memberships := memberships } := by
  unfold tombstoneMembershipUid at h
  split at h
  · simp at h
  · split at h
    · exact ⟨_, (Except.ok.inj h).symm⟩
    · simp only [bind_eq_ok] at h
      obtain ⟨-, -, heq⟩ := h
      exact ⟨t.memberships, (Except.ok.inj heq).symm⟩

lemma expunged_frame {expunge : MembershipsExpunged} (h : applyMembershipsExpunged t expunge position = .ok t') :
    ∃ memberships, t' = { t with memberships := memberships } := by
  rw [applyMembershipsExpunged] at h
  generalize expunge.uids = uids at h
  induction uids generalizing t with
  | nil => exact ⟨t.memberships, (Except.ok.inj h).symm⟩
  | cons uid uids ih =>
    rw [List.foldlM_cons, bind_eq_ok] at h
    obtain ⟨t₁, hfirst, hrest⟩ := h
    obtain ⟨memberships, rfl⟩ := tombstone_frame hfirst
    obtain ⟨memberships', rfl⟩ := ih hrest
    exact ⟨memberships', rfl⟩

lemma insertDestination_frame {row : Membership} (h : insertDestinationMembership t row = .ok t') :
    ∃ memberships uidState, t' = { t with memberships := memberships, uidState := uidState } := by
  simp only [insertDestinationMembership, bind_eq_ok] at h
  obtain ⟨-, -, -, -, t₁, hrow, hupdate⟩ := h
  obtain ⟨-, -, rfl⟩ := insertMembershipRow_eq_ok hrow
  obtain ⟨uidState, rfl⟩ := updateUidnext_frame hupdate
  exact ⟨_, uidState, rfl⟩

/-- What COPY and MOVE may write. -/
def CopyFrame (t t' : AccountTables) : Prop :=
  ∃ memberships uidState flags, t' = { t with memberships := memberships, uidState := uidState, flags := flags }

lemma CopyFrame.trans {t'' : AccountTables} (h : CopyFrame t t') (h' : CopyFrame t' t'') : CopyFrame t t'' := by
  obtain ⟨memberships, uidState, flags, rfl⟩ := h
  obtain ⟨memberships', uidState', flags', rfl⟩ := h'
  exact ⟨memberships', uidState', flags', rfl⟩

lemma insertWithFlags_frame {row : Membership} {mailboxId membershipId : CString}
    {systemFlags userKeywords : List CString} {t₁ : AccountTables} (hrow : insertDestinationMembership t row = .ok t₁)
    (hflags : insertFlags mailboxId membershipId position systemFlags userKeywords t₁ = .ok t') : CopyFrame t t' := by
  obtain ⟨memberships, uidState, rfl⟩ := insertDestination_frame hrow
  obtain ⟨flags, rfl⟩ := insertFlags_frame hflags
  exact ⟨memberships, uidState, flags, rfl⟩

lemma copyItem_frame {copy : MembershipsCopied} {tombstoneSource : Bool} {indexed : MembershipsCopiedItem × ℕ}
    (h : applyCopyItem copy tombstoneSource position t indexed = .ok t') : CopyFrame t t' := by
  obtain ⟨item, index⟩ := indexed
  obtain ⟨found, t₁, -, hinsert, htombstone⟩ := applyCopyItem_eq_ok.mp h
  have hinserted : CopyFrame t t₁ := by
    rcases hinsert with ⟨-, rfl⟩ | ⟨-, hinsert⟩
    · exact ⟨t₁.memberships, t₁.uidState, t₁.flags, rfl⟩
    · simp only [insertCopyMembership, bind_eq_ok] at hinsert
      obtain ⟨-, -, t₂, hrow, hflags⟩ := hinsert
      exact insertWithFlags_frame hrow hflags
  rcases htombstone with ⟨-, htombstone⟩ | ⟨-, rfl⟩
  · obtain ⟨memberships, rfl⟩ := tombstone_frame htombstone
    exact hinserted.trans ⟨memberships, t₁.uidState, t₁.flags, rfl⟩
  · exact hinserted

lemma copied_frame {copy : MembershipsCopied} {tombstoneSources : Bool}
    (h : applyMembershipsCopied tombstoneSources t copy position = .ok t') : CopyFrame t t' := by
  have hfold : ∀ (items : List (MembershipsCopiedItem × ℕ)) (s : AccountTables),
      items.foldlM (applyCopyItem copy tombstoneSources position) s = .ok t' → CopyFrame s t' := by
    intro items
    induction items with
    | nil =>
      intro s h
      rw [← Except.ok.inj h]
      exact ⟨s.memberships, s.uidState, s.flags, rfl⟩
    | cons item items ih =>
      intro s h
      rw [List.foldlM_cons, bind_eq_ok] at h
      obtain ⟨s₁, hfirst, hrest⟩ := h
      exact (copyItem_frame hfirst).trans (ih _ hrest)
  simp only [applyMembershipsCopied, ensureCopyDestination, bind_eq_ok] at h
  obtain ⟨t₁, ⟨-, -, hvalidity⟩, hitems⟩ := h
  obtain ⟨uidState, rfl⟩ := ensureUidStateValidity_frame hvalidity
  exact CopyFrame.trans ⟨t.memberships, uidState, t.flags, rfl⟩ (hfold _ _ hitems)

/-! ## New messages and views -/

lemma deliverMembership_frame {mailboxId : CString} {uidnext uidnext' : ℕ} {delivery : Position × MessageRecord}
    (h : deliverMembership mailboxId t uidnext delivery = .ok (t', uidnext')) :
    ∃ memberships messages headers,
      t' = { t with memberships := memberships, messages := messages, headers := headers } := by
  simp only [deliverMembership, bind_eq_ok] at h
  obtain ⟨-, -, t₁, hmessage, t₂, hheaders, found, -, hinsert⟩ := h
  obtain ⟨messages, headers, rfl⟩ := storeMessage_frame hmessage hheaders
  cases found with
  | true =>
    obtain ⟨rfl, -⟩ := Prod.mk.inj (Except.ok.inj hinsert)
    exact ⟨t.memberships, messages, headers, rfl⟩
  | false =>
    simp only [Bool.false_eq_true, if_false, bind_eq_ok] at hinsert
    obtain ⟨t₃, hrow, heq⟩ := hinsert
    obtain ⟨-, -, rfl⟩ := insertMembershipRow_eq_ok hrow
    obtain ⟨rfl, -⟩ := Prod.mk.inj (Except.ok.inj heq)
    exact ⟨_, messages, headers, rfl⟩

/-- What a delivery and an APPEND leave alone, and the messages they store. -/
structure StoreFrame (positions : List Position) (t t' : AccountTables) : Prop where
  extractions : t'.extractions = t.extractions
  derived : t'.derived = t.derived
  messages : ∀ messageId message, t'.messages messageId = some message →
    t.messages messageId = some message ∨
      (message.position ∈ positions ∧ messageId = journalMessageId message.position)

section
variable {positions positions' : List Position} {t'' : AccountTables}

lemma StoreFrame.of_eq (hextractions : t'.extractions = t.extractions) (hderived : t'.derived = t.derived)
    (hmessages : t'.messages = t.messages) : StoreFrame positions t t' :=
  ⟨hextractions, hderived, fun _ _ h => .inl (hmessages ▸ h)⟩

lemma StoreFrame.trans (h : StoreFrame positions t t') (h' : StoreFrame positions t' t'') :
    StoreFrame positions t t'' where
  extractions := h'.extractions.trans h.extractions
  derived := h'.derived.trans h.derived
  messages := fun messageId message hmessage =>
    (h'.messages messageId message hmessage).elim (h.messages messageId message) .inr

lemma StoreFrame.mono (h : StoreFrame positions t t') (hsubset : positions ⊆ positions') : StoreFrame positions' t t' :=
  ⟨h.extractions, h.derived, fun messageId message hmessage =>
    (h.messages messageId message hmessage).imp_right fun hnew => ⟨hsubset hnew.1, hnew.2⟩⟩

lemma storeMessage_store {record : MessageRecord} {t₁ : AccountTables}
    (hmessage : ensureMessage t position record = .ok t₁) (hheaders : ensureMessageHeaders t₁ position record = .ok t') :
    StoreFrame [position] t t' := by
  obtain ⟨messages, hregister, rfl⟩ := ensureMessage_eq_ok hmessage
  obtain ⟨headers, -, rfl⟩ := ensureMessageHeaders_eq_ok hheaders
  refine ⟨rfl, rfl, fun messageId message hstored => ?_⟩
  obtain ⟨hself, -, hothers⟩ := Registry.register_eq_some hregister
  by_cases hid : messageId = journalMessageId position
  · subst hid
    obtain rfl := Option.some.inj (hself.symm.trans hstored)
    exact .inr ⟨List.mem_singleton_self _, rfl⟩
  · exact .inl ((hothers messageId hid).symm.trans hstored)

end

lemma deliverMembership_store {mailboxId : CString} {uidnext uidnext' : ℕ} {delivery : Position × MessageRecord}
    (h : deliverMembership mailboxId t uidnext delivery = .ok (t', uidnext')) : StoreFrame [delivery.1] t t' := by
  simp only [deliverMembership, bind_eq_ok] at h
  obtain ⟨-, -, t₁, hmessage, t₂, hheaders, found, -, hinsert⟩ := h
  have hstored := storeMessage_store hmessage hheaders
  cases found with
  | true =>
    obtain ⟨rfl, -⟩ := Prod.mk.inj (Except.ok.inj hinsert)
    exact hstored
  | false =>
    simp only [Bool.false_eq_true, if_false, bind_eq_ok] at hinsert
    obtain ⟨t₃, hrow, heq⟩ := hinsert
    obtain ⟨-, -, rfl⟩ := insertMembershipRow_eq_ok hrow
    obtain ⟨rfl, -⟩ := Prod.mk.inj (Except.ok.inj heq)
    exact hstored.trans (.of_eq rfl rfl rfl)

lemma deliverRows_store {seed : Provisioned} {account : CString} {deliveries : List (Position × MessageRecord)}
    (h : deliverRows seed account t deliveries = .ok t') : StoreFrame (deliveries.map Prod.fst) t t' := by
  have hfold : ∀ (deliveries : List (Position × MessageRecord)) (mailboxId : CString) (progress progress' : AccountTables × ℕ),
      deliveries.foldlM (fun progress delivery => deliverMembership mailboxId progress.1 progress.2 delivery) progress =
        .ok progress' → StoreFrame (deliveries.map Prod.fst) progress.1 progress'.1 := by
    intro deliveries mailboxId
    induction deliveries with
    | nil =>
      intro progress progress' h
      rw [← Except.ok.inj h]
      exact .of_eq rfl rfl rfl
    | cons delivery deliveries ih =>
      intro progress progress' h
      rw [List.foldlM_cons, bind_eq_ok] at h
      obtain ⟨⟨s, uidnext⟩, hfirst, hrest⟩ := h
      exact ((deliverMembership_store hfirst).mono (List.cons_subset_cons _ (List.nil_subset _))).trans
        ((ih _ _ hrest).mono (List.subset_cons_self _ _))
  simp only [deliverRows, bind_eq_ok] at h
  obtain ⟨mailboxId, -, t₁, hmailbox, t₂, hstate, uidnext, -, ⟨t₃, uidnext'⟩, hdeliveries, hupdate⟩ := h
  obtain ⟨rfl, -⟩ := ensureMailbox_eq_ok hmailbox
  obtain ⟨mailboxes, hmailboxes⟩ := @insertMailbox_frame t seed account mailboxId inboxName
  rw [hmailboxes] at hstate
  obtain ⟨uidState, rfl⟩ := insertUidState_frame hstate
  obtain ⟨uidState', rfl⟩ := updateUidnext_frame hupdate
  have hstored := hfold _ _ _ _ hdeliveries
  exact ⟨hstored.extractions, hstored.derived, hstored.messages⟩

lemma appendRows_store {seed : Provisioned} {append : MessageAppended}
    (h : appendRows seed t append position = .ok t') : StoreFrame [position] t t' := by
  simp only [appendRows, bind_eq_ok] at h
  obtain ⟨t₂, hdestination, t₃, hmessage, t₄, hheaders, hinsert⟩ := h
  obtain ⟨t₁, hmailbox, hvalidity⟩ := ensureAppendDestination_eq_ok.mp hdestination
  have hmade : StoreFrame [position] t t₁ := by
    rcases hmailbox with ⟨-, rfl⟩ | ⟨-, -, hmailbox⟩
    · exact .of_eq rfl rfl rfl
    · obtain ⟨rfl, -⟩ := ensureMailbox_eq_ok hmailbox
      obtain ⟨mailboxes, hmailboxes⟩ := @insertMailbox_frame t seed append.accountId append.mailboxId inboxName
      rw [hmailboxes]
      exact .of_eq rfl rfl rfl
  obtain ⟨uidState, rfl⟩ := ensureUidStateValidity_frame hvalidity
  have hready : StoreFrame [position] t { t₁ with uidState := uidState } := hmade.trans (.of_eq rfl rfl rfl)
  have hstored := hready.trans (storeMessage_store hmessage hheaders)
  simp only [insertAppendMembership, bind_eq_ok] at hinsert
  obtain ⟨found, -, hinsert⟩ := hinsert
  cases found with
  | true =>
    obtain rfl := Except.ok.inj hinsert
    exact hstored
  | false =>
    simp only [Bool.false_eq_true, if_false, bind_eq_ok] at hinsert
    obtain ⟨t₅, hrow, hflags⟩ := hinsert
    obtain ⟨memberships, uidState', flags, rfl⟩ := insertWithFlags_frame hrow hflags
    exact hstored.trans (.of_eq rfl rfl rfl)

lemma viewRows_frame {change : DerivedViewMembershipChanged} (h : viewRows t change = .ok t') :
    ∃ derived uidState, t' = { t with derived := derived, uidState := uidState } := by
  simp only [viewRows, advanceViewUidState, bind_eq_ok] at h
  obtain ⟨-, -, t₁, hupsert, t₂, hinsert, -, -, hupdate⟩ := h
  have hupserted : ∃ derived, t₁ = { t with derived := derived } := by
    unfold upsertViewRow at hupsert
    split at hupsert
    · simp only [bind_eq_ok] at hupsert
      obtain ⟨-, -, heq⟩ := hupsert
      exact ⟨_, (Except.ok.inj heq).symm⟩
    · exact ⟨_, (insertDerivedRow_eq_ok hupsert).2⟩
  obtain ⟨derived, rfl⟩ := hupserted
  obtain ⟨uidState, rfl⟩ := insertUidState_frame hinsert
  obtain ⟨uidState', rfl⟩ := updateUidnext_frame hupdate
  exact ⟨derived, uidState', rfl⟩

end
end Wyrebox.RowFrames
