import Wyrebox.Reapplication

set_option autoImplicit false

/-!
# Records applied for the first time

A record that is accepted leaves well-formed rows that extend the old ones and hold the record as
applied.
-/
namespace Wyrebox.FirstApplication
open Catalog Materializer Event Fallible AccountRows AccountReplay ReplayCells Reapplication
open JournalWriter (Position)

/-- Only flags of new memberships differ. -/
structure KeepsCells (t t' : AccountTables) : Prop where
  derived : t'.derived = t.derived
  flags : ∀ row ∈ t.memberships, ∀ table name,
    t'.flags table row.membershipId name = t.flags table row.membershipId name

/-- From well-formed rows to an extension with the same cells. -/
structure Progresses (position : Position) (touched : CString → ℕ → Prop) (t t' : AccountTables) : Prop where
  wellFormed : WellFormed t'
  extended : Extends position touched t t'
  kept : KeepsCells t t'

section
variable {position : Position} {touched touched' : CString → ℕ → Prop} {t t' t'' : AccountTables}

lemma Progresses.refl (hw : WellFormed t) : Progresses position touched t t :=
  ⟨hw, .refl t, rfl, fun _ _ _ _ => rfl⟩

lemma Progresses.trans (h : Progresses position touched t t') (h' : Progresses position touched t' t'') :
    Progresses position touched t t'' where
  wellFormed := h'.wellFormed
  extended := h.extended.trans h'.extended
  kept := by
    refine ⟨h'.kept.derived.trans h.kept.derived, fun row hrow table name => ?_⟩
    obtain ⟨row', hrow', haged⟩ := h.extended.memberships row hrow
    have hid : row'.membershipId = row.membershipId := by
      rcases haged with rfl | ⟨-, -, rfl⟩ <;> rfl
    have hlater := h'.kept.flags row' hrow' table name
    rw [hid] at hlater
    exact hlater.trans (h.kept.flags row hrow table name)

lemma Progresses.of_advances (h : Advances position touched t t') (hw : WellFormed t)
    (hflags : t'.flags = t.flags) (hderived : t'.derived = t.derived) : Progresses position touched t t' :=
  ⟨(h hw).1, (h hw).2, hderived, fun _ _ _ _ => by rw [hflags]⟩

lemma Progresses.mono (hmono : ∀ mailboxId uid, touched mailboxId uid → touched' mailboxId uid)
    (h : Progresses position touched t t') : Progresses position touched' t t' :=
  ⟨h.wellFormed, h.extended.mono hmono, h.kept⟩

/-- A fold of steps, each of which establishes something that the later ones keep. -/
lemma foldlM_establishes {α ε : Type} {f : AccountTables → α → Except ε AccountTables}
    {I : AccountTables → Prop} {Q : α → AccountTables → Prop} {l : List α}
    (hI : ∀ s s', I s → Extends position touched s s' → I s')
    (hstep : ∀ a ∈ l, ∀ s s', WellFormed s → I s → f s a = .ok s' →
      Progresses position touched s s' ∧ Q a s')
    (hQ : ∀ a ∈ l, ∀ s s', WellFormed s → Progresses position touched s s' → Q a s → Q a s')
    (hw : WellFormed t) (hi : I t) (h : l.foldlM f t = .ok t') :
    Progresses position touched t t' ∧ ∀ a ∈ l, Q a t' := by
  induction l generalizing t with
  | nil =>
    cases h
    exact ⟨.refl hw, by simp⟩
  | cons a l ih =>
    rw [List.foldlM_cons, bind_eq_ok] at h
    obtain ⟨s, hfirst, hrest⟩ := h
    obtain ⟨hprogress, hq⟩ := hstep a List.mem_cons_self t s hw hi hfirst
    obtain ⟨hprogress', hqs⟩ := ih (fun b hb => hstep b (List.mem_cons_of_mem _ hb))
      (fun b hb => hQ b (List.mem_cons_of_mem _ hb)) hprogress.wellFormed (hI t s hi hprogress.extended) hrest
    refine ⟨hprogress.trans hprogress', List.forall_mem_cons.mpr ⟨?_, hqs⟩⟩
    exact hQ a List.mem_cons_self s t' hprogress.wellFormed hprogress' hq

/-! ## Tombstones -/

lemma tombstoneMembershipUid_progresses {mailboxId : CString} {uidvalidity uid : ℕ} (hw : WellFormed t)
    (htouched : touched mailboxId uid)
    (h : tombstoneMembershipUid mailboxId uidvalidity position t uid = .ok t') :
    Progresses position touched t t' ∧ Tombstoned t' mailboxId uidvalidity uid position := by
  unfold tombstoneMembershipUid at h
  split at h
  · simp at h
  · rename_i row hrow
    obtain ⟨hvalidity, hmem, hmailbox, huid⟩ := (findUid_eq_some hw).mp hrow
    split at h
    · rename_i hvisible
      cases h
      have hadvances := @expungeRow_advances position touched t row hmem hvisible
        (by rwa [hmailbox, huid])
      refine ⟨.of_advances hadvances hw rfl rfl, { row with
        isVisible := false, expunged := some position }, ?_, rfl, rfl⟩
      refine (findUid_eq_some (hadvances hw).1).mpr ⟨hvalidity, ?_, hmailbox, huid⟩
      have hmapped : (if row.membershipId = row.membershipId then
          { row with isVisible := false, expunged := some position } else row) ∈
          (t.expungeRow row.membershipId position).memberships := List.mem_map_of_mem hmem
      rwa [if_pos rfl] at hmapped
    · rename_i hhidden
      simp only [bind_eq_ok, require_eq_ok] at h
      obtain ⟨-, hexpunged, heq⟩ := h
      cases heq
      exact ⟨.refl hw, row, hrow, by simpa using hhidden, hexpunged⟩

/-! ## Destination memberships -/

lemma insertDestinationMembership_progresses {row : Membership} (hw : WellFormed t)
    (hstate : ∃ state, t.uidState (.mailbox row.mailboxId) = some state) (huid : row.uid ≤ maxGuint64)
    (h : insertDestinationMembership t row = .ok t') :
    Progresses position touched t t' ∧ row ∈ t'.memberships ∧
      ∀ other ∈ t.memberships, other.membershipId ≠ row.membershipId := by
  obtain ⟨state, hstate⟩ := hstate
  simp only [insertDestinationMembership, bind_eq_ok, require_eq_ok] at h
  obtain ⟨-, hne, -, -, t₁, hinsert, hupdate⟩ := h
  obtain ⟨-, hfresh, ht₁⟩ := insertMembershipRow_eq_ok hinsert
  have hstate₁ : t₁.uidState (.mailbox row.mailboxId) = some state := by rw [ht₁]; exact hstate
  obtain ⟨-, rfl⟩ := updateUidnext_eq_ok hstate₁ hupdate
  have hle := hw.uidnext_le _ state hstate
  refine ⟨.of_advances (insertMembershipRow_advances hinsert hstate ?_ ?_ ?_) hw ?_ ?_, ?_, ?_⟩
  · exact lt_of_lt_of_le (Nat.lt_succ_self _) (le_max_right _ _)
  · exact le_max_left _ _
  · exact max_le hle (by omega)
  · rw [ht₁]
    rfl
  · rw [ht₁]
    rfl
  · rw [ht₁]
    exact List.mem_append_right _ (List.mem_singleton_self _)
  · intro other hother heq
    have hconflict := hfresh other hother
    simp only [AccountTables.membershipsConflict, decide_eq_false_iff_not, not_or] at hconflict
    exact hconflict.1 heq.symm

lemma insertFlagName_eq_ok {table : FlagTable} {mailboxId membershipId name : CString}
    (h : insertFlagName t table mailboxId membershipId position name = .ok t') :
    t' = t.setFlag table membershipId name (some ⟨mailboxId, position⟩) := by
  simp only [insertFlagName, bind_eq_ok, require_eq_ok] at h
  obtain ⟨-, -, heq⟩ := h
  cases heq
  rfl

/-- Only flags of the membership change. -/
def FlagsOf (membershipId : CString) (t t' : AccountTables) : Prop :=
  ∃ flags, t' = { t with flags := flags } ∧
    ∀ table other name, other ≠ membershipId → flags table other name = t.flags table other name

lemma FlagsOf.trans {membershipId : CString} (h : FlagsOf membershipId t t')
    (h' : FlagsOf membershipId t' t'') : FlagsOf membershipId t t'' := by
  obtain ⟨flags, rfl, hflags⟩ := h
  obtain ⟨flags', rfl, hflags'⟩ := h'
  exact ⟨flags', rfl, fun table other name hne => (hflags' table other name hne).trans (hflags table other name hne)⟩

lemma foldl_insertFlagName_flagsOf {table : FlagTable} {mailboxId membershipId : CString}
    {names : List CString}
    (h : names.foldlM (fun t name => insertFlagName t table mailboxId membershipId position name) t = .ok t') :
    FlagsOf membershipId t t' := by
  induction names generalizing t with
  | nil =>
    cases h
    exact ⟨_, rfl, fun _ _ _ _ => rfl⟩
  | cons name names ih =>
    rw [List.foldlM_cons, bind_eq_ok] at h
    obtain ⟨t₁, hfirst, hrest⟩ := h
    refine FlagsOf.trans ?_ (ih hrest)
    rw [insertFlagName_eq_ok hfirst]
    exact ⟨_, rfl, fun table' other name' hne => if_neg fun hcell => hne hcell.2.1⟩

lemma insertFlags_flagsOf {mailboxId membershipId : CString} {systemFlags userKeywords : List CString}
    (h : insertFlags mailboxId membershipId position systemFlags userKeywords t = .ok t') :
    FlagsOf membershipId t t' := by
  simp only [insertFlags, bind_eq_ok] at h
  obtain ⟨t₁, hsystem, huser⟩ := h
  exact (foldl_insertFlagName_flagsOf hsystem).trans (foldl_insertFlagName_flagsOf huser)

/-- A new membership with its flags. -/
lemma insertMembershipWithFlags_progresses {row : Membership} {systemFlags userKeywords : List CString}
    (hw : WellFormed t) (hstate : ∃ state, t.uidState (.mailbox row.mailboxId) = some state)
    (huid : row.uid ≤ maxGuint64) (h : insertDestinationMembership t row = .ok t')
    (hflags : insertFlags row.mailboxId row.membershipId position systemFlags userKeywords t' = .ok t'') :
    Progresses position touched t t'' ∧ t''.findMembership row.membershipId = some row := by
  obtain ⟨hprogress, hmem, hfresh⟩ :=
    @insertDestinationMembership_progresses position touched t t' row hw hstate huid h
  obtain ⟨flags, rfl, hothers⟩ := insertFlags_flagsOf hflags
  have hcore : core t' = core { t' with flags := flags } := rfl
  have hw'' := wellFormed_of_core hcore hprogress.wellFormed
  refine ⟨⟨hw'', hprogress.extended.trans (extends_of_core hcore), hprogress.kept.derived, ?_⟩,
    (findMembership_eq_some hw'').mpr ⟨hmem, rfl⟩⟩
  intro other hother table name
  exact (hothers table _ name (hfresh other hother)).trans (hprogress.kept.flags other hother table name)

/-! ## COPY and MOVE -/

lemma liveAfter_new {row : Membership} (h : row.isVisible = true) (sequence : ℕ) :
    liveAfter row sequence = true := by
  rw [liveAfter, h, Bool.true_or]

lemma destinationMembershipExists_false {mailboxId messageId membershipId : CString} {uid item : ℕ}
    (h : destinationMembershipExists t mailboxId messageId uid item membershipId position = .ok false) :
    t.findMembership membershipId = none := by
  unfold destinationMembershipExists at h
  split at h
  · rename_i hnone
    exact hnone
  · simp only [bind_eq_ok] at h
    obtain ⟨-, -, habsurd⟩ := h
    simp at habsurd

lemma applyCopyItem_progresses {copy : MembershipsCopied} {tombstoneSource : Bool}
    {indexed : MembershipsCopiedItem × ℕ} (hw : WellFormed t)
    (hstate : HasUidState t copy.destMailboxId copy.destUidvalidity)
    (huid : indexed.1.dstUid ≤ maxGuint64)
    (htouched : tombstoneSource = true → touched copy.sourceMailboxId indexed.1.srcUid)
    (hseparate : ¬touched copy.destMailboxId indexed.1.dstUid)
    (h : applyCopyItem copy tombstoneSource position t indexed = .ok t') :
    Progresses position touched t t' ∧ CopiedItem t' copy position indexed ∧ (tombstoneSource = true →
      Tombstoned t' copy.sourceMailboxId copy.sourceUidvalidity indexed.1.srcUid position) := by
  obtain ⟨item, index⟩ := indexed
  obtain ⟨found, t₁, hfound, hinsert, htombstone⟩ := applyCopyItem_eq_ok.mp h
  have hinserted : Progresses position touched t t₁ ∧ CopiedItem t₁ copy position (item, index) := by
    rcases hinsert with ⟨rfl, rfl⟩ | ⟨rfl, hinsert⟩
    · exact ⟨.refl hw, destinationMembershipExists_true.mp hfound⟩
    · simp only [insertCopyMembership, bind_eq_ok] at hinsert
      obtain ⟨-, -, t₂, hrow, hflags⟩ := hinsert
      obtain ⟨state, hsome, -⟩ := hstate.exists
      obtain ⟨hprogress, hfind⟩ := @insertMembershipWithFlags_progresses position touched t t₂ t₁
        ⟨itemMembershipId copy.destMailboxId position index, copy.destMailboxId, item.messageId, item.dstUid,
          item.internalDateUnixUs, position, index, true, none⟩ _ _ hw ⟨state, hsome⟩ huid hrow hflags
      exact ⟨hprogress, _, hfind, liveAfter_new rfl _, rfl, rfl, rfl, rfl, rfl⟩
  obtain ⟨hprogress, hcopied⟩ := hinserted
  rcases htombstone with ⟨hmove, htombstone⟩ | ⟨hcopy, rfl⟩
  · obtain ⟨hprogress', htombstoned⟩ :=
      tombstoneMembershipUid_progresses hprogress.wellFormed (htouched hmove) htombstone
    refine ⟨hprogress.trans hprogress', ?_, fun _ => htombstoned⟩
    exact CopiedItem.extends hprogress'.extended hprogress.wellFormed hprogress'.wellFormed hcopied
      fun habsurd => absurd habsurd hseparate
  · exact ⟨hprogress, hcopied, fun hmove => absurd hmove (by simp [hcopy])⟩

lemma ensureUidStateValidity_progresses {mailboxId : CString} {uidvalidity : ℕ} (hw : WellFormed t)
    (h : ensureUidStateValidity t mailboxId uidvalidity = .ok t') :
    Progresses position touched t t' ∧ HasUidState t' mailboxId uidvalidity := by
  simp only [ensureUidStateValidity, bind_eq_ok, require_eq_ok] at h
  obtain ⟨t₁, hinsert, -, hvalidity, heq⟩ := h
  cases heq
  have hpos := (insertUidState_eq_ok hinsert).1.2
  have hkeeps : t'.flags = t.flags ∧ t'.derived = t.derived := by
    rcases (insertUidState_eq_ok hinsert).2 with ⟨-, rfl⟩ | ⟨-, rfl⟩ <;> exact ⟨rfl, rfl⟩
  exact ⟨.of_advances (insertUidState_advances (by simp [maxGuint64]) hinsert) hw hkeeps.1 hkeeps.2,
    hpos, hvalidity⟩

/-- A MOVE tombstones no membership that it makes. -/
def Separate (move : MembershipsCopied) : Prop :=
  ∀ item ∈ move.items, ∀ item' ∈ move.items,
    ¬(move.sourceMailboxId = move.destMailboxId ∧ item.srcUid = item'.dstUid)

def sourceOf (copy : MembershipsCopied) (tombstoneSources : Bool) (mailboxId : CString) (uid : ℕ) : Prop :=
  tombstoneSources = true ∧ mailboxId = copy.sourceMailboxId ∧ ∃ item ∈ copy.items, uid = item.srcUid

lemma fst_mem_of_zipIdx {α : Type} {l : List α} {indexed : α × ℕ} (h : indexed ∈ l.zipIdx) :
    indexed.1 ∈ l := by
  obtain ⟨a, index⟩ := indexed
  exact (List.mem_zipIdx' h).2 ▸ List.getElem_mem _

lemma applyMembershipsCopied_progresses {copy : MembershipsCopied} {tombstoneSources : Bool}
    (hw : WellFormed t) (huids : ∀ item ∈ copy.items, item.dstUid ≤ maxGuint64)
    (hseparate : tombstoneSources = true → Separate copy)
    (h : applyMembershipsCopied tombstoneSources t copy position = .ok t') :
    Progresses position (sourceOf copy tombstoneSources) t t' ∧ Copied tombstoneSources t' copy position := by
  simp only [applyMembershipsCopied, ensureCopyDestination, bind_eq_ok, require_eq_ok] at h
  obtain ⟨t₁, ⟨-, hhas, hvalidity⟩, hitems⟩ := h
  obtain ⟨hprogress, hstate⟩ :=
    @ensureUidStateValidity_progresses position (sourceOf copy tombstoneSources) t t₁ _ _ hw hvalidity
  have hdisjoint : ∀ item ∈ copy.items,
      ¬sourceOf copy tombstoneSources copy.destMailboxId item.dstUid := by
    rintro item hitem ⟨hmove, hsame, source, hsource, heq⟩
    exact hseparate hmove source hsource item hitem ⟨hsame.symm, heq.symm⟩
  obtain ⟨hprogress', hall⟩ := @foldlM_establishes position (sourceOf copy tombstoneSources) t₁ t' _ _ _
    (fun s => HasUidState s copy.destMailboxId copy.destUidvalidity)
    (fun indexed s => CopiedItem s copy position indexed ∧ (tombstoneSources = true →
      Tombstoned s copy.sourceMailboxId copy.sourceUidvalidity indexed.1.srcUid position)) _
    (fun s s' hs he => HasUidState.extends he hs)
    (fun indexed hindexed s s' hws hs hstep =>
      applyCopyItem_progresses hws hs (huids _ (fst_mem_of_zipIdx hindexed))
        (fun hmove => ⟨hmove, rfl, indexed.1, fst_mem_of_zipIdx hindexed, rfl⟩)
        (hdisjoint _ (fst_mem_of_zipIdx hindexed)) hstep)
    (fun indexed hindexed s s' hws hss hq =>
      ⟨CopiedItem.extends hss.extended hws hss.wellFormed hq.1
        fun habsurd => absurd habsurd (hdisjoint _ (fst_mem_of_zipIdx hindexed)),
        fun hmove => Tombstoned.extends hss.extended hws hss.wellFormed (hq.2 hmove)⟩)
    hprogress.wellFormed hstate hitems
  have htotal := hprogress.trans hprogress'
  exact ⟨htotal, htotal.extended.hasMailbox hhas, HasUidState.extends hprogress'.extended hstate, hall⟩

lemma applyMembershipsExpunged_progresses {expunge : MembershipsExpunged} (hw : WellFormed t)
    (h : applyMembershipsExpunged t expunge position = .ok t') :
    Progresses position (fun _ _ => True) t t' ∧
      ∀ uid ∈ expunge.uids, Tombstoned t' expunge.mailboxId expunge.uidvalidity uid position :=
  @foldlM_establishes _ _ _ _ _ _ (tombstoneMembershipUid expunge.mailboxId expunge.uidvalidity position)
    (fun _ => True)
    (fun uid s => Tombstoned s expunge.mailboxId expunge.uidvalidity uid position) _ (fun _ _ _ _ => trivial)
    (fun _ _ _ _ hws _ hstep => tombstoneMembershipUid_progresses hws trivial hstep)
    (fun _ _ _ _ hws hss hq => Tombstoned.extends hss.extended hws hss.wellFormed hq) hw trivial h

/-! ## New messages -/

lemma storeMessage_progresses {record : MessageRecord} {t₁ : AccountTables} (hw : WellFormed t)
    (hmessage : ensureMessage t position record = .ok t₁)
    (hheaders : ensureMessageHeaders t₁ position record = .ok t') :
    Progresses position touched t t' ∧ Stored t' position record ∧ t'.uidState = t.uidState ∧
      t'.mailboxes = t.mailboxes := by
  have hadvances := (@ensureMessage_advances position touched _ _ _ _ hmessage).trans
    (ensureMessageHeaders_advances hheaders)
  obtain ⟨messages, hregister, rfl⟩ := ensureMessage_eq_ok hmessage
  obtain ⟨headers, hregister', rfl⟩ := ensureMessageHeaders_eq_ok hheaders
  exact ⟨.of_advances hadvances hw rfl rfl,
    ⟨(Registry.register_eq_some hregister).1, (Registry.register_eq_some hregister').1⟩, rfl, rfl⟩

lemma selectUidnext_eq_ok {mailboxId : CString} {uidnext : ℕ} (h : selectUidnext t mailboxId = .ok uidnext) :
    ∃ state, t.uidState (.mailbox mailboxId) = some state ∧ state.uidvalidity = mailboxUidvalidity ∧
      state.uidnext = uidnext ∧ 1 ≤ uidnext := by
  unfold selectUidnext at h
  split at h
  · simp at h
  · rename_i state hstate
    simp only [bind_eq_ok, require_eq_ok] at h
    obtain ⟨-, hvalidity, -, ⟨-, hle⟩, heq⟩ := h
    cases heq
    exact ⟨state, hstate, hvalidity, rfl, le_trans (Nat.le_add_left 1 _) hle⟩

/-- The mailbox found before it is ensured is the one found afterwards. -/
lemma resolveInboxId_ensured {seed : Provisioned} {account mailboxId : CString}
    (hinbox : resolveInboxId t account = .ok mailboxId)
    (hmailbox : ensureMailbox seed account t mailboxId inboxName = .ok t') :
    resolveInboxId t' account = .ok mailboxId := by
  obtain ⟨rfl, hexact⟩ := ensureMailbox_eq_ok hmailbox
  unfold insertMailbox at hexact ⊢
  split at hexact
  · rename_i hthere
    rwa [if_pos hthere]
  · rename_i hfree
    rw [if_neg hfree]
    simp only [not_or, List.any_eq_true, decide_eq_true_eq, not_exists, not_and] at hfree
    have hnone : t.mailboxes.filter (fun row => row.imapName = inboxName) = [] := by
      rw [List.filter_eq_nil_iff]
      intro row hrow
      simpa using (hfree.2 row hrow).2
    simp only [resolveInboxId, List.filter_append, hnone]
    rfl

lemma ensureMembershipExact_false {mailboxId membershipId : CString} {record : MessageRecord}
    (h : ensureMembershipExact t mailboxId membershipId position record = .ok false) :
    t.findMembership membershipId = none := by
  unfold ensureMembershipExact at h
  split at h
  · rename_i hnone
    exact hnone
  · simp only [bind_eq_ok] at h
    obtain ⟨-, -, habsurd⟩ := h
    simp at habsurd

lemma deliverRows_progresses {seed : Provisioned} {account : CString} {record : MessageRecord}
    (hw : WellFormed t) (h : deliverRows seed account t [(position, record)] = .ok t') :
    Progresses position touched t t' ∧ Delivered account t' position record := by
  simp only [deliverRows, bind_eq_ok] at h
  obtain ⟨mailboxId, hinbox, t₁, hmailbox, t₂, hinsertState, uidnext, hselect, ⟨t₅, uidnext'⟩, hfold,
    hupdate⟩ := h
  rw [List.foldlM_cons, bind_eq_ok] at hfold
  obtain ⟨progress, hdeliver, hfold⟩ := hfold
  cases hfold
  simp only [deliverMembership, bind_eq_ok, require_eq_ok] at hdeliver
  obtain ⟨-, hkey, t₃, hmessage, t₄, hheaders, found, hfound, hdeliver⟩ := hdeliver
  obtain ⟨rfl, hexact⟩ := ensureMailbox_eq_ok hmailbox
  obtain ⟨state, hstate, hvalidity, rfl, hpos⟩ := selectUidnext_eq_ok hselect
  have hstart : Progresses position touched t t₂ := by
    refine .of_advances ((insertMailbox_advances seed account mailboxId).trans
      (insertUidState_advances (by simp [maxGuint64]) hinsertState)) hw ?_ ?_
    · rcases (insertUidState_eq_ok hinsertState).2 with ⟨-, rfl⟩ | ⟨-, rfl⟩ <;>
        (unfold insertMailbox; split <;> rfl)
    · rcases (insertUidState_eq_ok hinsertState).2 with ⟨-, rfl⟩ | ⟨-, rfl⟩ <;>
        (unfold insertMailbox; split <;> rfl)
  have hmailboxes₂ : t₂.mailboxes = (insertMailbox seed account t mailboxId inboxName).mailboxes := by
    rcases (insertUidState_eq_ok hinsertState).2 with ⟨-, rfl⟩ | ⟨-, rfl⟩ <;> rfl
  obtain ⟨hstore, hstored, huidState₄, hmailboxes₄⟩ :=
    @storeMessage_progresses position touched t₂ t₄ record t₃ hstart.wellFormed hmessage hheaders
  have hstate₄ : t₄.uidState (.mailbox mailboxId) = some state := by rw [huidState₄]; exact hstate
  have hsofar := hstart.trans hstore
  have hlast : Progresses position touched t₄ t' ∧ t'.mailboxes = t₄.mailboxes ∧
      Written t' (deliveryMembershipId mailboxId position) position.sequence
        (DeliveredRow mailboxId position record) := by
    cases found with
    | true =>
      cases hdeliver
      rw [updateUidnext_self hstate₄ rfl hpos] at hupdate
      cases hupdate
      exact ⟨.refl hsofar.wellFormed, rfl, ensureMembershipExact_true.mp hfound⟩
    | false =>
      simp only [Bool.false_eq_true, if_false, bind_eq_ok] at hdeliver
      obtain ⟨t₆, hrow, heq⟩ := hdeliver
      cases heq
      obtain ⟨hone, hfresh, ht₅⟩ := insertMembershipRow_eq_ok hrow
      have hstate₅ : t₅.uidState (.mailbox mailboxId) = some state := by rw [ht₅]; exact hstate₄
      obtain ⟨hnonzero, rfl⟩ := updateUidnext_eq_ok hstate₅ hupdate
      have hle := hsofar.wellFormed.uidnext_le _ state hstate₄
      -- the counter has not wrapped, or the row update would have failed
      have hcount : (state.uidnext + 1) % 2 ^ 64 = state.uidnext + 1 := by
        unfold maxGuint64 at hle
        omega
      have hadvances := @insertMembershipRow_advances position touched t₄ t₅ _ state
        ((state.uidnext + 1) % 2 ^ 64) hrow hstate₄ (by rw [hcount]; exact Nat.lt_succ_self _)
        (by rw [hcount]; exact Nat.le_succ _) (by unfold maxGuint64; omega)
      have hfind := (findMembership_eq_some (hadvances hsofar.wellFormed).1).mpr
        ⟨by rw [ht₅]; exact List.mem_append_right _ (List.mem_singleton_self _), rfl⟩
      exact ⟨.of_advances hadvances hsofar.wellFormed (by rw [ht₅]; rfl) (by rw [ht₅]; rfl),
        by rw [ht₅]; rfl, _, hfind, liveAfter_new rfl _, rfl, rfl, rfl, rfl, hpos⟩
  obtain ⟨hprogress, hmailboxes', hwritten⟩ := hlast
  have hmailboxes : t'.mailboxes = (insertMailbox seed account t mailboxId inboxName).mailboxes :=
    hmailboxes'.trans (hmailboxes₄.trans hmailboxes₂)
  refine ⟨hsofar.trans hprogress, hkey, Stored.extends hprogress.extended hstored, mailboxId, ?_, ?_, ?_, hwritten⟩
  · rw [resolveInboxId, hmailboxes]
    exact resolveInboxId_ensured hinbox hmailbox
  · rw [ensureMailboxExact, hmailboxes]
    exact hexact
  · refine HasUidState.extends hprogress.extended ⟨le_refl 1, ?_⟩
    rw [hstate₄, Option.map_some, hvalidity]

lemma appendRows_progresses {seed : Provisioned} {append : MessageAppended} (hw : WellFormed t)
    (huid : append.uid ≤ maxGuint64) (h : appendRows seed t append position = .ok t') :
    Progresses position touched t t' ∧ Appended t' append position := by
  simp only [appendRows, bind_eq_ok] at h
  obtain ⟨t₂, hdestination, t₃, hmessage, t₄, hheaders, hinsert⟩ := h
  obtain ⟨t₁, hmailbox, hvalidity⟩ := ensureAppendDestination_eq_ok.mp hdestination
  have hstart : Progresses position touched t t₁ ∧ (t₁.hasMailbox append.mailboxId = true ∨
      (append.mailboxId = inboxId append.accountId ∧
        ensureMailboxExact t₁ append.mailboxId inboxName = .ok ())) := by
    rcases hmailbox with ⟨hhas, rfl⟩ | ⟨-, hinbox, hmailbox⟩
    · exact ⟨.refl hw, .inl hhas⟩
    · obtain ⟨rfl, hexact⟩ := ensureMailbox_eq_ok hmailbox
      refine ⟨.of_advances (insertMailbox_advances seed append.accountId append.mailboxId) hw ?_ ?_,
        .inr ⟨hinbox, hexact⟩⟩
      · unfold insertMailbox
        split <;> rfl
      · unfold insertMailbox
        split <;> rfl
  obtain ⟨hprogress₁, hmailbox₁⟩ := hstart
  obtain ⟨hprogress₂, hstate⟩ :=
    @ensureUidStateValidity_progresses position touched t₁ t₂ _ _ hprogress₁.wellFormed hvalidity
  obtain ⟨hprogress₄, hstored, -, -⟩ := @storeMessage_progresses position touched t₂ t₄
    (appendedRecord append) t₃ hprogress₂.wellFormed hmessage hheaders
  have hstate₄ := HasUidState.extends hprogress₄.extended hstate
  have hlast : Progresses position touched t₄ t' ∧
      Written t' (itemMembershipId append.mailboxId position 0) position.sequence
        (DestinationRow append.mailboxId (journalMessageId position) append.uid 0 position) := by
    simp only [insertAppendMembership, bind_eq_ok] at hinsert
    obtain ⟨found, hfound, hinsert⟩ := hinsert
    cases found with
    | true =>
      cases hinsert
      exact ⟨.refl hprogress₄.wellFormed, destinationMembershipExists_true.mp hfound⟩
    | false =>
      simp only [Bool.false_eq_true, if_false, bind_eq_ok] at hinsert
      obtain ⟨t₅, hrow, hflags⟩ := hinsert
      obtain ⟨state, hsome, -⟩ := hstate₄.exists
      obtain ⟨hprogress, hfind⟩ := @insertMembershipWithFlags_progresses position touched t₄ t₅ t'
        ⟨itemMembershipId append.mailboxId position 0, append.mailboxId, journalMessageId position,
          append.uid, append.internalDateUnixUs, position, 0, true, none⟩ _ _ hprogress₄.wellFormed
        ⟨state, hsome⟩ huid hrow hflags
      exact ⟨hprogress, _, hfind, liveAfter_new rfl _, rfl, rfl, rfl, rfl, rfl⟩
  obtain ⟨hprogress, hwritten⟩ := hlast
  have hafter := (hprogress₂.trans hprogress₄).trans hprogress
  refine ⟨hprogress₁.trans hafter, ?_, HasUidState.extends hprogress.extended hstate₄,
    Stored.extends hprogress.extended hstored, hwritten⟩
  rcases hmailbox₁ with hhas | ⟨hinbox, hexact⟩
  · exact .inl (hafter.extended.hasMailbox hhas)
  · refine .inr ⟨hinbox, ?_⟩
    rw [ensureMailboxExact, hafter.extended.mailboxes_of_inbox hexact]
    exact hexact

/-! ## Derived memberships -/

def changedRow (change : DerivedViewMembershipChanged) : DerivedMembership :=
  ⟨change.membershipId, change.viewId, change.messageId, change.uid, change.isVisible,
    change.ruleVersionHash, change.materializedAtUnixUs⟩

lemma upsertViewRow_spec {change : DerivedViewMembershipChanged} (hw : WellFormed t)
    (h : upsertViewRow t change = .ok t') :
    Advances position touched t t' ∧ (∃ row ∈ t'.derived, SameIdentity (changedRow change) row) ∧
      cells t' = (viewEffect change).apply (cells t) := by
  unfold upsertViewRow at h
  split at h
  · rename_i row hrow
    simp only [bind_eq_ok, require_eq_ok] at h
    obtain ⟨-, ⟨hview, hmessage, huid, hhash⟩, heq⟩ := h
    cases heq
    have hmem := List.mem_of_find?_eq_some hrow
    have hid : row.membershipId = change.membershipId := by simpa using List.find?_some hrow
    refine ⟨updateDerivedRow_advances _ _ _, ?_, cells_updateDerivedRow hw hmem hid⟩
    refine ⟨_, List.mem_map_of_mem hmem, ?_⟩
    rw [if_pos hid]
    exact ⟨hid, hview, hmessage, huid, hhash⟩
  · rename_i hnone
    have hadvances := @insertDerivedRow_advances position touched t t' _ h
    obtain ⟨-, rfl⟩ := insertDerivedRow_eq_ok h
    refine ⟨hadvances, ⟨changedRow change, List.mem_append_right _ (List.mem_singleton_self _),
      rfl, rfl, rfl, rfl, rfl⟩, ?_⟩
    funext cell
    cases cell with
    | flag table membershipId name => rfl
    | derived membershipId =>
      simp only [Effect.apply, viewEffect, cells, List.find?_append]
      split
      · rename_i heq
        subst heq
        rw [hnone, List.find?_cons_of_pos (by simp)]
        rfl
      · rename_i hne
        rw [List.find?_cons_of_neg (by simpa using Ne.symm hne)]
        simp [Write.act]

lemma advanceViewUidState_spec {change : DerivedViewMembershipChanged} (hne : change.uid ≠ maxGuint64)
    (hle : change.uid ≤ maxGuint64) (hw : WellFormed t) (h : advanceViewUidState t change = .ok t') :
    Advances position touched t t' ∧ t'.derived = t.derived ∧ t'.flags = t.flags ∧
      ∃ state, t'.uidState (.derivedView change.viewId) = some state ∧
        state.uidvalidity = change.uidvalidity ∧ change.uid + 1 ≤ state.uidnext := by
  simp only [advanceViewUidState, bind_eq_ok, require_eq_ok] at h
  obtain ⟨t₁, hinsert, -, hvalidity, hupdate⟩ := h
  obtain ⟨state, hstate, hsame⟩ := Option.map_eq_some_iff.mp hvalidity
  have hsucc : change.uid + 1 ≤ maxGuint64 := by omega
  have hinserted := @insertUidState_advances position touched t t₁ _ _ hsucc hinsert
  obtain ⟨-, rfl⟩ := updateUidnext_eq_ok hstate hupdate
  have hle' := (hinserted hw).1.uidnext_le _ state hstate
  have hraised := @setUidState_advances position touched t₁ (.derivedView change.viewId)
    { state with uidnext := max state.uidnext (change.uid + 1) }
    (fun old hold => by
      rw [hstate, Option.some.injEq] at hold
      subst hold
      exact ⟨rfl, le_max_left _ _⟩) (max_le hle' hsucc)
  refine ⟨hinserted.trans hraised, ?_, ?_, _, Function.update_self .., hsame, le_max_right _ _⟩
  · rcases (insertUidState_eq_ok hinsert).2 with ⟨-, rfl⟩ | ⟨-, rfl⟩ <;> rfl
  · rcases (insertUidState_eq_ok hinsert).2 with ⟨-, rfl⟩ | ⟨-, rfl⟩ <;> rfl

lemma viewRows_spec {change : DerivedViewMembershipChanged} (hw : WellFormed t)
    (hle : change.uid ≤ maxGuint64) (h : viewRows t change = .ok t') :
    Advances position touched t t' ∧ ViewChanged t' change ∧
      cells t' = (viewEffect change).apply (cells t) := by
  simp only [viewRows, bind_eq_ok, require_eq_ok] at h
  obtain ⟨-, hguard, t₁, hupsert, hadvance⟩ := h
  obtain ⟨hupserted, hrow, hcells⟩ := @upsertViewRow_spec position touched t t₁ change hw hupsert
  obtain ⟨hadvanced, hderived, hflags, hstate⟩ :=
    @advanceViewUidState_spec position touched t₁ t' change hguard.2.1 hle (hupserted hw).1 hadvance
  refine ⟨hupserted.trans hadvanced, ⟨hguard, ?_, hstate⟩, ?_⟩
  · rw [hderived]
    exact hrow
  · rw [← hcells]
    funext cell
    cases cell with
    | flag table membershipId name => rw [cells, cells, hflags]
    | derived membershipId => rw [cells, cells, hderived]

/-! ## One record -/

/-- What the first application of a record leaves. A repetition of the record would write the same
    cells, or leave those of its new memberships alone. -/
structure FirstApplied (account : CString) (record : ProjectionRecord) (t t' : AccountTables) : Prop where
  wellFormed : WellFormed t'
  extended : Extends record.position (fun _ _ => True) t t'
  applied : Applied account t' record
  cells : ∀ cell, cells t' cell = (effect t' record).apply (cells t) cell ∨
    ∃ table membershipId name, cell = .flag table membershipId name ∧
      (∀ row ∈ t.memberships, row.membershipId ≠ membershipId) ∧ effect t' record cell = .keep

lemma FirstApplied.of_progresses {account : CString} {record : ProjectionRecord}
    (h : Progresses record.position (fun _ _ => True) t t') (happlied : Applied account t' record)
    (hkeep : ∀ cell, effect t' record cell = .keep) : FirstApplied account record t t' := by
  refine ⟨h.wellFormed, h.extended, happlied, fun cell => ?_⟩
  cases cell with
  | derived membershipId =>
    left
    rw [Effect.apply, hkeep]
    simp only [Reapplication.cells, h.kept.derived, Write.act]
  | flag table membershipId name =>
    by_cases hold : ∃ row ∈ t.memberships, row.membershipId = membershipId
    · left
      obtain ⟨row, hrow, rfl⟩ := hold
      rw [Effect.apply, hkeep]
      simp only [Reapplication.cells, h.kept.flags row hrow, Write.act]
    · exact .inr ⟨table, membershipId, name, rfl, fun row hrow heq => hold ⟨row, hrow, heq⟩, hkeep _⟩

/-- A MOVE record leaves its own destinations alone. -/
def SeparateRecord (record : ProjectionRecord) : Prop :=
  ∀ move, record.event = .membershipsMoved move → Separate move

theorem rows_first {seed : Provisioned} {account : CString} {record : ProjectionRecord}
    (hdecoded : Decoded record) (hseparate : SeparateRecord record) (hw : WellFormed t)
    (h : rows seed account t record = .ok t') : FirstApplied account record t t' := by
  obtain ⟨position, event⟩ := record
  cases event with
  | messageDelivered delivery =>
    obtain ⟨hprogress, happlied⟩ := @deliverRows_progresses position _ t t' seed account _ hw h
    exact .of_progresses hprogress happlied fun _ => rfl
  | flagChanged change =>
    obtain ⟨row, hrow⟩ : ∃ row, t.findUid change.mailboxId change.uidvalidity change.uid = some row := by
      change applyFlagChange t change position = .ok t' at h
      simp only [applyFlagChange, resolveFlagTarget, bind_eq_ok] at h
      obtain ⟨membershipId, htarget, -⟩ := h
      split at htarget
      · rename_i row hrow
        exact ⟨row, hrow⟩
      · simp at htarget
    obtain ⟨flags, happly, hcells⟩ := @applyFlagChange_cells position t change row hdecoded hrow
    have heq : t' = { t with flags := flags } := Except.ok.inj (h.symm.trans happly)
    subst heq
    have hcore : core t = core { t with flags := flags } := rfl
    exact ⟨wellFormed_of_core hcore hw, extends_of_core hcore, ⟨row, hrow⟩,
      fun cell => .inl (congrFun hcells cell)⟩
  | factMutated mutation =>
    change mutationRows t mutation position = .ok t' at h
    simp only [mutationRows, bind_eq_ok, require_eq_ok] at h
    obtain ⟨-, hguard, heq⟩ := h
    cases heq
    exact ⟨hw, .refl _, hguard, fun _ => .inl rfl⟩
  | factsExtracted extraction =>
    change extractionRows t extraction position = .ok t' at h
    simp only [extractionRows, bind_eq_ok, require_eq_ok] at h
    obtain ⟨-, hguard, h⟩ := h
    split at h
    · rename_i row hrow
      cases h
      exact ⟨hw, .refl _, ⟨hguard, row, hrow⟩, fun _ => .inl rfl⟩
    · rename_i hnone
      simp only [bind_eq_ok] at h
      obtain ⟨-, -, heq⟩ := h
      cases heq
      obtain ⟨hw', hextends⟩ := @insertExtraction_advances position (fun _ _ => True) t _ hnone
        ⟨extraction.facts.length, position⟩ hw
      exact ⟨hw', hextends, ⟨hguard, _, Function.update_self ..⟩, fun _ => .inl rfl⟩
  | derivedViewMembershipChanged change =>
    obtain ⟨hadvances, happlied, hcells⟩ := @viewRows_spec position (fun _ _ => True) t t' change hw hdecoded h
    exact ⟨(hadvances hw).1, (hadvances hw).2, happlied, fun cell => .inl (congrFun hcells cell)⟩
  | membershipsExpunged expunge =>
    obtain ⟨hprogress, happlied⟩ := @applyMembershipsExpunged_progresses position t t' expunge hw h
    exact .of_progresses hprogress happlied fun _ => rfl
  | membershipsCopied copy =>
    obtain ⟨hprogress, happlied⟩ := @applyMembershipsCopied_progresses position t t' copy false hw hdecoded
      (fun habsurd => absurd habsurd (by simp)) h
    exact .of_progresses (hprogress.mono fun _ _ _ => trivial) happlied fun _ => rfl
  | membershipsMoved move =>
    obtain ⟨hprogress, happlied⟩ := @applyMembershipsCopied_progresses position t t' move true hw hdecoded
      (fun _ => hseparate move rfl) h
    exact .of_progresses (hprogress.mono fun _ _ _ => trivial) happlied fun _ => rfl
  | messageAppended append =>
    obtain ⟨hprogress, happlied⟩ := @appendRows_progresses position _ t t' seed append hw hdecoded h
    exact .of_progresses hprogress happlied fun _ => rfl

end
end Wyrebox.FirstApplication
