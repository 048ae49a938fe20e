import Wyrebox.AccountReplay
import Wyrebox.ReplayCells

set_option autoImplicit false

/-!
# Records applied again

A pass may replay records that are applied already. Such a record finds its rows and changes
nothing but the flags and the derived memberships it sets.
-/
namespace Wyrebox.Reapplication
open Catalog Materializer Event Fallible AccountRows AccountReplay ReplayCells
open JournalWriter (Position)

/-! ## Cells -/

/-- What a repeated record may write. -/
inductive Cell where
  | flag (table : FlagTable) (membershipId name : CString)
  | derived (membershipId : CString)

inductive CellRow where
  | flag (row : FlagRow)
  | derived (isVisible : Bool) (materializedAtUnixUs : ℕ)

def cells (t : AccountTables) : Cell → Option CellRow
  | .flag table membershipId name => (t.flags table membershipId name).map .flag
  | .derived membershipId =>
    (t.derived.find? fun row => row.membershipId = membershipId).map fun row =>
      .derived row.isVisible row.materializedAtUnixUs

/-- The rows without their cells. -/
def core (t : AccountTables) : AccountTables :=
  { t with
    flags := fun _ _ _ => none
    derived := t.derived.map fun row => { row with isVisible := false, materializedAtUnixUs := 0 } }

lemma derived_ext {l l' : List DerivedMembership}
    (hcore : (l.map fun row => { row with isVisible := false, materializedAtUnixUs := 0 }) =
      l'.map fun row => { row with isVisible := false, materializedAtUnixUs := 0 })
    (hnodup : (l.map DerivedMembership.membershipId).Nodup)
    (hcells : ∀ membershipId,
      ((l.find? fun row => row.membershipId = membershipId).map fun row =>
        (row.isVisible, row.materializedAtUnixUs)) =
      (l'.find? fun row => row.membershipId = membershipId).map fun row =>
        (row.isVisible, row.materializedAtUnixUs)) : l = l' := by
  induction l generalizing l' with
  | nil => exact (List.map_eq_nil_iff.mp hcore.symm).symm
  | cons row l ih =>
    cases l' with
    | nil => simp at hcore
    | cons row' l' =>
      simp only [List.map_cons, List.cons.injEq] at hcore
      obtain ⟨hrow, hrest⟩ := hcore
      have hid : row.membershipId = row'.membershipId := (DerivedMembership.mk.inj hrow).1
      rw [List.map_cons, List.nodup_cons] at hnodup
      have hhead := hcells row.membershipId
      rw [List.find?_cons_of_pos (by simp), List.find?_cons_of_pos (by simp [hid])] at hhead
      simp only [Option.map_some, Option.some.injEq, Prod.mk.injEq] at hhead
      have heq : row = row' := by
        obtain ⟨_, _, _, _, _, _, _⟩ := row
        obtain ⟨_, _, _, _, _, _, _⟩ := row'
        simp only [DerivedMembership.mk.injEq] at hrow ⊢
        exact ⟨hrow.1, hrow.2.1, hrow.2.2.1, hrow.2.2.2.1, hhead.1, hrow.2.2.2.2.2.1, hhead.2⟩
      subst heq
      congr 1
      apply ih hrest hnodup.2
      intro membershipId
      by_cases hother : row.membershipId = membershipId
      · -- no later row has the head's key, here or there
        have hmiss : ∀ rows : List DerivedMembership,
            rows.map DerivedMembership.membershipId = l.map DerivedMembership.membershipId →
            (rows.find? fun r => r.membershipId = membershipId) = none := by
          intro rows hrows
          rw [List.find?_eq_none]
          intro r hr heq
          refine hnodup.1 ?_
          rw [hother, ← hrows, ← of_decide_eq_true heq]
          exact List.mem_map_of_mem hr
        have hkeys : l'.map DerivedMembership.membershipId = l.map DerivedMembership.membershipId := by
          have hmap := congrArg (List.map DerivedMembership.membershipId) hrest
          simp only [List.map_map, Function.comp_def] at hmap
          exact hmap.symm
        rw [hmiss l rfl, hmiss l' hkeys]
      · have htail := hcells membershipId
        rwa [List.find?_cons_of_neg (by simpa using hother),
          List.find?_cons_of_neg (by simpa using hother)] at htail

/-- Rows are their core and their cells. -/
theorem core_cells_ext {t t' : AccountTables} (hw : WellFormed t) (hcore : core t = core t')
    (hcells : cells t = cells t') : t = t' := by
  have hflags : t.flags = t'.flags := by
    funext table membershipId name
    have hcell := congrFun hcells (.flag table membershipId name)
    exact Option.map_injective (fun _ _ h => CellRow.flag.inj h) hcell
  have hderived : t.derived = t'.derived := by
    refine derived_ext (congrArg AccountTables.derived hcore) hw.derived_nodup fun membershipId => ?_
    have hcell := congrFun hcells (.derived membershipId)
    have hinj : Function.Injective fun p : Bool × ℕ => CellRow.derived p.1 p.2 := by
      rintro ⟨a, b⟩ ⟨c, d⟩ h
      simpa using h
    apply Option.map_injective hinj
    rw [Option.map_map, Option.map_map]
    exact hcell
  obtain ⟨_, _, _, _, _, _, _, _⟩ := t
  obtain ⟨_, _, _, _, _, _, _, _⟩ := t'
  simp only [core, AccountTables.mk.injEq] at hcore hflags hderived ⊢
  exact ⟨hcore.1, hcore.2.1, hcore.2.2.1, hcore.2.2.2.1, hcore.2.2.2.2.1, hflags, hderived,
    hcore.2.2.2.2.2.2.2⟩

section
variable {position : Position} {touched : CString → ℕ → Prop} {t t' : AccountTables}

lemma mem_derived_of_core (h : core t = core t') {row : DerivedMembership} (hrow : row ∈ t.derived) :
    ∃ row' ∈ t'.derived, SameIdentity row row' := by
  have hmem : { row with isVisible := false, materializedAtUnixUs := 0 } ∈ (core t').derived := by
    rw [← h]
    exact List.mem_map_of_mem hrow
  obtain ⟨row', hrow', heq⟩ := List.mem_map.mp hmem
  simp only [DerivedMembership.mk.injEq] at heq
  exact ⟨row', hrow', heq.1, heq.2.1, heq.2.2.1, heq.2.2.2.1, heq.2.2.2.2.2.1⟩

lemma core_fields (h : core t = core t') :
    t'.mailboxes = t.mailboxes ∧ t'.memberships = t.memberships ∧ t'.uidState = t.uidState ∧
      t'.messages = t.messages ∧ t'.headers = t.headers ∧ t'.extractions = t.extractions ∧
      t'.derived.map DerivedMembership.membershipId = t.derived.map DerivedMembership.membershipId := by
  simp only [core, AccountTables.mk.injEq] at h
  obtain ⟨hmailboxes, hmemberships, huidState, hmessages, hheaders, -, hderived, hextractions⟩ := h
  have hkeys := congrArg (List.map DerivedMembership.membershipId) hderived
  simp only [List.map_map, Function.comp_def] at hkeys
  exact ⟨hmailboxes.symm, hmemberships.symm, huidState.symm, hmessages.symm, hheaders.symm,
    hextractions.symm, hkeys.symm⟩

lemma extends_of_core (h : core t = core t') : Extends position touched t t' := by
  obtain ⟨hmailboxes, hmemberships, huidState, hmessages, hheaders, hextractions, -⟩ := core_fields h
  refine ⟨.inl hmailboxes, ?_, ?_, ?_, ?_, ?_, fun _ hrow => mem_derived_of_core h hrow⟩
  · exact fun row hrow => ⟨row, hmemberships ▸ hrow, .inl rfl⟩
  · exact fun ns state hstate => ⟨state, huidState ▸ hstate, rfl, le_refl _⟩
  · rw [hmessages]
    exact .refl _
  · rw [hheaders]
    exact .refl _
  · rw [hextractions]
    exact fun _ _ => id

lemma wellFormed_of_core (h : core t = core t') (hw : WellFormed t) : WellFormed t' := by
  obtain ⟨-, hmemberships, huidState, -, -, -, hkeys⟩ := core_fields h
  refine ⟨?_, ?_, ?_, ?_, ?_⟩
  · rw [hmemberships]
    exact hw.ids_nodup
  · rw [hmemberships]
    exact hw.uids_nodup
  · rw [hmemberships, huidState]
    exact hw.uid_lt
  · rw [huidState]
    exact hw.uidnext_le
  · rw [hkeys]
    exact hw.derived_nodup

/-! ## Applied records -/

/-- The fields of a membership that no record changes. -/
structure SameMembership (row row' : Membership) : Prop where
  mailboxId : row'.mailboxId = row.mailboxId
  messageId : row'.messageId = row.messageId
  uid : row'.uid = row.uid
  internalDateUnixUs : row'.internalDateUnixUs = row.internalDateUnixUs
  position : row'.position = row.position
  journalItem : row'.journalItem = row.journalItem

/-- A membership that counts as written by the record at `sequence`. -/
def Written (t : AccountTables) (membershipId : CString) (sequence : ℕ) (P : Membership → Prop) : Prop :=
  ∃ row, t.findMembership membershipId = some row ∧ liveAfter row sequence = true ∧ P row

def Stored (t : AccountTables) (position : Position) (record : MessageRecord) : Prop :=
  t.messages (journalMessageId position) = some ⟨record.objectKey, position⟩ ∧
    t.headers (journalMessageId position) = some (headersRow record.metadata position)

def HasUidState (t : AccountTables) (mailboxId : CString) (uidvalidity : ℕ) : Prop :=
  1 ≤ uidvalidity ∧ (t.uidState (.mailbox mailboxId)).map UidState.uidvalidity = some uidvalidity

def DeliveredRow (mailboxId : CString) (position : Position) (record : MessageRecord)
    (row : Membership) : Prop :=
  row.mailboxId = mailboxId ∧ row.messageId = journalMessageId position ∧
    row.internalDateUnixUs = record.internalDateUnixUs ∧ row.position = position ∧ 1 ≤ row.uid

def Delivered (account : CString) (t : AccountTables) (position : Position) (record : MessageRecord) : Prop :=
  record.objectKey ≠ .empty ∧ Stored t position record ∧ ∃ mailboxId,
    resolveInboxId t account = .ok mailboxId ∧ ensureMailboxExact t mailboxId inboxName = .ok () ∧
    HasUidState t mailboxId mailboxUidvalidity ∧
    Written t (deliveryMembershipId mailboxId position) position.sequence (DeliveredRow mailboxId position record)

def DestinationRow (mailboxId messageId : CString) (uid item : ℕ) (position : Position)
    (row : Membership) : Prop :=
  row.mailboxId = mailboxId ∧ row.messageId = messageId ∧ row.uid = uid ∧ row.journalItem = item ∧
    row.position = position

def Appended (t : AccountTables) (append : MessageAppended) (position : Position) : Prop :=
  (t.hasMailbox append.mailboxId = true ∨ (append.mailboxId = inboxId append.accountId ∧
    ensureMailboxExact t append.mailboxId inboxName = .ok ())) ∧
  HasUidState t append.mailboxId append.uidvalidity ∧ Stored t position (appendedRecord append) ∧
  Written t (itemMembershipId append.mailboxId position 0) position.sequence
    (DestinationRow append.mailboxId (journalMessageId position) append.uid 0 position)

def Tombstoned (t : AccountTables) (mailboxId : CString) (uidvalidity uid : ℕ) (position : Position) : Prop :=
  ∃ row, t.findUid mailboxId uidvalidity uid = some row ∧ row.isVisible = false ∧
    row.expunged = some position

def CopiedItem (t : AccountTables) (copy : MembershipsCopied) (position : Position)
    (indexed : MembershipsCopiedItem × ℕ) : Prop :=
  Written t (itemMembershipId copy.destMailboxId position indexed.2) position.sequence
    (DestinationRow copy.destMailboxId indexed.1.messageId indexed.1.dstUid indexed.2 position)

def Copied (tombstoneSources : Bool) (t : AccountTables) (copy : MembershipsCopied)
    (position : Position) : Prop :=
  t.hasMailbox copy.destMailboxId = true ∧ HasUidState t copy.destMailboxId copy.destUidvalidity ∧
  ∀ indexed ∈ copy.items.zipIdx, CopiedItem t copy position indexed ∧
    (tombstoneSources = true →
      Tombstoned t copy.sourceMailboxId copy.sourceUidvalidity indexed.1.srcUid position)

def Extracted (t : AccountTables) (extraction : FactsExtracted) (position : Position) : Prop :=
  (extraction.accountId ≠ .empty ∧ extraction.messageId ≠ .empty ∧ position.sequence ≠ 0) ∧
    ∃ row, t.extractions extraction.messageId = some row

def ViewChanged (t : AccountTables) (change : DerivedViewMembershipChanged) : Prop :=
  (change.uid ≠ 0 ∧ change.uid ≠ maxGuint64 ∧ change.uidvalidity ≠ 0) ∧
  (∃ row ∈ t.derived, SameIdentity ⟨change.membershipId, change.viewId, change.messageId, change.uid,
    change.isVisible, change.ruleVersionHash, change.materializedAtUnixUs⟩ row) ∧
  ∃ state, t.uidState (.derivedView change.viewId) = some state ∧
    state.uidvalidity = change.uidvalidity ∧ change.uid + 1 ≤ state.uidnext

/-- The rows hold what the record writes and does not write again. -/
def Applied (account : CString) (t : AccountTables) (record : ProjectionRecord) : Prop :=
  match record.event with
  | .messageDelivered delivery => Delivered account t record.position (deliveredRecord delivery)
  | .flagChanged change => ∃ row, t.findUid change.mailboxId change.uidvalidity change.uid = some row
  | .factMutated mutation =>
    mutation.scopeId ≠ .empty ∧ mutation.predicateId ≠ .empty ∧ record.position.sequence ≠ 0
  | .factsExtracted extraction => Extracted t extraction record.position
  | .derivedViewMembershipChanged change => ViewChanged t change
  | .membershipsExpunged expunge =>
    ∀ uid ∈ expunge.uids, Tombstoned t expunge.mailboxId expunge.uidvalidity uid record.position
  | .membershipsCopied copy => Copied false t copy record.position
  | .membershipsMoved move => Copied true t move record.position
  | .messageAppended append => Appended t append record.position

/-! ## Applied records stay applied -/

lemma Aged.same {row row' : Membership} (h : Aged position touched row row') : SameMembership row row' := by
  rcases h with rfl | ⟨-, -, rfl⟩
  · exact ⟨rfl, rfl, rfl, rfl, rfl, rfl⟩
  · exact ⟨rfl, rfl, rfl, rfl, rfl, rfl⟩

/-- A membership that a later record tombstones still counts as written. -/
lemma Aged.liveAfter {row row' : Membership} {sequence : ℕ} (h : Aged position touched row row')
    (hlive : liveAfter row sequence = true)
    (hlater : touched row.mailboxId row.uid → sequence < position.sequence) :
    liveAfter row' sequence = true := by
  rcases h with rfl | ⟨-, htouched, rfl⟩
  · exact hlive
  · simp [Materializer.liveAfter, hlater htouched]

lemma DestinationRow.same {row row' : Membership} (h : SameMembership row row')
    {mailboxId messageId : CString} {uid item : ℕ} {at' : Position}
    (hrow : DestinationRow mailboxId messageId uid item at' row) :
    DestinationRow mailboxId messageId uid item at' row' := by
  obtain ⟨hmailbox, hmessage, huid, hitem, hposition⟩ := hrow
  exact ⟨h.mailboxId.trans hmailbox, h.messageId.trans hmessage, h.uid.trans huid,
    h.journalItem.trans hitem, h.position.trans hposition⟩

section
variable (he : Extends position touched t t') (hw : WellFormed t) (hw' : WellFormed t')
include he hw hw'

lemma Written.extends {membershipId : CString} {sequence : ℕ} {P : Membership → Prop}
    (h : Written t membershipId sequence P) (hP : ∀ row row', SameMembership row row' → P row → P row')
    (hlater : ∀ row, P row → touched row.mailboxId row.uid → sequence < position.sequence) :
    Written t' membershipId sequence P := by
  obtain ⟨row, hrow, hlive, hfields⟩ := h
  obtain ⟨row', hrow', haged⟩ := he.findMembership hw hw' hrow
  exact ⟨row', hrow', Aged.liveAfter haged hlive (hlater row hfields), hP row row' (Aged.same haged) hfields⟩

lemma Tombstoned.extends {mailboxId : CString} {uidvalidity uid : ℕ} {at' : Position}
    (h : Tombstoned t mailboxId uidvalidity uid at') : Tombstoned t' mailboxId uidvalidity uid at' := by
  obtain ⟨row, hrow, hvisible, hexpunged⟩ := h
  obtain ⟨row', hrow', haged⟩ := he.findUid hw hw' hrow
  rcases haged with rfl | ⟨habsurd, -⟩
  · exact ⟨row', hrow', hvisible, hexpunged⟩
  · rw [hvisible] at habsurd
    simp at habsurd

lemma CopiedItem.extends {copy : MembershipsCopied} {at' : Position}
    {indexed : MembershipsCopiedItem × ℕ} (h : CopiedItem t copy at' indexed)
    (hlater : touched copy.destMailboxId indexed.1.dstUid → at'.sequence < position.sequence) :
    CopiedItem t' copy at' indexed := by
  refine Written.extends he hw hw' h (fun _ _ hsame => DestinationRow.same hsame) ?_
  rintro row ⟨hmailbox, -, huid, -, -⟩ htouched
  rw [hmailbox, huid] at htouched
  exact hlater htouched

omit hw hw' in
lemma Stored.extends {at' : Position} {record : MessageRecord} (h : Stored t at' record) :
    Stored t' at' record := ⟨he.messages _ _ h.1, he.headers _ _ h.2⟩

omit hw hw' in
lemma HasUidState.extends {mailboxId : CString} {uidvalidity : ℕ} (h : HasUidState t mailboxId uidvalidity) :
    HasUidState t' mailboxId uidvalidity := ⟨h.1, he.uidvalidity h.2⟩

/-- An applied record stays applied under every later record. -/
theorem Applied.extends {account : CString} {record : ProjectionRecord} (h : Applied account t record)
    (hlater : record.position.sequence < position.sequence) : Applied account t' record := by
  obtain ⟨at', event⟩ := record
  cases event with
  | messageDelivered delivery =>
    obtain ⟨hkey, hstored, mailboxId, hinbox, hexact, hstate, hwritten⟩ := h
    have hsame := he.mailboxes_of_inbox hexact
    refine ⟨hkey, Stored.extends he hstored, mailboxId, ?_, ?_, HasUidState.extends he hstate, ?_⟩
    · rwa [resolveInboxId, hsame]
    · rwa [ensureMailboxExact, hsame]
    · refine Written.extends he hw hw' hwritten ?_ fun _ _ _ => hlater
      rintro row row' hfields ⟨hmailbox, hmessage, hdate, hposition, huid⟩
      exact ⟨hfields.mailboxId.trans hmailbox, hfields.messageId.trans hmessage,
        hfields.internalDateUnixUs.trans hdate, hfields.position.trans hposition, hfields.uid ▸ huid⟩
  | flagChanged change =>
    obtain ⟨row, hrow⟩ := h
    obtain ⟨row', hrow', -⟩ := he.findUid hw hw' hrow
    exact ⟨row', hrow'⟩
  | factMutated mutation => exact h
  | factsExtracted extraction =>
    obtain ⟨hguard, row, hrow⟩ := h
    exact ⟨hguard, row, he.extractions _ row hrow⟩
  | derivedViewMembershipChanged change =>
    obtain ⟨hguard, ⟨row, hrow, hid, hview, hmessage, huid, hhash⟩, state, hstate, hvalidity, hle⟩ := h
    obtain ⟨row', hrow', hid', hview', hmessage', huid', hhash'⟩ := he.derived row hrow
    obtain ⟨state', hstate', hvalidity', hle'⟩ := he.uidState _ state hstate
    exact ⟨hguard, ⟨row', hrow', hid'.trans hid, hview'.trans hview, hmessage'.trans hmessage,
      huid'.trans huid, hhash'.trans hhash⟩, state', hstate', hvalidity'.trans hvalidity, hle.trans hle'⟩
  | membershipsExpunged expunge => exact fun uid huid => Tombstoned.extends he hw hw' (h uid huid)
  | membershipsCopied copy =>
    obtain ⟨hhas, hstate, hitems⟩ := h
    refine ⟨he.hasMailbox hhas, HasUidState.extends he hstate, fun indexed hindexed => ⟨?_, by simp⟩⟩
    exact CopiedItem.extends he hw hw' (hitems indexed hindexed).1 fun _ => hlater
  | membershipsMoved move =>
    obtain ⟨hhas, hstate, hitems⟩ := h
    refine ⟨he.hasMailbox hhas, HasUidState.extends he hstate, fun indexed hindexed => ⟨?_, ?_⟩⟩
    · exact CopiedItem.extends he hw hw' (hitems indexed hindexed).1 fun _ => hlater
    · exact fun hmove => Tombstoned.extends he hw hw' ((hitems indexed hindexed).2 hmove)
  | messageAppended append =>
    obtain ⟨hdestination, hstate, hstored, hwritten⟩ := h
    refine ⟨?_, HasUidState.extends he hstate, Stored.extends he hstored, ?_⟩
    · rcases hdestination with hhas | ⟨hinbox, hexact⟩
      · exact .inl (he.hasMailbox hhas)
      · exact .inr ⟨hinbox, by rwa [ensureMailboxExact, he.mailboxes_of_inbox hexact]⟩
    · exact Written.extends he hw hw' hwritten (fun _ _ hsame => DestinationRow.same hsame)
        fun _ _ _ => hlater

end

/-! ## What a repeated record writes -/

def nameWrite (change : FlagChanged) (position : Position) : Write CellRow :=
  match change.mode with
  | .clear => .erase
  | .set | .replace => .fill (.flag ⟨change.mailboxId, position⟩)

def flagNames (change : FlagChanged) : FlagTable → List CString
  | .messageFlags => change.systemFlags
  | .messageKeywords => change.userKeywords

def flagWrite (change : FlagChanged) (position : Position) (table : FlagTable) (name : CString) :
    Write CellRow :=
  if name ∈ flagNames change table then nameWrite change position
  else if change.mode = .replace then .erase
  else .keep

def flagTarget (t : AccountTables) (change : FlagChanged) : Option CString :=
  (t.findUid change.mailboxId change.uidvalidity change.uid).map Membership.membershipId

def flagEffect (target : Option CString) (change : FlagChanged) (position : Position) : Effect Cell CellRow
  | .flag table membershipId name =>
    if target = some membershipId then flagWrite change position table name else .keep
  | .derived _ => .keep

def viewEffect (change : DerivedViewMembershipChanged) : Effect Cell CellRow
  | .flag _ _ _ => .keep
  | .derived membershipId =>
    if membershipId = change.membershipId then .put (.derived change.isVisible change.materializedAtUnixUs)
    else .keep

def effect (t : AccountTables) (record : ProjectionRecord) : Effect Cell CellRow :=
  match record.event with
  | .flagChanged change => flagEffect (flagTarget t change) change record.position
  | .derivedViewMembershipChanged change => viewEffect change
  | _ => fun _ => .keep

lemma effect_extends {account : CString} {record : ProjectionRecord} (he : Extends position touched t t')
    (hw : WellFormed t) (hw' : WellFormed t') (h : Applied account t record) :
    effect t' record = effect t record := by
  obtain ⟨at', event⟩ := record
  cases event with
  | flagChanged change =>
    obtain ⟨row, hrow⟩ := h
    obtain ⟨row', hrow', haged⟩ := he.findUid hw hw' hrow
    have htarget : flagTarget t' change = flagTarget t change := by
      rw [flagTarget, flagTarget, hrow, hrow']
      rcases haged with rfl | ⟨-, -, rfl⟩ <;> rfl
    change flagEffect _ change at' = flagEffect _ change at'
    rw [htarget]
  | _ => rfl

/-- An applied record writes no flag of a membership that is not there. -/
lemma effect_flag_of_not_mem {account : CString} {record : ProjectionRecord} (hw : WellFormed t)
    (h : Applied account t record) {membershipId : CString}
    (hfresh : ∀ row ∈ t.memberships, row.membershipId ≠ membershipId) (table : FlagTable) (name : CString) :
    effect t record (.flag table membershipId name) = .keep := by
  obtain ⟨at', event⟩ := record
  cases event with
  | flagChanged change =>
    obtain ⟨row, hrow⟩ := h
    refine if_neg fun htarget => ?_
    rw [flagTarget, hrow, Option.map_some, Option.some.injEq] at htarget
    exact hfresh row ((findUid_eq_some hw).mp hrow).2.1 htarget
  | _ => rfl

/-! ## Flag changes -/

/-- The flags differ from those of `t` in one cell of `names` each, as the write says. -/
def Rewritten (t : AccountTables) (flags : FlagTable → CString → CString → Option FlagRow)
    (write : FlagTable → CString → CString → Write CellRow) : Prop :=
  ∀ table membershipId name, (flags table membershipId name).map CellRow.flag =
    (write table membershipId name).act ((t.flags table membershipId name).map .flag)

lemma applyFlagName_rewritten {current : CString → Bool} {table : FlagTable} {change : FlagChanged}
    {membershipId name : CString} (hcurrent : (t.flags table membershipId name).isSome = current name) :
    ∃ flags, applyFlagName current table change membershipId position t name =
        .ok { t with flags := flags } ∧
      Rewritten t flags fun table' membershipId' name' =>
        if table' = table ∧ membershipId' = membershipId ∧ name' = name then nameWrite change position
        else .keep := by
  have hkeep : t.flags table membershipId name ≠ none → change.mode ≠ .clear →
      Rewritten t t.flags fun table' membershipId' name' =>
        if table' = table ∧ membershipId' = membershipId ∧ name' = name then nameWrite change position
        else .keep := by
    intro hsome hmode table' membershipId' name'
    simp only
    split
    · rename_i hcell
      obtain ⟨rfl, rfl, rfl⟩ := hcell
      obtain ⟨row, hrow⟩ := Option.ne_none_iff_exists'.mp hsome
      rw [hrow]
      unfold nameWrite
      split
      · rename_i hclear
        exact absurd hclear hmode
      · rfl
      · rfl
    · rfl
  have hfill : t.flags table membershipId name = none → change.mode ≠ .clear →
      insertFlagName t table change.mailboxId membershipId position name =
        .ok (t.setFlag table membershipId name (some ⟨change.mailboxId, position⟩)) ∧
      Rewritten t (t.setFlag table membershipId name (some ⟨change.mailboxId, position⟩)).flags
        fun table' membershipId' name' =>
          if table' = table ∧ membershipId' = membershipId ∧ name' = name then nameWrite change position
          else .keep := by
    intro hnone hmode
    refine ⟨by simp [insertFlagName, hnone, require, bind, Except.bind], fun table' membershipId' name' => ?_⟩
    simp only [AccountTables.setFlag]
    split
    · rename_i hcell
      obtain ⟨rfl, rfl, rfl⟩ := hcell
      rw [hnone]
      unfold nameWrite
      split
      · rename_i hclear
        exact absurd hclear hmode
      · rfl
      · rfl
    · rfl
  have hset : change.mode ≠ .clear → ∃ flags,
      (if current name then .ok t
        else insertFlagName t table change.mailboxId membershipId position name) =
        .ok { t with flags := flags } ∧ Rewritten t flags fun table' membershipId' name' =>
          if table' = table ∧ membershipId' = membershipId ∧ name' = name then nameWrite change position
          else .keep := by
    intro hmode
    cases hsome : current name with
    | true =>
      rw [hsome, Option.isSome_iff_ne_none] at hcurrent
      exact ⟨t.flags, rfl, hkeep hcurrent hmode⟩
    | false =>
      rw [hsome, Option.isSome_eq_false_iff, Option.isNone_iff_eq_none] at hcurrent
      exact ⟨_, (hfill hcurrent hmode).1, (hfill hcurrent hmode).2⟩
  unfold applyFlagName
  split
  · rename_i hclear
    refine ⟨(if current name then t.setFlag table membershipId name none else t).flags, ?_, ?_⟩
    · split <;> rfl
    · intro table' membershipId' name'
      simp only [nameWrite, hclear]
      cases hsome : current name with
      | true =>
        simp only [if_true, AccountTables.setFlag]
        split <;> rfl
      | false =>
        rw [hsome, Option.isSome_eq_false_iff, Option.isNone_iff_eq_none] at hcurrent
        simp only [Bool.false_eq_true, if_false]
        split
        · rename_i hcell
          obtain ⟨rfl, rfl, rfl⟩ := hcell
          rw [hcurrent]
          rfl
        · rfl
  · rename_i hmode
    exact hset (by rw [hmode]; decide)
  · rename_i hmode
    exact hset (by rw [hmode]; decide)

lemma applyFlagNames_rewritten {current : CString → Bool} {table : FlagTable} {change : FlagChanged}
    {membershipId : CString} {names : List CString} (hnodup : names.Nodup)
    (hcurrent : ∀ name ∈ names, (t.flags table membershipId name).isSome = current name) :
    ∃ flags, names.foldlM (applyFlagName current table change membershipId position) t =
        .ok { t with flags := flags } ∧
      Rewritten t flags fun table' membershipId' name' =>
        if table' = table ∧ membershipId' = membershipId ∧ name' ∈ names then nameWrite change position
        else .keep := by
  induction names generalizing t with
  | nil => exact ⟨t.flags, rfl, fun _ _ _ => by simp [Write.act]⟩
  | cons name names ih =>
    rw [List.nodup_cons] at hnodup
    rw [List.forall_mem_cons] at hcurrent
    obtain ⟨flags₁, hfirst, hwrite₁⟩ :=
      @applyFlagName_rewritten position t current table change membershipId name hcurrent.1
    have hcurrent' : ∀ name' ∈ names, (flags₁ table membershipId name').isSome = current name' := by
      intro name' hname'
      have hcell := hwrite₁ table membershipId name'
      have hne : name' ≠ name := fun heq => hnodup.1 (heq ▸ hname')
      beta_reduce at hcell
      rw [if_neg (by simp [hne])] at hcell
      rw [Option.map_injective (fun _ _ h => CellRow.flag.inj h) hcell]
      exact hcurrent.2 name' hname'
    obtain ⟨flags, hrest, hwrite⟩ := @ih { t with flags := flags₁ } hnodup.2 hcurrent'
    refine ⟨flags, ?_, fun table' membershipId' name' => ?_⟩
    · rw [List.foldlM_cons, bind_eq_ok]
      exact ⟨_, hfirst, hrest⟩
    · rw [hwrite]
      change Write.act _ ((flags₁ table' membershipId' name').map _) = _
      rw [hwrite₁]
      beta_reduce
      by_cases hhere : table' = table ∧ membershipId' = membershipId
      · by_cases heq : name' = name
        · subst heq
          rw [if_neg (by simp [hnodup.1]), if_pos ⟨hhere.1, hhere.2, rfl⟩, if_pos (by simp [hhere])]
          rfl
        · simp only [hhere, heq, true_and, List.mem_cons, false_or, and_false, if_false]
          rfl
      · have hmiss : ∀ p : Prop, ¬(table' = table ∧ membershipId' = membershipId ∧ p) :=
          fun p h => hhere ⟨h.1, h.2.1⟩
        rw [if_neg (hmiss _), if_neg (hmiss _), if_neg (hmiss _)]
        rfl

lemma applyFlagTable_rewritten {table : FlagTable} {change : FlagChanged} {membershipId : CString}
    (hnodup : (flagNames change table).Nodup) :
    ∃ flags, applyFlagTable t table change (flagNames change table) membershipId position =
        .ok { t with flags := flags } ∧
      Rewritten t flags fun table' membershipId' name' =>
        if table' = table ∧ membershipId' = membershipId then flagWrite change position table' name'
        else .keep := by
  by_cases hmode : change.mode = .replace
  · have hlisted : ∀ name ∈ flagNames change table,
        ((deleteUnlisted t table membershipId (flagNames change table)).flags table membershipId name).isSome =
          (t.flags table membershipId name).isSome := by
      intro name hname
      simp only [deleteUnlisted]
      rw [if_neg (by simp [hname])]
    obtain ⟨flags, happly, hwrite⟩ :=
      @applyFlagNames_rewritten position _ _ table change membershipId _ hnodup hlisted
    refine ⟨flags, ?_, fun table' membershipId' name' => ?_⟩
    · unfold applyFlagTable
      simp only [hmode, if_true]
      exact happly
    · rw [hwrite]
      simp only [deleteUnlisted, flagWrite, hmode, if_true]
      by_cases hhere : table' = table ∧ membershipId' = membershipId
      · obtain ⟨rfl, rfl⟩ := hhere
        by_cases hname : name' ∈ flagNames change table'
        · simp [hname]
        · simp [hname, Write.act]
      · rw [if_neg (fun h => hhere ⟨h.1, h.2.1⟩), if_neg (fun h => hhere ⟨h.1, h.2.1⟩), if_neg hhere]
  · obtain ⟨flags, happly, hwrite⟩ :=
      @applyFlagNames_rewritten position t _ table change membershipId _ hnodup fun _ _ => rfl
    refine ⟨flags, ?_, fun table' membershipId' name' => ?_⟩
    · unfold applyFlagTable
      simp only [hmode, if_false]
      exact happly
    · rw [hwrite]
      simp only [flagWrite, hmode, if_false]
      by_cases hhere : table' = table ∧ membershipId' = membershipId
      · obtain ⟨rfl, rfl⟩ := hhere
        simp
      · rw [if_neg (fun h => hhere ⟨h.1, h.2.1⟩), if_neg hhere]

/-- A flag change of a UID that is there writes its target's flags. -/
lemma applyFlagChange_cells {change : FlagChanged} {row : Membership}
    (hnodup : ∀ table, (flagNames change table).Nodup)
    (hrow : t.findUid change.mailboxId change.uidvalidity change.uid = some row) :
    ∃ flags, applyFlagChange t change position = .ok { t with flags := flags } ∧
      cells { t with flags := flags } =
        (flagEffect (flagTarget t change) change position).apply (cells t) := by
  obtain ⟨flags₁, happly₁, hwrite₁⟩ :=
    @applyFlagTable_rewritten position t .messageFlags change row.membershipId (hnodup _)
  obtain ⟨flags₂, happly₂, hwrite₂⟩ := @applyFlagTable_rewritten position { t with flags := flags₁ }
    .messageKeywords change row.membershipId (hnodup _)
  refine ⟨flags₂, ?_, ?_⟩
  · simp only [applyFlagChange, bind_eq_ok]
    exact ⟨row.membershipId, by rw [resolveFlagTarget, hrow], _, happly₁, happly₂⟩
  · funext cell
    cases cell with
    | derived membershipId => rfl
    | flag table membershipId name =>
      have hcell₁ := hwrite₁ table membershipId name
      have hcell₂ := hwrite₂ table membershipId name
      change (flags₂ table membershipId name).map _ = _
      rw [hcell₂]
      change Write.act _ ((flags₁ table membershipId name).map _) = _
      rw [hcell₁]
      simp only [Effect.apply, flagEffect, flagTarget, hrow, Option.map_some, Option.some.injEq, cells]
      by_cases htarget : row.membershipId = membershipId
      · subst htarget
        cases table <;> simp [Write.act]
      · rw [if_neg (fun h => htarget h.2.symm), if_neg (fun h => htarget h.2.symm), if_neg htarget]
        rfl

/-! ## Repetition -/

lemma foldl_max_lt {l : List ℕ} {n m : ℕ} (hm : m < n) (hl : ∀ a ∈ l, a < n) : l.foldl max m < n := by
  induction l generalizing m with
  | nil => exact hm
  | cons a l ih =>
    rw [List.forall_mem_cons] at hl
    exact ih (max_lt hm hl.1) hl.2

lemma maxUid_lt {mailboxId : CString} {state : UidState} (hw : WellFormed t)
    (hstate : t.uidState (.mailbox mailboxId) = some state) (hpos : 0 < state.uidnext) :
    t.maxUid mailboxId < state.uidnext := by
  apply foldl_max_lt hpos
  intro uid huid
  obtain ⟨row, hrow, rfl⟩ := List.mem_map.mp huid
  rw [List.mem_filter, decide_eq_true_eq] at hrow
  obtain ⟨state', hstate', hlt⟩ := hw.uid_lt row hrow.1
  rw [hrow.2, hstate, Option.some.injEq] at hstate'
  rwa [hstate']

lemma selectUidnext_eq {mailboxId : CString} {state : UidState} (hw : WellFormed t)
    (hstate : t.uidState (.mailbox mailboxId) = some state)
    (hvalidity : state.uidvalidity = mailboxUidvalidity) (hpos : 0 < state.uidnext) :
    selectUidnext t mailboxId = .ok state.uidnext := by
  have hlt := maxUid_lt hw hstate hpos
  have hle := hw.uidnext_le _ state hstate
  simp only [selectUidnext, hstate, bind_eq_ok, require_eq_ok]
  exact ⟨(), hvalidity, (), ⟨by omega, by omega⟩, trivial⟩

lemma HasUidState.exists {mailboxId : CString} {uidvalidity : ℕ} (h : HasUidState t mailboxId uidvalidity) :
    ∃ state, t.uidState (.mailbox mailboxId) = some state ∧ state.uidvalidity = uidvalidity :=
  Option.map_eq_some_iff.mp h.2

lemma ensureUidStateValidity_self {mailboxId : CString} {uidvalidity : ℕ}
    (h : HasUidState t mailboxId uidvalidity) : ensureUidStateValidity t mailboxId uidvalidity = .ok t := by
  obtain ⟨state, hstate, -⟩ := h.exists
  simp only [ensureUidStateValidity, bind_eq_ok, require_eq_ok]
  exact ⟨t, insertUidState_self ⟨le_refl 1, h.1⟩ hstate, (), h.2, rfl⟩

lemma ensureMessage_self {record : MessageRecord} (h : Stored t position record) :
    ensureMessage t position record = .ok t := by
  rw [ensureMessage, Registry.register_self h.1]

lemma ensureMessageHeaders_self {record : MessageRecord} (h : Stored t position record) :
    ensureMessageHeaders t position record = .ok t := by
  rw [ensureMessageHeaders, Registry.register_self h.2]

lemma ensureMembershipExact_true {mailboxId membershipId : CString} {record : MessageRecord} :
    ensureMembershipExact t mailboxId membershipId position record = .ok true ↔
      Written t membershipId position.sequence (DeliveredRow mailboxId position record) := by
  unfold ensureMembershipExact Written DeliveredRow
  split
  · rename_i hnone
    simp [hnone]
  · rename_i row hrow
    simp only [bind_eq_ok, require_eq_ok, hrow, Option.some.injEq, exists_eq_left', and_true, exists_const]
    tauto

lemma destinationMembershipExists_true {mailboxId messageId membershipId : CString} {uid item : ℕ} :
    destinationMembershipExists t mailboxId messageId uid item membershipId position = .ok true ↔
      Written t membershipId position.sequence (DestinationRow mailboxId messageId uid item position) := by
  unfold destinationMembershipExists Written DestinationRow
  split
  · rename_i hnone
    simp [hnone]
  · rename_i row hrow
    simp only [bind_eq_ok, require_eq_ok, hrow, Option.some.injEq, exists_eq_left', and_true, exists_const]
    tauto

lemma tombstoneMembershipUid_self {mailboxId : CString} {uidvalidity uid : ℕ}
    (h : Tombstoned t mailboxId uidvalidity uid position) :
    tombstoneMembershipUid mailboxId uidvalidity position t uid = .ok t := by
  obtain ⟨row, hrow, hvisible, hexpunged⟩ := h
  simp only [tombstoneMembershipUid, hrow, hvisible, Bool.false_eq_true, if_false, bind_eq_ok, require_eq_ok]
  exact ⟨(), hexpunged, trivial⟩

lemma foldlM_self {α ε : Type} {f : AccountTables → α → Except ε AccountTables} {l : List α}
    (h : ∀ a ∈ l, f t a = .ok t) : l.foldlM f t = .ok t := by
  induction l with
  | nil => rfl
  | cons a l ih =>
    rw [List.forall_mem_cons] at h
    rw [List.foldlM_cons, bind_eq_ok]
    exact ⟨t, h.1, ih h.2⟩

lemma ensureAppendDestination_eq_ok {seed : Provisioned} {append : MessageAppended} :
    ensureAppendDestination seed t append = .ok t' ↔ ∃ t₁,
      (t.hasMailbox append.mailboxId = true ∧ t₁ = t ∨ t.hasMailbox append.mailboxId = false ∧
        append.mailboxId = inboxId append.accountId ∧
        ensureMailbox seed append.accountId t append.mailboxId inboxName = .ok t₁) ∧
      ensureUidStateValidity t₁ append.mailboxId append.uidvalidity = .ok t' := by
  simp only [ensureAppendDestination]
  cases t.hasMailbox append.mailboxId with
  | true => simp [bind, Except.bind]
  | false =>
    simp only [Bool.false_eq_true, if_false, bind_eq_ok, require_eq_ok, exists_const, false_and, true_and,
      false_or]
    constructor
    · rintro ⟨hinbox, t₁, hmailbox, hstate⟩
      exact ⟨t₁, ⟨hinbox, hmailbox⟩, hstate⟩
    · rintro ⟨t₁, ⟨hinbox, hmailbox⟩, hstate⟩
      exact ⟨hinbox, t₁, hmailbox, hstate⟩

lemma applyCopyItem_eq_ok {copy : MembershipsCopied} {tombstoneSource : Bool} {item : MembershipsCopiedItem}
    {index : ℕ} :
    applyCopyItem copy tombstoneSource position t (item, index) = .ok t' ↔ ∃ found t₁,
      destinationMembershipExists t copy.destMailboxId item.messageId item.dstUid index
        (itemMembershipId copy.destMailboxId position index) position = .ok found ∧
      (found = true ∧ t₁ = t ∨ found = false ∧ insertCopyMembership t copy position item index = .ok t₁) ∧
      (tombstoneSource = true ∧ tombstoneMembershipUid copy.sourceMailboxId copy.sourceUidvalidity position
        t₁ item.srcUid = .ok t' ∨ tombstoneSource = false ∧ t' = t₁) := by
  simp only [applyCopyItem, bind_eq_ok]
  constructor
  · rintro ⟨found, hfound, h⟩
    cases found with
    | true =>
      simp only [if_true, bind, Except.bind] at h
      refine ⟨true, t, hfound, .inl ⟨rfl, rfl⟩, ?_⟩
      cases tombstoneSource with
      | true => exact .inl ⟨rfl, h⟩
      | false => exact .inr ⟨rfl, (Except.ok.inj h).symm⟩
    | false =>
      simp only [Bool.false_eq_true, if_false, bind_eq_ok] at h
      obtain ⟨t₁, hinsert, h⟩ := h
      refine ⟨false, t₁, hfound, .inr ⟨rfl, hinsert⟩, ?_⟩
      cases tombstoneSource with
      | true => exact .inl ⟨rfl, h⟩
      | false => exact .inr ⟨rfl, (Except.ok.inj h).symm⟩
  · rintro ⟨found, t₁, hfound, hinsert, htombstone⟩
    have hlast : (if tombstoneSource then tombstoneMembershipUid copy.sourceMailboxId copy.sourceUidvalidity
        position t₁ item.srcUid else .ok t₁) = .ok t' := by
      rcases htombstone with ⟨rfl, h⟩ | ⟨rfl, rfl⟩
      · exact h
      · rfl
    refine ⟨found, hfound, ?_⟩
    rcases hinsert with ⟨rfl, rfl⟩ | ⟨rfl, hinsert⟩
    · exact hlast
    · simp only [Bool.false_eq_true, if_false, bind_eq_ok]
      exact ⟨t₁, hinsert, hlast⟩

lemma deliverRows_self {seed : Provisioned} {account : CString} {record : MessageRecord} (hw : WellFormed t)
    (h : Delivered account t position record) :
    deliverRows seed account t [(position, record)] = .ok t := by
  obtain ⟨hkey, hstored, mailboxId, hinbox, hexact, hstate, hwritten⟩ := h
  obtain ⟨state, hsome, hvalidity⟩ := hstate.exists
  obtain ⟨row, hrow, -, hmailbox, -⟩ := id hwritten
  have hpos : 0 < state.uidnext := by
    obtain ⟨state', hstate', hlt⟩ := hw.uid_lt row ((findMembership_eq_some hw).mp hrow).1
    rw [hmailbox, hsome, Option.some.injEq] at hstate'
    subst hstate'
    exact Nat.lt_of_lt_of_le (Nat.zero_lt_of_lt hlt) (le_refl _)
  have hmembership : deliverMembership mailboxId t state.uidnext (position, record) =
      .ok (t, state.uidnext) := by
    simp only [deliverMembership, bind_eq_ok, require_eq_ok]
    exact ⟨(), hkey, t, ensureMessage_self hstored, t, ensureMessageHeaders_self hstored, true,
      ensureMembershipExact_true.mpr hwritten, rfl⟩
  simp only [deliverRows, bind_eq_ok]
  refine ⟨mailboxId, hinbox, t, ensureMailbox_self seed account hexact, t,
    insertUidState_self ⟨le_refl 1, hstate.1⟩ hsome, state.uidnext,
    selectUidnext_eq hw hsome hvalidity hpos, (t, state.uidnext), ?_, updateUidnext_self hsome rfl hpos⟩
  rw [List.foldlM_cons, bind_eq_ok]
  exact ⟨_, hmembership, rfl⟩

lemma appendRows_self {seed : Provisioned} {append : MessageAppended} (h : Appended t append position) :
    appendRows seed t append position = .ok t := by
  obtain ⟨hdestination, hstate, hstored, hwritten⟩ := h
  simp only [appendRows, bind_eq_ok]
  refine ⟨t, ?_, t, ensureMessage_self hstored, t, ensureMessageHeaders_self hstored, ?_⟩
  · refine ensureAppendDestination_eq_ok.mpr ⟨t, ?_, ensureUidStateValidity_self hstate⟩
    cases hhas : t.hasMailbox append.mailboxId with
    | true => exact .inl ⟨rfl, rfl⟩
    | false =>
      obtain ⟨hinbox, hexact⟩ := hdestination.resolve_left (by simp [hhas])
      exact .inr ⟨rfl, hinbox, ensureMailbox_self seed append.accountId hexact⟩
  · simp only [insertAppendMembership, bind_eq_ok]
    exact ⟨true, destinationMembershipExists_true.mpr hwritten, rfl⟩

lemma applyMembershipsCopied_self {tombstoneSources : Bool} {copy : MembershipsCopied}
    (h : Copied tombstoneSources t copy position) :
    applyMembershipsCopied tombstoneSources t copy position = .ok t := by
  obtain ⟨hhas, hstate, hitems⟩ := h
  simp only [applyMembershipsCopied, ensureCopyDestination, bind_eq_ok, require_eq_ok]
  refine ⟨t, ⟨(), hhas, ensureUidStateValidity_self hstate⟩, foldlM_self ?_⟩
  rintro ⟨item, index⟩ hindexed
  obtain ⟨hitem, hsource⟩ := hitems (item, index) hindexed
  refine applyCopyItem_eq_ok.mpr ⟨true, t, destinationMembershipExists_true.mpr hitem, .inl ⟨rfl, rfl⟩, ?_⟩
  cases tombstoneSources with
  | true => exact .inl ⟨rfl, tombstoneMembershipUid_self (hsource rfl)⟩
  | false => exact .inr ⟨rfl, rfl⟩

lemma advanceViewUidState_self {change : DerivedViewMembershipChanged} {state : UidState}
    (hpos : change.uidvalidity ≠ 0) (hstate : t.uidState (.derivedView change.viewId) = some state)
    (hvalidity : state.uidvalidity = change.uidvalidity) (hle : change.uid + 1 ≤ state.uidnext) :
    advanceViewUidState t change = .ok t := by
  simp only [advanceViewUidState, bind_eq_ok, require_eq_ok]
  refine ⟨t, insertUidState_self ⟨Nat.le_add_left 1 _, Nat.one_le_iff_ne_zero.mpr hpos⟩ hstate, (),
    by rw [hstate, Option.map_some, hvalidity], ?_⟩
  exact updateUidnext_self hstate (max_eq_left hle) (le_trans (Nat.le_add_left 1 _) hle)

lemma find?_derived (hw : WellFormed t) {row : DerivedMembership} (hrow : row ∈ t.derived) :
    (t.derived.find? fun other => other.membershipId = row.membershipId) = some row :=
  find?_of_nodup hw.derived_nodup hrow

lemma cells_updateDerivedRow {change : DerivedViewMembershipChanged} (hw : WellFormed t)
    {row : DerivedMembership} (hrow : row ∈ t.derived) (hid : row.membershipId = change.membershipId) :
    cells (updateDerivedRow t change.membershipId change.isVisible change.materializedAtUnixUs) =
      (viewEffect change).apply (cells t) := by
  have hw' := (@updateDerivedRow_advances ⟨0, 0⟩ (fun _ _ => False) t change.membershipId change.isVisible
    change.materializedAtUnixUs hw).1
  funext cell
  cases cell with
  | flag table membershipId name => rfl
  | derived membershipId =>
    simp only [Effect.apply, viewEffect]
    split
    · rename_i heq
      subst heq
      have hmem : (if row.membershipId = change.membershipId then
          { row with isVisible := change.isVisible, materializedAtUnixUs := change.materializedAtUnixUs }
          else row) ∈ (updateDerivedRow t change.membershipId change.isVisible
            change.materializedAtUnixUs).derived := List.mem_map_of_mem hrow
      rw [if_pos hid] at hmem
      have hfind := find?_derived hw' hmem
      simp only [hid] at hfind
      simp only [cells, hfind, Option.map_some]
      rfl
    · rename_i hne
      have hkept : ∀ l : List DerivedMembership, ((l.map fun row =>
          if row.membershipId = change.membershipId then
            { row with isVisible := change.isVisible, materializedAtUnixUs := change.materializedAtUnixUs }
          else row).find? fun row => row.membershipId = membershipId) =
          l.find? fun row => row.membershipId = membershipId := by
        intro l
        induction l with
        | nil => rfl
        | cons other l ih =>
          rw [List.map_cons]
          by_cases hother : other.membershipId = change.membershipId
          · have hmiss : ¬other.membershipId = membershipId := fun h => hne (h ▸ hother)
            rw [if_pos hother, List.find?_cons_of_neg (by simpa using hmiss),
              List.find?_cons_of_neg (by simpa using hmiss), ih]
          · rw [if_neg hother, List.find?_cons, List.find?_cons, ih]
      simp only [cells, updateDerivedRow, hkept]
      rfl

lemma core_updateDerivedRow (membershipId : CString) (isVisible : Bool) (materializedAtUnixUs : ℕ) :
    core (updateDerivedRow t membershipId isVisible materializedAtUnixUs) = core t := by
  have hrows : (updateDerivedRow t membershipId isVisible materializedAtUnixUs).derived.map
      (fun row => { row with isVisible := false, materializedAtUnixUs := 0 }) =
      t.derived.map fun row => { row with isVisible := false, materializedAtUnixUs := 0 } := by
    rw [updateDerivedRow, List.map_map]
    apply List.map_congr_left
    intro row _
    rw [Function.comp_apply]
    split <;> rfl
  simp only [core, hrows]
  rfl

lemma viewRows_self {change : DerivedViewMembershipChanged} (hw : WellFormed t) (h : ViewChanged t change) :
    ∃ t', viewRows t change = .ok t' ∧ core t' = core t ∧
      cells t' = (viewEffect change).apply (cells t) := by
  obtain ⟨hguard, ⟨row, hrow, hid, hview, hmessage, huid, hhash⟩, state, hstate, hvalidity, hle⟩ := h
  have hfind := find?_derived hw hrow
  rw [hid] at hfind
  refine ⟨_, ?_, core_updateDerivedRow .., cells_updateDerivedRow hw hrow hid⟩
  simp only [viewRows, bind_eq_ok, require_eq_ok]
  refine ⟨(), hguard, _, ?_, advanceViewUidState_self hguard.2.2 hstate hvalidity hle⟩
  simp only [upsertViewRow, hfind, bind_eq_ok, require_eq_ok]
  exact ⟨(), ⟨hview, hmessage, huid, hhash⟩, trivial⟩

/-- What the decoder has checked of a payload. -/
def Decoded (record : ProjectionRecord) : Prop :=
  match record.event with
  | .flagChanged change => ∀ table, (flagNames change table).Nodup
  | .membershipsCopied copy => ∀ item ∈ copy.items, item.dstUid ≤ maxGuint64
  | .membershipsMoved move => ∀ item ∈ move.items, item.dstUid ≤ maxGuint64
  | .messageAppended append => append.uid ≤ maxGuint64
  | .derivedViewMembershipChanged change => change.uid ≤ maxGuint64
  | _ => True

/-- An applied record is accepted again and rewrites its own cells. -/
theorem rows_applied {seed : Provisioned} {account : CString} {record : ProjectionRecord}
    (hdecoded : Decoded record) (hw : WellFormed t) (h : Applied account t record) :
    ∃ t', rows seed account t record = .ok t' ∧ core t' = core t ∧
      cells t' = (effect t record).apply (cells t) := by
  obtain ⟨position, event⟩ := record
  cases event with
  | messageDelivered delivery => exact ⟨t, deliverRows_self hw h, rfl, rfl⟩
  | flagChanged change =>
    obtain ⟨row, hrow⟩ := h
    obtain ⟨flags, happly, hcells⟩ := @applyFlagChange_cells position t change row hdecoded hrow
    exact ⟨_, happly, rfl, hcells⟩
  | factMutated mutation =>
    refine ⟨t, ?_, rfl, rfl⟩
    change mutationRows t mutation position = .ok t
    simp only [mutationRows, bind_eq_ok, require_eq_ok]
    exact ⟨(), h, trivial⟩
  | factsExtracted extraction =>
    obtain ⟨hguard, row, hrow⟩ := h
    refine ⟨t, ?_, rfl, rfl⟩
    change extractionRows t extraction position = .ok t
    simp only [extractionRows, hrow, bind_eq_ok, require_eq_ok]
    exact ⟨(), hguard, trivial⟩
  | derivedViewMembershipChanged change => exact viewRows_self hw h
  | membershipsExpunged expunge =>
    exact ⟨t, foldlM_self fun uid huid => tombstoneMembershipUid_self (h uid huid), rfl, rfl⟩
  | membershipsCopied copy => exact ⟨t, applyMembershipsCopied_self h, rfl, rfl⟩
  | membershipsMoved move => exact ⟨t, applyMembershipsCopied_self h, rfl, rfl⟩
  | messageAppended append => exact ⟨t, appendRows_self h, rfl, rfl⟩

end
end Wyrebox.Reapplication
