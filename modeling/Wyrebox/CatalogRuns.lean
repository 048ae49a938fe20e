import Wyrebox.RecordWrites
import Wyrebox.RefreshFrames
import Wyrebox.RowWrites

set_option autoImplicit false

/-!
# Runs of the catalog

The daemon's transactions on the catalog in any order: runs of journaled records, refreshes of
views, and the UIDs that APPEND, COPY and MOVE reserve before they journal.
-/
namespace Wyrebox.CatalogRuns
open Catalog Materializer Catchup Event Fallible
open AccountRows AccountReplay AccountCatchup Reapplication DeliveryRuns RowFrames RowWrites
open DerivedViewMaterializer DerivedViewReplay DerivedViewAgreement DerivedViewUids RefreshFrames
open JournalRecord (Sha256)
open JournalWriter (Position)

/-- What the payload decoders check of a record. -/
structure Checked (record : ProjectionRecord) : Prop where
  decoded : Decoded record
  object : ∀ object, storedObject record = some object → object ≠ .empty
  ruleVersionHash : ∀ change, record.event = .derivedViewMembershipChanged change → change.ruleVersionHash ≠ .empty

/-! ## Reserved UIDs -/

/-- `reserve_destination_uid` of APPEND and `reserve_destination_uids` of COPY and MOVE. -/
def reserveDestinationUids (t : AccountTables) (mailboxId : CString) (uidvalidity count : ℕ) :
    Option (AccountTables × ℕ) :=
  match t.uidState (.mailbox mailboxId) with
  | none => none
  | some state =>
    if state.uidvalidity = uidvalidity ∧ state.uidnext ≠ 0 ∧ count ≤ maxGuint64 - state.uidnext then
      some (t.setUidState (.mailbox mailboxId) { state with uidnext := state.uidnext + count }, state.uidnext)
    else none

/-! ## Steps -/

/-- The journal, the catalog and `derived_views` by account. -/
structure World where
  log : Log
  catalog : Catalog
  views : CString → List DerivedView

namespace World

def initial (seed : Provisioned) : World := ⟨.empty, .initial seed, fun _ => []⟩

def tables (w : World) (account : CString) : AccountTables := w.catalog.tables account

def viewState (w : World) (account : CString) : ViewState := ⟨w.catalog.session account, w.views account⟩

def withViewState (w : World) (account : CString) (state : ViewState) : World where
  log := w.log
  catalog := w.catalog.withSession account state.session
  views := Function.update w.views account state.views

def withTables (w : World) (account : CString) (t : AccountTables) : World :=
  { w with catalog := { w.catalog with tables := Function.update w.catalog.tables account t } }

end World

inductive Action where
  | journal (event : Option Event) (size : ℕ)
  | apply (run : Run) (advanceCheckpoint : Bool)
  | refresh (request : Request) (kind : RefreshKind) (memberships : List WirelogMembership)
  | prepareInbox (account : CString)
  | reserve (account mailboxId : CString) (uidvalidity count : ℕ)

/-- One committed transaction or append. -/
inductive Step (seed : Provisioned) (sha : Sha256) : World → Action → World → Prop where
  | journaled {w : World} {event : Option Event} {size : ℕ}
      (hchecked : ∀ e, event = some e → Checked ⟨w.log.nextPosition, e⟩) :
      Step seed sha w (.journal event size) { w with log := w.log.append event size }
  | applied {w : World} {records : List ProjectionRecord} {run : Run} {advance : Bool} {cat : Catalog}
      (hrecords : records <:+: w.log.records) (hrun : run ∈ runs records)
      (h : applyRun seed run advance w.catalog = .ok cat) : Step seed sha w (.apply run advance) { w with catalog := cat }
  | refreshed {w : World} {request : Request} {kind : RefreshKind} {memberships : List WirelogMembership}
      {state : ViewState} {changes : List DerivedViewMembershipChanged}
      (h : refresh sha request kind memberships (w.viewState request.accountId) = .ok (state, changes)) :
      Step seed sha w (.refresh request kind memberships) (w.withViewState request.accountId state)
  | prepared {w : World} {account : CString} {t : AccountTables}
      (h : ensureUidStateValidity (w.tables account) (inboxId account) mailboxUidvalidity = .ok t) :
      Step seed sha w (.prepareInbox account) (w.withTables account t)
  | reserved {w : World} {account mailboxId : CString} {uidvalidity count first : ℕ} {t : AccountTables}
      (h : reserveDestinationUids (w.tables account) mailboxId uidvalidity count = some (t, first)) :
      Step seed sha w (.reserve account mailboxId uidvalidity count) (w.withTables account t)

structure Transition where
  before : World
  action : Action
  after : World

/-- The transitions from one world to another, in order. -/
inductive History (seed : Provisioned) (sha : Sha256) : World → List Transition → World → Prop where
  | nil (w : World) : History seed sha w [] w
  | snoc {w w' w'' : World} {transitions : List Transition} {action : Action} (h : History seed sha w transitions w')
      (hstep : Step seed sha w' action w'') : History seed sha w (transitions ++ [⟨w', action, w''⟩]) w''

def Reachable (seed : Provisioned) (sha : Sha256) (w : World) : Prop :=
  ∃ transitions, History seed sha (.initial seed) transitions w

/-! ## What the tables of an account keep -/

/-- What every row of an account has. -/
structure Stored (seed : Provisioned) (account : CString) (t : AccountTables) : Prop where
  states : ∀ ns state, t.uidState ns = some state → 1 ≤ state.uidnext ∧ 1 ≤ state.uidvalidity
  mailboxes : ∀ mailbox ∈ t.mailboxes, mailbox ∈ seed.ofAccount account ∨
    ∃ state, t.uidState (.mailbox mailbox.mailboxId) = some state
  messages : ∀ messageId message, t.messages messageId = some message → messageId ≠ .empty ∧ message.objectId ≠ .empty
  uids : ∀ row ∈ t.memberships, 1 ≤ row.uid
  rules : ∀ row ∈ t.derived, row.ruleVersionHash ≠ .empty

/-- UID states stay, with their UIDVALIDITY. -/
def StatesKept (t t' : AccountTables) : Prop :=
  ∀ ns state, t.uidState ns = some state → ∃ state', t'.uidState ns = some state' ∧
    state'.uidvalidity = state.uidvalidity ∧ state.uidnext ≤ state'.uidnext

section
variable {seed : Provisioned} {sha : Sha256} {account : CString} {record : ProjectionRecord}
  {t t' t'' : AccountTables} {s s' : Session} {views : List DerivedView} {run : Run} {w w' : World}

lemma statesKept_refl (t : AccountTables) : StatesKept t t := fun _ state hstate => ⟨state, hstate, rfl, le_refl _⟩

lemma StatesKept.trans (h : StatesKept t t') (h' : StatesKept t' t'') : StatesKept t t'' := by
  intro ns state hstate
  obtain ⟨state', hstate', hvalidity, hle⟩ := h ns state hstate
  obtain ⟨state'', hstate'', hvalidity', hle'⟩ := h' ns state' hstate'
  exact ⟨state'', hstate'', hvalidity'.trans hvalidity, hle.trans hle'⟩

lemma statesKept_set {ns : Namespace} {state : UidState}
    (h : ∀ old, t.uidState ns = some old → state.uidvalidity = old.uidvalidity ∧ old.uidnext ≤ state.uidnext) :
    StatesKept t (t.setUidState ns state) := by
  intro other old hold
  by_cases hother : other = ns
  · subst hother
    exact ⟨state, Function.update_self .., h old hold⟩
  · exact ⟨old, (Function.update_of_ne hother ..).trans hold, rfl, le_refl _⟩

lemma Stored.setUidState {ns : Namespace} {state : UidState} (h : Stored seed account t)
    (hpos : 1 ≤ state.uidnext ∧ 1 ≤ state.uidvalidity) : Stored seed account (t.setUidState ns state) where
  states := by
    intro other stored hstored
    by_cases hother : other = ns
    · subst hother
      change Function.update t.uidState other (some state) other = some stored at hstored
      rw [Function.update_self] at hstored
      rwa [← Option.some.inj hstored]
    · exact h.states other stored ((Function.update_of_ne hother ..).symm.trans hstored)
  mailboxes := by
    intro mailbox hmailbox
    refine (h.mailboxes mailbox hmailbox).imp_right fun ⟨old, hold⟩ => ?_
    by_cases hother : .mailbox mailbox.mailboxId = ns
    · exact ⟨state, by rw [hother]; exact Function.update_self ..⟩
    · exact ⟨old, (Function.update_of_ne hother ..).trans hold⟩
  messages := h.messages
  uids := h.uids
  rules := h.rules

lemma accountTables_stored (seed : Provisioned) (account : CString) : Stored seed account (seed.accountTables account) where
  states := by simp [Provisioned.accountTables]
  mailboxes := fun _ hmailbox => .inl hmailbox
  messages := by simp [Provisioned.accountTables, Registry.empty]
  uids := by simp [Provisioned.accountTables]
  rules := by simp [Provisioned.accountTables]

/-- No statement of a checked record stores a row without what it needs. -/
lemma RowWrite.stored (hwrite : RowWrite record t t') (hchecked : Checked record) (h : Stored seed account t) :
    Stored seed account t' := by
  cases hwrite with
  | newUidState hnew hpos => exact h.setUidState hpos
  | uidnext hstate hpos => exact h.setUidState ⟨hpos, (h.states _ _ hstate).2⟩
  | inbox hnew hstate =>
    refine { h with mailboxes := fun mailbox hmailbox => ?_ }
    rcases List.mem_append.mp hmailbox with hold | hinbox
    · exact h.mailboxes mailbox hold
    · rw [List.mem_singleton.mp hinbox]
      exact .inr hstate
  | message hobject hregister =>
    refine { h with messages := fun messageId message hmessage => ?_ }
    obtain ⟨hself, -, hothers⟩ := Registry.register_eq_some hregister
    by_cases hid : messageId = journalMessageId record.position
    · subst hid
      obtain rfl := Option.some.inj (hself.symm.trans hmessage)
      exact ⟨RecordWrites.journalMessageId_ne_empty _, hchecked.object _ hobject⟩
    · exact h.messages messageId message ((hothers messageId hid).symm.trans hmessage)
  | headers => exact { h with }
  | membership hposition hvisible hexpunged hinsert =>
    obtain ⟨hpos, -, rfl⟩ := insertMembershipRow_eq_ok hinsert
    exact { h with uids := List.forall_mem_append.mpr ⟨h.uids, List.forall_mem_singleton.mpr hpos⟩ }
  | tombstone hrow hvisible =>
    refine { h with uids := fun row hrow => ?_ }
    obtain ⟨old, hold, rfl⟩ := List.mem_map.mp hrow
    split
    · exact h.uids old hold
    · exact h.uids old hold
  | flags => exact { h with }
  | extraction => exact { h with }
  | newDerived hchange hinsert =>
    obtain ⟨-, rfl⟩ := insertDerivedRow_eq_ok hinsert
    refine { h with rules := List.forall_mem_append.mpr ⟨h.rules, List.forall_mem_singleton.mpr ?_⟩ }
    exact hchecked.ruleVersionHash _ hchange
  | derived hchange hrow hsame =>
    refine { h with rules := fun row' hrow' => ?_ }
    obtain ⟨old, hold, rfl⟩ := List.mem_map.mp hrow'
    split
    · exact h.rules old hold
    · exact h.rules old hold

/-! ## What an account keeps -/

/-- An account's rows and views between two transactions. -/
structure Sound (seed : Provisioned) (account : CString) (s : Session) (views : List DerivedView) : Prop where
  wellFormed : WellFormed s.tables
  assigned : Assigned account s
  stored : Stored seed account s.tables
  views : ∀ view ∈ views, ∃ state, s.tables.uidState (.derivedView view.viewId) = some state

/-- The shared tables only grow. -/
lemma Sound.of_shared (h : Sound seed account s views) (howner : s.derivedOwner.Within s'.derivedOwner)
    (htables : s'.tables = s.tables) : Sound seed account s' views := by
  have hvalid : Valid account s' := by
    refine ⟨?_, ?_, ?_, ?_⟩ <;> rw [htables]
    · exact h.assigned.valid.unique
    · exact h.assigned.valid.uid_pos
    · exact fun row hrow => howner _ _ (h.assigned.valid.owner row hrow)
    · exact h.assigned.valid.uidnext_le
  refine ⟨?_, ⟨hvalid, ?_⟩, ?_, ?_⟩ <;> rw [htables]
  · exact h.wellFormed
  · exact h.assigned.below
  · exact h.stored
  · exact h.views

/-- The UID states of views stay and their rows are left alone. -/
lemma assigned_of_derived (h : Assigned account s) (howner : s.derivedOwner.Within s'.derivedOwner)
    (hderived : s'.tables.derived = s.tables.derived) (hstates : StatesKept s.tables s'.tables)
    (hw : WellFormed s'.tables) : Assigned account s' := by
  refine ⟨⟨?_, ?_, ?_, hw.uidnext_le⟩, ?_⟩ <;> rw [hderived]
  · exact h.valid.unique
  · exact h.valid.uid_pos
  · exact fun row hrow => howner _ _ (h.valid.owner row hrow)
  · intro row hrow
    obtain ⟨state, hstate, hlt⟩ := h.below row hrow
    obtain ⟨state', hstate', -, hle⟩ := hstates _ state hstate
    exact ⟨state', hstate', hlt.trans_le hle⟩

lemma statesKept_views (h : StatesKept t t') (hviews : ∀ view ∈ views, ∃ state, t.uidState (.derivedView view.viewId) = some state) :
    ∀ view ∈ views, ∃ state, t'.uidState (.derivedView view.viewId) = some state := by
  intro view hview
  obtain ⟨state, hstate⟩ := hviews view hview
  obtain ⟨state', hstate', -⟩ := h _ state hstate
  exact ⟨state', hstate'⟩

/-! ### Records -/

lemma replayRows_progress {records : List ProjectionRecord} (hdecoded : ∀ r ∈ records, Decoded r) (hw : WellFormed t)
    (h : replayRows seed account t records = .ok t') : WellFormed t' ∧ StatesKept t t' := by
  induction records generalizing t with
  | nil =>
    obtain rfl : t = t' := Except.ok.inj h
    exact ⟨hw, statesKept_refl t⟩
  | cons record records ih =>
    have hsplit : replayRows seed account t ([record] ++ records) = .ok t' := h
    obtain ⟨t₁, hfirst, hrest⟩ := replayRows_append.mp hsplit
    obtain ⟨hw₁, hextends⟩ := MembershipConservation.rows_progress (hdecoded record List.mem_cons_self) hw
      (replayRows_singleton.mp hfirst)
    have hkept : StatesKept t t₁ := hextends.uidState
    obtain ⟨hw', hkept'⟩ := ih (fun r hr => hdecoded r (List.mem_cons_of_mem _ hr)) hw₁ hrest
    exact ⟨hw', hkept.trans hkept'⟩

/-- Records that are no changes of a view leave the rows of views alone. -/
lemma replayRows_derived {records : List ProjectionRecord}
    (hchange : ∀ r ∈ records, ∀ change, r.event ≠ .derivedViewMembershipChanged change)
    (h : replayRows seed account t records = .ok t') : t'.derived = t.derived := by
  refine replayRows_keep (P := fun s => s.derived = t.derived) (fun r hr s s' hwrite hs => ?_) rfl h
  cases hwrite with
  | newUidState hnew hpos => exact hs
  | uidnext hstate hpos => exact hs
  | inbox hnew hstate => exact hs
  | message hobject hregister => exact hs
  | headers => exact hs
  | membership hposition hvisible hexpunged hinsert =>
    obtain ⟨-, -, rfl⟩ := insertMembershipRow_eq_ok hinsert
    exact hs
  | tombstone hrow hvisible => exact hs
  | flags => exact hs
  | extraction => exact hs
  | newDerived hevent hinsert => exact absurd hevent (hchange r hr _)
  | derived hevent hrow hsame => exact absurd hevent (hchange r hr _)

/-- A run of checked records. -/
lemma applyRecords_sound (huniform : Run.Uniform run) (hsorted : Sorted run) (hchecked : ∀ r ∈ run.records, Checked r)
    (h : applyRecords seed run s = .ok s') (hsound : Sound seed run.account s views) :
    Sound seed run.account s' views ∧ StatesKept s.tables s'.tables ∧ s.derivedOwner.Within s'.derivedOwner := by
  obtain ⟨hrows, hshared, -⟩ := applyRecords_rows hsorted (fits_of_wellFormed hsound.wellFormed) h
  obtain ⟨hw, hkept⟩ := replayRows_progress (fun r hr => (hchecked r hr).decoded) hsound.wellFormed hrows
  have hstored : Stored seed run.account s'.tables :=
    replayRows_keep (fun r hr _ _ hwrite => RowWrite.stored hwrite (hchecked r hr)) hsound.stored hrows
  have hassigned : Assigned run.account s' := by
    by_cases hchange : ∃ r ∈ run.records, ∃ change, r.event = .derivedViewMembershipChanged change
    · -- such a record is a run of its own
      obtain ⟨r, hr, change, hevent⟩ := hchange
      have hother : isDelivery r = false := by simp [isDelivery, hevent]
      rcases hsorted with hall | ⟨hfirst, hrest⟩
      · rw [hall r hr] at hother
        simp at hother
      · have heq : r = run.first := by
          rw [Run.records, hrest] at hr
          exact List.mem_singleton.mp hr
        subst heq
        unfold applyRecords at h
        rw [if_neg (by simp [hfirst])] at h
        have happly : applyMembershipChange s change = .ok s' := by
          simpa only [Materializer.apply, hevent] using h
        have haccount : change.accountId = run.account := by simp [Run.account, accountOf, hevent, Event.accountIdentity]
        have hle : change.uid ≤ maxGuint64 := by
          have hdecoded := (hchecked _ run.first_mem).decoded
          simpa only [Decoded, hevent] using hdecoded
        exact (applyMembershipChange_assigned hsound.assigned haccount hle happly).1
    · simp only [not_exists, not_and] at hchange
      exact assigned_of_derived hsound.assigned hshared.owner (replayRows_derived hchange hrows) hkept hw
  exact ⟨⟨hw, hassigned, hstored, statesKept_views hkept hsound.views⟩, hkept, hshared.owner⟩

/-! ### Refreshes -/

section
variable {request : Request} {kind : RefreshKind} {memberships : List WirelogMembership} {state state' : ViewState}
  {changes : List DerivedViewMembershipChanged}

/-- The views after a refresh: as they were, or with the view of the request added. -/
lemma ensureDerivedView_eq_ok {views' : List DerivedView} (h : ensureDerivedView request views = .ok views') :
    views' = views ∨ views' = views ++ [⟨request.viewId, request.imapName, request.definitionRef, true, true⟩] := by
  unfold ensureDerivedView at h
  dsimp only at h
  obtain ⟨-, h⟩ := check_eq_ok.mp h
  rw [← Except.ok.inj h]
  split
  · exact .inl rfl
  · exact .inr rfl

lemma openView_views {opened : ViewState × UidState} (h : openView sha request state = .ok opened) :
    ∀ view ∈ opened.1.views, view ∈ state.views ∨ view.viewId = request.viewId := by
  simp only [openView, bind_eq_ok] at h
  obtain ⟨views, hviews, t, -, uidState, -, heq⟩ := h
  obtain rfl := Except.ok.inj heq
  intro view hview
  rcases ensureDerivedView_eq_ok hviews with rfl | rfl
  · exact .inl hview
  · refine (List.mem_append.mp hview).imp_right fun hnew => ?_
    rw [List.mem_singleton.mp hnew]

/-- A refresh checks the rule version of its request first. -/
lemma refresh_views (h : refresh sha request kind memberships state = .ok (state', changes)) :
    request.ruleVersionHash ≠ .empty ∧
      ∀ view ∈ state'.views, view ∈ state.views ∨ view.viewId = request.viewId := by
  have hinputs : validateInputs request memberships = .ok () → request.ruleVersionHash ≠ .empty := by
    intro hvalid
    simp only [validateInputs, bind_eq_ok, validate_eq_ok] at hvalid
    obtain ⟨-, -, -, -, -, -, -, -, -, hrule, -⟩ := hvalid
    exact hrule
  have hwhole : ∀ hideOthers, refreshMemberships sha request hideOthers memberships state = .ok (state', changes) →
      request.ruleVersionHash ≠ .empty ∧
        ∀ view ∈ state'.views, view ∈ state.views ∨ view.viewId = request.viewId := by
    intro hideOthers h
    unfold refreshMemberships at h
    simp only [bind_eq_ok] at h
    obtain ⟨checked, hvalid, opened, hopen, p, -, p', -, heq⟩ := h
    obtain ⟨rfl, -⟩ := Prod.mk.inj (Except.ok.inj heq)
    exact ⟨hinputs hvalid, openView_views hopen⟩
  cases kind with
  | view => exact hwhole false h
  | currentRule => exact hwhole true h
  | messages messageIds =>
    change refreshMessageMemberships sha request messageIds memberships state = .ok (state', changes) at h
    unfold refreshMessageMemberships at h
    simp only [bind_eq_ok] at h
    obtain ⟨checked, hvalid, listed, -, opened, hopen, p, -, p', -, heq⟩ := h
    obtain ⟨rfl, -⟩ := Prod.mk.inj (Except.ok.inj heq)
    exact ⟨hinputs hvalid, openView_views hopen⟩

/-- The UID state that a refresh leaves for its view. -/
lemma refresh_uidState (hvalid : Valid request.accountId state.session)
    (h : refresh sha request kind memberships state = .ok (state', changes)) : ∃ stored,
    state'.session.tables.uidState (.derivedView request.viewId) = some stored ∧ stored.uidnext ≠ 0 ∧ stored.uidvalidity ≠ 0 := by
  obtain ⟨p, hfinished, hsession, -⟩ := refresh_finished hvalid h
  obtain ⟨opened, state₁, hopened, hfollows⟩ := hfinished.follows
  rw [hsession]
  exact ⟨⟨p.uidnext, opened.uidvalidity⟩, hfollows.stored, hfinished.wrapped, hopened.validity⟩

lemma refresh_sound (h : refresh sha request kind memberships state = .ok (state', changes))
    (hsound : Sound seed request.accountId state.session state.views) :
    Sound seed request.accountId state'.session state'.views ∧
      StatesKept state.session.tables state'.session.tables ∧
      state.session.derivedOwner.Within state'.session.derivedOwner := by
  have hrefreshed := refresh_refreshed h
  obtain ⟨hrule, hviews⟩ := refresh_views h
  obtain ⟨stored, hstored, hnext, hvalidity⟩ := refresh_uidState hsound.assigned.valid h
  obtain ⟨hassigned, hcontinues⟩ := refresh_assigned hsound.assigned h
  have hkept : StatesKept state.session.tables state'.session.tables := by
    intro ns old hold
    by_cases hns : ns = .derivedView request.viewId
    · subst hns
      exact hcontinues.uidState _ old hold
    · exact ⟨old, (hrefreshed.others ns hns).trans hold, rfl, le_refl _⟩
  obtain ⟨derivedOwner, derived, uidState, hframe⟩ := hrefreshed.frame
  have htables : state'.session.tables = { state.session.tables with derived := derived, uidState := uidState } := by
    rw [hframe]
  have hmemberships : state'.session.tables.memberships = state.session.tables.memberships := by rw [htables]
  refine ⟨⟨⟨?_, ?_, ?_, hassigned.valid.uidnext_le, ?_⟩, hassigned, ⟨?_, ?_, ?_, ?_, ?_⟩, ?_⟩, hkept, hrefreshed.owner⟩
  · rw [hmemberships]
    exact hsound.wellFormed.ids_nodup
  · rw [hmemberships]
    exact hsound.wellFormed.uids_nodup
  · rw [hmemberships]
    intro row hrow
    obtain ⟨old, hold, hlt⟩ := hsound.wellFormed.uid_lt row hrow
    obtain ⟨new, hnew, -, hle⟩ := hkept _ old hold
    exact ⟨new, hnew, hlt.trans_le hle⟩
  · refine List.pairwise_map.mpr (hassigned.valid.unique.imp fun hconflict hid => ?_)
    simp [derivedConflict, hid] at hconflict
  · intro ns other hother
    by_cases hns : ns = .derivedView request.viewId
    · rw [hns, hstored] at hother
      rw [← Option.some.inj hother]
      exact ⟨Nat.one_le_iff_ne_zero.mpr hnext, Nat.one_le_iff_ne_zero.mpr hvalidity⟩
    · rw [hrefreshed.others ns hns] at hother
      exact hsound.stored.states ns other hother
  · intro mailbox hmailbox
    rw [htables] at hmailbox
    refine (hsound.stored.mailboxes mailbox hmailbox).imp_right fun hstate => ?_
    obtain ⟨old, hold⟩ := hstate
    obtain ⟨new, hnew, -⟩ := hkept _ old hold
    exact ⟨new, hnew⟩
  · rw [htables]
    exact hsound.stored.messages
  · rw [hmemberships]
    exact hsound.stored.uids
  · intro row' hrow'
    rcases hrefreshed.rows row' hrow' with ⟨row, hrow, hsame⟩ | ⟨-, hnew⟩
    · rw [hsame.2.2.2.2]
      exact hsound.stored.rules row hrow
    · rw [hnew]
      exact hrule
  · intro view hview
    rcases hviews view hview with hold | hnew
    · exact statesKept_views hkept hsound.views view hold
    · rw [hnew]
      exact ⟨stored, hstored⟩

end

/-! ### Reserved UIDs -/

lemma setUidState_sound {mailboxId : CString} {state : UidState} (hsound : Sound seed account s views)
    (hpos : 1 ≤ state.uidnext ∧ 1 ≤ state.uidvalidity) (hmax : state.uidnext ≤ maxGuint64)
    (hold : ∀ old, s.tables.uidState (.mailbox mailboxId) = some old →
      state.uidvalidity = old.uidvalidity ∧ old.uidnext ≤ state.uidnext) :
    Sound seed account { s with tables := s.tables.setUidState (.mailbox mailboxId) state } views ∧
      StatesKept s.tables (s.tables.setUidState (.mailbox mailboxId) state) := by
  obtain ⟨hw, -⟩ := @setUidState_advances ⟨0, 0⟩ (fun _ _ => True) _ (.mailbox mailboxId) state hold hmax hsound.wellFormed
  have hkept : StatesKept s.tables (s.tables.setUidState (.mailbox mailboxId) state) := statesKept_set hold
  refine ⟨⟨hw, ?_, hsound.stored.setUidState hpos, statesKept_views hkept hsound.views⟩, hkept⟩
  exact assigned_of_derived hsound.assigned (.refl _) rfl hkept hw

lemma reserveDestinationUids_eq_some {mailboxId : CString} {uidvalidity count first : ℕ}
    (h : reserveDestinationUids t mailboxId uidvalidity count = some (t', first)) : ∃ state,
    t.uidState (.mailbox mailboxId) = some state ∧ state.uidvalidity = uidvalidity ∧ state.uidnext = first ∧ first ≠ 0 ∧
      count ≤ maxGuint64 - first ∧
      t' = t.setUidState (.mailbox mailboxId) { state with uidnext := first + count } := by
  unfold reserveDestinationUids at h
  split at h
  · simp at h
  · rename_i state hstate
    split at h
    · rename_i hguard
      obtain ⟨rfl, rfl⟩ := Prod.mk.inj (Option.some.inj h)
      exact ⟨state, hstate, hguard.1, rfl, hguard.2.1, hguard.2.2, rfl⟩
    · simp at h

/-! ## Runs -/

/-- Every account of the catalog is as its transactions leave it. -/
def SoundWorld (seed : Provisioned) (w : World) : Prop :=
  ∀ account, Sound seed account (w.catalog.session account) (w.views account)

/-- The UID states of every account stay. -/
def WorldKept (w w' : World) : Prop := ∀ account, StatesKept (w.tables account) (w'.tables account)

/-- One account's session changes, and of the others only what all accounts share. -/
lemma soundWorld_of_session {account : CString} {s : Session} {views : List DerivedView} (h : SoundWorld seed w)
    (hsound : Sound seed account s views) (hkept : StatesKept (w.tables account) s.tables)
    (howner : w.catalog.derivedOwner.Within s.derivedOwner) (hself : w'.tables account = s.tables)
    (hothers : ∀ other, other ≠ account → w'.tables other = w.tables other)
    (howner' : w'.catalog.derivedOwner = s.derivedOwner) (hviews : w'.views account = views)
    (hviews' : ∀ other, other ≠ account → w'.views other = w.views other) : SoundWorld seed w' ∧ WorldKept w w' := by
  have hgrown : w.catalog.derivedOwner.Within w'.catalog.derivedOwner := by
    rw [howner']
    exact howner
  have hsame : s.derivedOwner.Within w'.catalog.derivedOwner := by
    rw [howner']
    exact .refl _
  refine ⟨fun other => ?_, fun other => ?_⟩
  · by_cases hother : other = account
    · subst hother
      rw [hviews]
      exact hsound.of_shared hsame hself
    · rw [hviews' other hother]
      exact (h other).of_shared hgrown (hothers other hother)
  · by_cases hother : other = account
    · subst hother
      rw [hself]
      exact hkept
    · rw [hothers other hother]
      exact statesKept_refl _

lemma initial_sound (seed : Provisioned) : SoundWorld seed (.initial seed) := by
  intro account
  refine ⟨accountTables_wellFormed seed account, ⟨⟨?_, ?_, ?_, ?_⟩, ?_⟩, accountTables_stored seed account, ?_⟩
  · exact List.Pairwise.nil
  all_goals simp [World.initial, Catalog.initial, Catalog.session, Provisioned.accountTables]

/-- The records that runs hold are records of the journal. -/
lemma mem_of_run {records : List ProjectionRecord} {record : ProjectionRecord} (hrun : run ∈ runs records)
    (hrecord : record ∈ run.records) : record ∈ records := by
  rw [← PassInvariant.runs_flatMap records]
  exact List.mem_flatMap.mpr ⟨run, hrun, hrecord⟩

end

section
variable {seed : Provisioned} {sha : Sha256} {w w' w'' : World} {action : Action} {transitions : List Transition}

/-- The journal holds what the decoders check. -/
def CheckedLog (w : World) : Prop := ∀ record ∈ w.log.records, Checked record

lemma Step.checked (hstep : Step seed sha w action w') (h : CheckedLog w) : CheckedLog w' := by
  cases hstep with
  | @journaled event size hchecked =>
    refine List.forall_mem_append.mpr ⟨h, fun record hrecord => ?_⟩
    obtain ⟨e, rfl, rfl⟩ : ∃ e, event = some e ∧ ⟨w.log.nextPosition, e⟩ = record := by simpa using hrecord
    exact hchecked e rfl
  | applied hrecords hrun happly => exact h
  | refreshed hrefresh => exact h
  | prepared hprepare => exact h
  | reserved hreserve => exact h

/-- What one transaction keeps. -/
theorem Step.sound (hstep : Step seed sha w action w') (hlog : CheckedLog w) (h : SoundWorld seed w) :
    SoundWorld seed w' ∧ WorldKept w w' := by
  cases hstep with
  | journaled hchecked => exact ⟨h, fun _ => statesKept_refl _⟩
  | @applied records run advance cat hrecords hrun happly =>
    obtain ⟨s, hs, -, howner, htables⟩ := Convergence.applyRun_eq_ok happly
    have hchecked : ∀ r ∈ run.records, Checked r := fun r hr => hlog r (hrecords.subset (mem_of_run hrun hr))
    obtain ⟨hsound, hkept, hgrown⟩ := applyRecords_sound (PassInvariant.runs_uniform run hrun) (runs_sorted run hrun)
      hchecked hs (h run.account)
    refine soundWorld_of_session h hsound hkept hgrown ?_ (fun other hother => ?_) howner rfl fun _ _ => rfl
    · exact (congrFun htables _).trans (Function.update_self ..)
    · exact (congrFun htables _).trans (Function.update_of_ne hother ..)
  | @refreshed request kind memberships state changes hrefresh =>
    obtain ⟨hsound, hkept, hgrown⟩ := refresh_sound hrefresh (h request.accountId)
    refine soundWorld_of_session h hsound hkept hgrown ?_ (fun other hother => ?_) rfl ?_ fun other hother => ?_
    · exact Function.update_self ..
    · exact Function.update_of_ne hother ..
    · exact Function.update_self ..
    · exact Function.update_of_ne hother ..
  | @prepared account t hprepare =>
    obtain ⟨hpos, ⟨-, rfl⟩ | ⟨hnone, rfl⟩⟩ := insertUidState_eq_ok (ensureUidStateValidity_eq_ok hprepare)
    · refine soundWorld_of_session h (h account) (statesKept_refl _) (.refl _) ?_ (fun other hother => ?_) rfl rfl fun _ _ => rfl
      · exact Function.update_self ..
      · exact Function.update_of_ne hother ..
    · obtain ⟨hsound, hkept⟩ := setUidState_sound (h account) hpos (Nat.le_of_ble_eq_true rfl)
        fun old hold => absurd (hnone.symm.trans hold) (by simp)
      refine soundWorld_of_session h hsound hkept (.refl _) ?_ (fun other hother => ?_) rfl rfl fun _ _ => rfl
      · exact Function.update_self ..
      · exact Function.update_of_ne hother ..
  | @reserved account mailboxId uidvalidity count first t hreserve =>
    obtain ⟨state, hstate, -, rfl, hpos, hcount, rfl⟩ := reserveDestinationUids_eq_some hreserve
    have hvalidity := ((h account).stored.states _ state hstate).2
    have hle : state.uidnext ≤ maxGuint64 := (h account).wellFormed.uidnext_le _ state hstate
    have hraised : Sound seed account { w.catalog.session account with
        tables := (w.tables account).setUidState (.mailbox mailboxId) { state with uidnext := state.uidnext + count } }
        (w.views account) ∧ StatesKept (w.tables account) ((w.tables account).setUidState (.mailbox mailboxId)
          { state with uidnext := state.uidnext + count }) := by
      have hraise : 1 ≤ state.uidnext + count ∧ state.uidnext + count ≤ maxGuint64 := by omega
      refine setUidState_sound (h account) ⟨hraise.1, hvalidity⟩ hraise.2 fun old hold => ?_
      obtain rfl := Option.some.inj (hstate.symm.trans hold)
      exact ⟨rfl, Nat.le_add_right _ _⟩
    refine soundWorld_of_session h hraised.1 hraised.2 (.refl _) ?_ (fun other hother => ?_) rfl rfl fun _ _ => rfl
    · exact Function.update_self ..
    · exact Function.update_of_ne hother ..

lemma History.kept (hhistory : History seed sha w transitions w') (hlog : CheckedLog w) (h : SoundWorld seed w) :
    SoundWorld seed w' ∧ WorldKept w w' ∧ CheckedLog w' := by
  induction hhistory with
  | nil => exact ⟨h, fun _ => statesKept_refl _, hlog⟩
  | snoc _ hstep ih =>
    obtain ⟨hsound, hkept, hchecked⟩ := ih
    obtain ⟨hsound', hkept'⟩ := hstep.sound hchecked hsound
    exact ⟨hsound', fun account => (hkept account).trans (hkept' account), hstep.checked hchecked⟩

lemma initial_checked (seed : Provisioned) : CheckedLog (.initial seed) := by simp [CheckedLog, World.initial, Log.empty]

/-- What holds of every catalog that transactions reach. -/
theorem Reachable.sound (h : Reachable seed sha w) : SoundWorld seed w ∧ CheckedLog w := by
  obtain ⟨transitions, hhistory⟩ := h
  obtain ⟨hsound, -, hchecked⟩ := hhistory.kept (initial_checked seed) (initial_sound seed)
  exact ⟨hsound, hchecked⟩

lemma History.trans {more : List Transition} (h : History seed sha w transitions w') (h' : History seed sha w' more w'') :
    History seed sha w (transitions ++ more) w'' := by
  induction h' with
  | nil => rwa [List.append_nil]
  | snoc _ hstep ih =>
    rw [← List.append_assoc]
    exact ih.snoc hstep

lemma Reachable.history (h : Reachable seed sha w) (h' : History seed sha w transitions w') : Reachable seed sha w' := by
  obtain ⟨before, hbefore⟩ := h
  exact ⟨_, hbefore.trans h'⟩

/-- An event journaled, and its record applied alone if that succeeds. -/
def World.process (seed : Provisioned) (w : World) (event : Event) : World :=
  let journaled := { w with log := w.log.append (some event) 0 }
  match applyRun seed ⟨⟨w.log.nextPosition, event⟩, []⟩ true w.catalog with
  | .ok cat => { journaled with catalog := cat }
  | .error _ => journaled

lemma process_history {event : Event} (hchecked : Checked ⟨w.log.nextPosition, event⟩) :
    ∃ transitions, History seed sha w transitions (w.process seed event) := by
  have hjournal : Step seed sha w (.journal (some event) 0) { w with log := w.log.append (some event) 0 } :=
    .journaled fun e he => Option.some.inj he ▸ hchecked
  have hfirst := (History.nil w).snoc hjournal
  unfold World.process
  dsimp only
  split
  · rename_i cat happly
    have hlast : [⟨w.log.nextPosition, event⟩] <:+: (w.log.append (some event) 0).records :=
      (List.suffix_append _ _).isInfix
    exact ⟨_, hfirst.snoc (.applied hlast List.mem_cons_self happly)⟩
  · exact ⟨_, hfirst⟩

lemma process_tables_of_ne {event : Event} {other : CString} (h : other ≠ accountOf ⟨w.log.nextPosition, event⟩) :
    (w.process seed event).tables other = w.tables other := by
  unfold World.process
  dsimp only
  split
  · rename_i cat happly
    obtain ⟨s, -, -, -, htables⟩ := Convergence.applyRun_eq_ok happly
    exact (congrFun htables _).trans (Function.update_of_ne h ..)
  · rfl

end
end Wyrebox.CatalogRuns
