import Wyrebox.StoredCatalog

set_option autoImplicit false

/-!
# Object reachability

The view `object_reachability` flags the objects that no visible ordinary membership needs. A view
may show such an object only between the record that hid its message and the refresh after it.
-/
namespace Wyrebox.ObjectReachability
open Catalog Catchup Event CatalogRuns CatalogReads StoredCatalog Joins Fallible RowWrites
open AccountRows AccountReplay DeliveryRuns
open DerivedViewMaterializer DerivedViewVisibility RefreshFrames
open Materializer (updateDerivedRow)
open DovecotSync (Kind)
open JournalRecord (Sha256)

/-! ## The view -/

structure ReachabilityRow where
  objectId : CString
  messageReferenceCount : ℕ
  visibleMailboxMembershipCount : ℕ
  visibleDerivedViewMembershipCount : ℕ
  isGcReachable : Bool
  isGcCandidate : Bool
  deriving DecidableEq

abbrev ReferenceCount := CString × ℕ

def messageRefs (c : CatalogRows) : List ReferenceCount :=
  groupCount (fun message => message.row.objectId) (fun _ => true) c.messages

/-- The messages are joined by their id alone. -/
def isMessageOf (member : Owned Member) (message : Owned MessageRow) : Bool :=
  message.row.messageId = member.row.messageId

def visibleRefs (c : CatalogRows) (kind : Kind) : List ReferenceCount :=
  groupCount (fun p => p.2.row.objectId) (fun p => p.1.row.isVisible) (join isMessageOf (c.members kind) c.messages)

def isOf (objectId : CString) (group : ReferenceCount) : Bool := group.1 = objectId

def reachabilityRow (p : ((CString × Option ReferenceCount) × Option ReferenceCount) × Option ReferenceCount) :
    ReachabilityRow :=
  ⟨p.1.1.1, coalesce p.1.1.2, coalesce p.1.2, coalesce p.2, 0 < coalesce p.1.2, coalesce p.1.2 = 0⟩

def objectReachability (c : CatalogRows) : List ReachabilityRow :=
  (leftJoin (fun p group => isOf p.1.1 group)
    (leftJoin (fun p group => isOf p.1 group) (leftJoin isOf c.objects (messageRefs c)) (visibleRefs c .ordinary))
    (visibleRefs c .virtual)).map reachabilityRow

/-! ## What the view counts -/

/-- The membership's message has the object. -/
def references (c : CatalogRows) (objectId : CString) (member : Owned Member) : Bool :=
  c.messages.any fun message => isMessageOf member message && decide (message.row.objectId = objectId)

def messageCount (c : CatalogRows) (objectId : CString) : ℕ :=
  c.messages.countP fun message => message.row.objectId = objectId

def visibleCount (c : CatalogRows) (kind : Kind) (objectId : CString) : ℕ :=
  (c.members kind).countP fun member => member.row.isVisible && references c objectId member

section
variable {c : CatalogRows} {kind : Kind} {objectId : CString}

lemma find_isOf (groups : List ReferenceCount) (objectId : CString) :
    groups.find? (isOf objectId) = groups.find? fun group => group.1 = objectId := rfl

lemma messageRefs_count : coalesce ((messageRefs c).find? (isOf objectId)) = messageCount c objectId := by
  rw [find_isOf, messageRefs, coalesce_groupCount, messageCount]
  exact List.countP_congr fun message _ => by simp

lemma visibleRefs_count : coalesce ((visibleRefs c kind).find? (isOf objectId)) = visibleCount c kind objectId := by
  rw [find_isOf, visibleRefs, coalesce_groupCount, visibleCount]
  have hcounted : (join isMessageOf (c.members kind) c.messages).countP
      (fun p => p.1.row.isVisible && decide (p.2.row.objectId = objectId)) =
        (c.members kind).countP fun member => member.row.isVisible && references c objectId member :=
    countP_join c.messages_nodup (fun _ _ => rfl) (fun member : Owned Member => member.row.isVisible)
      fun message : Owned MessageRow => decide (message.row.objectId = objectId)
  refine Eq.trans (List.countP_congr fun p _ => ?_) hcounted
  simp [and_comm]

lemma leftJoin_groups {α : Type} (objectOf : α → CString) (rows : List α) {groups : List ReferenceCount}
    (hnodup : (groups.map Prod.fst).Nodup) : leftJoin (fun a group => isOf (objectOf a) group) rows groups =
      rows.map fun a => (a, groups.find? (isOf (objectOf a))) :=
  leftJoin_eq_map hnodup fun _ _ => rfl

/-- The row of each object. -/
lemma objectReachability_eq : objectReachability c = c.objects.map fun objectId =>
    ⟨objectId, messageCount c objectId, visibleCount c .ordinary objectId, visibleCount c .virtual objectId,
      0 < visibleCount c .ordinary objectId, visibleCount c .ordinary objectId = 0⟩ := by
  have hmessages : leftJoin isOf c.objects (messageRefs c) = c.objects.map fun objectId =>
      (objectId, (messageRefs c).find? (isOf objectId)) := leftJoin_groups id c.objects groupCount_nodup
  have hnodup : ∀ kind, ((visibleRefs c kind).map Prod.fst).Nodup := fun _ => groupCount_nodup
  unfold objectReachability
  rw [hmessages, leftJoin_groups Prod.fst _ (hnodup .ordinary),
    leftJoin_groups (fun p : (CString × Option ReferenceCount) × Option ReferenceCount => p.1.1) _ (hnodup .virtual),
    List.map_map, List.map_map, List.map_map]
  refine List.map_congr_left fun objectId _ => ?_
  simp only [Function.comp_apply, reachabilityRow, messageRefs_count, visibleRefs_count]

/-- A visible ordinary membership of a message keeps its object. -/
lemma visibleCount_pos {member : Owned Member} {message : Owned MessageRow} (hmember : member ∈ c.members kind)
    (hvisible : member.row.isVisible = true) (hmessage : message ∈ c.messages)
    (hid : message.row.messageId = member.row.messageId) : 0 < visibleCount c kind message.row.objectId := by
  refine List.countP_pos_iff.mpr ⟨member, hmember, ?_⟩
  rw [hvisible, Bool.true_and]
  refine List.any_eq_true.mpr ⟨message, hmessage, ?_⟩
  rw [isMessageOf, decide_eq_true hid, decide_eq_true rfl]
  rfl

end
/-! ## Messages that only views show -/

/-- A view shows the message under the rule version, and no ordinary mailbox does. -/
def Orphaned (t : AccountTables) (viewId messageId ruleVersionHash : CString) : Prop :=
  Shows t viewId messageId ruleVersionHash ∧ hasVisibleOrdinaryMembership t messageId = false

/-- The refresh decides what its view shows of the message under the rule version. -/
def Decides (request : Request) (kind : RefreshKind) (messageId ruleVersionHash : CString) : Prop :=
  match kind with
  | .view => request.ruleVersionHash = ruleVersionHash
  | .currentRule => True
  | .messages messageIds => messageId ∈ messageIds

/-- A refresh that hides the message if it has no visible ordinary membership. -/
def Settles (action : Action) (account viewId messageId ruleVersionHash : CString) : Prop :=
  ∃ request kind memberships, action = .refresh request kind memberships ∧ request.accountId = account ∧
    request.viewId = viewId ∧ Decides request kind messageId ruleVersionHash

/-- The record shows the message in the view under the rule version. -/
def ShowsMessage (record : ProjectionRecord) (viewId messageId ruleVersionHash : CString) : Prop :=
  ∃ change, record.event = .derivedViewMembershipChanged change ∧ change.isVisible = true ∧ change.viewId = viewId ∧
    change.messageId = messageId ∧ change.ruleVersionHash = ruleVersionHash

/-- The message lost its last visible ordinary membership, or a record showed it. -/
def Disturbs (transition : Transition) (account viewId messageId ruleVersionHash : CString) : Prop :=
  (hasVisibleOrdinaryMembership (transition.before.tables account) messageId = true ∧
    hasVisibleOrdinaryMembership (transition.after.tables account) messageId = false) ∨
  ∃ run advance, transition.action = .apply run advance ∧ run.account = account ∧
    ∃ record ∈ run.records, ShowsMessage record viewId messageId ruleVersionHash

/-- No refresh has settled the message since it was disturbed. -/
def Pending (transitions : List Transition) (account viewId messageId ruleVersionHash : CString) : Prop :=
  ∃ earlier transition later, transitions = earlier ++ transition :: later ∧
    Disturbs transition account viewId messageId ruleVersionHash ∧
    ∀ other ∈ later, ¬Settles other.action account viewId messageId ruleVersionHash

section
variable {seed : Provisioned} {sha : Sha256} {account viewId messageId ruleVersionHash : CString} {t t' : AccountTables}
  {w w' : World} {action : Action} {transitions : List Transition} {request : Request} {kind : RefreshKind}
  {memberships : List WirelogMembership} {state state' : ViewState} {changes : List DerivedViewMembershipChanged}

/-! ### Refreshes -/

lemma hasVisible_of_memberships (h : t'.memberships = t.memberships) :
    hasVisibleOrdinaryMembership t' messageId = hasVisibleOrdinaryMembership t messageId := by
  unfold hasVisibleOrdinaryMembership
  rw [h]

/-- A refresh of the account leaves an orphan only if it was one and the refresh does not settle it. -/
lemma refresh_orphaned (hvalid : DerivedViewReplay.Valid request.accountId state.session)
    (h : refresh sha request kind memberships state = .ok (state', changes))
    (horphaned : Orphaned state'.session.tables viewId messageId ruleVersionHash) :
    Orphaned state.session.tables viewId messageId ruleVersionHash ∧
      ¬Settles (.refresh request kind memberships) request.accountId viewId messageId ruleVersionHash := by
  obtain ⟨hshows, hhidden⟩ := horphaned
  have hordinary : state'.session.tables.memberships = state.session.tables.memberships := by
    obtain ⟨derivedOwner, derived, uidState, hframe⟩ := (refresh_refreshed h).frame
    rw [hframe]
  rw [hasVisible_of_memberships hordinary] at hhidden
  have hsettles : Settles (.refresh request kind memberships) request.accountId viewId messageId ruleVersionHash ↔
      request.viewId = viewId ∧ Decides request kind messageId ruleVersionHash := by
    constructor
    · rintro ⟨request', kind', memberships', heq, -, hview, hkind⟩
      obtain ⟨rfl, rfl, rfl⟩ := Action.refresh.inj heq
      exact ⟨hview, hkind⟩
    · exact fun ⟨hview, hkind⟩ => ⟨_, _, _, rfl, rfl, hview, hkind⟩
  rw [hsettles]
  have hwhole : ∀ hideOthers, refreshMemberships sha request hideOthers memberships state = .ok (state', changes) →
      Shows state.session.tables viewId messageId ruleVersionHash ∧
        ¬(request.viewId = viewId ∧ (hideOthers = true ∨ request.ruleVersionHash = ruleVersionHash)) := by
    intro hideOthers h
    by_cases hview : viewId = request.viewId
    · subst hview
      rcases (refreshMemberships_shows h).2.mp hshows with ⟨-, -, hvisible⟩ | ⟨hrule, hkept, hold⟩
      · rw [hhidden] at hvisible
        cases hvisible
      · refine ⟨hold, fun hsettled => ?_⟩
        rcases hsettled.2 with htrue | hsame
        · rw [hkept] at htrue
          cases htrue
        · exact hrule hsame.symm
    · exact ⟨(refreshMemberships_elsewhere hview h messageId ruleVersionHash).mp hshows, fun hsettled => hview hsettled.1.symm⟩
  cases kind with
  | view =>
    obtain ⟨hold, hfree⟩ := hwhole false h
    exact ⟨⟨hold, hhidden⟩, fun hsettled => hfree ⟨hsettled.1, .inr hsettled.2⟩⟩
  | currentRule =>
    obtain ⟨hold, hfree⟩ := hwhole true h
    exact ⟨⟨hold, hhidden⟩, fun hsettled => hfree ⟨hsettled.1, .inl rfl⟩⟩
  | messages messageIds =>
    obtain ⟨-, hlisted, huntouched⟩ := refreshMessageMemberships_listed hvalid h
    change _ ∧ ¬(request.viewId = viewId ∧ messageId ∈ messageIds)
    by_cases hsettled : request.viewId = viewId ∧ messageId ∈ messageIds
    · obtain ⟨rfl, hmem⟩ := hsettled
      have hvisible := ((hlisted messageId hmem ruleVersionHash).mp hshows).2.2
      rw [hhidden] at hvisible
      cases hvisible
    · refine ⟨⟨?_, hhidden⟩, hsettled⟩
      obtain ⟨row, hrow, hkey⟩ := hshows
      have hout : outside request messageIds row = true := by
        refine decide_eq_true fun hinside => hsettled ⟨hinside.1.symm.trans hkey.1, hkey.2.1 ▸ hinside.2⟩
      have hold : row ∈ state.session.tables.derived.filter (outside request messageIds) :=
        huntouched ▸ List.mem_filter.mpr ⟨hrow, hout⟩
      exact ⟨row, (List.mem_filter.mp hold).1, hkey⟩

/-! ### Records -/

/-- Membership ids of views are unique, and the message is not shown. -/
structure Unshown (t : AccountTables) (viewId messageId ruleVersionHash : CString) : Prop where
  nodup : (t.derived.map DerivedMembership.membershipId).Nodup
  unshown : ¬Shows t viewId messageId ruleVersionHash

lemma Unshown.of_derived (h : Unshown t viewId messageId ruleVersionHash) (hderived : t'.derived = t.derived) :
    Unshown t' viewId messageId ruleVersionHash := by
  refine ⟨hderived ▸ h.nodup, fun hshows => h.unshown ?_⟩
  obtain ⟨row, hrow, hkey⟩ := hshows
  exact ⟨row, hderived ▸ hrow, hkey⟩

/-- Only a record that shows the message makes a view show it. -/
lemma RowWrite.unshown {record : ProjectionRecord} (hwrite : RowWrite record t t')
    (hrecord : ¬ShowsMessage record viewId messageId ruleVersionHash) (h : Unshown t viewId messageId ruleVersionHash) :
    Unshown t' viewId messageId ruleVersionHash := by
  cases hwrite with
  | newUidState hnew hpos => exact h.of_derived rfl
  | uidnext hstate hpos => exact h.of_derived rfl
  | inbox hnew hstate => exact h.of_derived rfl
  | message hobject hregister => exact h.of_derived rfl
  | headers => exact h.of_derived rfl
  | membership hposition hvisible hexpunged hinsert =>
    obtain ⟨-, -, rfl⟩ := insertMembershipRow_eq_ok hinsert
    exact h.of_derived rfl
  | tombstone hrow hvisible => exact h.of_derived rfl
  | flags => exact h.of_derived rfl
  | extraction => exact h.of_derived rfl
  | newDerived hchange hinsert =>
    rename_i change
    obtain ⟨hfree, rfl⟩ := insertDerivedRow_eq_ok hinsert
    refine ⟨?_, ?_⟩
    · rw [List.map_append, List.nodup_append]
      refine ⟨h.nodup, List.nodup_singleton _, fun id hid id' hid' heq => ?_⟩
      obtain ⟨other, hother, rfl⟩ := List.mem_map.mp hid
      have hconflict := hfree other hother
      rw [List.map_singleton, List.mem_singleton] at hid'
      simp [Materializer.derivedConflict, heq, hid'] at hconflict
    · rintro ⟨row, hrow, hview, hmessage, hrule, hvisible⟩
      rcases List.mem_append.mp hrow with hold | hnew
      · exact h.unshown ⟨row, hold, hview, hmessage, hrule, hvisible⟩
      · rw [List.mem_singleton.mp hnew] at hview hmessage hrule hvisible
        exact hrecord ⟨change, hchange, hvisible, hview, hmessage, hrule⟩
  | @derived change row hchange hrow hsame =>
    refine ⟨?_, ?_⟩
    · have hids : (updateDerivedRow t change.membershipId change.isVisible change.materializedAtUnixUs).derived.map
          DerivedMembership.membershipId = t.derived.map DerivedMembership.membershipId := by
        rw [updateDerivedRow, List.map_map]
        refine List.map_congr_left fun other _ => ?_
        rw [Function.comp_apply]
        split <;> rfl
      rw [hids]
      exact h.nodup
    · rintro ⟨row', hrow', hview, hmessage, hrule, hvisible⟩
      obtain ⟨old, hold, rfl⟩ := List.mem_map.mp hrow'
      split at hview
      · rename_i hid
        -- the row that changes is the one that the record names
        have hnamed : old = row := List.inj_on_of_nodup_map h.nodup hold hrow (hid.trans hsame.1.symm)
        rw [if_pos hid] at hmessage hrule hvisible
        rw [hnamed] at hview hmessage hrule
        exact hrecord ⟨change, hchange, hvisible, hsame.2.1.symm.trans hview, hsame.2.2.1.symm.trans hmessage,
          hsame.2.2.2.2.symm.trans hrule⟩
      · rename_i hid
        rw [if_neg hid] at hmessage hrule hvisible
        exact h.unshown ⟨old, hold, hview, hmessage, hrule, hvisible⟩

/-! ### Runs -/

lemma orphaned_congr (hderived : t'.derived = t.derived) (hmemberships : t'.memberships = t.memberships)
    (h : Orphaned t' viewId messageId ruleVersionHash) : Orphaned t viewId messageId ruleVersionHash := by
  obtain ⟨⟨row, hrow, hkey⟩, hhidden⟩ := h
  exact ⟨⟨row, hderived ▸ hrow, hkey⟩, hasVisible_of_memberships hmemberships ▸ hhidden⟩

lemma not_settles (h : ∀ request kind memberships, action ≠ .refresh request kind memberships) :
    ¬Settles action account viewId messageId ruleVersionHash :=
  fun ⟨request, kind, memberships, heq, _⟩ => h request kind memberships heq

/-- A message is orphaned by a transaction that disturbs it, or it was before and is not settled. -/
lemma Step.orphaned (hstep : Step seed sha w action w') (hsound : SoundWorld seed w)
    (h : Orphaned (w'.tables account) viewId messageId ruleVersionHash) :
    Disturbs ⟨w, action, w'⟩ account viewId messageId ruleVersionHash ∨
      (Orphaned (w.tables account) viewId messageId ruleVersionHash ∧
        ¬Settles action account viewId messageId ruleVersionHash) := by
  cases hbefore : hasVisibleOrdinaryMembership (w.tables account) messageId with
  | true => exact .inl (.inl ⟨hbefore, h.2⟩)
  | false =>
    cases hstep with
    | journaled hchecked => exact .inr ⟨h, not_settles (by simp)⟩
    | @applied records run advance cat hrecords hrun happly =>
      obtain ⟨s, hs, -, -, htables⟩ := Convergence.applyRun_eq_ok happly
      by_cases haccount : account = run.account
      · subst haccount
        by_cases hshown : ∃ record ∈ run.records, ShowsMessage record viewId messageId ruleVersionHash
        · exact .inl (.inr ⟨run, advance, rfl, rfl, hshown⟩)
        · refine .inr ⟨⟨by_contra fun hunshown => ?_, hbefore⟩, not_settles (by simp)⟩
          obtain ⟨hrows, -, -⟩ := applyRecords_rows (runs_sorted run hrun) (fits_of_wellFormed (hsound run.account).wellFormed) hs
          have hstart : Unshown (w.tables run.account) viewId messageId ruleVersionHash :=
            ⟨(hsound run.account).wellFormed.derived_nodup, hunshown⟩
          have hend : Unshown s.tables viewId messageId ruleVersionHash := replayRows_keep
            (fun r hr _ _ hwrite => RowWrite.unshown hwrite fun hshows => hshown ⟨r, hr, hshows⟩) hstart hrows
          have hafter : s.tables = World.tables ⟨w.log, cat, w.views⟩ run.account :=
            ((congrFun htables _).trans (Function.update_self ..)).symm
          exact hend.unshown (hafter ▸ h.1)
      · refine .inr ⟨?_, not_settles (by simp)⟩
        have hsame : World.tables ⟨w.log, cat, w.views⟩ account = w.tables account :=
          (congrFun htables _).trans (Function.update_of_ne haccount ..)
        exact hsame ▸ h
    | @refreshed request kind memberships state changes hrefresh =>
      right
      by_cases haccount : account = request.accountId
      · subst haccount
        have hafter : World.tables (w.withViewState request.accountId state) request.accountId = state.session.tables :=
          Function.update_self ..
        exact refresh_orphaned (hsound request.accountId).assigned.valid hrefresh (hafter ▸ h)
      · have hsame : World.tables (w.withViewState request.accountId state) account = w.tables account :=
          Function.update_of_ne haccount ..
        refine ⟨hsame ▸ h, ?_⟩
        rintro ⟨request', kind', memberships', heq, howner, -⟩
        rw [(Action.refresh.inj heq).1] at haccount
        exact haccount howner.symm
    | @prepared owner t hprepare =>
      refine .inr ⟨?_, not_settles (by simp)⟩
      by_cases haccount : account = owner
      · subst haccount
        have hafter : World.tables (w.withTables account t) account = t := Function.update_self ..
        rw [hafter] at h
        obtain ⟨-, ⟨-, rfl⟩ | ⟨-, rfl⟩⟩ := insertUidState_eq_ok (ensureUidStateValidity_eq_ok hprepare)
        · exact h
        · exact orphaned_congr rfl rfl h
      · have hsame : World.tables (w.withTables owner t) account = w.tables account := Function.update_of_ne haccount ..
        exact hsame ▸ h
    | @reserved owner mailboxId uidvalidity count first t hreserve =>
      refine .inr ⟨?_, not_settles (by simp)⟩
      by_cases haccount : account = owner
      · subst haccount
        have hafter : World.tables (w.withTables account t) account = t := Function.update_self ..
        rw [hafter] at h
        obtain ⟨state, -, -, -, -, -, rfl⟩ := reserveDestinationUids_eq_some hreserve
        exact orphaned_congr rfl rfl h
      · have hsame : World.tables (w.withTables owner t) account = w.tables account := Function.update_of_ne haccount ..
        exact hsame ▸ h

/-- Whatever a view shows without an ordinary mailbox waits for a refresh. -/
lemma History.pending (h : History seed sha (.initial seed) transitions w)
    (horphaned : Orphaned (w.tables account) viewId messageId ruleVersionHash) :
    Pending transitions account viewId messageId ruleVersionHash := by
  generalize hstart : World.initial seed = start at h
  induction h with
  | nil =>
    subst hstart
    obtain ⟨⟨row, hrow, -⟩, -⟩ := horphaned
    simp [World.initial, World.tables, Catalog.initial, Provisioned.accountTables] at hrow
  | @snoc before after transitions action hprefix hstep ih =>
    subst hstart
    obtain ⟨hsound, -⟩ := Reachable.sound ⟨_, hprefix⟩
    rcases Step.orphaned hstep hsound horphaned with hdisturbs | ⟨hold, hunsettled⟩
    · exact ⟨_, _, [], rfl, hdisturbs, by simp⟩
    · obtain ⟨earlier, transition, later, rfl, hdisturbs, hlater⟩ := ih hold
      refine ⟨earlier, transition, later ++ [⟨before, action, after⟩], ?_, hdisturbs, ?_⟩
      · rw [List.append_assoc, List.cons_append]
      · exact List.forall_mem_append.mpr ⟨hlater, List.forall_mem_singleton.mpr hunsettled⟩

end

/-! ## Candidates -/

section
variable {c : CatalogRows} {w : World} {accountId boxId : CString} {kind : Kind} {uid : ℕ} {message : MessageRow}

lemma fetched_member (h : fetcherSelectMessage c accountId kind boxId uid = .ok message) :
    ⟨accountId, message⟩ ∈ c.messages ∧ ∃ member ∈ c.members kind, member.accountId = accountId ∧
      member.row.boxId = boxId ∧ member.row.isVisible = true ∧ member.row.messageId = message.messageId := by
  have hrow : message ∈ fetchedRows c accountId kind boxId uid := by
    unfold fetcherSelectMessage oneRow at h
    split at h
    · simp at h
    · rename_i a hrows
      rw [hrows, Except.ok.inj h]
      exact List.mem_singleton_self _
    · simp at h
  obtain ⟨p, hp, rfl⟩ := List.mem_map.mp hrow
  obtain ⟨hjoin, hfetched⟩ := List.mem_filter.mp hp
  obtain ⟨hjoined, -, -⟩ := mem_join.mp hjoin
  obtain ⟨hboxes, hmessage, hon⟩ := mem_join.mp hjoined
  obtain ⟨hmember, -, -⟩ := mem_join.mp hboxes
  have hshown := of_decide_eq_true (of_decide_eq_true hfetched).1
  have hon := of_decide_eq_true hon
  refine ⟨?_, p.1.1.1, hmember, hshown.1, hshown.2.1, hshown.2.2, hon.2.symm⟩
  rw [← hshown.1, ← hon.1]
  exact hmessage

end

def noMailboxes : Provisioned := .empty

def delivery : Event := .messageDelivered ⟨.literal "o", 10, 0, ⟨none, none, none, none, none, none, none, 0, .absent,
  .absent⟩, none, none, some (.literal "a"), none, []⟩

def expunge : Event := .membershipsExpunged ⟨.literal "a", .literal "inbox:a", 1, [1]⟩

/-- The message is delivered and expunged. -/
def expungedWorld : World := World.process noMailboxes (.process noMailboxes (.initial noMailboxes) delivery) expunge

/-- The same bytes are delivered again, and the record waits. -/
def waitingWorld : World := { expungedWorld with log := expungedWorld.log.append (some delivery) 0 }

lemma waiting_messages_nodup : ([⟨.literal "a", Materializer.journalMessageId ⟨0, 1⟩, .literal "o"⟩].map
    fun message : Owned MessageRow => message.row.messageId).Nodup := by decide

lemma waiting_objects_nodup : [CString.literal "o"].Nodup := List.nodup_singleton _

def waitingRows : CatalogRows where
  boxes := fun kind => match kind with
    | .ordinary => [⟨.literal "a", .literal "inbox:a", .literal "INBOX", true, true⟩]
    | .virtual => []
  members := fun kind => match kind with
    | .ordinary => [⟨.literal "a", .literal "mailbox:inbox:a:journal:0:1", .literal "inbox:a",
        Materializer.journalMessageId ⟨0, 1⟩, 1, false, none⟩]
    | .virtual => []
  uidStates := [⟨.literal "a", .ordinary, .literal "inbox:a", 2, 1⟩]
  messages := [⟨.literal "a", Materializer.journalMessageId ⟨0, 1⟩, .literal "o"⟩]
  headers := []
  attributes := fun _ => []
  objects := [.literal "o"]
  boxIds_nodup := by rintro (_ | _) <;> decide
  boxNames_nodup := by rintro (_ | _) <;> decide
  mailboxIds_nodup := by decide
  memberIds_nodup := by rintro (_ | _) <;> decide
  uids_nodup := by rintro (_ | _) <;> decide
  mailboxUids_nodup := by decide
  uidStates_nodup := by decide
  messages_nodup := waiting_messages_nodup
  headers_nodup := List.nodup_nil
  attributes_nodup := fun _ => List.nodup_nil
  objects_nodup := waiting_objects_nodup

lemma waitingWorld_history (sha : Sha256) : ∃ transitions, History noMailboxes sha (.initial noMailboxes) transitions waitingWorld := by
  have hdelivery : ∀ position, Checked ⟨position, delivery⟩ := fun position =>
    ⟨trivial, fun object hobject => Option.some.inj hobject ▸ (show CString.literal "o" ≠ .empty by decide),
      fun change hchange => by cases hchange⟩
  have hexpunge : ∀ position, Checked ⟨position, expunge⟩ := by
    intro position
    refine ⟨trivial, fun object hobject => ?_, fun change hchange => ?_⟩
    · cases hobject
    · cases hchange
  obtain ⟨first, hfirst⟩ := @process_history noMailboxes sha (.initial noMailboxes) delivery (hdelivery _)
  obtain ⟨second, hsecond⟩ := @process_history noMailboxes sha _ expunge (hexpunge _)
  exact ⟨_, (hfirst.trans hsecond).snoc (.journaled fun e he => Option.some.inj he ▸ hdelivery _)⟩

lemma waiting_other {account : CString} (h : account ≠ .literal "a") :
    waitingWorld.tables account = noMailboxes.accountTables account := by
  have hsecond : expungedWorld.tables account = _ := process_tables_of_ne h
  have hfirst : World.tables (.process noMailboxes (.initial noMailboxes) delivery) account = _ := process_tables_of_ne h
  exact hsecond.trans hfirst

lemma waiting_stores (account : CString) : Stores waitingRows waitingWorld account := by
  by_cases haccount : account = .literal "a"
  · subst haccount
    refine ⟨?_, ?_, ?_, ?_, ?_⟩
    · rintro (_ | _) box
      · exact @mem_owned _ _ (boxesOf waitingWorld (.literal "a") .ordinary) box
      · exact @mem_owned _ _ (boxesOf waitingWorld (.literal "a") .virtual) box
    · rintro (_ | _) member
      · exact @mem_owned _ _ (membersOf (waitingWorld.tables (.literal "a")) .ordinary) member
      · exact @mem_owned _ _ (membersOf (waitingWorld.tables (.literal "a")) .virtual) member
    · rintro ⟨kind, id, uidnext, uidvalidity⟩
      have hstates : (waitingWorld.tables (.literal "a")).uidState = Function.update (Function.update (fun _ => none)
          (.mailbox (.literal "inbox:a")) (some ⟨1, 1⟩)) (.mailbox (.literal "inbox:a")) (some ⟨2, 1⟩) := rfl
      rw [hstates, Function.update_idem, update_eq_some]
      cases kind <;> simp [waitingRows, namespaceOf]
    · rintro ⟨messageId, objectId⟩
      change _ ↔ ∃ position, Function.update (fun _ => none) (Materializer.journalMessageId ⟨0, 1⟩)
        (some (⟨.literal "o", ⟨0, 1⟩⟩ : Message)) messageId = some ⟨objectId, position⟩
      simp [waitingRows, update_eq_some]
    · intro object
      change _ ↔ ∃ size, Function.update (fun _ => none) (CString.literal "o") (some 10) object = some size
      simp [waitingRows, update_eq_some]
  · have hviews : waitingWorld.views account = [] := rfl
    refine ⟨?_, ?_, ?_, ?_, ?_⟩
    · rintro (_ | _) box <;>
        simp [waitingRows, boxesOf, waiting_other haccount, hviews, Provisioned.accountTables, Provisioned.ofAccount,
          noMailboxes, Provisioned.empty, haccount]
    · rintro (_ | _) member <;>
        simp [waitingRows, membersOf, waiting_other haccount, Provisioned.accountTables, haccount]
    · intro row
      simp [waitingRows, waiting_other haccount, Provisioned.accountTables, haccount]
    · intro row
      simp [waitingRows, waiting_other haccount, Provisioned.accountTables, Registry.empty, haccount]
    · intro object
      change _ ↔ ∃ size, Function.update (fun _ => none) (CString.literal "o") (some 10) object = some size
      simp [waitingRows, update_eq_some]

lemma waiting_candidate : ⟨.literal "o", 1, 0, 0, false, true⟩ ∈ objectReachability waitingRows := by decide

end Wyrebox.ObjectReachability
