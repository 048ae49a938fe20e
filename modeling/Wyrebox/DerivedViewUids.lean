import Wyrebox.DerivedViewAgreement
import Mathlib.Logic.Relation

set_option autoImplicit false

/-!
# UIDs of derived views

A row of a view is never deleted and keeps its UID, whatever it shows. Over refreshes and replayed
changes the UID state only moves forward.
-/
namespace Wyrebox.DerivedViewUids
open Catalog Event Fallible AccountRows DerivedViewMaterializer DerivedViewReplay DerivedViewAgreement
open Materializer hiding insertMembership selectUidnext
open JournalRecord (Sha256)

/-- Every UID in use lies below the next UID of its view. -/
structure Assigned (account : CString) (s : Session) : Prop where
  valid : Valid account s
  below : ∀ row ∈ s.tables.derived, ∃ state,
    s.tables.uidState (.derivedView row.viewId) = some state ∧ row.uid < state.uidnext

/-- Rows and UID states of views are kept. -/
structure Continues (t t' : AccountTables) : Prop where
  rows : ∀ row ∈ t.derived, ∃ row' ∈ t'.derived, SameIdentity row row'
  uidState : ∀ viewId state, t.uidState (.derivedView viewId) = some state →
    ∃ state', t'.uidState (.derivedView viewId) = some state' ∧ state'.uidvalidity = state.uidvalidity ∧
      state.uidnext ≤ state'.uidnext

section
variable {sha : Sha256} {account : CString} {t t' t'' : AccountTables} {s s' : Session}
  {change : DerivedViewMembershipChanged} {state state' : ViewState}

lemma sameIdentity_refl (row : DerivedMembership) : SameIdentity row row := ⟨rfl, rfl, rfl, rfl, rfl⟩

lemma Continues.refl (t : AccountTables) : Continues t t where
  rows := fun row hrow => ⟨row, hrow, sameIdentity_refl row⟩
  uidState := fun _ state hstate => ⟨state, hstate, rfl, le_refl _⟩

lemma sameIdentity_trans {a b c : DerivedMembership} (h : SameIdentity a b) (h' : SameIdentity b c) : SameIdentity a c :=
  ⟨h'.1.trans h.1, h'.2.1.trans h.2.1, h'.2.2.1.trans h.2.2.1, h'.2.2.2.1.trans h.2.2.2.1,
    h'.2.2.2.2.trans h.2.2.2.2⟩

lemma Continues.trans (h : Continues t t') (h' : Continues t' t'') : Continues t t'' where
  rows := by
    intro row hrow
    obtain ⟨row', hrow', hsame⟩ := h.rows row hrow
    obtain ⟨row'', hrow'', hsame'⟩ := h'.rows row' hrow'
    exact ⟨row'', hrow'', sameIdentity_trans hsame hsame'⟩
  uidState := by
    intro viewId state hstate
    obtain ⟨state', hstate', hvalidity, hle⟩ := h.uidState viewId state hstate
    obtain ⟨state'', hstate'', hvalidity', hle'⟩ := h'.uidState viewId state' hstate'
    exact ⟨state'', hstate'', hvalidity'.trans hvalidity, hle.trans hle'⟩

/-! ## A replayed change -/

/-- The UID state after a change: its UIDVALIDITY is the stored one and its next UID lies past the
    change. -/
lemma advanceViewUidState_eq_ok (h : advanceViewUidState t change = .ok t') :
    ∃ uidnext, t' = t.setUidState (.derivedView change.viewId) ⟨uidnext, change.uidvalidity⟩ ∧
      change.uid + 1 ≤ uidnext ∧
      (uidnext = change.uid + 1 ∨ ∃ old, t.uidState (.derivedView change.viewId) = some old ∧ uidnext = old.uidnext) ∧
      ∀ old, t.uidState (.derivedView change.viewId) = some old →
        old.uidvalidity = change.uidvalidity ∧ old.uidnext ≤ uidnext := by
  simp only [advanceViewUidState, bind_eq_ok, require_eq_ok] at h
  obtain ⟨t₁, hinsert, -, hvalidity, hupdate⟩ := h
  obtain ⟨state, hstate, hsame⟩ := Option.map_eq_some_iff.mp hvalidity
  obtain ⟨-, rfl⟩ := updateUidnext_eq_ok hstate hupdate
  rcases (insertUidState_eq_ok hinsert).2 with ⟨-, rfl⟩ | ⟨hnone, rfl⟩
  · refine ⟨max state.uidnext (change.uid + 1), by rw [hsame], le_max_right _ _, ?_, fun old hold => ?_⟩
    · rcases le_total state.uidnext (change.uid + 1) with hle | hle
      · exact .inl (Nat.max_eq_right hle)
      · exact .inr ⟨state, hstate, Nat.max_eq_left hle⟩
    · rw [hstate, Option.some.injEq] at hold
      subst hold
      exact ⟨hsame, le_max_left _ _⟩
  · have hself : state = ⟨change.uid + 1, change.uidvalidity⟩ := by
      have hstored : (t.setUidState (.derivedView change.viewId) ⟨change.uid + 1, change.uidvalidity⟩).uidState
          (.derivedView change.viewId) = some ⟨change.uid + 1, change.uidvalidity⟩ := Function.update_self ..
      rw [hstored] at hstate
      exact (Option.some.inj hstate).symm
    subst hself
    refine ⟨change.uid + 1, ?_, le_refl _, .inl rfl, fun old hold => ?_⟩
    · simp [AccountTables.setUidState]
    · rw [hnone] at hold
      simp at hold

/-- The rows after a change: one row is updated or a new one with the UID of the change is added. -/
lemma upsertViewMembership_eq_ok (hvalid : Valid account s) (haccount : change.accountId = account)
    (hpos : change.uid ≠ 0) (h : upsertViewMembership s change = .ok s') :
    Valid account s' ∧ s'.tables.uidState = s.tables.uidState ∧
      (∀ row ∈ s.tables.derived, ∃ row' ∈ s'.tables.derived, SameIdentity row row') ∧
      ∀ row' ∈ s'.tables.derived, (row'.viewId = change.viewId ∧ row'.uid = change.uid) ∨
        ∃ row ∈ s.tables.derived, SameIdentity row row' := by
  unfold upsertViewMembership at h
  split at h
  · simp at h
  · rename_i derivedOwner hregister
    obtain ⟨hself, hwithin, -⟩ := Registry.register_eq_some hregister
    split at h
    · rename_i row hrow
      obtain ⟨-, -, heq⟩ := bind_eq_ok.mp h
      obtain rfl := Except.ok.inj heq
      have hkept := sameIdentity_ite
      have hmap := hvalid.map fun row => hkept (row.membershipId = change.membershipId) row change.isVisible
        change.materializedAtUnixUs
      refine ⟨⟨hmap.unique, hmap.uid_pos, fun row hrow => hwithin _ _ (hmap.owner row hrow), hmap.uidnext_le⟩, rfl, ?_, ?_⟩
      · exact fun row hrow => ⟨_, List.mem_map_of_mem hrow, hkept _ row _ _⟩
      · intro row' hrow'
        obtain ⟨row, hrow, rfl⟩ := List.mem_map.mp hrow'
        exact .inr ⟨row, hrow, hkept _ row _ _⟩
    · obtain ⟨t, hinsert, heq⟩ := bind_eq_ok.mp h
      obtain rfl := Except.ok.inj heq
      obtain ⟨hfresh, rfl⟩ := insertDerivedRow_eq_ok hinsert
      refine ⟨⟨?_, ?_, ?_, hvalid.uidnext_le⟩, rfl, fun row hrow => ⟨row, List.mem_append_left _ hrow, sameIdentity_refl row⟩, ?_⟩
      · refine List.pairwise_append.mpr ⟨hvalid.unique, List.pairwise_singleton _ _, fun row hrow new hnew => ?_⟩
        obtain rfl := List.mem_singleton.mp hnew
        exact derivedConflict_symm (hfresh row hrow)
      · intro row hrow
        rcases List.mem_append.mp hrow with hold | hnew
        · exact hvalid.uid_pos row hold
        · obtain rfl := List.mem_singleton.mp hnew
          exact Nat.one_le_iff_ne_zero.mpr hpos
      · intro row hrow
        rcases List.mem_append.mp hrow with hold | hnew
        · exact hwithin _ _ (hvalid.owner row hold)
        · obtain rfl := List.mem_singleton.mp hnew
          exact haccount ▸ hself
      · intro row hrow
        rcases List.mem_append.mp hrow with hold | hnew
        · exact .inr ⟨row, hold, sameIdentity_refl row⟩
        · obtain rfl := List.mem_singleton.mp hnew
          exact .inl ⟨rfl, rfl⟩

lemma applyMembershipChange_assigned (h : Assigned account s) (haccount : change.accountId = account)
    (hle : change.uid ≤ maxGuint64) (happly : applyMembershipChange s change = .ok s') :
    Assigned account s' ∧ Continues s.tables s'.tables := by
  simp only [applyMembershipChange, bind_eq_ok, require_eq_ok] at happly
  obtain ⟨-, ⟨hzero, hmax, -⟩, s₁, hupsert, t, hadvance, heq⟩ := happly
  obtain rfl := Except.ok.inj heq
  obtain ⟨hvalid, huid, hkept, hnew⟩ := upsertViewMembership_eq_ok h.valid haccount hzero hupsert
  obtain ⟨uidnext, rfl, hpast, hnext, hstored⟩ := advanceViewUidState_eq_ok hadvance
  rw [huid] at hnext hstored
  have hself : (s₁.tables.setUidState (.derivedView change.viewId) ⟨uidnext, change.uidvalidity⟩).uidState
      (.derivedView change.viewId) = some ⟨uidnext, change.uidvalidity⟩ := Function.update_self ..
  have hothers : ∀ ns, ns ≠ .derivedView change.viewId →
      (s₁.tables.setUidState (.derivedView change.viewId) ⟨uidnext, change.uidvalidity⟩).uidState ns =
        s.tables.uidState ns := fun ns hns => (Function.update_of_ne hns ..).trans (congrFun huid ns)
  have hcontinues : Continues s.tables
      (s₁.tables.setUidState (.derivedView change.viewId) ⟨uidnext, change.uidvalidity⟩) := by
    refine ⟨hkept, fun viewId old hold => ?_⟩
    by_cases hview : viewId = change.viewId
    · subst hview
      obtain ⟨hvalidity, hmore⟩ := hstored old hold
      exact ⟨_, hself, hvalidity.symm, hmore⟩
    · exact ⟨old, (hothers _ (by simpa using hview)).trans hold, rfl, le_refl _⟩
  refine ⟨⟨⟨hvalid.unique, hvalid.uid_pos, hvalid.owner, fun ns stored hns => ?_⟩, fun row hrow => ?_⟩, hcontinues⟩
  · by_cases hview : ns = .derivedView change.viewId
    · subst hview
      change (s₁.tables.setUidState _ _).uidState _ = _ at hns
      rw [hself] at hns
      obtain rfl := Option.some.inj hns
      rcases hnext with hnext | ⟨old, hold, hnext⟩
      · change uidnext ≤ maxGuint64
        omega
      · change uidnext ≤ maxGuint64
        rw [hnext]
        exact h.valid.uidnext_le _ _ hold
    · exact h.valid.uidnext_le ns stored ((hothers ns hview).symm.trans hns)
  · rcases hnew row hrow with ⟨hview, huid'⟩ | ⟨old, hold, hsame⟩
    · rw [hview, huid']
      exact ⟨_, hself, hpast⟩
    · obtain ⟨stored, hstored', hbelow⟩ := h.below old hold
      obtain ⟨stored', hstored'', -, hmore⟩ := hcontinues.uidState _ _ hstored'
      rw [hsame.2.1, hsame.2.2.2.1]
      exact ⟨stored', hstored'', lt_of_lt_of_le hbelow hmore⟩

lemma replay_assigned {changes : List DerivedViewMembershipChanged} (h : Assigned account s)
    (hchanges : ∀ change ∈ changes, change.accountId = account ∧ change.uid ≤ maxGuint64)
    (hreplay : changes.foldlM applyMembershipChange s = .ok s') :
    Assigned account s' ∧ Continues s.tables s'.tables := by
  induction changes generalizing s with
  | nil =>
    obtain rfl := Except.ok.inj hreplay
    exact ⟨h, .refl _⟩
  | cons change changes ih =>
    obtain ⟨⟨haccount, hle⟩, hmore⟩ := List.forall_mem_cons.mp hchanges
    rw [List.foldlM_cons] at hreplay
    obtain ⟨s₁, happly, hrest⟩ := bind_eq_ok.mp hreplay
    obtain ⟨hassigned, hcontinues⟩ := applyMembershipChange_assigned h haccount hle happly
    obtain ⟨hassigned', hcontinues'⟩ := ih hassigned hmore hrest
    exact ⟨hassigned', hcontinues.trans hcontinues'⟩

/-! ## A refresh -/

/-- Rows that show the same are the same but for the time they were written. -/
lemma sameIdentity_of_shown {row row' : DerivedMembership} (h : shown row = shown row') : SameIdentity row row' := by
  have hsame : ∀ {α : Type} (f : DerivedMembership → α), f (shown row') = f (shown row) := fun f => congrArg f h.symm
  exact ⟨hsame DerivedMembership.membershipId, hsame DerivedMembership.viewId, hsame DerivedMembership.messageId,
    hsame DerivedMembership.uid, hsame DerivedMembership.ruleVersionHash⟩

lemma exists_shown {rows rows' : List DerivedMembership} (h : rows.map shown = rows'.map shown) {row : DerivedMembership}
    (hrow : row ∈ rows) : ∃ row' ∈ rows', SameIdentity row row' := by
  have hmem : shown row ∈ rows'.map shown := h ▸ List.mem_map_of_mem hrow
  obtain ⟨row', hrow', heq⟩ := List.mem_map.mp hmem
  exact ⟨row', hrow', sameIdentity_of_shown heq.symm⟩

lemma refresh_assigned {request : Request} {kind : RefreshKind} {memberships : List WirelogMembership}
    {changes : List DerivedViewMembershipChanged} (h : Assigned request.accountId state.session)
    (hrefresh : refresh sha request kind memberships state = .ok (state', changes)) :
    Assigned request.accountId state'.session ∧ Continues state.session.tables state'.session.tables := by
  obtain ⟨p, hfinished, hsession, rfl⟩ := refresh_finished h.valid hrefresh
  obtain ⟨s, hagrees⟩ := hfinished.agrees hsession
  obtain ⟨hassigned, hcontinues⟩ := replay_assigned h hagrees.reported hagrees.replay
  -- the UID states of the replay are those of the refresh, save one that the replay does not have
  have hstate : ∀ viewId old, s.tables.uidState (.derivedView viewId) = some old →
      state'.session.tables.uidState (.derivedView viewId) = some old := by
    intro viewId old hold
    by_cases hview : viewId = request.viewId
    · subst hview
      rcases hagrees.uidState with hsame | ⟨hnone, hbefore, -⟩
      · rw [← hsame]
        exact hold
      · have hreplay := hagrees.replay
        rw [hnone] at hreplay
        obtain rfl := Except.ok.inj hreplay
        rw [hbefore] at hold
        simp at hold
    · rw [← hagrees.others _ (by simpa using hview)]
      exact hold
  refine ⟨⟨hagrees.valid, fun row hrow => ?_⟩, fun row hrow => ?_, fun viewId old hold => ?_⟩
  · obtain ⟨row', hrow', hsame⟩ := exists_shown hagrees.rows.symm hrow
    obtain ⟨old, hold, hbelow⟩ := hassigned.below row' hrow'
    rw [hsame.2.1] at hold
    rw [hsame.2.2.2.1] at hbelow
    exact ⟨old, hstate _ _ hold, hbelow⟩
  · obtain ⟨row', hrow', hsame⟩ := hcontinues.rows row hrow
    obtain ⟨row'', hrow'', hsame'⟩ := exists_shown hagrees.rows hrow'
    exact ⟨row'', hrow'', sameIdentity_trans hsame hsame'⟩
  · obtain ⟨new, hnew, hvalidity, hle⟩ := hcontinues.uidState viewId old hold
    exact ⟨new, hstate _ _ hnew, hvalidity, hle⟩

/-! ## Runs -/

/-- What happens to the views of an account: a refresh of any of them, the replay of a journaled
    change, and work that touches no view. -/
inductive ViewStep (sha : Sha256) (account : CString) : ViewState → ViewState → Prop where
  | refreshed {request : Request} {kind : RefreshKind} {memberships : List WirelogMembership} {state state' : ViewState}
      {changes : List DerivedViewMembershipChanged} (haccount : request.accountId = account)
      (h : refresh sha request kind memberships state = .ok (state', changes)) : ViewStep sha account state state'
  | replayed {change : DerivedViewMembershipChanged} {state : ViewState} {s : Session}
      (haccount : change.accountId = account) (hle : change.uid ≤ maxGuint64)
      (h : applyMembershipChange state.session change = .ok s) : ViewStep sha account state ⟨s, state.views⟩
  | elsewhere {state state' : ViewState} (hvalid : Valid account state'.session)
      (hderived : state'.session.tables.derived = state.session.tables.derived)
      (huid : ∀ viewId, state'.session.tables.uidState (.derivedView viewId) =
        state.session.tables.uidState (.derivedView viewId)) : ViewStep sha account state state'

lemma ViewStep.assigned (hstep : ViewStep sha account state state') (h : Assigned account state.session) :
    Assigned account state'.session ∧ Continues state.session.tables state'.session.tables := by
  cases hstep with
  | refreshed haccount hrefresh =>
    subst haccount
    exact refresh_assigned h hrefresh
  | replayed haccount hle happly => exact applyMembershipChange_assigned h haccount hle happly
  | elsewhere hvalid hderived huid =>
    refine ⟨⟨hvalid, fun row hrow => ?_⟩, fun row hrow => ⟨row, hderived ▸ hrow, sameIdentity_refl row⟩,
      fun viewId old hold => ⟨old, (huid viewId).trans hold, rfl, le_refl _⟩⟩
    rw [huid]
    exact h.below row (hderived ▸ hrow)

lemma run_assigned (hrun : Relation.ReflTransGen (ViewStep sha account) state state') (h : Assigned account state.session) :
    Assigned account state'.session ∧ Continues state.session.tables state'.session.tables := by
  induction hrun with
  | refl => exact ⟨h, .refl _⟩
  | tail _ hstep ih =>
    obtain ⟨hassigned, hcontinues⟩ := hstep.assigned ih.1
    exact ⟨hassigned, ih.2.trans hcontinues⟩

/-! ## A message that leaves and returns -/

/-- The view of the sample with its one member, shown or hidden. -/
def sampleView (sha : Sha256) (membershipId : CString) (isVisible : Bool) : ViewState where
  session := { sampleState.session with
    derivedOwner := Function.update Registry.empty membershipId (some (.literal "a"))
    tables := { sampleTables.setUidState (.derivedView (.literal "v"))
        ⟨2, generateUidvalidity sha (.literal "a") (.literal "v")⟩ with
      derived := [⟨membershipId, .literal "v", .literal "m", 1, isVisible, .literal "r", 1⟩] } }
  views := [⟨.literal "v", .literal "V", .literal "w", true, true⟩]

lemma sampleView_valid (sha : Sha256) (membershipId : CString) (isVisible : Bool) :
    Valid sampleRequest.accountId (sampleView sha membershipId isVisible).session where
  unique := List.pairwise_singleton _ _
  uid_pos := by simp [sampleView]
  owner := by
    intro row hrow
    rw [List.mem_singleton.mp hrow]
    exact Function.update_self ..
  uidnext_le := by
    intro ns state hstate
    change Function.update (fun _ => none) _ _ ns = some state at hstate
    by_cases hns : ns = .derivedView (.literal "v")
    · rw [hns, Function.update_self] at hstate
      rw [← Option.some.inj hstate]
      exact Nat.le_of_ble_eq_true rfl
    · rw [Function.update_of_ne hns] at hstate
      simp at hstate

lemma sampleView_open (sha : Sha256) (membershipId : CString) (isVisible : Bool) :
    openView sha sampleRequest (sampleView sha membershipId isVisible) =
    .ok (sampleView sha membershipId isVisible, ⟨2, generateUidvalidity sha (.literal "a") (.literal "v")⟩) := by
  have hpos := generateUidvalidity_pos sha (.literal "a") (.literal "v")
  have hinsert : (sampleView sha membershipId isVisible).session.tables.insertUidState (.derivedView (.literal "v")) (sampleUids sha) =
      .ok (sampleView sha membershipId isVisible).session.tables :=
    bind_eq_ok.mpr ⟨(), require_eq_ok.mpr ⟨le_refl 1, hpos⟩, rfl⟩
  have hselect : DerivedViewMaterializer.selectUidnext (sampleView sha membershipId isVisible).session.tables (.literal "v") =
      .ok ⟨2, generateUidvalidity sha (.literal "a") (.literal "v")⟩ :=
    bind_eq_ok.mpr ⟨(), validate_eq_ok.mpr (Nat.one_le_iff_ne_zero.mp hpos),
      bind_eq_ok.mpr ⟨(), validate_eq_ok.mpr (show 1 ≠ maxGuint64 ∧ 1 + 1 ≤ 2 by decide), rfl⟩⟩
  exact bind_eq_ok.mpr ⟨_, rfl, bind_eq_ok.mpr ⟨_, execute_eq_ok.mpr hinsert, bind_eq_ok.mpr ⟨_, hselect, rfl⟩⟩⟩

/-- Writing the UID state of the sample again over any other gives the sample. -/
lemma sampleView_again (sha : Sha256) (membershipId : CString) (isVisible : Bool) (uids : UidState) :
    ({ sampleView sha membershipId isVisible with
      session := { (sampleView sha membershipId isVisible).session with
        tables := { (sampleTables.setUidState (.derivedView (.literal "v")) uids).setUidState (.derivedView (.literal "v"))
            ⟨2, generateUidvalidity sha (.literal "a") (.literal "v")⟩ with
          derived := (sampleView sha membershipId isVisible).session.tables.derived } } } : ViewState) = sampleView sha membershipId isVisible := by
  simp only [sampleView, AccountTables.setUidState, Function.update_idem]

def sampleId (sha : Sha256) : CString := buildMembershipId sha sampleRequest (.literal "m")

lemma sample_arrives (sha : Sha256) : ∃ changes,
    refresh sha sampleRequest .currentRule [⟨.literal "v", .literal "m"⟩] sampleState = .ok (sampleView sha (sampleId sha) true, changes) := by
  rw [← sampleView_again sha (sampleId sha) true (sampleUids sha)]
  exact ⟨_, bind_eq_ok.mpr ⟨(), by decide, bind_eq_ok.mpr ⟨_, sample_open sha,
    bind_eq_ok.mpr ⟨_, rfl, bind_eq_ok.mpr ⟨_, rfl, rfl⟩⟩⟩⟩⟩

lemma sample_leaves (sha : Sha256) : ∃ changes,
    refresh sha sampleRequest .view [] (sampleView sha (sampleId sha) true) = .ok (sampleView sha (sampleId sha) false, changes) := by
  have h : ∃ state changes, refresh sha sampleRequest .view [] (sampleView sha (sampleId sha) true) = .ok (state, changes) ∧
      state = sampleView sha (sampleId sha) false :=
    ⟨_, _, bind_eq_ok.mpr ⟨(), by decide, bind_eq_ok.mpr ⟨_, sampleView_open sha (sampleId sha) true,
      bind_eq_ok.mpr ⟨_, rfl, bind_eq_ok.mpr ⟨_, rfl, rfl⟩⟩⟩⟩, sampleView_again sha (sampleId sha) false _⟩
  obtain ⟨_, changes, h, rfl⟩ := h
  exact ⟨changes, h⟩

lemma sample_returns (sha : Sha256) : ∃ changes,
    refresh sha sampleRequest .view [⟨.literal "v", .literal "m"⟩] (sampleView sha (sampleId sha) false) = .ok (sampleView sha (sampleId sha) true, changes) := by
  have h : ∃ state changes, refresh sha sampleRequest .view [⟨.literal "v", .literal "m"⟩] (sampleView sha (sampleId sha) false) = .ok (state, changes) ∧
      state = sampleView sha (sampleId sha) true :=
    ⟨_, _, bind_eq_ok.mpr ⟨(), by decide, bind_eq_ok.mpr ⟨_, sampleView_open sha (sampleId sha) false,
      bind_eq_ok.mpr ⟨_, rfl, bind_eq_ok.mpr ⟨_, rfl, rfl⟩⟩⟩⟩, sampleView_again sha (sampleId sha) true _⟩
  obtain ⟨_, changes, h, rfl⟩ := h
  exact ⟨changes, h⟩

/-- Between any two states of a run that started without derived memberships: a UID of a view is
    never that of another membership, the next UID lies past every UID assigned, a message has the
    same UID under the same rule version, and the UIDVALIDITY stays. -/
theorem uid_stability (sha : Sha256) {account : CString} {state₀ state state' : ViewState}
    (hvalid : Valid account state₀.session) (hfresh : state₀.session.tables.derived = [])
    (hrun : Relation.ReflTransGen (ViewStep sha account) state₀ state)
    (hrun' : Relation.ReflTransGen (ViewStep sha account) state state') :
    (∀ row ∈ state.session.tables.derived, ∀ row' ∈ state'.session.tables.derived,
      row'.viewId = row.viewId → row'.uid = row.uid → SameIdentity row row') ∧
    (∀ row ∈ state.session.tables.derived, ∃ uids,
      state'.session.tables.uidState (.derivedView row.viewId) = some uids ∧ row.uid < uids.uidnext) ∧
    (∀ row ∈ state.session.tables.derived, ∀ row' ∈ state'.session.tables.derived,
      row'.viewId = row.viewId → row'.messageId = row.messageId → row'.ruleVersionHash = row.ruleVersionHash →
        row'.uid = row.uid) ∧
    ∀ viewId uids, state.session.tables.uidState (.derivedView viewId) = some uids →
      ∃ uids', state'.session.tables.uidState (.derivedView viewId) = some uids' ∧
        uids'.uidvalidity = uids.uidvalidity ∧ uids.uidnext ≤ uids'.uidnext := by
  obtain ⟨h, -⟩ := run_assigned hrun ⟨hvalid, by simp [hfresh]⟩
  obtain ⟨h', hcontinues⟩ := run_assigned hrun' h
  have hkept : ∀ row ∈ state.session.tables.derived, ∀ row' ∈ state'.session.tables.derived,
      derivedConflict row row' = true → SameIdentity row row' := by
    intro row hrow row' hrow' hconflict
    obtain ⟨later, hlater, hsame⟩ := hcontinues.rows row hrow
    have heq : later = row' := by
      refine eq_of_conflict h'.valid.unique hlater hrow' ?_
      rw [← hconflict, derivedConflict, derivedConflict, hsame.1, hsame.2.1, hsame.2.2.1, hsame.2.2.2.1, hsame.2.2.2.2]
    exact heq ▸ hsame
  refine ⟨?_, fun row hrow => ?_, ?_, hcontinues.uidState⟩
  · intro row hrow row' hrow' hview huid
    exact hkept row hrow row' hrow' (by simp [derivedConflict, hview, huid])
  · obtain ⟨later, hlater, hsame⟩ := hcontinues.rows row hrow
    obtain ⟨uids, huids, hbelow⟩ := h'.below later hlater
    rw [hsame.2.1] at huids
    rw [hsame.2.2.2.1] at hbelow
    exact ⟨uids, huids, hbelow⟩
  · intro row hrow row' hrow' hview hmessage hrule
    exact (hkept row hrow row' hrow' (by simp [derivedConflict, hview, hmessage, hrule])).2.2.2.1

/-- The message of the sample is hidden by a second refresh and shown again by a third. -/
theorem uid_stability_sample :
    ∃ row ∈ (sampleView JournalCrash.sha256 (sampleId JournalCrash.sha256) true).session.tables.derived,
      row.messageId = .literal "m" ∧ row.uid = 1 := by
  obtain ⟨_, harrives⟩ := sample_arrives JournalCrash.sha256
  obtain ⟨_, hleaves⟩ := sample_leaves JournalCrash.sha256
  obtain ⟨_, hreturns⟩ := sample_returns JournalCrash.sha256
  have harrived : Relation.ReflTransGen (ViewStep JournalCrash.sha256 (.literal "a")) sampleState (sampleView _ (sampleId _) true) :=
    .single (.refreshed rfl harrives)
  have hreturned : Relation.ReflTransGen (ViewStep JournalCrash.sha256 (.literal "a")) (sampleView _ (sampleId _) true) (sampleView _ (sampleId _) true) :=
    .tail (.single (.refreshed rfl hleaves)) (.refreshed rfl hreturns)
  obtain ⟨-, -, hsame, -⟩ := uid_stability JournalCrash.sha256 sampleState_valid rfl harrived hreturned
  refine ⟨_, List.mem_singleton_self _, rfl, ?_⟩
  exact hsame _ (List.mem_singleton_self _) _ (List.mem_singleton_self _) rfl rfl rfl

end
end Wyrebox.DerivedViewUids
