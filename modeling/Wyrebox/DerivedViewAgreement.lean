import Wyrebox.DerivedViewReplay
import Wyrebox.JournalCrash

set_option autoImplicit false

/-!
# A refresh and the replay of its changes

From its first statement to its last, a refresh and the replay of what it reports reach the same
rows.
-/
namespace Wyrebox.DerivedViewAgreement
open Catalog Event Fallible AccountRows DerivedViewMaterializer DerivedViewReplay
open Materializer hiding insertMembership selectUidnext
open JournalRecord (Sha256)

section
variable {sha : Sha256} {request : Request} {uidvalidity : ℕ} {t : AccountTables} {p p' : Refreshing}
  {row : DerivedMembership} {pending : CString → Bool} {opened : UidState} {s₀ : Session}

/-! ## The start of a refresh -/

/-- The UID state a refresh works with: the stored one, or a fresh one. -/
structure Opened (sha : Sha256) (request : Request) (state state' : ViewState) (opened : UidState) : Prop where
  session : ∃ uidState, state'.session = { state.session with
    tables := { state.session.tables with uidState := uidState } }
  stored : state'.session.tables.uidState (.derivedView request.viewId) = some opened
  others : ∀ ns, ns ≠ .derivedView request.viewId →
    state'.session.tables.uidState ns = state.session.tables.uidState ns
  prior : state.session.tables.uidState (.derivedView request.viewId) = some opened ∨
    (state.session.tables.uidState (.derivedView request.viewId) = none ∧
      opened = ⟨1, generateUidvalidity sha request.accountId request.viewId⟩)
  validity : opened.uidvalidity ≠ 0
  below : ∀ row ∈ state.session.tables.derived, row.viewId = request.viewId → row.uid < opened.uidnext

lemma le_foldl_max {uids : List ℕ} {uid start : ℕ} (h : uid ∈ uids ∨ uid ≤ start) : uid ≤ uids.foldl max start := by
  induction uids generalizing start with
  | nil => simpa using h
  | cons first uids ih =>
    refine ih ?_
    rcases h with hmem | hle
    · rcases List.mem_cons.mp hmem with rfl | hmem
      · exact .inr (le_max_right _ _)
      · exact .inl hmem
    · exact .inr (hle.trans (le_max_left _ _))

lemma openView_opened {state state' : ViewState} (h : openView sha request state = .ok (state', opened)) :
    Opened sha request state state' opened := by
  simp only [openView, bind_eq_ok, execute_eq_ok] at h
  obtain ⟨views, -, t, hinsert, uidState, hselect, heq⟩ := h
  obtain ⟨rfl, rfl⟩ := Prod.mk.inj (Except.ok.inj heq)
  obtain ⟨hsame, hstart⟩ : (∃ uidState, t = { state.session.tables with uidState := uidState }) ∧
      (∀ ns, ns ≠ .derivedView request.viewId → t.uidState ns = state.session.tables.uidState ns) :=  by
    rcases (insertUidState_eq_ok hinsert).2 with ⟨-, rfl⟩ | ⟨-, rfl⟩
    · exact ⟨⟨_, rfl⟩, fun _ _ => rfl⟩
    · exact ⟨⟨_, rfl⟩, fun ns hns => Function.update_of_ne hns ..⟩
  unfold selectUidnext at hselect
  split at hselect
  · simp at hselect
  · rename_i state₁ hstored
    simp only [bind_eq_ok, validate_eq_ok] at hselect
    obtain ⟨-, hvalidity, -, hstale, heq⟩ := hselect
    obtain rfl := Except.ok.inj heq
    obtain ⟨uidState', hsame⟩ := hsame
    refine ⟨⟨uidState', by rw [hsame]⟩, hstored, hstart, ?_, hvalidity, fun row hrow hview => ?_⟩
    · rcases (insertUidState_eq_ok hinsert).2 with ⟨-, rfl⟩ | ⟨hnone, rfl⟩
      · exact .inl hstored
      · refine .inr ⟨hnone, ?_⟩
        have hself : (state.session.tables.setUidState (.derivedView request.viewId)
            ⟨1, generateUidvalidity sha request.accountId request.viewId⟩).uidState
            (.derivedView request.viewId) = some ⟨1, generateUidvalidity sha request.accountId request.viewId⟩ :=
          Function.update_self ..
        rw [hself] at hstored
        exact (Option.some.inj hstored).symm
    · have hle : row.uid ≤ maxViewUid t request.viewId := by
        refine le_foldl_max (.inl (List.mem_map_of_mem (List.mem_filter.mpr ⟨?_, by simpa using hview⟩)))
        rw [hsame]
        exact hrow
      omega

lemma expected_none (row : DerivedMembership) : expected request (fun _ => false) row = shown row := by
  simp [expected, shown]

/-- The constraints hold when a refresh starts. -/
lemma Opened.valid {state state' : ViewState} (h : Opened sha request state state' opened)
    (hvalid : Valid request.accountId state.session) : Valid request.accountId state'.session := by
  obtain ⟨uidState, hsession⟩ := h.session
  have hle : opened.uidnext ≤ maxGuint64 := by
    rcases h.prior with hstored | ⟨-, rfl⟩
    · exact hvalid.uidnext_le _ _ hstored
    · exact Nat.le_of_ble_eq_true rfl
  refine ⟨?_, ?_, ?_, fun ns stored hstored => ?_⟩
  · rw [hsession]
    exact hvalid.unique
  · rw [hsession]
    exact hvalid.uid_pos
  · rw [hsession]
    exact hvalid.owner
  · by_cases hns : ns = .derivedView request.viewId
    · rw [hns, h.stored] at hstored
      rwa [← Option.some.inj hstored]
    · rw [h.others ns hns] at hstored
      exact hvalid.uidnext_le ns stored hstored

/-- The replay of nothing stands at the start of the refresh. -/
lemma Opened.follows {state state' : ViewState} (h : Opened sha request state state' opened)
    (hvalid : Valid request.accountId state.session) :
    Follows request opened state.session (fun _ => false) ⟨state'.session, opened.uidnext, []⟩ := by
  obtain ⟨uidState, hsession⟩ := h.session
  have hderived : state'.session.tables.derived = state.session.tables.derived := by rw [hsession]
  have howner : state'.session.derivedOwner = state.session.derivedOwner := by rw [hsession]
  have hvalid' := h.valid hvalid
  refine ⟨h.stored, fun _ => ⟨state.session, rfl, ?_⟩⟩
  refine ⟨howner.symm, ?_, ?_, fun ns hns => (h.others ns hns).symm, hvalid', ?_, hvalid'.uidnext_le _ _ h.stored, by simp⟩
  · change state.session.tables.derived.map shown = state'.session.tables.derived.map _
    rw [hderived]
    exact List.map_congr_left fun row _ => (expected_none row).symm
  · rcases h.prior with hstored | ⟨hnone, rfl⟩
    · exact .inl hstored
    · refine .inr ⟨hnone, rfl, rfl, fun row hrow hview => ?_⟩
      have hrow' : row ∈ state.session.tables.derived := hderived ▸ hrow
      have hbelow := h.below row hrow' hview
      have hpos := hvalid.uid_pos row hrow'
      change row.uid < 1 at hbelow
      omega
  · change ∀ row ∈ state'.session.tables.derived, _
    rw [hderived]
    exact h.below

/-! ## The end of a refresh -/

lemma updateUidnext_follows (h : Follows request opened s₀ pending p) (hstep : updateUidnext request p = .ok p') :
    Follows request ⟨p.uidnext, opened.uidvalidity⟩ s₀ pending p' ∧ p'.uidnext = p.uidnext ∧ p.uidnext ≠ 0 := by
  simp only [DerivedViewMaterializer.updateUidnext, bind_eq_ok, execute_eq_ok] at hstep
  obtain ⟨t, hupdate, heq⟩ := hstep
  obtain ⟨hpos, rfl⟩ := updateUidnext_eq_ok h.stored hupdate
  obtain rfl := Except.ok.inj heq
  refine ⟨⟨Function.update_self .., fun hwrapped => ?_⟩, rfl, Nat.one_le_iff_ne_zero.mp hpos⟩
  obtain ⟨s, hreplay, htracks⟩ := h.replay hwrapped
  refine ⟨s, hreplay, htracks.owner, htracks.rows, htracks.uidState, fun ns hns => ?_,
    ⟨htracks.valid.unique, htracks.valid.uid_pos, htracks.valid.owner, fun ns stored hstored => ?_⟩, htracks.below,
    htracks.le, htracks.reported⟩
  · change _ = Function.update p.session.tables.uidState _ _ ns
    rw [Function.update_of_ne hns]
    exact htracks.others ns hns
  · change Function.update p.session.tables.uidState _ _ ns = some stored at hstored
    by_cases hns : ns = .derivedView request.viewId
    · subst hns
      rw [Function.update_self] at hstored
      rw [← Option.some.inj hstored]
      exact htracks.le
    · rw [Function.update_of_ne hns] at hstored
      exact htracks.valid.uidnext_le ns stored hstored

lemma hideOtherRuleVersions_eq (hunique : p.session.tables.derived.Pairwise fun row other => derivedConflict row other = false) :
    hideOtherRuleVersions request uidvalidity p = hideRows request uidvalidity p
      (orderedByRuleAndUid (p.session.tables.derived.filter (otherRuleVersion request))) := by
  rw [hideRows_eq, hideOtherRuleVersions]
  rw [@setVisible_eq _ _ (orderedByRuleAndUid (p.session.tables.derived.filter (otherRuleVersion request))) hunique]
  intro row
  rw [orderedByRuleAndUid, List.mem_insertionSort, List.mem_filter]

lemma hideOtherRuleVersions_follows (h : Follows request opened s₀ (fun _ => false) p) (hpos : opened.uidvalidity ≠ 0)
    (hwrapped : p.uidnext ≠ 0) :
    Follows request opened s₀ (fun _ => false) (hideOtherRuleVersions request opened.uidvalidity p) := by
  obtain ⟨s, -, htracks⟩ := h.replay hwrapped
  rw [hideOtherRuleVersions_eq htracks.valid.unique]
  refine h.hide hpos (fun hnodup => ?_) fun row hrow => ?_
  · exact (List.perm_insertionSort _ _).nodup_iff.mpr (hnodup.filter _)
  · rw [orderedByRuleAndUid, List.mem_insertionSort, List.mem_filter] at hrow
    have hother := hrow.2
    simp only [otherRuleVersion, decide_eq_true_eq] at hother
    exact ⟨hrow.1, hother.1, by simp⟩

/-! ## Whole refreshes -/

lemma mem_staleRows {incoming : List CString} : row ∈ staleRows request incoming t ↔
    row ∈ t.derived ∧ inScope request row = true ∧ row.isVisible = true ∧ row.messageId ∉ incoming := by
  rw [staleRows, orderedByUid, List.mem_filter, List.mem_insertionSort, List.mem_filter, decide_eq_true_eq,
    decide_eq_true_eq]
  exact ⟨fun h => ⟨h.1.1, h.1.2.1, h.1.2.2, h.2⟩, fun h => ⟨⟨h.1, h.2.1, h.2.2.1⟩, h.2.2.2⟩⟩

/-- A visible row of the view was not hidden before: no other row has its key. -/
lemma notMem_collectHiddenMessageIds
    (hunique : t.derived.Pairwise fun row other => derivedConflict row other = false) (hrow : row ∈ t.derived)
    (hscope : inScope request row = true) : row.messageId ∈ collectHiddenMessageIds request t ↔ row.isVisible = false := by
  unfold collectHiddenMessageIds
  constructor
  · intro hmem
    obtain ⟨other, hother, hmessage⟩ := List.mem_map.mp hmem
    obtain ⟨hother, hcondition⟩ := List.mem_filter.mp hother
    rw [decide_eq_true_eq] at hcondition
    obtain ⟨hscope', hhidden⟩ := hcondition
    have hview := inScope_iff.mp hscope
    have hview' := inScope_iff.mp hscope'
    have heq : other = row := eq_of_conflict hunique hother hrow
      (by simp [derivedConflict, hview, hview', hmessage])
    rw [← heq]
    simpa using hhidden
  · intro hhidden
    refine List.mem_map_of_mem (List.mem_filter.mpr ⟨hrow, decide_eq_true ⟨hscope, ?_⟩⟩)
    rw [hhidden]
    rfl

def concealed (request : Request) (row : DerivedMembership) : DerivedMembership :=
  { row with isVisible := false, materializedAtUnixUs := request.materializedAtUnixUs }

@[simp] lemma inScope_concealed : inScope request (concealed request row) = inScope request row := rfl

@[simp] lemma concealed_concealed : concealed request (concealed request row) = concealed request row := rfl

/-- The rows of the view are hidden, the stale ones are reported, and the others are pending. -/
lemma Opened.hidden_follows {state state' : ViewState} {incoming : List CString} {memberships : List WirelogMembership}
    (h : Opened sha request state state' opened) (hvalid : Valid request.accountId state.session)
    (hincoming : ∀ messageId ∈ incoming, messageId ∈ memberships.map WirelogMembership.messageId) :
    Follows request opened state.session
      (pendingMembers incoming (collectHiddenMessageIds request state'.session.tables) memberships)
      ⟨{ state'.session with tables := setVisible state'.session.tables (inScope request) false request.materializedAtUnixUs },
        opened.uidnext,
        (staleRows request incoming state'.session.tables).map (changeOf request opened.uidvalidity false)⟩ := by
  refine ⟨h.stored, fun hwrapped => ?_⟩
  have hstart := h.follows hvalid
  have hstale : Follows request opened state.session (fun _ => false)
      (hideRows request opened.uidvalidity ⟨state'.session, opened.uidnext, []⟩
        (staleRows request incoming state'.session.tables)) := by
    refine hstart.hide h.validity (fun hnodup => ?_) fun row hrow => ?_
    · exact ((List.perm_insertionSort _ _).nodup_iff.mpr (hnodup.filter _)).filter _
    · obtain ⟨hold, hscope, -⟩ := mem_staleRows.mp hrow
      exact ⟨hold, (inScope_iff.mp hscope).1, by simp⟩
  obtain ⟨_, _, htracks₀⟩ := hstart.replay hwrapped
  have hunique : state'.session.tables.derived.Pairwise fun row other => derivedConflict row other = false :=
    htracks₀.valid.unique
  rw [hideRows_eq] at hstale
  obtain ⟨s, hreplay, htracks⟩ := hstale.replay hwrapped
  refine ⟨s, hreplay, ?_⟩
  have hmem : ∀ row ∈ state'.session.tables.derived,
      (row.membershipId ∈ (staleRows request incoming state'.session.tables).map DerivedMembership.membershipId ↔
        inScope request row = true ∧ row.isVisible = true ∧ row.messageId ∉ incoming) := by
    intro row hrow
    constructor
    · intro hid
      obtain ⟨other, hother, hid⟩ := List.mem_map.mp hid
      obtain ⟨hother, hstale⟩ := mem_staleRows.mp hother
      exact eq_of_id hunique hother hrow hid ▸ hstale
    · exact fun hstale => List.mem_map_of_mem (mem_staleRows.mpr ⟨hrow, hstale⟩)
  set stale := (staleRows request incoming state'.session.tables).map DerivedMembership.membershipId
  -- hiding the stale rows first makes no difference to hiding all of them
  have hrows : ((state'.session.tables.derived.map fun row =>
      if decide (row.membershipId ∈ stale) = true then concealed request row else row).map fun row =>
        if inScope request row = true then concealed request row else row) =
      state'.session.tables.derived.map fun row => if inScope request row = true then concealed request row else row := by
    rw [List.map_map]
    refine List.map_congr_left fun row hrow => ?_
    rw [Function.comp_apply]
    by_cases hid : row.membershipId ∈ stale
    · have hscope := ((hmem row hrow).mp hid).1
      rw [if_pos (decide_eq_true hid), inScope_concealed, if_pos hscope, if_pos hscope, concealed_concealed]
    · rw [if_neg (fun htrue => hid (of_decide_eq_true htrue))]
  have hprogress := congrArg (fun derived => (⟨{ state'.session with
    tables := { state'.session.tables with derived := derived } }, opened.uidnext,
    (staleRows request incoming state'.session.tables).map (changeOf request opened.uidvalidity false)⟩ : Refreshing)) hrows
  refine Eq.subst (motive := fun p => Tracks request opened.uidvalidity (pendingMembers incoming
    (collectHiddenMessageIds request state'.session.tables) memberships) p s) hprogress (htracks.withRows
      (f := fun row => if inScope request row = true then concealed request row else row)
      (fun row => sameIdentity_ite (inScope request row = true) row false request.materializedAtUnixUs)
      fun row hrow => ?_)
  obtain ⟨old, hold, rfl⟩ := List.mem_map.mp hrow
  set hiddenBefore := collectHiddenMessageIds request state'.session.tables with hhiddenBefore
  have hbefore : inScope request old = true → (old.messageId ∈ hiddenBefore ↔ old.isVisible = false) :=
    notMem_collectHiddenMessageIds hunique hold
  by_cases hid : old.membershipId ∈ stale
  · obtain ⟨hscope, -, hout⟩ := (hmem old hold).mp hid
    have hpending : pendingMembers incoming hiddenBefore memberships (concealed request old).messageId = false := by
      simp [pendingMembers, concealed, hout]
    rw [if_pos (decide_eq_true hid)]
    change expected request _ (if inScope request (concealed request old) = true then
      concealed request (concealed request old) else concealed request old) =
        expected request (fun _ => false) (concealed request old)
    rw [inScope_concealed, if_pos hscope, concealed_concealed, expected_none, expected, hpending]
    simp [shown, concealed]
  · rw [if_neg (fun htrue => hid (of_decide_eq_true htrue)), expected_none]
    cases hscope : inScope request old with
    | false =>
      rw [if_neg (by simp), expected, hscope]
      simp [shown]
    | true =>
      rw [if_pos rfl, expected, inScope_concealed, hscope]
      have hpending : pendingMembers incoming hiddenBefore memberships (concealed request old).messageId =
          old.isVisible := by
        change pendingMembers incoming hiddenBefore memberships old.messageId = _
        cases hvisible : old.isVisible with
        | false => simp [pendingMembers, (hbefore hscope).mpr hvisible]
        | true =>
          have hin : old.messageId ∈ incoming := by
            by_contra hout
            exact hid ((hmem old hold).mpr ⟨hscope, hvisible, hout⟩)
          have hnot : old.messageId ∉ hiddenBefore := by
            rw [hbefore hscope, hvisible]
            simp
          exact decide_eq_true ⟨hincoming _ hin, hin, hnot⟩
      rw [hpending]
      simp [shown, concealed]

/-! ## Agreement -/

/-- What the replay of a refresh reaches. -/
structure Agrees (sha : Sha256) (request : Request) (state state' : ViewState)
    (changes : List DerivedViewMembershipChanged) (s : Session) : Prop where
  replay : changes.foldlM applyMembershipChange state.session = .ok s
  reported : ∀ change ∈ changes, change.accountId = request.accountId ∧ change.uid ≤ maxGuint64
  valid : Valid request.accountId state'.session
  rows : s.tables.derived.map shown = state'.session.tables.derived.map shown
  owner : s.derivedOwner = state'.session.derivedOwner
  others : ∀ ns, ns ≠ .derivedView request.viewId → s.tables.uidState ns = state'.session.tables.uidState ns
  uidState : s.tables.uidState (.derivedView request.viewId) =
      state'.session.tables.uidState (.derivedView request.viewId) ∨
    (changes = [] ∧ state.session.tables.uidState (.derivedView request.viewId) = none ∧
      state'.session.tables.uidState (.derivedView request.viewId) =
        some ⟨1, generateUidvalidity sha request.accountId request.viewId⟩)

/-- What a refresh that ended well leaves behind. -/
structure Finished (sha : Sha256) (request : Request) (state : ViewState) (p : Refreshing) : Prop where
  follows : ∃ opened state₁, Opened sha request state state₁ opened ∧
    Follows request ⟨p.uidnext, opened.uidvalidity⟩ state.session (fun _ => false) p
  wrapped : p.uidnext ≠ 0

lemma Finished.agrees {state state' : ViewState} (h : Finished sha request state p) (hsession : state'.session = p.session) :
    ∃ s, Agrees sha request state state' p.changes s := by
  obtain ⟨opened, state₁, hopened, hfollows⟩ := h.follows
  obtain ⟨s, hreplay, htracks⟩ := hfollows.replay h.wrapped
  refine ⟨s, hreplay, htracks.reported, hsession ▸ htracks.valid, ?_, hsession ▸ htracks.owner, fun ns hns => ?_, ?_⟩
  · rw [htracks.rows, hsession]
    exact List.map_congr_left fun row _ => expected_none row
  · rw [hsession]
    exact htracks.others ns hns
  · rw [hsession, hfollows.stored]
    refine htracks.uidState.imp_right fun hnone => ?_
    obtain ⟨hnone, hone, hchanges, -⟩ := hnone
    have hsame : s = state.session := by
      rw [hchanges] at hreplay
      exact (Except.ok.inj hreplay).symm
    rw [hsame] at hnone
    refine ⟨hchanges, hnone, ?_⟩
    rcases hopened.prior with hstored | ⟨-, rfl⟩
    · rw [hnone] at hstored
      simp at hstored
    · rw [hone]

lemma refreshIncoming_loop {incoming hiddenBefore : List CString} {memberships : List WirelogMembership}
    (h : Follows request opened s₀ (pendingMembers incoming hiddenBefore memberships) p) (hpos : opened.uidvalidity ≠ 0)
    (hloop : memberships.foldlM (refreshIncoming sha request opened.uidvalidity incoming hiddenBefore) p = .ok p') :
    Follows request opened s₀ (fun _ => false) p' := by
  induction memberships generalizing p with
  | nil =>
    rw [← Except.ok.inj hloop]
    exact h.shrink fun row _ _ => .inl (by simp [pendingMembers])
  | cons membership memberships ih =>
    rw [List.foldlM_cons] at hloop
    obtain ⟨p₁, hstep, hrest⟩ := bind_eq_ok.mp hloop
    exact ih (refreshIncoming_follows h hpos hstep) hrest

lemma refreshListed_loop {members messageIds : List CString} (h : Follows request opened s₀ (fun _ => false) p)
    (hpos : opened.uidvalidity ≠ 0)
    (hloop : messageIds.foldlM (refreshListed sha request opened.uidvalidity members) p = .ok p') :
    Follows request opened s₀ (fun _ => false) p' := by
  induction messageIds generalizing p with
  | nil => rwa [← Except.ok.inj hloop]
  | cons messageId messageIds ih =>
    rw [List.foldlM_cons] at hloop
    obtain ⟨p₁, hstep, hrest⟩ := bind_eq_ok.mp hloop
    obtain ⟨-, hstep⟩ := check_eq_ok.mp hstep
    exact ih (refreshMessage_follows h hpos hstep) hrest

/-- A refresh of any kind ends with the replay of its changes at the same rows. -/
lemma refresh_finished {kind : RefreshKind} {memberships : List WirelogMembership} {state state' : ViewState}
    {changes : List DerivedViewMembershipChanged} (hvalid : Valid request.accountId state.session)
    (h : refresh sha request kind memberships state = .ok (state', changes)) :
    ∃ p, Finished sha request state p ∧ state'.session = p.session ∧ changes = p.changes := by
  have hwhole : ∀ hideOthers, refreshMemberships sha request hideOthers memberships state = .ok (state', changes) →
      ∃ p, Finished sha request state p ∧ state'.session = p.session ∧ changes = p.changes := by
    intro hideOthers h
    unfold refreshMemberships at h
    simp only [bind_eq_ok] at h
    obtain ⟨-, -, ⟨state₁, opened⟩, hopen, p, hloop, p', hupdate, heq⟩ := h
    obtain ⟨rfl, rfl⟩ := Prod.mk.inj (Except.ok.inj heq)
    have hopened := openView_opened hopen
    have hincoming : ∀ messageId ∈ retainOrdinarilyVisible state.session.tables memberships,
        messageId ∈ memberships.map WirelogMembership.messageId := fun _ hmem => (List.mem_filter.mp hmem).1
    have hstart := hopened.hidden_follows hvalid hincoming
    obtain ⟨hfollows, hnext, hwrapped⟩ := updateUidnext_follows (refreshIncoming_loop hstart hopened.validity hloop) hupdate
    refine ⟨_, ⟨⟨opened, state₁, hopened, ?_⟩, ?_⟩, rfl, rfl⟩
    · cases hideOthers with
      | false =>
        change Follows request ⟨p'.uidnext, _⟩ _ _ p'
        rwa [hnext]
      | true =>
        change Follows request ⟨p'.uidnext, _⟩ _ _ (hideOtherRuleVersions request opened.uidvalidity p')
        rw [hnext]
        exact hideOtherRuleVersions_follows hfollows hopened.validity (hnext ▸ hwrapped)
    · cases hideOthers <;> exact hnext ▸ hwrapped
  cases kind with
  | view => exact hwhole false h
  | currentRule => exact hwhole true h
  | messages messageIds =>
    change refreshMessageMemberships sha request messageIds memberships state = _ at h
    unfold refreshMessageMemberships at h
    simp only [bind_eq_ok] at h
    obtain ⟨-, -, -, -, ⟨state₁, opened⟩, hopen, p, hloop, p', hupdate, heq⟩ := h
    obtain ⟨rfl, rfl⟩ := Prod.mk.inj (Except.ok.inj heq)
    have hopened := openView_opened hopen
    obtain ⟨hfollows, hnext, hwrapped⟩ :=
      updateUidnext_follows (refreshListed_loop (hopened.follows hvalid) hopened.validity hloop) hupdate
    exact ⟨p', ⟨⟨opened, state₁, hopened, hnext ▸ hfollows⟩, hnext ▸ hwrapped⟩, rfl, rfl⟩

/-- The replay of what a refresh reports reaches the rows of the refresh with their UIDs and what
    they show, and its UID state. A refresh that reports nothing still creates the UID state of its
    view, which the next refresh after a replay generates again. -/
theorem refresh_replay_agrees (sha : Sha256) (request : Request) (kind : RefreshKind)
    (memberships : List WirelogMembership) {state state' : ViewState} {changes : List DerivedViewMembershipChanged}
    (hvalid : Valid request.accountId state.session)
    (h : refresh sha request kind memberships state = .ok (state', changes)) :
    ∃ s, changes.foldlM applyMembershipChange state.session = .ok s ∧
      s.tables.derived.map shown = state'.session.tables.derived.map shown ∧
      (∀ ns, ns ≠ .derivedView request.viewId → s.tables.uidState ns = state'.session.tables.uidState ns) ∧
      (s.tables.uidState (.derivedView request.viewId) =
          state'.session.tables.uidState (.derivedView request.viewId) ∨
        (changes = [] ∧ state.session.tables.uidState (.derivedView request.viewId) = none ∧
          state'.session.tables.uidState (.derivedView request.viewId) =
            some ⟨1, generateUidvalidity sha request.accountId request.viewId⟩)) := by
  obtain ⟨p, hfinished, hsession, rfl⟩ := refresh_finished hvalid h
  obtain ⟨s, hagrees⟩ := hfinished.agrees hsession
  exact ⟨s, hagrees.replay, hagrees.rows, hagrees.others, hagrees.uidState⟩

/-! ## A sample view -/

def sampleRequest : Request := ⟨.literal "a", .literal "v", .literal "V", .literal "w", .literal "r", 1⟩

/-- One message with a visible ordinary membership. -/
def sampleTables : AccountTables where
  mailboxes := []
  memberships := [⟨.literal "i", .literal "b", .literal "m", 1, 0, ⟨0, 1⟩, 0, true, none⟩]
  uidState := fun _ => none
  messages := fun messageId => if messageId = .literal "m" then some ⟨.literal "o", ⟨0, 1⟩⟩ else none
  headers := .empty
  flags := fun _ _ _ => none
  derived := []
  extractions := fun _ => none

def sampleState : ViewState := ⟨⟨.empty, .empty, fun _ => none, sampleTables⟩, []⟩

lemma sampleState_valid : Valid sampleRequest.accountId sampleState.session where
  unique := .nil
  uid_pos := by simp [sampleState, sampleTables]
  owner := by simp [sampleState, sampleTables]
  uidnext_le := by simp [sampleState, sampleTables]

def sampleUids (sha : Sha256) : UidState := ⟨1, generateUidvalidity sha (.literal "a") (.literal "v")⟩

lemma sample_open (sha : Sha256) : openView sha sampleRequest sampleState =
    .ok (⟨{ sampleState.session with tables := sampleTables.setUidState (.derivedView (.literal "v")) (sampleUids sha) },
      [⟨.literal "v", .literal "V", .literal "w", true, true⟩]⟩, sampleUids sha) := by
  have hpos := generateUidvalidity_pos sha (.literal "a") (.literal "v")
  have hinsert : sampleTables.insertUidState (.derivedView (.literal "v")) (sampleUids sha) =
      .ok (sampleTables.setUidState (.derivedView (.literal "v")) (sampleUids sha)) :=
    bind_eq_ok.mpr ⟨(), require_eq_ok.mpr ⟨le_refl 1, hpos⟩, rfl⟩
  have hselect : DerivedViewMaterializer.selectUidnext
      (sampleTables.setUidState (.derivedView (.literal "v")) (sampleUids sha)) (.literal "v") = .ok (sampleUids sha) :=
    bind_eq_ok.mpr ⟨(), validate_eq_ok.mpr (Nat.one_le_iff_ne_zero.mp hpos),
      bind_eq_ok.mpr ⟨(), validate_eq_ok.mpr (show 0 ≠ maxGuint64 ∧ 0 + 1 ≤ 1 by decide), rfl⟩⟩
  exact bind_eq_ok.mpr ⟨_, rfl, bind_eq_ok.mpr ⟨_, execute_eq_ok.mpr hinsert, bind_eq_ok.mpr ⟨_, hselect, rfl⟩⟩⟩

lemma sample_refresh (sha : Sha256) : ∃ state' changes,
    refresh sha sampleRequest .currentRule [⟨.literal "v", .literal "m"⟩] sampleState = .ok (state', changes) ∧
      changes.length = 1 :=
  ⟨_, _, bind_eq_ok.mpr ⟨(), by decide, bind_eq_ok.mpr ⟨_, sample_open sha,
    bind_eq_ok.mpr ⟨_, rfl, bind_eq_ok.mpr ⟨_, rfl, rfl⟩⟩⟩⟩, rfl⟩

theorem refresh_replay_agrees_sample : ∃ (state' : ViewState) (changes : List DerivedViewMembershipChanged)
    (s : Session), changes.length = 1 ∧
    changes.foldlM applyMembershipChange sampleState.session = .ok s ∧
    s.tables.derived.map shown = state'.session.tables.derived.map shown := by
  obtain ⟨state', changes, hrefresh, hone⟩ := sample_refresh JournalCrash.sha256
  obtain ⟨s, hreplay, hrows, -⟩ :=
    refresh_replay_agrees JournalCrash.sha256 sampleRequest .currentRule _ sampleState_valid hrefresh
  exact ⟨state', changes, s, hone, hreplay, hrows⟩

/-- A refresh of no messages creates the UID state of the view and reports nothing. -/
theorem empty_refresh_not_replayed :
    ¬∀ (sha : Sha256) (request : Request) (kind : RefreshKind) (memberships : List WirelogMembership)
      (state state' : ViewState) (changes : List DerivedViewMembershipChanged), Valid request.accountId state.session →
      refresh sha request kind memberships state = .ok (state', changes) →
        ∃ s, changes.foldlM applyMembershipChange state.session = .ok s ∧
          s.tables.derived.map shown = state'.session.tables.derived.map shown ∧
          s.tables.uidState (.derivedView request.viewId) =
            state'.session.tables.uidState (.derivedView request.viewId) := by
  intro hclaim
  have hrefresh : ∃ state', refresh JournalCrash.sha256 sampleRequest (.messages []) [] sampleState = .ok (state', []) ∧
      state'.session.tables.uidState (.derivedView (.literal "v")) ≠ none :=
    ⟨_, bind_eq_ok.mpr ⟨(), by decide, bind_eq_ok.mpr ⟨(), by decide, bind_eq_ok.mpr ⟨_, sample_open _,
      bind_eq_ok.mpr ⟨_, rfl, bind_eq_ok.mpr ⟨_, rfl, rfl⟩⟩⟩⟩⟩, nofun⟩
  obtain ⟨state', hrefresh, hstored⟩ := hrefresh
  obtain ⟨s, hreplay, -, huid⟩ := hclaim _ _ _ _ _ _ _ sampleState_valid hrefresh
  obtain rfl : sampleState.session = s := Except.ok.inj hreplay
  exact hstored huid.symm

end
end Wyrebox.DerivedViewAgreement
