import Wyrebox.DerivedViewUids

set_option autoImplicit false

/-!
# What a view shows after a refresh

A refresh of single messages shows of them what a refresh of the whole view shows and leaves every
other row alone.
-/
namespace Wyrebox.DerivedViewVisibility
open Catalog Event Fallible AccountRows DerivedViewMaterializer DerivedViewReplay DerivedViewAgreement DerivedViewUids
open Materializer hiding insertMembership selectUidnext
open JournalRecord (Sha256)

/-- The view shows the message under the rule version. -/
def Shows (t : AccountTables) (viewId messageId ruleVersionHash : CString) : Prop :=
  ∃ row ∈ t.derived, row.viewId = viewId ∧ row.messageId = messageId ∧ row.ruleVersionHash = ruleVersionHash ∧
    row.isVisible = true

section
variable {sha : Sha256} {request : Request} {uidvalidity : ℕ} {t t' : AccountTables} {p p' : Refreshing}
  {opened : UidState} {state state' : ViewState} {viewId messageId ruleVersionHash : CString}

/-! ## Rows that change what they show -/

lemma shows_setVisible {condition : DerivedMembership → Bool} {isVisible : Bool} {at' : ℕ} :
    Shows (setVisible t condition isVisible at') viewId messageId ruleVersionHash ↔
      ∃ row ∈ t.derived, row.viewId = viewId ∧ row.messageId = messageId ∧ row.ruleVersionHash = ruleVersionHash ∧
        (if condition row = true then isVisible else row.isVisible) = true := by
  constructor
  · rintro ⟨row', hrow', hkey⟩
    obtain ⟨row, hrow, rfl⟩ := List.mem_map.mp hrow'
    refine ⟨row, hrow, ?_⟩
    split <;> simp_all
  · rintro ⟨row, hrow, hkey⟩
    refine ⟨_, List.mem_map_of_mem hrow, ?_⟩
    split <;> simp_all

/-- Rows with another key show what they did. -/
lemma shows_setVisible_of_not {condition : DerivedMembership → Bool} {isVisible : Bool} {at' : ℕ}
    (h : ∀ row ∈ t.derived, row.viewId = viewId → row.messageId = messageId → row.ruleVersionHash = ruleVersionHash →
      condition row = false) :
    Shows (setVisible t condition isVisible at') viewId messageId ruleVersionHash ↔
      Shows t viewId messageId ruleVersionHash := by
  rw [shows_setVisible]
  constructor
  all_goals
    rintro ⟨row, hrow, hview, hmessage, hrule, hvisible⟩
    have hno := h row hrow hview hmessage hrule
    refine ⟨row, hrow, hview, hmessage, hrule, ?_⟩
    simpa [hno] using hvisible

lemma not_shows_setVisible {condition : DerivedMembership → Bool} {at' : ℕ}
    (h : ∀ row ∈ t.derived, row.viewId = viewId → row.messageId = messageId → row.ruleVersionHash = ruleVersionHash →
      row.isVisible = true → condition row = true) :
    ¬Shows (setVisible t condition false at') viewId messageId ruleVersionHash := by
  rw [shows_setVisible]
  rintro ⟨row, hrow, hview, hmessage, hrule, hvisible⟩
  split at hvisible
  · simp at hvisible
  · rename_i hno
    exact hno (h row hrow hview hmessage hrule hvisible)

/-- An inserted row shows its message. -/
lemma inserted_shows (h : Inserted sha request uidvalidity messageId p p') {other : CString} :
    Shows p'.session.tables request.viewId other ruleVersionHash ↔
      Shows p.session.tables request.viewId other ruleVersionHash ∨
        (other = messageId ∧ ruleVersionHash = request.ruleVersionHash) := by
  unfold Shows
  rw [h.tables]
  constructor
  · rintro ⟨row, hrow, hkey⟩
    rcases List.mem_append.mp hrow with hold | hnew
    · exact .inl ⟨row, hold, hkey⟩
    · rw [List.mem_singleton.mp hnew, h.row_eq] at hkey
      exact .inr ⟨hkey.2.1.symm, hkey.2.2.1.symm⟩
  · rintro (⟨row, hrow, hkey⟩ | ⟨rfl, rfl⟩)
    · exact ⟨row, List.mem_append_left _ hrow, hkey⟩
    · exact ⟨h.row, List.mem_append_right _ (List.mem_singleton_self _), by rw [h.row_eq]; exact ⟨rfl, rfl, rfl, rfl⟩⟩

lemma details_none (h : selectMembershipDetails request t messageId = .ok none) :
    ¬Shows t request.viewId messageId request.ruleVersionHash := by
  rintro ⟨row, hrow, hview, hmessage, hrule, -⟩
  have hmem : row ∈ t.derived.filter (fun row => inScope request row ∧ row.messageId = messageId) :=
    List.mem_filter.mpr ⟨hrow, decide_eq_true ⟨inScope_iff.mpr ⟨hview, hrule⟩, hmessage⟩⟩
  rw [selectMembershipDetails_eq_ok h] at hmem
  simp at hmem

lemma details_some {row : DerivedMembership} (h : selectMembershipDetails request t messageId = .ok (some row)) :
    Shows t request.viewId messageId request.ruleVersionHash ↔ row.isVisible = true := by
  obtain ⟨hrow, hscope, hmessage⟩ := mem_of_details h
  obtain ⟨hview, hrule⟩ := inScope_iff.mp hscope
  constructor
  · rintro ⟨other, hother, hview', hmessage', hrule', hvisible⟩
    have hmem : other ∈ t.derived.filter (fun row => inScope request row ∧ row.messageId = messageId) :=
      List.mem_filter.mpr ⟨hother, decide_eq_true ⟨inScope_iff.mpr ⟨hview', hrule'⟩, hmessage'⟩⟩
    rw [selectMembershipDetails_eq_ok h, Option.toList_some, List.mem_singleton] at hmem
    exact hmem ▸ hvisible
  · exact fun hvisible => ⟨row, hrow, hview, hmessage, hrule, hvisible⟩

/-! ## The whole view -/

lemma details_key {row : DerivedMembership} (h : inScope request row = true ∧ row.messageId = messageId) :
    row.viewId = request.viewId ∧ row.messageId = messageId ∧ row.ruleVersionHash = request.ruleVersionHash :=
  ⟨(inScope_iff.mp h.1).1, h.2, (inScope_iff.mp h.1).2⟩

/-- One member is shown under the rule version of the request, nothing else changes. -/
lemma refreshMembership_shows {hiddenBefore : List CString} {membership : WirelogMembership}
    (h : refreshMembership sha request uidvalidity hiddenBefore p membership = .ok p') :
    p'.session.tables.memberships = p.session.tables.memberships ∧
      (Shows p'.session.tables request.viewId messageId ruleVersionHash ↔
        Shows p.session.tables request.viewId messageId ruleVersionHash ∨
          (messageId = membership.messageId ∧ ruleVersionHash = request.ruleVersionHash)) := by
  unfold refreshMembership at h
  simp only [check_eq_ok] at h
  obtain ⟨-, -, -, h⟩ := h
  obtain ⟨found, hfound, h⟩ := bind_eq_ok.mp h
  cases found with
  | none =>
    obtain ⟨hi⟩ := insertMembership_inserted h
    exact ⟨by rw [hi.tables], inserted_shows hi⟩
  | some row =>
    dsimp only at h
    split at h
    · rename_i hvisible
      rw [← Except.ok.inj h]
      refine ⟨rfl, ⟨.inl, ?_⟩⟩
      rintro (hshows | ⟨rfl, rfl⟩)
      · exact hshows
      · exact (details_some hfound).mpr hvisible
    · set shownTables := setVisible p.session.tables
        (fun row => inScope request row ∧ row.messageId = membership.messageId) true request.materializedAtUnixUs
      have htables : p'.session.tables = shownTables := by
        rw [← Except.ok.inj h]
        split <;> rfl
      rw [htables]
      refine ⟨rfl, ?_⟩
      by_cases hkey : messageId = membership.messageId ∧ ruleVersionHash = request.ruleVersionHash
      · obtain ⟨rfl, rfl⟩ := hkey
        obtain ⟨hrow, hcondition⟩ := mem_of_details hfound
        obtain ⟨hview, hmessage, hrule⟩ := details_key hcondition
        refine ⟨fun _ => .inr ⟨rfl, rfl⟩, fun _ => shows_setVisible.mpr ⟨row, hrow, hview, hmessage, hrule, ?_⟩⟩
        rw [if_pos (decide_eq_true hcondition)]
      · rw [or_iff_left hkey]
        refine shows_setVisible_of_not fun row _ _ hmessage hrule => decide_eq_false fun hcondition => ?_
        obtain ⟨-, hmessage', hrule'⟩ := details_key hcondition
        exact hkey ⟨hmessage.symm.trans hmessage', hrule.symm.trans hrule'⟩

lemma refreshIncoming_shows {incoming hiddenBefore : List CString} {membership : WirelogMembership}
    (h : refreshIncoming sha request uidvalidity incoming hiddenBefore p membership = .ok p') :
    p'.session.tables.memberships = p.session.tables.memberships ∧
      (Shows p'.session.tables request.viewId messageId ruleVersionHash ↔
        Shows p.session.tables request.viewId messageId ruleVersionHash ∨
          (messageId = membership.messageId ∧ messageId ∈ incoming ∧ ruleVersionHash = request.ruleVersionHash)) := by
  unfold refreshIncoming at h
  split at h
  · rename_i hin
    obtain ⟨hmemberships, hshows⟩ := @refreshMembership_shows _ _ _ _ _ messageId ruleVersionHash _ _ h
    refine ⟨hmemberships, hshows.trans (or_congr_right ?_)⟩
    exact ⟨fun ⟨hmessage, hrule⟩ => ⟨hmessage, hmessage ▸ hin, hrule⟩, fun ⟨hmessage, _, hrule⟩ => ⟨hmessage, hrule⟩⟩
  · rename_i hout
    obtain ⟨-, -, heq⟩ := bind_eq_ok.mp h
    rw [← Except.ok.inj heq]
    exact ⟨rfl, .inl, fun hshows => hshows.resolve_right fun ⟨hmessage, hin, _⟩ => hout (hmessage ▸ hin)⟩

lemma refreshIncoming_loop_shows {incoming hiddenBefore : List CString} {memberships : List WirelogMembership}
    (h : memberships.foldlM (refreshIncoming sha request uidvalidity incoming hiddenBefore) p = .ok p') :
    p'.session.tables.memberships = p.session.tables.memberships ∧
      (Shows p'.session.tables request.viewId messageId ruleVersionHash ↔
        Shows p.session.tables request.viewId messageId ruleVersionHash ∨
          (messageId ∈ memberships.map WirelogMembership.messageId ∧ messageId ∈ incoming ∧
            ruleVersionHash = request.ruleVersionHash)) := by
  induction memberships generalizing p with
  | nil =>
    rw [← Except.ok.inj h]
    exact ⟨rfl, by simp⟩
  | cons membership memberships ih =>
    rw [List.foldlM_cons] at h
    obtain ⟨p₁, hstep, hrest⟩ := bind_eq_ok.mp h
    obtain ⟨hmemberships, hshows⟩ := @refreshIncoming_shows _ _ _ _ _ messageId ruleVersionHash _ _ _ hstep
    obtain ⟨hmemberships', hshows'⟩ := ih hrest
    refine ⟨hmemberships'.trans hmemberships, ?_⟩
    rw [hshows', hshows, List.map_cons, List.mem_cons, or_and_right, or_assoc]

lemma hideOtherRuleVersions_shows :
    Shows (hideOtherRuleVersions request uidvalidity p).session.tables request.viewId messageId ruleVersionHash ↔
      ruleVersionHash = request.ruleVersionHash ∧ Shows p.session.tables request.viewId messageId ruleVersionHash := by
  change Shows (setVisible p.session.tables (otherRuleVersion request) false request.materializedAtUnixUs) _ _ _ ↔ _
  by_cases hrule : ruleVersionHash = request.ruleVersionHash
  · subst hrule
    rw [and_iff_right rfl]
    exact shows_setVisible_of_not fun row _ _ _ hrule => by simp [otherRuleVersion, hrule]
  · refine iff_of_false (not_shows_setVisible fun row _ hview _ hrule' hvisible => ?_) fun hshows => hrule hshows.1
    simp [otherRuleVersion, hview, hrule', hrule, hvisible]

lemma updateUidnext_rows (h : updateUidnext request p = .ok p') :
    p'.session.tables.derived = p.session.tables.derived ∧
      p'.session.tables.memberships = p.session.tables.memberships := by
  simp only [DerivedViewMaterializer.updateUidnext, bind_eq_ok, execute_eq_ok] at h
  obtain ⟨t, hupdate, heq⟩ := h
  obtain ⟨uidState, rfl⟩ := RowFrames.updateUidnext_frame hupdate
  obtain rfl := Except.ok.inj heq
  exact ⟨rfl, rfl⟩

/-- The view shows the members with a visible ordinary membership, and what it showed under other
    rule versions unless they are hidden. -/
lemma refreshMemberships_shows {hideOthers : Bool} {memberships : List WirelogMembership}
    {changes : List DerivedViewMembershipChanged}
    (h : refreshMemberships sha request hideOthers memberships state = .ok (state', changes)) :
    state'.session.tables.memberships = state.session.tables.memberships ∧
      (Shows state'.session.tables request.viewId messageId ruleVersionHash ↔
        (ruleVersionHash = request.ruleVersionHash ∧ messageId ∈ memberships.map WirelogMembership.messageId ∧
            hasVisibleOrdinaryMembership state.session.tables messageId = true) ∨
          (ruleVersionHash ≠ request.ruleVersionHash ∧ hideOthers = false ∧
            Shows state.session.tables request.viewId messageId ruleVersionHash)) := by
  unfold refreshMemberships at h
  simp only [bind_eq_ok] at h
  obtain ⟨-, -, ⟨state₁, opened⟩, hopen, p, hloop, p', hupdate, heq⟩ := h
  obtain ⟨rfl, rfl⟩ := Prod.mk.inj (Except.ok.inj heq)
  obtain ⟨uidState, hsession⟩ := (openView_opened hopen).session
  obtain ⟨hmemberships, hshows⟩ := @refreshIncoming_loop_shows _ _ _ _ _ messageId ruleVersionHash _ _ _ hloop
  obtain ⟨hrows, hmemberships'⟩ := updateUidnext_rows hupdate
  have hstart : Shows (setVisible state₁.session.tables (inScope request) false request.materializedAtUnixUs)
      request.viewId messageId ruleVersionHash ↔ ruleVersionHash ≠ request.ruleVersionHash ∧
        Shows state.session.tables request.viewId messageId ruleVersionHash := by
    by_cases hrule : ruleVersionHash = request.ruleVersionHash
    · refine iff_of_false (not_shows_setVisible fun row _ hview _ hrule' _ => ?_) fun hshows => hshows.1 hrule
      exact inScope_iff.mpr ⟨hview, hrule'.trans hrule⟩
    · rw [and_iff_right hrule, shows_setVisible_of_not, hsession]
      · rfl
      · exact fun row _ _ _ hrule' => by simp [inScope, hrule', hrule]
  have hincoming : messageId ∈ memberships.map WirelogMembership.messageId ∧
      messageId ∈ retainOrdinarilyVisible state.session.tables memberships ∧
      ruleVersionHash = request.ruleVersionHash ↔ ruleVersionHash = request.ruleVersionHash ∧
      messageId ∈ memberships.map WirelogMembership.messageId ∧
      hasVisibleOrdinaryMembership state.session.tables messageId = true := by
    rw [retainOrdinarilyVisible, List.mem_filter]
    exact ⟨fun h => ⟨h.2.2, h.1, h.2.1.2⟩, fun h => ⟨h.2.1, ⟨h.2.1, h.2.2⟩, h.1⟩⟩
  have hended : Shows p'.session.tables request.viewId messageId ruleVersionHash ↔
      (ruleVersionHash ≠ request.ruleVersionHash ∧ Shows state.session.tables request.viewId messageId ruleVersionHash) ∨
        (ruleVersionHash = request.ruleVersionHash ∧ messageId ∈ memberships.map WirelogMembership.messageId ∧
          hasVisibleOrdinaryMembership state.session.tables messageId = true) := by
    rw [← hincoming, ← hstart, ← hshows, Shows, hrows]
    rfl
  have hkept : p'.session.tables.memberships = state.session.tables.memberships := by
    rw [hmemberships', hmemberships, setVisible, hsession]
  cases hideOthers with
  | false =>
    refine ⟨hkept, ?_⟩
    change Shows p'.session.tables _ _ _ ↔ _
    rw [hended, or_comm, and_iff_right rfl]
  | true =>
    refine ⟨hkept, ?_⟩
    change Shows (hideOtherRuleVersions request opened.uidvalidity p').session.tables _ _ _ ↔ _
    rw [hideOtherRuleVersions_shows, hended]
    constructor
    · rintro ⟨hrule, ⟨hne, -⟩ | hmember⟩
      · exact absurd hrule hne
      · exact .inl hmember
    · rintro (hmember | ⟨-, hfalse, -⟩)
      · exact ⟨hmember.1, .inr hmember⟩
      · simp at hfalse

/-! ## Single messages -/

/-- The row is of another view or of a message that is not listed. -/
def outside (request : Request) (messageIds : List CString) (row : DerivedMembership) : Bool :=
  ¬(row.viewId = request.viewId ∧ row.messageId ∈ messageIds)

lemma filter_setVisible {messageIds : List CString} {condition : DerivedMembership → Bool} {isVisible : Bool} {at' : ℕ}
    (h : ∀ row, condition row = true → outside request messageIds row = false) :
    (setVisible t condition isVisible at').derived.filter (outside request messageIds) =
      t.derived.filter (outside request messageIds) := by
  have hkeys : outside request messageIds ∘ (fun row : DerivedMembership =>
      if condition row = true then { row with isVisible := isVisible, materializedAtUnixUs := at' } else row) =
      outside request messageIds := by
    funext row
    rw [Function.comp_apply]
    split <;> rfl
  change (t.derived.map _).filter _ = _
  rw [List.filter_map, hkeys]
  refine (List.map_congr_left fun row hrow => ?_).trans (List.map_id _)
  rw [if_neg]
  · rfl
  · intro hcondition
    have hout := (List.mem_filter.mp hrow).2
    rw [h row hcondition] at hout
    simp at hout

/-- Rows that were left alone show what they did. -/
lemma shows_of_filter {messageIds : List CString}
    (h : t'.derived.filter (outside request messageIds) = t.derived.filter (outside request messageIds))
    (hout : messageId ∉ messageIds) :
    Shows t' request.viewId messageId ruleVersionHash ↔ Shows t request.viewId messageId ruleVersionHash := by
  have hkept : ∀ {s s' : AccountTables}, s.derived.filter (outside request messageIds) =
      s'.derived.filter (outside request messageIds) → Shows s request.viewId messageId ruleVersionHash →
      Shows s' request.viewId messageId ruleVersionHash := by
    rintro s s' heq ⟨row, hrow, hview, hmessage, hshown⟩
    have hmem : row ∈ s.derived.filter (outside request messageIds) :=
      List.mem_filter.mpr ⟨hrow, by simp [outside, hmessage, hout]⟩
    rw [heq] at hmem
    exact ⟨row, (List.mem_filter.mp hmem).1, hview, hmessage, hshown⟩
  exact ⟨hkept h, hkept h.symm⟩

/-- What the refresh of the listed messages did. -/
structure Listed (request : Request) (messageIds : List CString) (isMember : CString → Bool) (p p' : Refreshing) :
    Prop where
  valid : Valid request.accountId p'.session
  memberships : p'.session.tables.memberships = p.session.tables.memberships
  shows_iff : ∀ messageId ∈ messageIds, ∀ ruleVersionHash,
    Shows p'.session.tables request.viewId messageId ruleVersionHash ↔
      ruleVersionHash = request.ruleVersionHash ∧ isMember messageId = true
  untouched : p'.session.tables.derived.filter (outside request messageIds) =
    p.session.tables.derived.filter (outside request messageIds)

lemma hideMessageOtherRuleVersions_tables (hvalid : Valid request.accountId p.session) :
    (hideMessageOtherRuleVersions request uidvalidity messageId p).session = { p.session with
      tables := setVisible p.session.tables
        (fun row => otherRuleVersion request row ∧ row.messageId = messageId) false request.materializedAtUnixUs } := by
  rw [hideMessageOtherRuleVersions, hideRows_eq]
  refine congrArg (fun t => ({ p.session with tables := t } : Session)) (Eq.symm ?_)
  refine setVisible_eq hvalid.unique (fun row => ?_) false request.materializedAtUnixUs
  rw [orderedByUid, List.mem_insertionSort, List.mem_filter]

/-- The row found for a message is the only one it has in the view under the rule version. -/
lemma updateDerivedRow_eq {row : DerivedMembership} {isVisible : Bool} {at' : ℕ}
    (hunique : t.derived.Pairwise fun row other => derivedConflict row other = false)
    (h : selectMembershipDetails request t messageId = .ok (some row)) :
    updateDerivedRow t row.membershipId isVisible at' =
      setVisible t (fun row => inScope request row ∧ row.messageId = messageId) isVisible at' := by
  have hrows : ∀ other, other ∈ [row] ↔ other ∈ t.derived ∧
      decide (inScope request other = true ∧ other.messageId = messageId) = true := by
    intro other
    rw [← Option.toList_some, ← selectMembershipDetails_eq_ok h, List.mem_filter]
  rw [setVisible_eq hunique hrows]
  simp [setVisible, updateDerivedRow]

lemma refreshMessage_listed {isMember : Bool} (hvalid : Valid request.accountId p.session)
    (h : refreshMessage sha request uidvalidity isMember p messageId = .ok p') :
    Listed request [messageId] (fun _ => isMember) p p' := by
  unfold refreshMessage at h
  have hsession := @hideMessageOtherRuleVersions_tables _ uidvalidity _ messageId hvalid
  generalize hideMessageOtherRuleVersions request uidvalidity messageId p = p₁ at hsession h
  have hout : ∀ row : DerivedMembership, row.viewId = request.viewId → row.messageId = messageId →
      outside request [messageId] row = false := by
    rintro row hview rfl
    simp [outside, hview]
  have hvalid₁ : Valid request.accountId p₁.session := by
    rw [hsession]
    exact hvalid.map fun row => sameIdentity_ite _ row _ _
  have hmemberships : p₁.session.tables.memberships = p.session.tables.memberships := by rw [hsession, setVisible]
  have huntouched : p₁.session.tables.derived.filter (outside request [messageId]) =
      p.session.tables.derived.filter (outside request [messageId]) := by
    rw [hsession]
    refine filter_setVisible fun row hcondition => ?_
    rw [decide_eq_true_eq, otherRuleVersion, decide_eq_true_eq] at hcondition
    exact hout row hcondition.1.1 hcondition.2
  have hothers : ∀ ruleVersionHash, ruleVersionHash ≠ request.ruleVersionHash →
      ¬Shows p₁.session.tables request.viewId messageId ruleVersionHash := by
    intro ruleVersionHash hne
    rw [hsession]
    refine not_shows_setVisible fun row _ hview hmessage hrule hvisible => ?_
    simp [otherRuleVersion, hview, hmessage, hrule, hne, hvisible]
  obtain ⟨found, hfound, h⟩ := bind_eq_ok.mp h
  cases found with
  | some row =>
    dsimp only at h
    split at h
    · rename_i hsame
      rw [← Except.ok.inj h]
      refine ⟨hvalid₁, hmemberships, fun _ hmem ruleVersionHash => ?_, huntouched⟩
      obtain rfl := List.mem_singleton.mp hmem
      by_cases hrule : ruleVersionHash = request.ruleVersionHash
      · rw [hrule, details_some hfound, hsame, and_iff_right rfl]
      · exact iff_of_false (hothers _ hrule) fun hkey => hrule hkey.1
    · rename_i hne
      have htables : p'.session = { p₁.session with
          tables := setVisible p₁.session.tables
            (fun row => inScope request row ∧ row.messageId = messageId) isMember request.materializedAtUnixUs } := by
        rw [← Except.ok.inj h, ← updateDerivedRow_eq hvalid₁.unique hfound]
        rfl
      refine ⟨?_, ?_, fun _ hmem ruleVersionHash => ?_, ?_⟩
      · rw [htables]
        exact hvalid₁.map fun row => sameIdentity_ite _ row _ _
      · rw [htables, setVisible, hmemberships]
      · obtain rfl := List.mem_singleton.mp hmem
        rw [htables]
        by_cases hrule : ruleVersionHash = request.ruleVersionHash
        · subst hrule
          rw [and_iff_right rfl]
          obtain ⟨hrow, hcondition⟩ := mem_of_details hfound
          obtain ⟨hview, hmessage, hrule⟩ := details_key hcondition
          cases isMember with
          | true =>
            refine iff_of_true (shows_setVisible.mpr ⟨row, hrow, hview, hmessage, hrule, ?_⟩) rfl
            rw [if_pos (decide_eq_true hcondition)]
          | false =>
            refine iff_of_false (not_shows_setVisible fun other _ hview' hmessage' hrule' _ => ?_) (by simp)
            exact decide_eq_true ⟨inScope_iff.mpr ⟨hview', hrule'⟩, hmessage'⟩
        · refine iff_of_false ?_ fun hkey => hrule hkey.1
          rw [shows_setVisible_of_not]
          · exact hothers _ hrule
          · exact fun other _ _ _ hrule' => by simp [inScope, hrule', hrule]
      · rw [htables, ← huntouched]
        refine filter_setVisible fun other hcondition => ?_
        obtain ⟨hview, hmessage, -⟩ := details_key (of_decide_eq_true hcondition)
        exact hout other hview hmessage
  | none =>
    dsimp only at h
    split at h
    · rename_i hmember
      obtain ⟨-, -, hinsert⟩ := bind_eq_ok.mp h
      obtain ⟨hi⟩ := insertMembership_inserted hinsert
      refine ⟨hi.valid hvalid₁, by rw [hi.tables, hmemberships], fun _ hmem ruleVersionHash => ?_, ?_⟩
      · obtain rfl := List.mem_singleton.mp hmem
        rw [inserted_shows hi, and_iff_left hmember, and_iff_right rfl]
        refine or_iff_right_of_imp fun hshows => ?_
        by_contra hne
        exact hothers _ hne hshows
      · rw [hi.tables, List.filter_append, huntouched, List.filter_singleton, hi.row_eq, hout _ rfl rfl]
        simp
    · rename_i hno
      rw [← Except.ok.inj h]
      refine ⟨hvalid₁, hmemberships, fun _ hmem ruleVersionHash => ?_, huntouched⟩
      obtain rfl := List.mem_singleton.mp hmem
      refine iff_of_false (fun hshows => ?_) fun hkey => hno hkey.2
      by_cases hrule : ruleVersionHash = request.ruleVersionHash
      · exact details_none hfound (hrule ▸ hshows)
      · exact hothers _ hrule hshows

lemma outside_cons {messageIds : List CString} (row : DerivedMembership) :
    outside request (messageId :: messageIds) row = (outside request messageIds row && outside request [messageId] row) := by
  unfold outside
  by_cases hview : row.viewId = request.viewId <;> by_cases hmessage : row.messageId = messageId <;> simp [hview, hmessage]

/-- The listed messages are refreshed one after the other. -/
lemma Listed.cons {messageIds : List CString} {isMember : CString → Bool} {p₁ : Refreshing}
    (h : Listed request [messageId] isMember p p₁) (h' : Listed request messageIds isMember p₁ p') :
    Listed request (messageId :: messageIds) isMember p p' where
  valid := h'.valid
  memberships := h'.memberships.trans h.memberships
  shows_iff := by
    intro other hmem ruleVersionHash
    by_cases hlater : other ∈ messageIds
    · exact h'.shows_iff other hlater ruleVersionHash
    · obtain rfl : other = messageId := (List.mem_cons.mp hmem).resolve_right hlater
      rw [shows_of_filter h'.untouched hlater]
      exact h.shows_iff other (List.mem_singleton_self _) ruleVersionHash
  untouched := by
    have hboth : ∀ rows : List DerivedMembership, rows.filter (outside request (messageId :: messageIds)) =
        (rows.filter (outside request messageIds)).filter (outside request [messageId]) := by
      intro rows
      rw [List.filter_filter]
      exact List.filter_congr fun row _ => by rw [outside_cons, Bool.and_comm]
    have hcomm : ∀ rows : List DerivedMembership,
        (rows.filter (outside request messageIds)).filter (outside request [messageId]) =
        (rows.filter (outside request [messageId])).filter (outside request messageIds) := by
      intro rows
      rw [List.filter_filter, List.filter_filter]
      exact List.filter_congr fun row _ => Bool.and_comm _ _
    rw [hboth, hboth, h'.untouched, hcomm, hcomm, h.untouched]

lemma refreshListed_loop_listed {members messageIds : List CString} {isMember : CString → Bool}
    (hvalid : Valid request.accountId p.session)
    (hmember : ∀ messageId, isMember messageId =
      decide (messageId ∈ members ∧ hasVisibleOrdinaryMembership p.session.tables messageId = true))
    (h : messageIds.foldlM (refreshListed sha request uidvalidity members) p = .ok p') :
    Listed request messageIds isMember p p' := by
  induction messageIds generalizing p with
  | nil =>
    rw [← Except.ok.inj h]
    exact ⟨hvalid, rfl, by simp, rfl⟩
  | cons messageId messageIds ih =>
    rw [List.foldlM_cons] at h
    obtain ⟨p₁, hstep, hrest⟩ := bind_eq_ok.mp h
    obtain ⟨-, hstep⟩ := check_eq_ok.mp hstep
    have hfirst := refreshMessage_listed hvalid hstep
    have hlisted : Listed request [messageId] isMember p p₁ := by
      refine { hfirst with shows_iff := fun other hmem ruleVersionHash => ?_ }
      rw [hfirst.shows_iff other hmem, List.mem_singleton.mp hmem, hmember]
    refine hlisted.cons (ih hlisted.valid (fun other => ?_) hrest)
    rw [hmember, hasVisibleOrdinaryMembership, hasVisibleOrdinaryMembership, hlisted.memberships]

/-- The view shows a listed message when it is a member with a visible ordinary membership. -/
lemma refreshMessageMemberships_listed {messageIds : List CString} {memberships : List WirelogMembership}
    {changes : List DerivedViewMembershipChanged} (hvalid : Valid request.accountId state.session)
    (h : refreshMessageMemberships sha request messageIds memberships state = .ok (state', changes)) :
    state'.session.tables.memberships = state.session.tables.memberships ∧
    (∀ messageId ∈ messageIds, ∀ ruleVersionHash,
      Shows state'.session.tables request.viewId messageId ruleVersionHash ↔
        ruleVersionHash = request.ruleVersionHash ∧ messageId ∈ memberships.map WirelogMembership.messageId ∧
          hasVisibleOrdinaryMembership state.session.tables messageId = true) ∧
    state'.session.tables.derived.filter (outside request messageIds) =
      state.session.tables.derived.filter (outside request messageIds) := by
  unfold refreshMessageMemberships at h
  simp only [bind_eq_ok] at h
  obtain ⟨-, -, -, -, ⟨state₁, opened⟩, hopen, p, hloop, p', hupdate, heq⟩ := h
  obtain ⟨rfl, rfl⟩ := Prod.mk.inj (Except.ok.inj heq)
  have hopened := openView_opened hopen
  have hlisted := refreshListed_loop_listed (hopened.valid hvalid) (fun _ => rfl) hloop
  obtain ⟨uidState, hsession⟩ := hopened.session
  obtain ⟨hrows, hmemberships⟩ := updateUidnext_rows hupdate
  refine ⟨?_, fun messageId hmem ruleVersionHash => ?_, ?_⟩
  · rw [hmemberships, hlisted.memberships, hsession]
  · rw [Shows, hrows]
    refine (hlisted.shows_iff messageId hmem ruleVersionHash).trans ?_
    rw [decide_eq_true_eq, hsession]
    rfl
  · rw [hrows, hlisted.untouched, hsession]

/-! ## Agreement -/

lemma whole_shows {kind : RefreshKind} {memberships : List WirelogMembership} {changes : List DerivedViewMembershipChanged}
    (hkind : kind = .view ∨ kind = .currentRule) (h : refresh sha request kind memberships state = .ok (state', changes)) :
    state'.session.tables.memberships = state.session.tables.memberships ∧
      ∀ messageId ruleVersionHash, kind = .currentRule ∨ ruleVersionHash = request.ruleVersionHash →
        (Shows state'.session.tables request.viewId messageId ruleVersionHash ↔
          ruleVersionHash = request.ruleVersionHash ∧ messageId ∈ memberships.map WirelogMembership.messageId ∧
            hasVisibleOrdinaryMembership state.session.tables messageId = true) := by
  obtain ⟨hideOthers, hrefresh, hothers⟩ : ∃ hideOthers,
      refreshMemberships sha request hideOthers memberships state = .ok (state', changes) ∧
      (kind = .currentRule → hideOthers = true) := by
    rcases hkind with rfl | rfl
    · exact ⟨false, h, nofun⟩
    · exact ⟨true, h, fun _ => rfl⟩
  refine ⟨(@refreshMemberships_shows _ _ _ _ .empty .empty _ _ _ hrefresh).1,
    fun messageId ruleVersionHash hkept => ?_⟩
  rw [(refreshMemberships_shows hrefresh).2]
  refine or_iff_left fun hold => ?_
  rcases hkept with hcurrent | hrule
  · rw [hothers hcurrent] at hold
    simp at hold
  · exact hold.1 hrule

/-- A refresh of listed messages shows of them what a refresh of the whole view under the current
    rule version shows, and what a plain refresh of the view shows under the rule version of the
    request. It leaves all other rows alone. What either of them shows has a visible ordinary
    membership. -/
theorem message_refresh_agrees (sha : Sha256) (request : Request) (messageIds : List CString)
    (memberships : List WirelogMembership) {kind : RefreshKind} {state listed whole : ViewState}
    {changes changes' : List DerivedViewMembershipChanged} (hvalid : Valid request.accountId state.session)
    (hkind : kind = .view ∨ kind = .currentRule)
    (hlisted : refresh sha request (.messages messageIds)
      (memberships.filter fun membership => membership.messageId ∈ messageIds) state = .ok (listed, changes))
    (hwhole : refresh sha request kind memberships state = .ok (whole, changes')) :
    (∀ messageId ∈ messageIds, ∀ ruleVersionHash,
      kind = .currentRule ∨ ruleVersionHash = request.ruleVersionHash →
        (Shows listed.session.tables request.viewId messageId ruleVersionHash ↔
          Shows whole.session.tables request.viewId messageId ruleVersionHash)) ∧
    listed.session.tables.derived.filter (outside request messageIds) =
      state.session.tables.derived.filter (outside request messageIds) ∧
    (∀ row ∈ listed.session.tables.derived, row.viewId = request.viewId → row.messageId ∈ messageIds →
      row.isVisible = true → hasVisibleOrdinaryMembership listed.session.tables row.messageId = true) ∧
    ∀ row ∈ whole.session.tables.derived, row.viewId = request.viewId →
      kind = .currentRule ∨ row.ruleVersionHash = request.ruleVersionHash →
        row.isVisible = true → hasVisibleOrdinaryMembership whole.session.tables row.messageId = true := by
  obtain ⟨hordinary, hshows, huntouched⟩ := refreshMessageMemberships_listed hvalid hlisted
  obtain ⟨hordinary', hshows'⟩ := whole_shows hkind hwhole
  refine ⟨fun messageId hmem ruleVersionHash hrule => ?_, huntouched, fun row hrow hview hmem hvisible => ?_,
    fun row hrow hview hrule hvisible => ?_⟩
  · rw [hshows messageId hmem, hshows' messageId ruleVersionHash hrule]
    have hmember : messageId ∈ (memberships.filter fun membership => membership.messageId ∈ messageIds).map
        WirelogMembership.messageId ↔ messageId ∈ memberships.map WirelogMembership.messageId := by
      constructor
      · intro h
        obtain ⟨membership, hfound, rfl⟩ := List.mem_map.mp h
        exact List.mem_map_of_mem (List.mem_filter.mp hfound).1
      · intro h
        obtain ⟨membership, hfound, rfl⟩ := List.mem_map.mp h
        exact List.mem_map_of_mem (List.mem_filter.mpr ⟨hfound, decide_eq_true hmem⟩)
    rw [hmember]
  · have h := ((hshows row.messageId hmem row.ruleVersionHash).mp ⟨row, hrow, hview, rfl, rfl, hvisible⟩).2.2
    rwa [hasVisibleOrdinaryMembership, hordinary]
  · have h := ((hshows' row.messageId row.ruleVersionHash hrule).mp ⟨row, hrow, hview, rfl, rfl, hvisible⟩).2.2
    rwa [hasVisibleOrdinaryMembership, hordinary']

lemma sample_listed (sha : Sha256) : ∃ listed changes,
    refresh sha sampleRequest (.messages [.literal "m"])
      ([⟨.literal "v", .literal "m"⟩].filter fun membership => membership.messageId ∈ [CString.literal "m"])
      (sampleView sha (sampleId sha) false) = .ok (listed, changes) :=
  ⟨_, _, bind_eq_ok.mpr ⟨(), by decide, bind_eq_ok.mpr ⟨(), by decide, bind_eq_ok.mpr ⟨_, sampleView_open sha (sampleId sha) false,
    bind_eq_ok.mpr ⟨_, rfl, bind_eq_ok.mpr ⟨_, rfl, rfl⟩⟩⟩⟩⟩⟩

theorem message_refresh_agrees_sample : ∃ listed : ViewState,
    Shows listed.session.tables (.literal "v") (.literal "m") (.literal "r") := by
  obtain ⟨listed, changes, hlisted⟩ := sample_listed JournalCrash.sha256
  obtain ⟨_, hwhole⟩ := sample_returns JournalCrash.sha256
  have hvalid := sampleView_valid JournalCrash.sha256 (sampleId JournalCrash.sha256) false
  obtain ⟨hagrees, -⟩ := message_refresh_agrees JournalCrash.sha256 sampleRequest [.literal "m"]
    [⟨.literal "v", .literal "m"⟩] hvalid (.inl rfl) hlisted hwhole
  refine ⟨listed, (hagrees _ (List.mem_singleton_self _) _ (.inr rfl)).mpr ?_⟩
  exact ⟨_, List.mem_singleton_self _, rfl, rfl, rfl, rfl⟩

lemma sampleOther_open (sha : Sha256) : openView sha { sampleRequest with ruleVersionHash := .literal "q" }
    (sampleView sha (.literal "i") true) = .ok (sampleView sha (.literal "i") true, ⟨2, generateUidvalidity sha (.literal "a") (.literal "v")⟩) :=
  sampleView_open sha (.literal "i") true

lemma sampleOther_listed (sha : Sha256) : ∃ listed changes,
    refresh sha { sampleRequest with ruleVersionHash := .literal "q" } (.messages [.literal "m"]) []
      (sampleView sha (.literal "i") true) = .ok (listed, changes) ∧
    listed.session.tables.derived = (sampleView sha (.literal "i") false).session.tables.derived := by
  refine ⟨_, _, bind_eq_ok.mpr ⟨(), by decide, bind_eq_ok.mpr ⟨(), by decide, bind_eq_ok.mpr ⟨_, sampleOther_open sha,
    bind_eq_ok.mpr ⟨_, rfl, bind_eq_ok.mpr ⟨_, rfl, rfl⟩⟩⟩⟩⟩, ?_⟩
  rfl

lemma sampleOther_whole (sha : Sha256) : ∃ whole changes,
    refresh sha { sampleRequest with ruleVersionHash := .literal "q" } .view [] (sampleView sha (.literal "i") true) =
      .ok (whole, changes) ∧
    whole.session.tables.derived = (sampleView sha (.literal "i") true).session.tables.derived :=
  ⟨_, _, bind_eq_ok.mpr ⟨(), by decide, bind_eq_ok.mpr ⟨_, sampleOther_open sha,
    bind_eq_ok.mpr ⟨_, rfl, bind_eq_ok.mpr ⟨_, rfl, rfl⟩⟩⟩⟩, rfl⟩

/-- A plain refresh of the view leaves what another rule version shows; the refresh of a message
    hides it. -/
theorem plain_refresh_disagrees :
    ¬∀ (sha : Sha256) (request : Request) (messageIds : List CString) (memberships : List WirelogMembership)
      (kind : RefreshKind) (state listed whole : ViewState) (changes changes' : List DerivedViewMembershipChanged),
      Valid request.accountId state.session → kind = .view ∨ kind = .currentRule →
      refresh sha request (.messages messageIds)
        (memberships.filter fun membership => membership.messageId ∈ messageIds) state = .ok (listed, changes) →
      refresh sha request kind memberships state = .ok (whole, changes') →
      ∀ messageId ∈ messageIds, ∀ ruleVersionHash,
        Shows listed.session.tables request.viewId messageId ruleVersionHash ↔
          Shows whole.session.tables request.viewId messageId ruleVersionHash := by
  intro hclaim
  have hvalid := sampleView_valid JournalCrash.sha256 (.literal "i") true
  obtain ⟨listed, changes, hlisted, hhidden⟩ := sampleOther_listed JournalCrash.sha256
  obtain ⟨whole, changes', hwhole, hsame⟩ := sampleOther_whole JournalCrash.sha256
  have hiff := hclaim JournalCrash.sha256 { sampleRequest with ruleVersionHash := .literal "q" } [.literal "m"] [] .view
    _ _ _ _ _ hvalid (.inl rfl) hlisted hwhole (.literal "m") (List.mem_singleton_self _) (.literal "r")
  have hshown : Shows whole.session.tables (.literal "v") (.literal "m") (.literal "r") := by
    rw [Shows, hsame]
    exact ⟨_, List.mem_singleton_self _, rfl, rfl, rfl, rfl⟩
  obtain ⟨row, hrow, -, -, -, hvisible⟩ := hiff.mpr hshown
  rw [hhidden] at hrow
  rw [List.mem_singleton.mp hrow] at hvisible
  simp at hvisible

end
end Wyrebox.DerivedViewVisibility
