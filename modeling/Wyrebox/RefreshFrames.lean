import Wyrebox.DerivedViewVisibility

set_option autoImplicit false

/-!
# What a refresh leaves alone

A refresh writes rows of views, their owners and the UID state of its own view.
-/
namespace Wyrebox.RefreshFrames
open Catalog Event Fallible AccountRows
open DerivedViewMaterializer DerivedViewReplay DerivedViewAgreement DerivedViewUids DerivedViewVisibility
open Materializer hiding insertMembership selectUidnext
open JournalRecord (Sha256)

/-- What the statements of a refresh may do. A new row is one of the view and of the rule version
    of the request. -/
structure Refreshed (request : Request) (s s' : Session) : Prop where
  frame : ∃ derivedOwner derived uidState, s' = { s with
    derivedOwner := derivedOwner
    tables := { s.tables with derived := derived, uidState := uidState } }
  owner : s.derivedOwner.Within s'.derivedOwner
  kept : ∀ row ∈ s.tables.derived, ∃ row' ∈ s'.tables.derived, SameIdentity row row'
  rows : ∀ row' ∈ s'.tables.derived, (∃ row ∈ s.tables.derived, SameIdentity row row') ∨
    (row'.viewId = request.viewId ∧ row'.ruleVersionHash = request.ruleVersionHash)
  others : ∀ ns, ns ≠ .derivedView request.viewId → s'.tables.uidState ns = s.tables.uidState ns

section
variable {sha : Sha256} {request : Request} {uidvalidity : ℕ} {s s' s'' : Session} {t t' : AccountTables}
  {p p' : Refreshing} {state state' : ViewState} {messageId : CString}

lemma Refreshed.refl (s : Session) : Refreshed request s s where
  frame := ⟨s.derivedOwner, s.tables.derived, s.tables.uidState, rfl⟩
  owner := .refl _
  kept := fun row hrow => ⟨row, hrow, sameIdentity_refl row⟩
  rows := fun row hrow => .inl ⟨row, hrow, sameIdentity_refl row⟩
  others := fun _ _ => rfl

lemma Refreshed.trans (h : Refreshed request s s') (h' : Refreshed request s' s'') : Refreshed request s s'' where
  frame := by
    obtain ⟨derivedOwner, derived, uidState, rfl⟩ := h.frame
    obtain ⟨derivedOwner', derived', uidState', rfl⟩ := h'.frame
    exact ⟨derivedOwner', derived', uidState', rfl⟩
  owner := h.owner.trans h'.owner
  kept := by
    intro row hrow
    obtain ⟨row', hrow', hsame⟩ := h.kept row hrow
    obtain ⟨row'', hrow'', hsame'⟩ := h'.kept row' hrow'
    exact ⟨row'', hrow'', sameIdentity_trans hsame hsame'⟩
  rows := by
    intro row'' hrow''
    rcases h'.rows row'' hrow'' with ⟨row', hrow', hsame'⟩ | hnew
    · rcases h.rows row' hrow' with ⟨row, hrow, hsame⟩ | ⟨hview, hrule⟩
      · exact .inl ⟨row, hrow, sameIdentity_trans hsame hsame'⟩
      · exact .inr ⟨hsame'.2.1.trans hview, hsame'.2.2.2.2.trans hrule⟩
    · exact .inr hnew
  others := fun ns hns => (h'.others ns hns).trans (h.others ns hns)

lemma refreshed_foldlM {α ε : Type} {f : Refreshing → α → Except ε Refreshing} {l : List α}
    (hf : ∀ a ∈ l, ∀ p p', f p a = .ok p' → Refreshed request p.session p'.session) (h : l.foldlM f p = .ok p') :
    Refreshed request p.session p'.session := by
  induction l generalizing p with
  | nil =>
    rw [← Except.ok.inj h]
    exact .refl _
  | cons a l ih =>
    rw [List.foldlM_cons, bind_eq_ok] at h
    obtain ⟨p₁, hfirst, hrest⟩ := h
    exact (hf a List.mem_cons_self p p₁ hfirst).trans (ih (fun b hb => hf b (List.mem_cons_of_mem _ hb)) hrest)

/-! ## Single statements -/

/-- Rows that change what they show keep who they are. -/
lemma setVisible_refreshed {condition : DerivedMembership → Bool} {isVisible : Bool} {at' : ℕ} :
    Refreshed request s { s with tables := setVisible s.tables condition isVisible at' } where
  frame := ⟨s.derivedOwner, _, s.tables.uidState, rfl⟩
  owner := .refl _
  kept := fun row hrow => ⟨_, List.mem_map_of_mem hrow, sameIdentity_ite _ row _ _⟩
  rows := by
    intro row' hrow'
    obtain ⟨row, hrow, rfl⟩ := List.mem_map.mp hrow'
    exact .inl ⟨row, hrow, sameIdentity_ite _ row _ _⟩
  others := fun _ _ => rfl

lemma updateDerivedRow_refreshed {membershipId : CString} {isVisible : Bool} {at' : ℕ} :
    Refreshed request s { s with tables := updateDerivedRow s.tables membershipId isVisible at' } := by
  have hsame : updateDerivedRow s.tables membershipId isVisible at' =
      setVisible s.tables (fun row => row.membershipId = membershipId) isVisible at' := by
    simp [updateDerivedRow, setVisible]
  rw [hsame]
  exact setVisible_refreshed

lemma insertMembership_refreshed (h : insertMembership sha request uidvalidity p messageId = .ok p') :
    Refreshed request p.session p'.session := by
  unfold insertMembership at h
  dsimp only at h
  split at h
  · simp at h
  · rename_i derivedOwner hregister
    obtain ⟨t, hinsert, heq⟩ := bind_eq_ok.mp h
    obtain ⟨-, rfl⟩ := insertDerivedRow_eq_ok (execute_eq_ok.mp hinsert)
    obtain rfl := Except.ok.inj heq
    refine ⟨⟨derivedOwner, _, p.session.tables.uidState, rfl⟩, (Registry.register_eq_some hregister).2.1,
      fun row hrow => ⟨row, List.mem_append_left _ hrow, sameIdentity_refl row⟩, fun row' hrow' => ?_, fun _ _ => rfl⟩
    rcases List.mem_append.mp hrow' with hold | hnew
    · exact .inl ⟨row', hold, sameIdentity_refl row'⟩
    · rw [List.mem_singleton.mp hnew]
      exact .inr ⟨rfl, rfl⟩

lemma updateUidnext_refreshed (h : updateUidnext request p = .ok p') : Refreshed request p.session p'.session := by
  simp only [DerivedViewMaterializer.updateUidnext, bind_eq_ok, execute_eq_ok] at h
  obtain ⟨t, hupdate, heq⟩ := h
  obtain rfl := Except.ok.inj heq
  unfold AccountTables.updateUidnext at hupdate
  split at hupdate
  · obtain rfl := Except.ok.inj hupdate
    exact .refl _
  · simp only [bind_eq_ok] at hupdate
    obtain ⟨-, -, heq⟩ := hupdate
    obtain rfl := Except.ok.inj heq
    exact ⟨⟨p.session.derivedOwner, p.session.tables.derived, _, rfl⟩, .refl _,
      fun row hrow => ⟨row, hrow, sameIdentity_refl row⟩, fun row hrow => .inl ⟨row, hrow, sameIdentity_refl row⟩,
      fun ns hns => Function.update_of_ne hns ..⟩

lemma hideRows_refreshed {rows : List DerivedMembership} :
    Refreshed request p.session (hideRows request uidvalidity p rows).session := by
  rw [hideRows_eq]
  exact setVisible_refreshed

lemma openView_refreshed {opened : UidState} (h : openView sha request state = .ok (state', opened)) :
    Refreshed request state.session state'.session := by
  have hopened := openView_opened h
  obtain ⟨uidState, hsession⟩ := hopened.session
  have hderived : state'.session.tables.derived = state.session.tables.derived := by rw [hsession]
  refine ⟨⟨state.session.derivedOwner, state.session.tables.derived, uidState, hsession⟩, ?_, ?_, ?_, hopened.others⟩
  · rw [hsession]
    exact .refl _
  · rw [hderived]
    exact fun row hrow => ⟨row, hrow, sameIdentity_refl row⟩
  · rw [hderived]
    exact fun row hrow => .inl ⟨row, hrow, sameIdentity_refl row⟩

/-! ## Loops -/

lemma refreshIncoming_refreshed {incoming hiddenBefore : List CString} {membership : WirelogMembership}
    (h : refreshIncoming sha request uidvalidity incoming hiddenBefore p membership = .ok p') :
    Refreshed request p.session p'.session := by
  unfold refreshIncoming at h
  split at h
  · unfold refreshMembership at h
    simp only [check_eq_ok] at h
    obtain ⟨-, -, -, h⟩ := h
    obtain ⟨found, -, h⟩ := bind_eq_ok.mp h
    cases found with
    | none => exact insertMembership_refreshed h
    | some row =>
      dsimp only at h
      split at h
      · rw [← Except.ok.inj h]
        exact .refl _
      · rw [← Except.ok.inj h]
        split <;> exact setVisible_refreshed
  · obtain ⟨-, -, heq⟩ := bind_eq_ok.mp h
    rw [← Except.ok.inj heq]
    exact .refl _

lemma refreshListed_refreshed {members : List CString} (h : refreshListed sha request uidvalidity members p messageId = .ok p') :
    Refreshed request p.session p'.session := by
  obtain ⟨-, h⟩ := check_eq_ok.mp h
  unfold refreshMessage at h
  have hhidden : Refreshed request p.session (hideMessageOtherRuleVersions request uidvalidity messageId p).session :=
    hideRows_refreshed
  generalize hideMessageOtherRuleVersions request uidvalidity messageId p = p₁ at hhidden h
  refine hhidden.trans ?_
  obtain ⟨found, -, h⟩ := bind_eq_ok.mp h
  cases found with
  | some row =>
    dsimp only at h
    split at h
    · rw [← Except.ok.inj h]
      exact .refl _
    · rw [← Except.ok.inj h]
      exact updateDerivedRow_refreshed
  | none =>
    dsimp only at h
    split at h
    · exact insertMembership_refreshed (check_eq_ok.mp h).2
    · rw [← Except.ok.inj h]
      exact .refl _

/-! ## Whole refreshes -/

theorem refresh_refreshed {kind : RefreshKind} {memberships : List WirelogMembership}
    {changes : List DerivedViewMembershipChanged} (h : refresh sha request kind memberships state = .ok (state', changes)) :
    Refreshed request state.session state'.session := by
  have hwhole : ∀ hideOthers, refreshMemberships sha request hideOthers memberships state = .ok (state', changes) →
      Refreshed request state.session state'.session := by
    intro hideOthers h
    unfold refreshMemberships at h
    simp only [bind_eq_ok] at h
    obtain ⟨-, -, ⟨state₁, opened⟩, hopen, p, hloop, p', hupdate, heq⟩ := h
    obtain ⟨rfl, -⟩ := Prod.mk.inj (Except.ok.inj heq)
    have hended : Refreshed request state.session p'.session :=
      (((openView_refreshed hopen).trans setVisible_refreshed).trans
        (refreshed_foldlM (fun _ _ _ _ hstep => refreshIncoming_refreshed hstep) hloop)).trans (updateUidnext_refreshed hupdate)
    cases hideOthers with
    | false => exact hended
    | true => exact hended.trans setVisible_refreshed
  cases kind with
  | view => exact hwhole false h
  | currentRule => exact hwhole true h
  | messages messageIds =>
    change refreshMessageMemberships sha request messageIds memberships state = .ok (state', changes) at h
    unfold refreshMessageMemberships at h
    simp only [bind_eq_ok] at h
    obtain ⟨-, -, -, -, ⟨state₁, opened⟩, hopen, p, hloop, p', hupdate, heq⟩ := h
    obtain ⟨rfl, -⟩ := Prod.mk.inj (Except.ok.inj heq)
    exact ((openView_refreshed hopen).trans
      (refreshed_foldlM (fun _ _ _ _ hstep => refreshListed_refreshed hstep) hloop)).trans (updateUidnext_refreshed hupdate)

/-! ## Other views -/

/-- A view shows what it did. -/
def ShowsSame (viewId : CString) (t t' : AccountTables) : Prop :=
  ∀ messageId ruleVersionHash, Shows t' viewId messageId ruleVersionHash ↔ Shows t viewId messageId ruleVersionHash

variable {viewId : CString}

lemma ShowsSame.trans {t'' : AccountTables} (h : ShowsSame viewId t t') (h' : ShowsSame viewId t' t'') :
    ShowsSame viewId t t'' := fun messageId ruleVersionHash => (h' messageId ruleVersionHash).trans (h messageId ruleVersionHash)

lemma showsSame_of_derived (h : t'.derived = t.derived) : ShowsSame viewId t t' := by
  intro messageId ruleVersionHash
  unfold Shows
  rw [h]

lemma setVisible_elsewhere {condition : DerivedMembership → Bool} {isVisible : Bool} {at' : ℕ}
    (hcondition : ∀ row, row.viewId = viewId → condition row = false) :
    ShowsSame viewId t (setVisible t condition isVisible at') :=
  fun _ _ => shows_setVisible_of_not fun row _ hview _ _ => hcondition row hview

lemma insertMembership_elsewhere (hview : viewId ≠ request.viewId)
    (h : insertMembership sha request uidvalidity p messageId = .ok p') :
    ShowsSame viewId p.session.tables p'.session.tables := by
  unfold insertMembership at h
  dsimp only at h
  split at h
  · simp at h
  · obtain ⟨t, hinsert, heq⟩ := bind_eq_ok.mp h
    obtain ⟨-, rfl⟩ := insertDerivedRow_eq_ok (execute_eq_ok.mp hinsert)
    obtain rfl := Except.ok.inj heq
    intro other ruleVersionHash
    constructor
    · rintro ⟨row, hrow, hkey⟩
      rcases List.mem_append.mp hrow with hold | hnew
      · exact ⟨row, hold, hkey⟩
      · rw [List.mem_singleton.mp hnew] at hkey
        exact absurd hkey.1.symm hview
    · rintro ⟨row, hrow, hkey⟩
      exact ⟨row, List.mem_append_left _ hrow, hkey⟩

lemma refreshIncoming_elsewhere {incoming hiddenBefore : List CString} {membership : WirelogMembership}
    (hview : viewId ≠ request.viewId)
    (h : refreshIncoming sha request uidvalidity incoming hiddenBefore p membership = .ok p') :
    ShowsSame viewId p.session.tables p'.session.tables := by
  unfold refreshIncoming at h
  split at h
  · unfold refreshMembership at h
    simp only [check_eq_ok] at h
    obtain ⟨-, -, -, h⟩ := h
    obtain ⟨found, -, h⟩ := bind_eq_ok.mp h
    cases found with
    | none => exact insertMembership_elsewhere hview h
    | some row =>
      dsimp only at h
      split at h
      · rw [← Except.ok.inj h]
        exact showsSame_of_derived rfl
      · rw [← Except.ok.inj h]
        have hscope : ∀ other : DerivedMembership, other.viewId = viewId →
            decide (inScope request other = true ∧ other.messageId = membership.messageId) = false := by
          intro other hother
          simp [inScope, hother, hview]
        split <;> exact setVisible_elsewhere hscope
  · obtain ⟨-, -, heq⟩ := bind_eq_ok.mp h
    rw [← Except.ok.inj heq]
    exact showsSame_of_derived rfl

/-- The refresh of a view shows nothing new in another. -/
lemma refreshMemberships_elsewhere {hideOthers : Bool} {memberships : List WirelogMembership}
    {changes : List DerivedViewMembershipChanged} (hview : viewId ≠ request.viewId)
    (h : refreshMemberships sha request hideOthers memberships state = .ok (state', changes)) :
    ShowsSame viewId state.session.tables state'.session.tables := by
  have hloop : ∀ {uidvalidity : ℕ} {incoming hiddenBefore : List CString} {l : List WirelogMembership} {p p' : Refreshing},
      l.foldlM (refreshIncoming sha request uidvalidity incoming hiddenBefore) p = .ok p' →
        ShowsSame viewId p.session.tables p'.session.tables := by
    intro uidvalidity incoming hiddenBefore l p p' h
    induction l generalizing p with
    | nil =>
      rw [← Except.ok.inj h]
      exact showsSame_of_derived rfl
    | cons membership l ih =>
      rw [List.foldlM_cons, bind_eq_ok] at h
      obtain ⟨p₁, hfirst, hrest⟩ := h
      exact (refreshIncoming_elsewhere hview hfirst).trans (ih hrest)
  unfold refreshMemberships at h
  simp only [bind_eq_ok] at h
  obtain ⟨-, -, ⟨state₁, opened⟩, hopen, p, hincoming, p', hupdate, heq⟩ := h
  obtain ⟨rfl, -⟩ := Prod.mk.inj (Except.ok.inj heq)
  obtain ⟨uidState, hsession⟩ := (openView_opened hopen).session
  have hopened : ShowsSame viewId state.session.tables state₁.session.tables := by
    rw [hsession]
    exact showsSame_of_derived rfl
  have hscope : ∀ row : DerivedMembership, row.viewId = viewId → inScope request row = false := by
    intro row hrow
    simp [inScope, hrow, hview]
  have hother : ∀ row : DerivedMembership, row.viewId = viewId → otherRuleVersion request row = false := by
    intro row hrow
    simp [otherRuleVersion, hrow, hview]
  have hended := ((hopened.trans (setVisible_elsewhere hscope)).trans (hloop hincoming)).trans
    (showsSame_of_derived (updateUidnext_rows hupdate).1)
  cases hideOthers with
  | false => exact hended
  | true => exact hended.trans (setVisible_elsewhere hother)

end
end Wyrebox.RefreshFrames
