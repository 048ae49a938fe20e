import Mathlib.Data.List.Pairwise
import Wyrebox.DerivedViewMaterializer
import Wyrebox.RowFrames

set_option autoImplicit false

/-!
# Replaying the changes of a refresh

The replay of the reported changes follows the refresh row by row. While a whole view is refreshed
its rows are hidden first and shown again one by one, so the replay is ahead for the members that
are still to come.
-/
namespace Wyrebox.DerivedViewReplay
open Catalog Event Fallible AccountRows DerivedViewMaterializer
open Materializer hiding insertMembership selectUidnext
open JournalRecord (Sha256)

/-! ## The constraints of the tables -/

/-- What the primary keys, uniqueness and checks of the schema make true of every catalog. -/
structure Valid (account : CString) (s : Session) : Prop where
  unique : s.tables.derived.Pairwise fun row other => derivedConflict row other = false
  uid_pos : ∀ row ∈ s.tables.derived, 1 ≤ row.uid
  owner : ∀ row ∈ s.tables.derived, s.derivedOwner row.membershipId = some account
  uidnext_le : ∀ ns state, s.tables.uidState ns = some state → state.uidnext ≤ maxGuint64

section
variable {request : Request} {account : CString} {uidvalidity : ℕ} {t t' : AccountTables} {s s' : Session}
  {p p' : Refreshing} {row other : DerivedMembership}

lemma derivedConflict_symm (h : derivedConflict row other = false) : derivedConflict other row = false := by
  simp only [derivedConflict, decide_eq_false_iff_not, not_or, not_and] at h ⊢
  refine ⟨fun heq => h.1 heq.symm, fun hview huid => h.2.1 hview.symm huid.symm, fun hview hmessage hrule => ?_⟩
  exact h.2.2 hview.symm hmessage.symm hrule.symm

lemma eq_of_conflict {rows : List DerivedMembership}
    (h : rows.Pairwise fun row other => derivedConflict row other = false) (hrow : row ∈ rows) (hother : other ∈ rows)
    (hconflict : derivedConflict row other = true) : row = other := by
  by_contra hne
  have hsymm : Std.Symm fun row other => derivedConflict row other = false := ⟨fun _ _ => derivedConflict_symm⟩
  have hfalse := h.forall hrow hother hne
  rw [hfalse] at hconflict
  simp at hconflict

lemma eq_of_id {rows : List DerivedMembership}
    (h : rows.Pairwise fun row other => derivedConflict row other = false) (hrow : row ∈ rows) (hother : other ∈ rows)
    (hid : row.membershipId = other.membershipId) : row = other :=
  eq_of_conflict h hrow hother (by simp [derivedConflict, hid])

/-- What a mailbox shows of a row: everything but when it was written. -/
def shown (row : DerivedMembership) : DerivedMembership := { row with materializedAtUnixUs := 0 }

@[simp] lemma derivedConflict_shown_left : derivedConflict (shown row) other = derivedConflict row other := rfl

@[simp] lemma derivedConflict_shown_right : derivedConflict row (shown other) = derivedConflict row other := rfl

/-! ## The next UID after a change -/

lemma advanceViewUidState_known {change : DerivedViewMembershipChanged} {state : UidState}
    (hstate : t.uidState (.derivedView change.viewId) = some state)
    (hvalidity : state.uidvalidity = change.uidvalidity) (hpos : change.uidvalidity ≠ 0) :
    advanceViewUidState t change = .ok (t.setUidState (.derivedView change.viewId)
      { state with uidnext := max state.uidnext (change.uid + 1) }) := by
  have hinsert : t.insertUidState (.derivedView change.viewId) ⟨change.uid + 1, change.uidvalidity⟩ = .ok t := by
    rw [AccountTables.insertUidState, hstate]
    exact bind_eq_ok.mpr ⟨(), require_eq_ok.mpr ⟨Nat.le_add_left 1 _, Nat.one_le_iff_ne_zero.mpr hpos⟩, rfl⟩
  have hupdate : t.updateUidnext (.derivedView change.viewId) (fun uidnext => max uidnext (change.uid + 1)) =
      .ok (t.setUidState (.derivedView change.viewId)
        { state with uidnext := max state.uidnext (change.uid + 1) }) := by
    rw [AccountTables.updateUidnext, hstate]
    exact bind_eq_ok.mpr ⟨(), require_eq_ok.mpr (by omega), rfl⟩
  simp only [advanceViewUidState, bind_eq_ok, require_eq_ok]
  exact ⟨t, hinsert, (), by rw [hstate, Option.map_some, hvalidity], hupdate⟩

lemma advanceViewUidState_new {change : DerivedViewMembershipChanged}
    (hnone : t.uidState (.derivedView change.viewId) = none) (hpos : change.uidvalidity ≠ 0) :
    advanceViewUidState t change = .ok (t.setUidState (.derivedView change.viewId)
      ⟨change.uid + 1, change.uidvalidity⟩) := by
  have hinsert : t.insertUidState (.derivedView change.viewId) ⟨change.uid + 1, change.uidvalidity⟩ =
      .ok (t.setUidState (.derivedView change.viewId) ⟨change.uid + 1, change.uidvalidity⟩) := by
    rw [AccountTables.insertUidState, hnone]
    exact bind_eq_ok.mpr ⟨(), require_eq_ok.mpr ⟨Nat.le_add_left 1 _, Nat.one_le_iff_ne_zero.mpr hpos⟩, rfl⟩
  have hstate : (t.setUidState (.derivedView change.viewId) ⟨change.uid + 1, change.uidvalidity⟩).uidState
      (.derivedView change.viewId) = some ⟨change.uid + 1, change.uidvalidity⟩ := Function.update_self ..
  simp only [advanceViewUidState, bind_eq_ok, require_eq_ok]
  refine ⟨_, hinsert, (), by rw [hstate]; rfl, updateUidnext_self hstate (max_self _) (Nat.le_add_left 1 _)⟩

/-! ## Following a refresh -/

/-- What the row of a refresh shows when the pending members are done. -/
def expected (request : Request) (pending : CString → Bool) (row : DerivedMembership) : DerivedMembership :=
  { shown row with isVisible := row.isVisible || (inScope request row && pending row.messageId) }

/-- The replay stands where the refresh does. A view without UID state has no rows yet. -/
structure Tracks (request : Request) (uidvalidity : ℕ) (pending : CString → Bool) (p : Refreshing) (s : Session) :
    Prop where
  owner : s.derivedOwner = p.session.derivedOwner
  rows : s.tables.derived.map shown = p.session.tables.derived.map (expected request pending)
  uidState : s.tables.uidState (.derivedView request.viewId) = some ⟨p.uidnext, uidvalidity⟩ ∨
    (s.tables.uidState (.derivedView request.viewId) = none ∧ p.uidnext = 1 ∧ p.changes = [] ∧
      ∀ row ∈ p.session.tables.derived, row.viewId ≠ request.viewId)
  others : ∀ ns, ns ≠ .derivedView request.viewId → s.tables.uidState ns = p.session.tables.uidState ns
  valid : Valid request.accountId p.session
  below : ∀ row ∈ p.session.tables.derived, row.viewId = request.viewId → row.uid < p.uidnext
  le : p.uidnext ≤ maxGuint64
  reported : ∀ change ∈ p.changes, change.accountId = request.accountId ∧ change.uid ≤ maxGuint64

variable {pending pending' : CString → Bool}

lemma Tracks.exists_live (h : Tracks request uidvalidity pending p s) (hrow : row ∈ s.tables.derived) :
    ∃ live ∈ p.session.tables.derived, expected request pending live = shown row := by
  have hmem : shown row ∈ p.session.tables.derived.map (expected request pending) := by
    rw [← h.rows]
    exact List.mem_map_of_mem hrow
  exact List.mem_map.mp hmem

/-- The stored row with the id of a row of the refresh. -/
lemma Tracks.find_eq (h : Tracks request uidvalidity pending p s) (hrow : row ∈ p.session.tables.derived) :
    ∃ stored, s.tables.derived.find? (fun other => other.membershipId = row.membershipId) = some stored ∧
      SameIdentity row stored := by
  have hfind : ((s.tables.derived.map shown).find? fun other => other.membershipId = row.membershipId) =
      some (expected request pending row) := by
    rw [h.rows, List.find?_map]
    have hself : p.session.tables.derived.find? (fun other => other.membershipId = row.membershipId) = some row := by
      cases hfound : p.session.tables.derived.find? (fun other => other.membershipId = row.membershipId) with
      | none => simpa using List.find?_eq_none.mp hfound row hrow
      | some found =>
        have hid : found.membershipId = row.membershipId := by simpa using List.find?_some hfound
        rw [eq_of_id h.valid.unique (List.mem_of_find?_eq_some hfound) hrow hid]
    exact congrArg (Option.map (expected request pending)) hself
  rw [List.find?_map] at hfind
  obtain ⟨stored, hstored, hshown⟩ := Option.map_eq_some_iff.mp hfind
  refine ⟨stored, hstored, ?_⟩
  have hsame : ∀ {α : Type} (f : DerivedMembership → α), f (shown stored) = f (expected request pending row) :=
    fun f => congrArg f hshown
  exact ⟨hsame DerivedMembership.membershipId, hsame DerivedMembership.viewId, hsame DerivedMembership.messageId,
    hsame DerivedMembership.uid, hsame DerivedMembership.ruleVersionHash⟩

/-- The progress after a row was shown or hidden. -/
def updated (request : Request) (uidvalidity : ℕ) (isVisible : Bool) (p : Refreshing) (row : DerivedMembership) :
    Refreshing :=
  (p.withTables (updateDerivedRow p.session.tables row.membershipId isVisible request.materializedAtUnixUs)).report
    [changeOf request uidvalidity isVisible row]

/-- The constraints say nothing about what a row shows. -/
lemma Valid.map {f : DerivedMembership → DerivedMembership} (h : Valid account s) (hf : ∀ row, SameIdentity row (f row)) :
    Valid account { s with tables := { s.tables with derived := s.tables.derived.map f } } := by
  refine ⟨?_, ?_, ?_, h.uidnext_le⟩
  · change (s.tables.derived.map f).Pairwise _
    rw [List.pairwise_map]
    refine h.unique.imp fun {row other} hne => ?_
    obtain ⟨hid, hview, hmessage, huid, hrule⟩ := hf row
    obtain ⟨hid', hview', hmessage', huid', hrule'⟩ := hf other
    rw [← hne]
    simp only [derivedConflict, hid, hview, hmessage, huid, hrule, hid', hview', hmessage', huid', hrule']
  · intro row hrow
    obtain ⟨old, hold, rfl⟩ := List.mem_map.mp hrow
    rw [(hf old).2.2.2.1]
    exact h.uid_pos old hold
  · intro row hrow
    obtain ⟨old, hold, rfl⟩ := List.mem_map.mp hrow
    rw [(hf old).1]
    exact h.owner old hold

lemma sameIdentity_ite (c : Prop) [Decidable c] (row : DerivedMembership) (isVisible : Bool) (at' : ℕ) :
    SameIdentity row (if c then { row with isVisible, materializedAtUnixUs := at' } else row) := by
  split <;> exact ⟨rfl, rfl, rfl, rfl, rfl⟩

/-- The rows of the refresh change what they show now, not what they will show in the end. -/
lemma Tracks.withRows {f : DerivedMembership → DerivedMembership} (h : Tracks request uidvalidity pending p s)
    (hf : ∀ row, SameIdentity row (f row))
    (hrows : ∀ row ∈ p.session.tables.derived, expected request pending' (f row) = expected request pending row) :
    Tracks request uidvalidity pending'
      (p.withTables { p.session.tables with derived := p.session.tables.derived.map f }) s := by
  have hkept : ∀ row ∈ p.session.tables.derived.map f, ∃ old ∈ p.session.tables.derived, SameIdentity old row := by
    intro row hrow
    obtain ⟨old, hold, rfl⟩ := List.mem_map.mp hrow
    exact ⟨old, hold, hf old⟩
  refine ⟨h.owner, ?_, ?_, h.others, h.valid.map hf, ?_, h.le, h.reported⟩
  · change s.tables.derived.map shown = (p.session.tables.derived.map f).map (expected request pending')
    rw [h.rows, List.map_map]
    exact List.map_congr_left fun row hrow => (hrows row hrow).symm
  · refine h.uidState.imp_right fun hnone => ⟨hnone.1, hnone.2.1, hnone.2.2.1, fun row hrow => ?_⟩
    obtain ⟨old, hold, hsame⟩ := hkept row hrow
    rw [hsame.2.1]
    exact hnone.2.2.2 old hold
  · intro row hrow hview
    obtain ⟨old, hold, hsame⟩ := hkept row hrow
    rw [hsame.2.2.2.1]
    exact h.below old hold (hsame.2.1 ▸ hview)

/-- Showing or hiding a row of the view is replayed by its change. -/
lemma Tracks.update (h : Tracks request uidvalidity pending p s) (hpos : uidvalidity ≠ 0)
    (hrow : row ∈ p.session.tables.derived) (hview : row.viewId = request.viewId) (isVisible : Bool)
    (hpending : isVisible = true ∨ ¬(inScope request row = true ∧ pending row.messageId = true)) :
    ∃ s', applyMembershipChange s (changeOf request uidvalidity isVisible row) = .ok s' ∧
      Tracks request uidvalidity pending (updated request uidvalidity isVisible p row) s' := by
  obtain ⟨stored, hfind, hsame⟩ := h.find_eq hrow
  have hbelow := h.below row hrow hview
  have hstate : s.tables.uidState (.derivedView request.viewId) = some ⟨p.uidnext, uidvalidity⟩ :=
    h.uidState.resolve_right fun hnone => hnone.2.2.2 row hrow hview
  have hpositive := h.valid.uid_pos row hrow
  have hle := h.le
  set t := updateDerivedRow s.tables row.membershipId isVisible request.materializedAtUnixUs with ht
  have hupsert : upsertViewMembership s (changeOf request uidvalidity isVisible row) = .ok { s with tables := t } := by
    have hregister : s.derivedOwner.register (changeOf request uidvalidity isVisible row).membershipId
        (changeOf request uidvalidity isVisible row).accountId = some s.derivedOwner := by
      refine Registry.register_self ?_
      rw [h.owner]
      exact h.valid.owner row hrow
    have hfound : s.tables.derived.find? (fun other =>
        other.membershipId = (changeOf request uidvalidity isVisible row).membershipId) = some stored := hfind
    rw [upsertViewMembership, hregister]
    simp only [hfound]
    exact bind_eq_ok.mpr ⟨(), require_eq_ok.mpr
      ⟨hsame.2.1.trans hview, hsame.2.2.1, hsame.2.2.2.1, hsame.2.2.2.2⟩, rfl⟩
  have hadvance : advanceViewUidState t (changeOf request uidvalidity isVisible row) = .ok t := by
    have hstate' : t.uidState (.derivedView request.viewId) = some ⟨p.uidnext, uidvalidity⟩ := hstate
    rw [advanceViewUidState_known hstate' rfl hpos]
    change Except.ok (t.setUidState (.derivedView request.viewId) ⟨max p.uidnext (row.uid + 1), uidvalidity⟩) = _
    rw [Nat.max_eq_left hbelow, setUidState_self hstate']
  refine ⟨{ s with tables := t }, ?_, ?_⟩
  · unfold applyMembershipChange
    refine bind_eq_ok.mpr ⟨(), require_eq_ok.mpr ⟨?_, ?_, hpos⟩, bind_eq_ok.mpr ⟨_, hupsert, bind_eq_ok.mpr ⟨_, hadvance, rfl⟩⟩⟩
    · change row.uid ≠ 0
      omega
    · change row.uid ≠ maxGuint64
      omega
  · have hrows : ∀ live ∈ p.session.tables.derived,
        (if (expected request pending live).membershipId = row.membershipId then
          { expected request pending live with isVisible := isVisible } else expected request pending live) =
        expected request pending (if live.membershipId = row.membershipId then
          { live with isVisible, materializedAtUnixUs := request.materializedAtUnixUs } else live) := by
      intro live hlive
      by_cases hid : live.membershipId = row.membershipId
      · obtain rfl := eq_of_id h.valid.unique hlive hrow hid
        rw [if_pos hid, if_pos (show (expected request pending live).membershipId = live.membershipId from rfl)]
        have hvisible : (isVisible || (inScope request live && pending live.messageId)) = isVisible := by
          rcases hpending with rfl | hno
          · rfl
          · cases hscope : inScope request live <;> cases hpend : pending live.messageId <;> simp_all
        rw [expected, expected]
        change DerivedMembership.mk _ _ _ _ _ _ _ = DerivedMembership.mk _ _ _ _ (isVisible || (inScope request live && pending live.messageId)) _ _
        rw [hvisible]
        rfl
      · rw [if_neg hid, if_neg (show ¬(expected request pending live).membershipId = row.membershipId from hid)]
    have hshown : t.derived.map shown = (s.tables.derived.map shown).map fun other =>
        if other.membershipId = row.membershipId then { other with isVisible := isVisible } else other := by
      rw [ht, updateDerivedRow, List.map_map, List.map_map]
      refine List.map_congr_left fun other _ => ?_
      change shown (if other.membershipId = row.membershipId then _ else _) = if other.membershipId = row.membershipId then _ else _
      split <;> rfl
    have hreported : ∀ change ∈ p.changes ++ [changeOf request uidvalidity isVisible row],
        change.accountId = request.accountId ∧ change.uid ≤ maxGuint64 := by
      intro change hchange
      rcases List.mem_append.mp hchange with hold | hnew
      · exact h.reported change hold
      · obtain rfl := List.mem_singleton.mp hnew
        exact ⟨rfl, hbelow.le.trans hle⟩
    refine ⟨h.owner, ?_, .inl hstate, h.others, h.valid.map fun other => sameIdentity_ite _ other _ _, ?_, h.le,
      hreported⟩
    · change t.derived.map shown = (p.session.tables.derived.map _).map (expected request pending)
      rw [hshown, h.rows, List.map_map, List.map_map]
      exact List.map_congr_left hrows
    · intro other hother hother'
      obtain ⟨old, hold, rfl⟩ := List.mem_map.mp hother
      obtain ⟨-, hview', -, huid', -⟩ := sameIdentity_ite (old.membershipId = row.membershipId) old isVisible
        request.materializedAtUnixUs
      rw [huid']
      exact h.below old hold (hview' ▸ hother')

/-! ## Hiding several rows -/

lemma nodup_of_unique {rows : List DerivedMembership}
    (h : rows.Pairwise fun row other => derivedConflict row other = false) : rows.Nodup := by
  refine h.imp fun {row other} hne heq => ?_
  subst heq
  simp [derivedConflict] at hne

/-- Each row is hidden by its own change. -/
lemma Tracks.hide {rows : List DerivedMembership} (h : Tracks request uidvalidity pending p s) (hpos : uidvalidity ≠ 0)
    (hnodup : rows.Nodup) (hrows : ∀ row ∈ rows, row ∈ p.session.tables.derived ∧ row.viewId = request.viewId ∧
      ¬(inScope request row = true ∧ pending row.messageId = true)) :
    ∃ s', (rows.map (changeOf request uidvalidity false)).foldlM applyMembershipChange s = .ok s' ∧
      Tracks request uidvalidity pending (hideRows request uidvalidity p rows) s' := by
  induction rows generalizing p s with
  | nil => exact ⟨s, rfl, h⟩
  | cons row rows ih =>
    obtain ⟨⟨hrow, hview, hpending⟩, hmore⟩ := List.forall_mem_cons.mp hrows
    obtain ⟨hfresh, hnodup⟩ := List.nodup_cons.mp hnodup
    obtain ⟨s₁, happly, htracks⟩ := h.update hpos hrow hview false (.inr hpending)
    obtain ⟨s', hreplay, hlast⟩ := ih htracks hnodup fun other hother => by
      obtain ⟨hold, hother'⟩ := hmore other hother
      refine ⟨List.mem_map.mpr ⟨other, hold, if_neg fun hid => ?_⟩, hother'⟩
      exact hfresh (eq_of_id h.valid.unique hold hrow hid ▸ hother)
    refine ⟨s', ?_, hlast⟩
    rw [List.map_cons, List.foldlM_cons, happly]
    exact hreplay

lemma hideRows_eq (rows : List DerivedMembership) (p : Refreshing) :
    hideRows request uidvalidity p rows = (p.withTables (setVisible p.session.tables
      (fun row => row.membershipId ∈ rows.map DerivedMembership.membershipId) false
      request.materializedAtUnixUs)).report (rows.map (changeOf request uidvalidity false)) := by
  induction rows generalizing p with
  | nil =>
    obtain ⟨session, uidnext, changes⟩ := p
    simp [hideRows, setVisible, Refreshing.withTables, Refreshing.report]
  | cons row rows ih =>
    change hideRows request uidvalidity (updated request uidvalidity false p row) rows = _
    rw [ih]
    have hderived : (setVisible (updated request uidvalidity false p row).session.tables
        (fun other => other.membershipId ∈ rows.map DerivedMembership.membershipId) false
        request.materializedAtUnixUs) = setVisible p.session.tables
        (fun other => other.membershipId ∈ (row :: rows).map DerivedMembership.membershipId) false
        request.materializedAtUnixUs := by
      simp only [setVisible, updated, updateDerivedRow, Refreshing.withTables, Refreshing.report, List.map_map]
      congr 1
      refine List.map_congr_left fun other _ => ?_
      by_cases hid : other.membershipId = row.membershipId
      · simp [Function.comp, hid]
      · simp [Function.comp, hid]
    rw [hderived]
    simp [updated, Refreshing.withTables, Refreshing.report]

/-- Hiding by a condition is hiding the rows that meet it. -/
lemma setVisible_eq {condition : DerivedMembership → Bool} {rows : List DerivedMembership}
    (hunique : t.derived.Pairwise fun row other => derivedConflict row other = false)
    (hrows : ∀ row, row ∈ rows ↔ row ∈ t.derived ∧ condition row = true) (isVisible : Bool) (at' : ℕ) :
    setVisible t condition isVisible at' =
      setVisible t (fun row => row.membershipId ∈ rows.map DerivedMembership.membershipId) isVisible at' := by
  unfold setVisible
  congr 1
  refine List.map_congr_left fun row hrow => ?_
  have hiff : condition row = true ↔ row.membershipId ∈ rows.map DerivedMembership.membershipId := by
    constructor
    · exact fun hcondition => List.mem_map_of_mem ((hrows row).mpr ⟨hrow, hcondition⟩)
    · intro hmem
      obtain ⟨other, hother, hid⟩ := List.mem_map.mp hmem
      obtain ⟨hother, hcondition⟩ := (hrows other).mp hother
      exact eq_of_id hunique hother hrow hid ▸ hcondition
  simp only [decide_eq_true_eq]
  exact if_congr hiff rfl rfl

/-! ## New rows -/

/-- What a successful insertion did. -/
structure Inserted (sha : Sha256) (request : Request) (uidvalidity : ℕ) (messageId : CString) (p p' : Refreshing) where
  row : DerivedMembership
  row_eq : row = ⟨buildMembershipId sha request messageId, request.viewId, messageId, p.uidnext, true,
    request.ruleVersionHash, request.materializedAtUnixUs⟩
  register : p.session.derivedOwner.register row.membershipId request.accountId = some p'.session.derivedOwner
  uid_pos : 1 ≤ p.uidnext
  fresh : ∀ other ∈ p.session.tables.derived, derivedConflict row other = false
  tables : p'.session.tables = { p.session.tables with derived := p.session.tables.derived ++ [row] }
  uidnext : p'.uidnext = (p.uidnext + 1) % 2 ^ 64
  changes : p'.changes = p.changes ++ [changeOf request uidvalidity true row]

lemma insertMembership_inserted {sha : Sha256} {messageId : CString}
    (h : insertMembership sha request uidvalidity p messageId = .ok p') :
    Nonempty (Inserted sha request uidvalidity messageId p p') := by
  unfold insertMembership at h
  dsimp only at h
  split at h
  · simp at h
  · rename_i derivedOwner hregister
    obtain ⟨t, hinsert, heq⟩ := bind_eq_ok.mp h
    rw [execute_eq_ok] at hinsert
    obtain ⟨hfresh, rfl⟩ := insertDerivedRow_eq_ok hinsert
    obtain ⟨_, hguard, -⟩ := bind_eq_ok.mp hinsert
    obtain rfl := Except.ok.inj heq
    exact ⟨_, rfl, hregister, (require_eq_ok.mp hguard).1, hfresh, rfl, rfl, rfl⟩

lemma Inserted.valid {sha : Sha256} {messageId : CString} (h : Inserted sha request uidvalidity messageId p p')
    (hvalid : Valid request.accountId p.session) : Valid request.accountId p'.session := by
  obtain ⟨hself, hwithin, -⟩ := Registry.register_eq_some h.register
  refine ⟨?_, ?_, ?_, ?_⟩
  · rw [h.tables, List.pairwise_append]
    refine ⟨hvalid.unique, List.pairwise_singleton _ _, fun other hother row hrow => ?_⟩
    obtain rfl := List.mem_singleton.mp hrow
    exact derivedConflict_symm (h.fresh other hother)
  · rw [h.tables]
    intro row hrow
    rcases List.mem_append.mp hrow with hold | hnew
    · exact hvalid.uid_pos row hold
    · obtain rfl := List.mem_singleton.mp hnew
      rw [h.row_eq]
      exact h.uid_pos
  · rw [h.tables]
    intro row hrow
    rcases List.mem_append.mp hrow with hold | hnew
    · exact hwithin _ _ (hvalid.owner row hold)
    · obtain rfl := List.mem_singleton.mp hnew
      exact hself
  · rw [h.tables]
    exact hvalid.uidnext_le

/-- The replay of an insertion inserts the same row, unless the next UID has wrapped around. -/
lemma Tracks.insert {sha : Sha256} {messageId : CString} (h : Tracks request uidvalidity pending p s)
    (hpos : uidvalidity ≠ 0) (hi : Inserted sha request uidvalidity messageId p p') (hwrapped : p'.uidnext ≠ 0) :
    ∃ s', applyMembershipChange s (changeOf request uidvalidity true hi.row) = .ok s' ∧
      Tracks request uidvalidity pending p' s' := by
  have hle := h.le
  have huid : hi.row.uid = p.uidnext := by rw [hi.row_eq]
  have hview : hi.row.viewId = request.viewId := by rw [hi.row_eq]
  have hvisible : hi.row.isVisible = true := by rw [hi.row_eq]
  have hnext : p'.uidnext = p.uidnext + 1 := by
    rw [hi.uidnext] at hwrapped ⊢
    unfold maxGuint64 at hle
    omega
  have huidpos := hi.uid_pos
  set t := { s.tables with derived := s.tables.derived ++ [hi.row] } with ht
  have hfresh : ∀ other ∈ s.tables.derived, derivedConflict hi.row other = false := by
    intro other hother
    obtain ⟨live, hlive, heq⟩ := h.exists_live hother
    rw [← derivedConflict_shown_right, ← heq]
    exact hi.fresh live hlive
  have hupsert : upsertViewMembership s (changeOf request uidvalidity true hi.row) =
      .ok { s with derivedOwner := p'.session.derivedOwner, tables := t } := by
    have hregister : s.derivedOwner.register (changeOf request uidvalidity true hi.row).membershipId
        (changeOf request uidvalidity true hi.row).accountId = some p'.session.derivedOwner := by
      rw [h.owner]
      exact hi.register
    have hnone : s.tables.derived.find? (fun other =>
        other.membershipId = (changeOf request uidvalidity true hi.row).membershipId) = none := by
      refine List.find?_eq_none.mpr fun other hother => ?_
      have hconflict := hfresh other hother
      simp only [derivedConflict, decide_eq_false_iff_not, not_or] at hconflict
      have hne : ¬other.membershipId = hi.row.membershipId := fun heq => hconflict.1 heq.symm
      exact fun hid => hne (of_decide_eq_true hid)
    have hinsert : insertDerivedRow s.tables hi.row = .ok t := by
      refine bind_eq_ok.mpr ⟨(), require_eq_ok.mpr ⟨huid ▸ huidpos, List.all_eq_true.mpr fun other hother => ?_⟩, rfl⟩
      rw [hfresh other hother]
      rfl
    rw [upsertViewMembership, hregister]
    simp only [hnone]
    refine bind_eq_ok.mpr ⟨t, ?_, rfl⟩
    rw [← hinsert]
    congr 1
    rw [hi.row_eq]
    rfl
  have hadvance : ∃ t', advanceViewUidState t (changeOf request uidvalidity true hi.row) = .ok t' ∧
      t' = t.setUidState (.derivedView request.viewId) ⟨p'.uidnext, uidvalidity⟩ := by
    rcases h.uidState with hstate | ⟨hnone, hone, -, -⟩
    · have hstate' : t.uidState (.derivedView request.viewId) = some ⟨p.uidnext, uidvalidity⟩ := hstate
      refine ⟨_, advanceViewUidState_known hstate' rfl hpos, ?_⟩
      change t.setUidState _ ⟨max p.uidnext (hi.row.uid + 1), uidvalidity⟩ = _
      rw [huid, hnext, Nat.max_eq_right (Nat.le_succ _)]
      rfl
    · have hnone' : t.uidState (.derivedView request.viewId) = none := hnone
      refine ⟨_, advanceViewUidState_new hnone' hpos, ?_⟩
      change t.setUidState _ ⟨hi.row.uid + 1, uidvalidity⟩ = _
      rw [huid, hnext]
      rfl
  obtain ⟨t', hadvance, rfl⟩ := hadvance
  refine ⟨{ s with derivedOwner := p'.session.derivedOwner
                   tables := t.setUidState (.derivedView request.viewId) ⟨p'.uidnext, uidvalidity⟩ }, ?_, ?_⟩
  · unfold applyMembershipChange
    refine bind_eq_ok.mpr ⟨(), require_eq_ok.mpr ⟨?_, ?_, hpos⟩,
      bind_eq_ok.mpr ⟨_, hupsert, bind_eq_ok.mpr ⟨_, hadvance, rfl⟩⟩⟩
    · change hi.row.uid ≠ 0
      omega
    · change hi.row.uid ≠ maxGuint64
      rw [hi.uidnext] at hwrapped
      rw [huid]
      unfold maxGuint64
      omega
  · refine ⟨rfl, ?_, .inl (Function.update_self ..), fun ns hns => ?_, hi.valid h.valid, ?_, ?_, ?_⟩
    · change (s.tables.derived ++ [hi.row]).map shown = _
      rw [hi.tables, List.map_append, List.map_append, h.rows]
      congr 1
      rw [List.map_singleton, List.map_singleton, expected, hvisible]
      rw [shown, hvisible]
      rfl
    · rw [hi.tables]
      change Function.update s.tables.uidState _ _ ns = _
      rw [Function.update_of_ne hns]
      exact h.others ns hns
    · rw [hi.tables, hnext]
      intro row hrow hrow'
      rcases List.mem_append.mp hrow with hold | hnew
      · exact Nat.lt_succ_of_lt (h.below row hold hrow')
      · obtain rfl := List.mem_singleton.mp hnew
        rw [huid]
        exact Nat.lt_succ_self _
    · rw [hi.uidnext]
      unfold maxGuint64
      omega
    · rw [hi.changes]
      intro change hchange
      rcases List.mem_append.mp hchange with hold | hnew
      · exact h.reported change hold
      · obtain rfl := List.mem_singleton.mp hnew
        exact ⟨rfl, huid.le.trans hle⟩

/-! ## The loops of a refresh -/

/-- The replay of what is reported so far stands where the refresh does, until the next UID wraps
    around to zero, which no refresh survives. -/
structure Follows (request : Request) (opened : UidState) (s₀ : Session) (pending : CString → Bool) (p : Refreshing) :
    Prop where
  stored : p.session.tables.uidState (.derivedView request.viewId) = some opened
  replay : p.uidnext ≠ 0 → ∃ s, p.changes.foldlM applyMembershipChange s₀ = .ok s ∧
    Tracks request opened.uidvalidity pending p s

variable {opened : UidState} {s₀ : Session} {sha : Sha256} {messageId : CString}

lemma Tracks.shrink (h : Tracks request uidvalidity pending p s)
    (hshown : ∀ row ∈ p.session.tables.derived, inScope request row = true →
      pending row.messageId = pending' row.messageId ∨ row.isVisible = true) :
    Tracks request uidvalidity pending' p s := by
  refine { h with rows := ?_ }
  rw [h.rows]
  refine List.map_congr_left fun row hrow => ?_
  unfold expected
  cases hscope : inScope request row with
  | false => rfl
  | true =>
    rcases hshown row hrow hscope with hsame | hvisible
    · rw [hsame]
    · rw [hvisible]
      rfl

lemma Follows.shrink (h : Follows request opened s₀ pending p)
    (hshown : ∀ row ∈ p.session.tables.derived, inScope request row = true →
      pending row.messageId = pending' row.messageId ∨ row.isVisible = true) :
    Follows request opened s₀ pending' p := by
  refine ⟨h.stored, fun hwrapped => ?_⟩
  obtain ⟨s, hreplay, htracks⟩ := h.replay hwrapped
  exact ⟨s, hreplay, htracks.shrink hshown⟩

lemma inScope_iff : inScope request row = true ↔
    row.viewId = request.viewId ∧ row.ruleVersionHash = request.ruleVersionHash := by
  simp [inScope]

lemma Follows.update (h : Follows request opened s₀ pending p) (hpos : opened.uidvalidity ≠ 0)
    (hrow : row ∈ p.session.tables.derived) (hview : row.viewId = request.viewId) (isVisible : Bool)
    (hpending : isVisible = true ∨ ¬(inScope request row = true ∧ pending row.messageId = true)) :
    Follows request opened s₀ pending (updated request opened.uidvalidity isVisible p row) := by
  refine ⟨h.stored, fun hwrapped => ?_⟩
  obtain ⟨s, hreplay, htracks⟩ := h.replay hwrapped
  obtain ⟨s', happly, htracks'⟩ := htracks.update hpos hrow hview isVisible hpending
  refine ⟨s', ?_, htracks'⟩
  change (p.changes ++ [_]).foldlM applyMembershipChange s₀ = .ok s'
  rw [List.foldlM_append, hreplay]
  exact bind_eq_ok.mpr ⟨s, rfl, bind_eq_ok.mpr ⟨s', happly, rfl⟩⟩

lemma Follows.hide {rows : List DerivedMembership} (h : Follows request opened s₀ pending p)
    (hpos : opened.uidvalidity ≠ 0) (hnodup : p.session.tables.derived.Nodup → rows.Nodup)
    (hrows : ∀ row ∈ rows, row ∈ p.session.tables.derived ∧ row.viewId = request.viewId ∧
      ¬(inScope request row = true ∧ pending row.messageId = true)) :
    Follows request opened s₀ pending (hideRows request opened.uidvalidity p rows) := by
  refine ⟨?_, fun hwrapped => ?_⟩
  · rw [hideRows_eq]
    exact h.stored
  · obtain ⟨s, hreplay, htracks⟩ := h.replay (by rwa [hideRows_eq] at hwrapped)
    obtain ⟨s', hhide, htracks'⟩ := htracks.hide hpos (hnodup (nodup_of_unique htracks.valid.unique)) hrows
    refine ⟨s', ?_, htracks'⟩
    rw [hideRows_eq]
    change (p.changes ++ _).foldlM applyMembershipChange s₀ = .ok s'
    rw [List.foldlM_append, hreplay]
    exact hhide

lemma Follows.insert (h : Follows request opened s₀ pending p) (hpos : opened.uidvalidity ≠ 0)
    (hi : Inserted sha request opened.uidvalidity messageId p p') : Follows request opened s₀ pending p' := by
  refine ⟨?_, fun hwrapped => ?_⟩
  · rw [hi.tables]
    exact h.stored
  · obtain ⟨s, hreplay, htracks⟩ := h.replay (Nat.one_le_iff_ne_zero.mp hi.uid_pos)
    obtain ⟨s', happly, htracks'⟩ := htracks.insert hpos hi hwrapped
    refine ⟨s', ?_, htracks'⟩
    rw [hi.changes, List.foldlM_append, hreplay]
    exact bind_eq_ok.mpr ⟨s, rfl, bind_eq_ok.mpr ⟨s', happly, rfl⟩⟩

lemma selectMembershipDetails_eq_ok {found : Option DerivedMembership}
    (h : selectMembershipDetails request t messageId = .ok found) :
    t.derived.filter (fun row => inScope request row ∧ row.messageId = messageId) = found.toList := by
  unfold selectMembershipDetails at h
  split at h
  · rename_i hnone
    rw [hnone, ← Except.ok.inj h]
    rfl
  · rename_i row hrow
    rw [hrow, ← Except.ok.inj h]
    rfl
  · simp at h

lemma mem_of_details (h : selectMembershipDetails request t messageId = .ok (some row)) :
    row ∈ t.derived ∧ inScope request row = true ∧ row.messageId = messageId := by
  have hmem : row ∈ t.derived.filter (fun row => inScope request row ∧ row.messageId = messageId) := by
    rw [selectMembershipDetails_eq_ok h]
    exact List.mem_singleton_self row
  obtain ⟨hrow, hcondition⟩ := List.mem_filter.mp hmem
  exact ⟨hrow, of_decide_eq_true hcondition⟩

/-- One listed message. -/
lemma refreshMessage_follows {isMember : Bool} (h : Follows request opened s₀ (fun _ => false) p)
    (hpos : opened.uidvalidity ≠ 0) (hstep : refreshMessage sha request opened.uidvalidity isMember p messageId = .ok p') :
    Follows request opened s₀ (fun _ => false) p' := by
  unfold refreshMessage at hstep
  have hhidden : Follows request opened s₀ (fun _ => false)
      (hideMessageOtherRuleVersions request opened.uidvalidity messageId p) := by
    refine h.hide hpos (fun hnodup => ?_) fun row hrow => ?_
    · exact (List.perm_insertionSort _ _).nodup_iff.mpr (hnodup.filter _)
    · obtain ⟨hmem, hcondition⟩ := List.mem_filter.mp ((List.mem_insertionSort _).mp hrow)
      have hother := (of_decide_eq_true hcondition).1
      simp only [otherRuleVersion, decide_eq_true_eq] at hother
      exact ⟨hmem, hother.1, by simp⟩
  generalize hideMessageOtherRuleVersions request opened.uidvalidity messageId p = p₁ at hhidden hstep
  obtain ⟨found, hfound, hstep⟩ := bind_eq_ok.mp hstep
  cases found with
  | some row =>
    obtain ⟨hrow, hscope, -⟩ := mem_of_details hfound
    dsimp only at hstep
    split at hstep
    · rwa [← Except.ok.inj hstep]
    · rw [← Except.ok.inj hstep]
      exact hhidden.update hpos hrow (inScope_iff.mp hscope).1 isMember (.inr (by simp))
  | none =>
    dsimp only at hstep
    split at hstep
    · obtain ⟨-, -, hinsert⟩ := bind_eq_ok.mp hstep
      obtain ⟨hi⟩ := insertMembership_inserted hinsert
      exact hhidden.insert hpos hi
    · rwa [← Except.ok.inj hstep]

/-- The members still to come that the replay shows already. -/
def pendingMembers (incoming hiddenBefore : List CString) (memberships : List WirelogMembership) (messageId : CString) :
    Bool :=
  messageId ∈ memberships.map WirelogMembership.messageId ∧ messageId ∈ incoming ∧ messageId ∉ hiddenBefore

lemma pendingMembers_cons {incoming hiddenBefore : List CString} {membership : WirelogMembership}
    {memberships : List WirelogMembership} (hne : messageId ≠ membership.messageId ∨ messageId ∉ incoming) :
    pendingMembers incoming hiddenBefore (membership :: memberships) messageId =
      pendingMembers incoming hiddenBefore memberships messageId := by
  unfold pendingMembers
  rcases hne with hne | hout
  · simp [hne]
  · simp [hout]

/-- A row of the view is shown again. It is reported when it was hidden before the refresh; else
    the replay shows it already. -/
lemma Follows.restore {incoming hiddenBefore : List CString} {membership : WirelogMembership}
    {memberships : List WirelogMembership}
    (h : Follows request opened s₀ (pendingMembers incoming hiddenBefore (membership :: memberships)) p)
    (hpos : opened.uidvalidity ≠ 0) (hincoming : membership.messageId ∈ incoming)
    (hrow : row ∈ p.session.tables.derived) (hscope : inScope request row = true)
    (hmessage : row.messageId = membership.messageId)
    (honly : ∀ other ∈ p.session.tables.derived, inScope request other = true →
      other.messageId = membership.messageId → other = row)
    (hothers : ∀ row : DerivedMembership, row.messageId ≠ membership.messageId →
      pendingMembers incoming hiddenBefore (membership :: memberships) row.messageId =
        pendingMembers incoming hiddenBefore memberships row.messageId) :
    Follows request opened s₀ (pendingMembers incoming hiddenBefore memberships)
      (if membership.messageId ∈ hiddenBefore then
        (p.withTables (setVisible p.session.tables (fun row => inScope request row ∧ row.messageId = membership.messageId)
          true request.materializedAtUnixUs)).report [changeOf request opened.uidvalidity true row]
      else p.withTables (setVisible p.session.tables
        (fun row => inScope request row ∧ row.messageId = membership.messageId) true request.materializedAtUnixUs)) := by
  by_cases hwrapped : p.uidnext = 0
  · split <;> exact ⟨h.stored, fun hne => absurd hwrapped hne⟩
  obtain ⟨s, hreplay, htracks⟩ := h.replay hwrapped
  have hunique := htracks.valid.unique
  have hset : setVisible p.session.tables (fun row => inScope request row ∧ row.messageId = membership.messageId) true
      request.materializedAtUnixUs =
      updateDerivedRow p.session.tables row.membershipId true request.materializedAtUnixUs := by
    rw [@setVisible_eq _ _ [row] hunique]
    · simp [setVisible, updateDerivedRow]
    · intro other
      rw [List.mem_singleton, decide_eq_true_eq]
      constructor
      · rintro rfl
        exact ⟨hrow, hscope, hmessage⟩
      · exact fun hother => honly other hother.1 hother.2.1 hother.2.2
  rw [hset]
  split
  · refine (h.update hpos hrow (inScope_iff.mp hscope).1 true (.inl rfl)).shrink fun other hother hscope' => ?_
    obtain ⟨old, hold, rfl⟩ := List.mem_map.mp hother
    by_cases hid : old.membershipId = row.membershipId
    · rw [if_pos hid]
      exact .inr rfl
    · rw [if_neg hid] at hscope' ⊢
      refine .inl (hothers old fun hmessage' => hid ?_)
      rw [honly old hold hscope' hmessage']
  · rename_i hvisible
    refine ⟨h.stored, fun _ => ⟨s, hreplay, htracks.withRows (fun other => sameIdentity_ite _ other _ _) ?_⟩⟩
    intro other hother
    by_cases hid : other.membershipId = row.membershipId
    · obtain rfl := eq_of_id hunique hother hrow hid
      have hpending : pendingMembers incoming hiddenBefore (membership :: memberships) other.messageId = true := by
        simp [pendingMembers, hmessage, hincoming, hvisible]
      rw [if_pos rfl, expected, expected, hpending, hscope]
      simp [shown]
    · rw [if_neg hid]
      unfold expected
      cases hscope' : inScope request other with
      | false => rfl
      | true =>
        rw [hothers other fun hmessage' => hid ?_]
        rw [honly other hother hscope' hmessage']

/-- One member of the whole view. -/
lemma refreshIncoming_follows {incoming hiddenBefore : List CString} {membership : WirelogMembership}
    {memberships : List WirelogMembership}
    (h : Follows request opened s₀ (pendingMembers incoming hiddenBefore (membership :: memberships)) p)
    (hpos : opened.uidvalidity ≠ 0)
    (hstep : refreshIncoming sha request opened.uidvalidity incoming hiddenBefore p membership = .ok p') :
    Follows request opened s₀ (pendingMembers incoming hiddenBefore memberships) p' := by
  unfold refreshIncoming at hstep
  split at hstep
  · rename_i hincoming
    unfold refreshMembership at hstep
    simp only [check_eq_ok] at hstep
    obtain ⟨-, -, -, hstep⟩ := hstep
    obtain ⟨found, hfound, hstep⟩ := bind_eq_ok.mp hstep
    have hothers : ∀ row : DerivedMembership, row.messageId ≠ membership.messageId →
        pendingMembers incoming hiddenBefore (membership :: memberships) row.messageId =
          pendingMembers incoming hiddenBefore memberships row.messageId :=
      fun row hne => pendingMembers_cons (.inl hne)
    cases found with
    | some row =>
      obtain ⟨hrow, hscope, hmessage⟩ := mem_of_details hfound
      have honly : ∀ other ∈ p.session.tables.derived, inScope request other = true →
          other.messageId = membership.messageId → other = row := by
        intro other hother hscope' hmessage'
        have hmem : other ∈ p.session.tables.derived.filter
            (fun row => inScope request row ∧ row.messageId = membership.messageId) :=
          List.mem_filter.mpr ⟨hother, decide_eq_true ⟨hscope', hmessage'⟩⟩
        rw [selectMembershipDetails_eq_ok hfound] at hmem
        exact List.mem_singleton.mp hmem
      dsimp only at hstep
      split at hstep
      · rename_i hvisible
        rw [← Except.ok.inj hstep]
        refine h.shrink fun other hother hscope' => ?_
        by_cases hmessage' : other.messageId = membership.messageId
        · exact .inr (honly other hother hscope' hmessage' ▸ hvisible)
        · exact .inl (hothers other hmessage')
      · rw [← Except.ok.inj hstep]
        exact h.restore hpos hincoming hrow hscope hmessage honly hothers
    | none =>
      obtain ⟨hi⟩ := insertMembership_inserted hstep
      refine (h.insert hpos hi).shrink fun other hother hscope' => ?_
      by_cases hmessage' : other.messageId = membership.messageId
      · rw [hi.tables] at hother
        rcases List.mem_append.mp hother with hold | hnew
        · have hmem : other ∈ p.session.tables.derived.filter
              (fun row => inScope request row ∧ row.messageId = membership.messageId) :=
            List.mem_filter.mpr ⟨hold, decide_eq_true ⟨hscope', hmessage'⟩⟩
          rw [selectMembershipDetails_eq_ok hfound] at hmem
          simp at hmem
        · rw [List.mem_singleton.mp hnew, hi.row_eq]
          exact .inr rfl
      · exact .inl (hothers other hmessage')
  · rename_i hout
    obtain ⟨-, -, heq⟩ := bind_eq_ok.mp hstep
    rw [← Except.ok.inj heq]
    exact h.shrink fun row _ _ => .inl (by
      by_cases hmessage : row.messageId = membership.messageId
      · exact pendingMembers_cons (.inr (hmessage ▸ hout))
      · exact pendingMembers_cons (.inl hmessage))

end
end Wyrebox.DerivedViewReplay
