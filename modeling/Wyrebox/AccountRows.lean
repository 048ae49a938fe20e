import Wyrebox.Materializer

set_option autoImplicit false

/-!
# An account's rows over time

The keys and UIDs that the rows of an account keep, and what a later state of the rows may have
changed: new rows, tombstones and raised UIDNEXT values.
-/
namespace Wyrebox.AccountRows
open Catalog Materializer Fallible
open JournalWriter (Position)

structure WellFormed (t : AccountTables) : Prop where
  ids_nodup : (t.memberships.map Membership.membershipId).Nodup
  uids_nodup : (t.memberships.map fun row => (row.mailboxId, row.uid)).Nodup
  uid_lt : ∀ row ∈ t.memberships, ∃ state, t.uidState (.mailbox row.mailboxId) = some state ∧
    row.uid < state.uidnext
  uidnext_le : ∀ ns state, t.uidState ns = some state → state.uidnext ≤ maxGuint64
  derived_nodup : (t.derived.map DerivedMembership.membershipId).Nodup

/-- A membership row later: as it was, or tombstoned at the position. -/
def Aged (position : Position) (touched : CString → ℕ → Prop) (row row' : Membership) : Prop :=
  row' = row ∨ (row.isVisible = true ∧ touched row.mailboxId row.uid ∧
    row' = { row with isVisible := false, expunged := some position })

def SameIdentity (row row' : DerivedMembership) : Prop :=
  row'.membershipId = row.membershipId ∧ row'.viewId = row.viewId ∧ row'.messageId = row.messageId ∧
    row'.uid = row.uid ∧ row'.ruleVersionHash = row.ruleVersionHash

/-- What the records of one position may have done to the rows. Only memberships of touched UIDs
    are tombstoned. -/
structure Extends (position : Position) (touched : CString → ℕ → Prop) (t t' : AccountTables) : Prop where
  mailboxes : t'.mailboxes = t.mailboxes ∨ ∃ mailboxId,
    t'.mailboxes = t.mailboxes ++ [⟨mailboxId, inboxName, true, true⟩] ∧
    ∀ row ∈ t.mailboxes, row.mailboxId ≠ mailboxId ∧ row.imapName ≠ inboxName
  memberships : ∀ row ∈ t.memberships, ∃ row' ∈ t'.memberships, Aged position touched row row'
  uidState : ∀ ns state, t.uidState ns = some state → ∃ state', t'.uidState ns = some state' ∧
    state'.uidvalidity = state.uidvalidity ∧ state.uidnext ≤ state'.uidnext
  messages : t.messages.Within t'.messages
  headers : t.headers.Within t'.headers
  extractions : ∀ messageId row, t.extractions messageId = some row → t'.extractions messageId = some row
  derived : ∀ row ∈ t.derived, ∃ row' ∈ t'.derived, SameIdentity row row'

section
variable {position : Position} {touched touched' : CString → ℕ → Prop} {t t' t'' : AccountTables}

lemma Aged.trans {row row' row'' : Membership} (h : Aged position touched row row')
    (h' : Aged position touched row' row'') : Aged position touched row row'' := by
  rcases h with rfl | ⟨hvisible, htouched, rfl⟩
  · exact h'
  · rcases h' with rfl | ⟨habsurd, -⟩
    · exact .inr ⟨hvisible, htouched, rfl⟩
    · simp at habsurd

lemma Aged.mono (hmono : ∀ mailboxId uid, touched mailboxId uid → touched' mailboxId uid)
    {row row' : Membership} (h : Aged position touched row row') : Aged position touched' row row' :=
  h.imp_right fun ⟨hvisible, htouched, heq⟩ => ⟨hvisible, hmono _ _ htouched, heq⟩

lemma Extends.refl (t : AccountTables) : Extends position touched t t where
  mailboxes := .inl rfl
  memberships := fun row hrow => ⟨row, hrow, .inl rfl⟩
  uidState := fun _ state hstate => ⟨state, hstate, rfl, le_refl _⟩
  messages := .refl _
  headers := .refl _
  extractions := fun _ _ => id
  derived := fun row hrow => ⟨row, hrow, rfl, rfl, rfl, rfl, rfl⟩

lemma Extends.trans (h : Extends position touched t t') (h' : Extends position touched t' t'') :
    Extends position touched t t'' where
  mailboxes := by
    rcases h.mailboxes with heq | ⟨mailboxId, hadd, hfresh⟩
    · rw [← heq]
      exact h'.mailboxes
    · rcases h'.mailboxes with heq' | ⟨_, _, hfresh'⟩
      · exact .inr ⟨mailboxId, heq'.trans hadd, hfresh⟩
      · -- the INBOX is there already
        exact absurd rfl (hfresh' _ (hadd ▸ List.mem_append_right _ (List.mem_singleton_self _))).2
  memberships := by
    intro row hrow
    obtain ⟨row', hrow', haged⟩ := h.memberships row hrow
    obtain ⟨row'', hrow'', haged'⟩ := h'.memberships row' hrow'
    exact ⟨row'', hrow'', haged.trans haged'⟩
  uidState := by
    intro ns state hstate
    obtain ⟨state', hstate', hvalidity, hle⟩ := h.uidState ns state hstate
    obtain ⟨state'', hstate'', hvalidity', hle'⟩ := h'.uidState ns state' hstate'
    exact ⟨state'', hstate'', hvalidity'.trans hvalidity, hle.trans hle'⟩
  messages := h.messages.trans h'.messages
  headers := h.headers.trans h'.headers
  extractions := fun messageId row hrow => h'.extractions messageId row (h.extractions messageId row hrow)
  derived := by
    intro row hrow
    obtain ⟨row', hrow', hid, hview, hmessage, huid, hhash⟩ := h.derived row hrow
    obtain ⟨row'', hrow'', hid', hview', hmessage', huid', hhash'⟩ := h'.derived row' hrow'
    exact ⟨row'', hrow'', hid'.trans hid, hview'.trans hview, hmessage'.trans hmessage, huid'.trans huid,
      hhash'.trans hhash⟩

lemma Extends.mono (hmono : ∀ mailboxId uid, touched mailboxId uid → touched' mailboxId uid)
    (h : Extends position touched t t') : Extends position touched' t t' where
  mailboxes := h.mailboxes
  memberships := by
    intro row hrow
    obtain ⟨row', hrow', haged⟩ := h.memberships row hrow
    exact ⟨row', hrow', haged.mono hmono⟩
  uidState := h.uidState
  messages := h.messages
  headers := h.headers
  extractions := h.extractions
  derived := h.derived

/-- From well-formed rows to well-formed rows that extend them. -/
def Advances (position : Position) (touched : CString → ℕ → Prop) (t t' : AccountTables) : Prop :=
  WellFormed t → WellFormed t' ∧ Extends position touched t t'

lemma Advances.refl (t : AccountTables) : Advances position touched t t := fun h => ⟨h, .refl t⟩

lemma Advances.trans (h : Advances position touched t t') (h' : Advances position touched t' t'') :
    Advances position touched t t'' := by
  intro hw
  obtain ⟨hw', he⟩ := h hw
  obtain ⟨hw'', he'⟩ := h' hw'
  exact ⟨hw'', he.trans he'⟩

lemma Advances.mono (hmono : ∀ mailboxId uid, touched mailboxId uid → touched' mailboxId uid)
    (h : Advances position touched t t') : Advances position touched' t t' :=
  fun hw => ⟨(h hw).1, (h hw).2.mono hmono⟩

/-- A fold of advancing steps advances. -/
lemma advances_foldlM {α ε : Type} {f : AccountTables → α → Except ε AccountTables} {l : List α}
    (hf : ∀ a ∈ l, ∀ s s', f s a = .ok s' → Advances position touched s s')
    (h : l.foldlM f t = .ok t') : Advances position touched t t' := by
  induction l generalizing t with
  | nil =>
    rw [List.foldlM_nil] at h
    cases h
    exact .refl _
  | cons a l ih =>
    rw [List.foldlM_cons, bind_eq_ok] at h
    obtain ⟨s, hs, hrest⟩ := h
    exact (hf a List.mem_cons_self t s hs).trans
      (ih (fun b hb => hf b (List.mem_cons_of_mem _ hb)) hrest)

/-! ## Lookups -/

lemma find?_of_nodup {α β : Type} [DecidableEq β] {key : α → β} {l : List α} (h : (l.map key).Nodup)
    {a : α} (ha : a ∈ l) : l.find? (fun b => key b = key a) = some a := by
  induction l with
  | nil => simp at ha
  | cons b l ih =>
    rw [List.map_cons, List.nodup_cons] at h
    rcases List.mem_cons.mp ha with rfl | hmem
    · simp
    · have hne : key b ≠ key a := fun heq => h.1 (heq ▸ List.mem_map_of_mem hmem)
      rw [List.find?_cons_of_neg (by simpa using hne)]
      exact ih h.2 hmem

lemma findMembership_eq_some (hw : WellFormed t) {membershipId : CString} {row : Membership} :
    t.findMembership membershipId = some row ↔ row ∈ t.memberships ∧ row.membershipId = membershipId := by
  constructor
  · intro h
    exact ⟨List.mem_of_find?_eq_some h, by simpa using List.find?_some h⟩
  · rintro ⟨hmem, rfl⟩
    exact find?_of_nodup hw.ids_nodup hmem

lemma findUid_eq_some (hw : WellFormed t) {mailboxId : CString} {uidvalidity uid : ℕ} {row : Membership} :
    t.findUid mailboxId uidvalidity uid = some row ↔
      (t.uidState (.mailbox mailboxId)).map UidState.uidvalidity = some uidvalidity ∧
      row ∈ t.memberships ∧ row.mailboxId = mailboxId ∧ row.uid = uid := by
  unfold AccountTables.findUid
  split
  · rename_i hvalidity
    constructor
    · intro h
      exact ⟨hvalidity, List.mem_of_find?_eq_some h, by simpa using List.find?_some h⟩
    · rintro ⟨-, hmem, rfl, rfl⟩
      have hfind := find?_of_nodup hw.uids_nodup hmem
      simpa only [Prod.mk.injEq] using hfind
  · rename_i hvalidity
    simp [hvalidity]

lemma Extends.findMembership (h : Extends position touched t t') (hw : WellFormed t) (hw' : WellFormed t')
    {membershipId : CString} {row : Membership} (hrow : t.findMembership membershipId = some row) :
    ∃ row', t'.findMembership membershipId = some row' ∧ Aged position touched row row' := by
  obtain ⟨hmem, hid⟩ := (findMembership_eq_some hw).mp hrow
  obtain ⟨row', hmem', haged⟩ := h.memberships row hmem
  refine ⟨row', (findMembership_eq_some hw').mpr ⟨hmem', ?_⟩, haged⟩
  rcases haged with rfl | ⟨-, -, rfl⟩
  · exact hid
  · exact hid

lemma Extends.uidvalidity (h : Extends position touched t t') {ns : Namespace} {uidvalidity : ℕ}
    (hstate : (t.uidState ns).map UidState.uidvalidity = some uidvalidity) :
    (t'.uidState ns).map UidState.uidvalidity = some uidvalidity := by
  obtain ⟨state, hsome, heq⟩ := Option.map_eq_some_iff.mp hstate
  obtain ⟨state', hsome', hvalidity, -⟩ := h.uidState ns state hsome
  rw [hsome', Option.map_some, hvalidity, heq]

lemma Extends.findUid (h : Extends position touched t t') (hw : WellFormed t) (hw' : WellFormed t')
    {mailboxId : CString} {uidvalidity uid : ℕ} {row : Membership}
    (hrow : t.findUid mailboxId uidvalidity uid = some row) :
    ∃ row', t'.findUid mailboxId uidvalidity uid = some row' ∧ Aged position touched row row' := by
  obtain ⟨hvalidity, hmem, hmailbox, huid⟩ := (findUid_eq_some hw).mp hrow
  obtain ⟨row', hmem', haged⟩ := h.memberships row hmem
  refine ⟨row', (findUid_eq_some hw').mpr ⟨h.uidvalidity hvalidity, hmem', ?_⟩, haged⟩
  rcases haged with rfl | ⟨-, -, rfl⟩
  · exact ⟨hmailbox, huid⟩
  · exact ⟨hmailbox, huid⟩

/-! ## UID state -/

lemma setUidState_advances {ns : Namespace} {state : UidState}
    (hraise : ∀ old, t.uidState ns = some old →
      state.uidvalidity = old.uidvalidity ∧ old.uidnext ≤ state.uidnext)
    (hle : state.uidnext ≤ maxGuint64) : Advances position touched t (t.setUidState ns state) := by
  have hstates : ∀ other old, t.uidState other = some old → ∃ new,
      (t.setUidState ns state).uidState other = some new ∧ new.uidvalidity = old.uidvalidity ∧
      old.uidnext ≤ new.uidnext := by
    intro other old hold
    by_cases hother : other = ns
    · subst hother
      exact ⟨state, Function.update_self .., hraise old hold⟩
    · exact ⟨old, (Function.update_of_ne hother ..).trans hold, rfl, le_refl _⟩
  intro hw
  refine ⟨⟨hw.ids_nodup, hw.uids_nodup, ?_, ?_, hw.derived_nodup⟩, ⟨.inl rfl,
    fun row hrow => ⟨row, hrow, .inl rfl⟩, hstates, .refl _, .refl _, fun _ _ => id,
    fun row hrow => ⟨row, hrow, rfl, rfl, rfl, rfl, rfl⟩⟩⟩
  · intro row hrow
    obtain ⟨old, hold, hlt⟩ := hw.uid_lt row hrow
    obtain ⟨new, hnew, -, hraised⟩ := hstates _ old hold
    exact ⟨new, hnew, hlt.trans_le hraised⟩
  · intro other new hnew
    by_cases hother : other = ns
    · subst hother
      change Function.update t.uidState other (some state) other = some new at hnew
      rw [Function.update_self, Option.some.injEq] at hnew
      rwa [← hnew]
    · change Function.update t.uidState ns (some state) other = some new at hnew
      rw [Function.update_of_ne hother] at hnew
      exact hw.uidnext_le other new hnew

lemma insertUidState_eq_ok {ns : Namespace} {state : UidState} (h : t.insertUidState ns state = .ok t') :
    (1 ≤ state.uidnext ∧ 1 ≤ state.uidvalidity) ∧
      ((∃ old, t.uidState ns = some old) ∧ t' = t ∨
        t.uidState ns = none ∧ t' = t.setUidState ns state) := by
  rw [AccountTables.insertUidState, bind_eq_ok] at h
  obtain ⟨u, hpos, hinsert⟩ := h
  rw [require_eq_ok] at hpos
  refine ⟨hpos, ?_⟩
  split at hinsert
  · rename_i old hold
    cases hinsert
    exact .inl ⟨⟨old, hold⟩, rfl⟩
  · rename_i hnone
    cases hinsert
    exact .inr ⟨hnone, rfl⟩

lemma insertUidState_advances {ns : Namespace} {state : UidState} (hle : state.uidnext ≤ maxGuint64)
    (h : t.insertUidState ns state = .ok t') : Advances position touched t t' := by
  rcases (insertUidState_eq_ok h).2 with ⟨-, rfl⟩ | ⟨hnone, rfl⟩
  · exact .refl t'
  · exact setUidState_advances (fun old hold => by simp [hnone] at hold) hle

lemma insertUidState_some {ns : Namespace} {state : UidState} (h : t.insertUidState ns state = .ok t') :
    ∃ new, t'.uidState ns = some new := by
  rcases (insertUidState_eq_ok h).2 with ⟨hsome, rfl⟩ | ⟨-, rfl⟩
  · exact hsome
  · exact ⟨state, Function.update_self ..⟩

/-- The row is there already. -/
lemma insertUidState_self {ns : Namespace} {state old : UidState}
    (hpos : 1 ≤ state.uidnext ∧ 1 ≤ state.uidvalidity) (hold : t.uidState ns = some old) :
    t.insertUidState ns state = .ok t := by
  rw [AccountTables.insertUidState, bind_eq_ok]
  refine ⟨(), require_eq_ok.mpr hpos, ?_⟩
  rw [hold]

lemma setUidState_self {ns : Namespace} {state : UidState} (h : t.uidState ns = some state) :
    t.setUidState ns state = t := by
  have hsame : Function.update t.uidState ns (some state) = t.uidState := by
    rw [← h, Function.update_eq_self]
  rw [AccountTables.setUidState, hsame]

lemma updateUidnext_eq_ok {ns : Namespace} {f : ℕ → ℕ} {state : UidState} (hstate : t.uidState ns = some state)
    (h : t.updateUidnext ns f = .ok t') :
    1 ≤ f state.uidnext ∧ t' = t.setUidState ns { state with uidnext := f state.uidnext } := by
  rw [AccountTables.updateUidnext, hstate] at h
  simp only [bind_eq_ok, require_eq_ok] at h
  obtain ⟨-, hpos, heq⟩ := h
  cases heq
  exact ⟨hpos, rfl⟩

/-- A UIDNEXT that is the one stored already is no change. -/
lemma updateUidnext_self {ns : Namespace} {f : ℕ → ℕ} {state : UidState} (hstate : t.uidState ns = some state)
    (hf : f state.uidnext = state.uidnext) (hpos : 1 ≤ state.uidnext) : t.updateUidnext ns f = .ok t := by
  rw [AccountTables.updateUidnext, hstate]
  simp only [bind_eq_ok, require_eq_ok, hf]
  exact ⟨(), hpos, by rw [setUidState_self hstate]⟩

/-! ## Memberships -/

lemma insertMembershipRow_eq_ok {row : Membership} (h : t.insertMembershipRow row = .ok t') :
    1 ≤ row.uid ∧ (∀ other ∈ t.memberships, AccountTables.membershipsConflict row other = false) ∧
      t' = { t with memberships := t.memberships ++ [row] } := by
  rw [AccountTables.insertMembershipRow, bind_eq_ok] at h
  obtain ⟨u, hguard, heq⟩ := h
  rw [require_eq_ok, List.all_eq_true] at hguard
  cases heq
  exact ⟨hguard.1, fun other hother => by simpa using hguard.2 other hother, rfl⟩

/-- A new membership whose UID the raised UIDNEXT covers. -/
lemma insertMembershipRow_advances {row : Membership} {state : UidState} {uidnext : ℕ}
    (h : t.insertMembershipRow row = .ok t') (hstate : t.uidState (.mailbox row.mailboxId) = some state)
    (huid : row.uid < uidnext) (hraise : state.uidnext ≤ uidnext) (hle : uidnext ≤ maxGuint64) :
    Advances position touched t
      (t'.setUidState (.mailbox row.mailboxId) { state with uidnext := uidnext }) := by
  obtain ⟨-, hfresh, rfl⟩ := insertMembershipRow_eq_ok h
  intro hw
  obtain ⟨hraised, hextends⟩ := @setUidState_advances position touched t (.mailbox row.mailboxId)
    { state with uidnext := uidnext }
    (fun old hold => by
      rw [hstate, Option.some.injEq] at hold
      exact ⟨by rw [← hold], by rwa [← hold]⟩) hle hw
  have hother : ∀ other ∈ t.memberships, row.membershipId ≠ other.membershipId ∧
      ¬(row.mailboxId = other.mailboxId ∧ row.uid = other.uid) := by
    intro other hmem
    have hconflict := hfresh other hmem
    simp only [AccountTables.membershipsConflict, decide_eq_false_iff_not, not_or] at hconflict
    exact ⟨hconflict.1, hconflict.2.1⟩
  refine ⟨⟨?_, ?_, ?_, hraised.uidnext_le, hraised.derived_nodup⟩, { hextends with memberships := ?_ }⟩
  · change ((t.memberships ++ [row]).map _).Nodup
    rw [List.map_append, List.nodup_append]
    refine ⟨hw.ids_nodup, List.nodup_singleton _, ?_⟩
    intro a ha b hb
    obtain ⟨other, hmem, rfl⟩ := List.mem_map.mp ha
    rw [List.map_singleton, List.mem_singleton] at hb
    rw [hb]
    exact (hother other hmem).1.symm
  · change ((t.memberships ++ [row]).map _).Nodup
    rw [List.map_append, List.nodup_append]
    refine ⟨hw.uids_nodup, List.nodup_singleton _, ?_⟩
    intro a ha b hb
    obtain ⟨other, hmem, rfl⟩ := List.mem_map.mp ha
    rw [List.map_singleton, List.mem_singleton] at hb
    rw [hb, Ne, Prod.mk.injEq]
    exact fun heq => (hother other hmem).2 ⟨heq.1.symm, heq.2.symm⟩
  · intro other hmem
    rcases List.mem_append.mp hmem with hold | hnew
    · exact hraised.uid_lt other hold
    · rw [List.mem_singleton.mp hnew]
      exact ⟨{ state with uidnext := uidnext }, Function.update_self .., huid⟩
  · exact fun other hmem => ⟨other, List.mem_append_left _ hmem, .inl rfl⟩

lemma expungeRow_advances {row : Membership} (hmem : row ∈ t.memberships) (hvisible : row.isVisible = true)
    (htouched : touched row.mailboxId row.uid) :
    Advances position touched t (t.expungeRow row.membershipId position) := by
  have hkept : ∀ {α : Type} (f : Membership → α), (∀ r, f { r with
      isVisible := false, expunged := some position } = f r) →
      (t.expungeRow row.membershipId position).memberships.map f = t.memberships.map f := by
    intro α f hf
    rw [AccountTables.expungeRow, List.map_map]
    apply List.map_congr_left
    intro r _
    rw [Function.comp_apply]
    split
    · exact hf r
    · rfl
  intro hw
  refine ⟨⟨?_, ?_, ?_, hw.uidnext_le, hw.derived_nodup⟩, { @Extends.refl position touched t with memberships := ?_ }⟩
  · rw [hkept _ fun _ => rfl]
    exact hw.ids_nodup
  · rw [hkept _ fun _ => rfl]
    exact hw.uids_nodup
  · intro r hr
    obtain ⟨r', hr', rfl⟩ := List.mem_map.mp hr
    have hlt := hw.uid_lt r' hr'
    split
    · exact hlt
    · exact hlt
  · intro r hr
    refine ⟨_, List.mem_map_of_mem hr, ?_⟩
    split
    · rename_i hid
      have heq : r = row := List.inj_on_of_nodup_map hw.ids_nodup hr hmem hid
      subst heq
      exact .inr ⟨hvisible, htouched, rfl⟩
    · exact .inl rfl

/-! ## Mailboxes, messages and extractions -/

lemma insertMailbox_advances (seed : Provisioned) (account mailboxId : CString) :
    Advances position touched t (insertMailbox seed account t mailboxId inboxName) := by
  intro hw
  unfold insertMailbox
  split
  · exact ⟨hw, .refl t⟩
  · rename_i hfree
    refine ⟨⟨hw.ids_nodup, hw.uids_nodup, hw.uid_lt, hw.uidnext_le, hw.derived_nodup⟩,
      { @Extends.refl position touched t with mailboxes := .inr ⟨mailboxId, rfl, ?_⟩ }⟩
    intro row hrow
    simp only [not_or, List.any_eq_true, decide_eq_true_eq, not_exists, not_and] at hfree
    exact hfree.2 row hrow

lemma ensureMailbox_eq_ok {seed : Provisioned} {account mailboxId imapName : CString}
    (h : ensureMailbox seed account t mailboxId imapName = .ok t') :
    t' = insertMailbox seed account t mailboxId imapName ∧
      ensureMailboxExact t' mailboxId imapName = .ok () := by
  simp only [ensureMailbox, bind_eq_ok] at h
  obtain ⟨u, hexact, heq⟩ := h
  cases heq
  exact ⟨rfl, hexact⟩

lemma ensureMailboxExact_mem {mailboxId imapName : CString}
    (h : ensureMailboxExact t mailboxId imapName = .ok ()) :
    ∃ row ∈ t.mailboxes, row.mailboxId = mailboxId ∧ row.imapName = imapName := by
  simp only [ensureMailboxExact, bind_eq_ok, require_eq_ok] at h
  obtain ⟨-, -, hone⟩ := h
  have hpos := List.countP_pos_iff.mp (by rw [hone]; exact Nat.one_pos)
  obtain ⟨row, hrow, hp⟩ := hpos
  rw [decide_eq_true_eq] at hp
  exact ⟨row, hrow, hp.1, hp.2.1⟩

/-- The mailbox is there already. -/
lemma ensureMailbox_self {mailboxId imapName : CString} (seed : Provisioned) (account : CString)
    (h : ensureMailboxExact t mailboxId imapName = .ok ()) :
    ensureMailbox seed account t mailboxId imapName = .ok t := by
  obtain ⟨row, hrow, hid, -⟩ := ensureMailboxExact_mem h
  have hsame : insertMailbox seed account t mailboxId imapName = t := by
    rw [insertMailbox, if_pos]
    exact .inr (List.any_eq_true.mpr ⟨row, hrow, by simp [hid]⟩)
  simp only [ensureMailbox, hsame, bind_eq_ok]
  exact ⟨(), h, trivial⟩

/-- Once the INBOX is there the mailboxes do not change. -/
lemma Extends.mailboxes_of_inbox (h : Extends position touched t t') {mailboxId : CString}
    (hinbox : ensureMailboxExact t mailboxId inboxName = .ok ()) : t'.mailboxes = t.mailboxes := by
  rcases h.mailboxes with hsame | ⟨_, -, hfresh⟩
  · exact hsame
  · obtain ⟨row, hrow, -, hname⟩ := ensureMailboxExact_mem hinbox
    exact absurd hname (hfresh row hrow).2

lemma Extends.hasMailbox (h : Extends position touched t t') {mailboxId : CString}
    (hhas : t.hasMailbox mailboxId = true) : t'.hasMailbox mailboxId = true := by
  rcases h.mailboxes with hsame | ⟨added, hadd, hfresh⟩
  · rwa [AccountTables.hasMailbox, hsame]
  · rw [AccountTables.hasMailbox, decide_eq_true_eq] at hhas ⊢
    have hne : added ≠ mailboxId := by
      rintro rfl
      obtain ⟨row, hrow, hp⟩ := List.countP_pos_iff.mp (by rw [hhas]; exact Nat.one_pos)
      rw [decide_eq_true_eq] at hp
      exact (hfresh row hrow).1 hp.1
    rw [hadd, List.countP_append, hhas, List.countP_cons_of_neg (by simp [hne])]
    rfl

section
variable {record : MessageRecord}

lemma ensureMessage_eq_ok (h : ensureMessage t position record = .ok t') :
    ∃ messages, t.messages.register (journalMessageId position) ⟨record.objectKey, position⟩ =
      some messages ∧ t' = { t with messages := messages } := by
  unfold ensureMessage at h
  split at h
  · rename_i messages hmessages
    cases h
    exact ⟨messages, hmessages, rfl⟩
  · simp at h

lemma ensureMessageHeaders_eq_ok (h : ensureMessageHeaders t position record = .ok t') :
    ∃ headers, t.headers.register (journalMessageId position) (headersRow record.metadata position) =
      some headers ∧ t' = { t with headers := headers } := by
  unfold ensureMessageHeaders at h
  split at h
  · rename_i headers hheaders
    cases h
    exact ⟨headers, hheaders, rfl⟩
  · simp at h

lemma ensureMessage_advances {at' : Position} (h : ensureMessage t at' record = .ok t') :
    Advances position touched t t' := by
  obtain ⟨messages, hmessages, rfl⟩ := ensureMessage_eq_ok h
  intro hw
  exact ⟨⟨hw.ids_nodup, hw.uids_nodup, hw.uid_lt, hw.uidnext_le, hw.derived_nodup⟩,
    { @Extends.refl position touched t with messages := (Registry.register_eq_some hmessages).2.1 }⟩

lemma ensureMessageHeaders_advances {at' : Position} (h : ensureMessageHeaders t at' record = .ok t') :
    Advances position touched t t' := by
  obtain ⟨headers, hheaders, rfl⟩ := ensureMessageHeaders_eq_ok h
  intro hw
  exact ⟨⟨hw.ids_nodup, hw.uids_nodup, hw.uid_lt, hw.uidnext_le, hw.derived_nodup⟩,
    { @Extends.refl position touched t with headers := (Registry.register_eq_some hheaders).2.1 }⟩

end

lemma insertExtraction_advances {messageId : CString} (hnone : t.extractions messageId = none)
    (row : FactExtraction) : Advances position touched t
      { t with extractions := Function.update t.extractions messageId (some row) } := by
  intro hw
  refine ⟨⟨hw.ids_nodup, hw.uids_nodup, hw.uid_lt, hw.uidnext_le, hw.derived_nodup⟩,
    { @Extends.refl position touched t with extractions := ?_ }⟩
  intro other old hold
  have hne : other ≠ messageId := by
    rintro rfl
    simp [hnone] at hold
  exact (Function.update_of_ne hne ..).trans hold

/-! ## Derived memberships -/

lemma insertDerivedRow_eq_ok {row : DerivedMembership} (h : insertDerivedRow t row = .ok t') :
    (∀ other ∈ t.derived, derivedConflict row other = false) ∧
      t' = { t with derived := t.derived ++ [row] } := by
  rw [insertDerivedRow, bind_eq_ok] at h
  obtain ⟨u, hguard, heq⟩ := h
  rw [require_eq_ok, List.all_eq_true] at hguard
  cases heq
  exact ⟨fun other hother => by simpa using hguard.2 other hother, rfl⟩

lemma insertDerivedRow_advances {row : DerivedMembership} (h : insertDerivedRow t row = .ok t') :
    Advances position touched t t' := by
  obtain ⟨hfresh, rfl⟩ := insertDerivedRow_eq_ok h
  intro hw
  refine ⟨⟨hw.ids_nodup, hw.uids_nodup, hw.uid_lt, hw.uidnext_le, ?_⟩,
    { @Extends.refl position touched t with derived := fun other hmem =>
        ⟨other, List.mem_append_left _ hmem, rfl, rfl, rfl, rfl, rfl⟩ }⟩
  change ((t.derived ++ [row]).map _).Nodup
  rw [List.map_append, List.nodup_append]
  refine ⟨hw.derived_nodup, List.nodup_singleton _, ?_⟩
  intro a ha b hb
  obtain ⟨other, hmem, rfl⟩ := List.mem_map.mp ha
  rw [List.map_singleton, List.mem_singleton] at hb
  have hconflict := hfresh other hmem
  simp only [derivedConflict, decide_eq_false_iff_not, not_or] at hconflict
  rw [hb]
  exact Ne.symm hconflict.1

lemma updateDerivedRow_advances (membershipId : CString) (isVisible : Bool) (materializedAtUnixUs : ℕ) :
    Advances position touched t (updateDerivedRow t membershipId isVisible materializedAtUnixUs) := by
  intro hw
  refine ⟨⟨hw.ids_nodup, hw.uids_nodup, hw.uid_lt, hw.uidnext_le, ?_⟩,
    { @Extends.refl position touched t with derived := ?_ }⟩
  · have hkept : (updateDerivedRow t membershipId isVisible materializedAtUnixUs).derived.map
        DerivedMembership.membershipId = t.derived.map DerivedMembership.membershipId := by
      rw [updateDerivedRow, List.map_map]
      apply List.map_congr_left
      intro r _
      rw [Function.comp_apply]
      split <;> rfl
    rw [hkept]
    exact hw.derived_nodup
  · intro r hr
    refine ⟨_, List.mem_map_of_mem hr, ?_⟩
    split <;> exact ⟨rfl, rfl, rfl, rfl, rfl⟩

end
end Wyrebox.AccountRows
