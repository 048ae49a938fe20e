import Wyrebox.AccountIsolation
import Wyrebox.StoredCatalog

set_option autoImplicit false

/-!
# LIST and SELECT

What LIST shows of an account can be selected, by its name and by its id.
-/
namespace Wyrebox.ListSelect
open Catalog CatalogRuns CatalogReads StoredCatalog Joins Fallible
open AccountIsolation (mem_visibleMailboxes listedBox_unique)
open DerivedViewMaterializer DerivedViewAgreement
open DovecotSync (Kind maxUint32)
open Event
open JournalRecord (Sha256)

/-! ## LIST -/

section
variable {c : CatalogRows} {accountId namespacePrefix : CString} {entries : List ListEntry} {entry : ListEntry}

def entryOf (c : CatalogRows) (accountId : CString) (box : ListedBox) : ListEntry :=
  ⟨box.kind, box.stableId, box.imapName, box.isSelectable,
    (visibleMailboxes c accountId).any fun child => isBelow box.imapName child.imapName⟩

/-- The texts that the result of LIST or SELECT checks. -/
def HasTexts (stableId imapName : CString) : Prop :=
  validateRequiredText stableId = .ok () ∧ validateRequiredText imapName = .ok ()

lemma listEntry_eq_ok {box : ListedBox} (h : listEntry (visibleMailboxes c accountId) box = .ok entry) :
    HasTexts box.stableId box.imapName ∧ entryOf c accountId box = entry := by
  simp only [listEntry, bind_eq_ok] at h
  obtain ⟨_, hid, _, hname, heq⟩ := h
  exact ⟨⟨hid, hname⟩, Except.ok.inj heq⟩

def listedBoxes (c : CatalogRows) (accountId namespacePrefix : CString) : List ListedBox :=
  orderBy listKey ((visibleMailboxes c accountId).filter (isListed namespacePrefix))

lemma list_eq_ok (h : list c accountId namespacePrefix = .ok entries) :
    entries = (listedBoxes c accountId namespacePrefix).map (entryOf c accountId) ∧
      ∀ box ∈ listedBoxes c accountId namespacePrefix, HasTexts box.stableId box.imapName := by
  have hentries := (mapM_eq_ok.mp h).imp fun _ _ hentry => listEntry_eq_ok hentry
  obtain ⟨htexts, heq⟩ := (List.forall₂_and_left _ _).mp hentries
  rw [← List.forall₂_map_left_iff, List.forall₂_eq_eq_eq] at heq
  exact ⟨heq.symm, htexts⟩

/-- An entry is a visible box of the account. -/
lemma mem_list (h : list c accountId namespacePrefix = .ok entries) (hentry : entry ∈ entries) :
    ∃ listed ∈ visibleMailboxes c accountId, isListed namespacePrefix listed = true ∧
      HasTexts listed.stableId listed.imapName ∧ entryOf c accountId listed = entry := by
  obtain ⟨rfl, htexts⟩ := list_eq_ok h
  obtain ⟨listed, hlisted, rfl⟩ := List.mem_map.mp hentry
  obtain ⟨hvisible, hprefix⟩ := List.mem_filter.mp (mem_orderBy.mp hlisted)
  exact ⟨listed, hvisible, hprefix, htexts listed hlisted, rfl⟩

/-- A name is that of one visible mailbox, or of one visible view that no mailbox hides. -/
lemma visibleMailboxes_names : ((visibleMailboxes c accountId).map ListedBox.imapName).Nodup := by
  have hkind : ∀ kind, (((c.boxes kind).filter (isShown c accountId kind)).map fun box => box.row.imapName).Nodup := by
    intro kind
    refine List.pairwise_map.mpr (((List.pairwise_map.mp (c.boxNames_nodup kind)).filter _).imp_of_mem ?_)
    intro box box' hbox hbox' hne hname
    have hshown := of_decide_eq_true (List.mem_filter.mp hbox).2
    have hshown' := of_decide_eq_true (List.mem_filter.mp hbox').2
    exact hne (Prod.ext (hshown.1.trans hshown'.1.symm) hname)
  rw [visibleMailboxes, List.map_append, List.map_map, List.map_map, List.nodup_append]
  refine ⟨hkind .ordinary, hkind .virtual, fun name hname name' hname' heq => ?_⟩
  obtain ⟨box, hbox, rfl⟩ := List.mem_map.mp hname
  obtain ⟨view, hview, rfl⟩ := List.mem_map.mp hname'
  obtain ⟨hbox, hshown⟩ := List.mem_filter.mp hbox
  have hshown := of_decide_eq_true hshown
  obtain ⟨haccount, -, hfree⟩ := of_decide_eq_true (List.mem_filter.mp hview).2
  have hshadowed : isShadowed c view.accountId view.row.imapName = true := by
    rw [isShadowed, List.any_eq_true]
    exact ⟨box, hbox, decide_eq_true ⟨hshown.1.trans haccount.symm, heq, hshown.2.1⟩⟩
  rw [hfree rfl] at hshadowed
  cases hshadowed

lemma list_names (h : list c accountId namespacePrefix = .ok entries) : (entries.map ListEntry.mailboxName).Nodup := by
  obtain ⟨rfl, -⟩ := list_eq_ok h
  rw [List.map_map, listedBoxes]
  refine ((orderBy_perm _ _).map _).nodup_iff.mpr ?_
  exact visibleMailboxes_names.sublist (List.filter_sublist.map _)

/-- A name is below exactly if the unfiltered LIST has such a name. -/
lemma list_children {all : List ListEntry} (h : list c accountId namespacePrefix = .ok entries)
    (hall : list c accountId .empty = .ok all) (hentry : entry ∈ entries) :
    entry.hasChildren = true ↔ ∃ other ∈ all, isBelow entry.mailboxName other.mailboxName = true := by
  obtain ⟨listed, -, -, -, rfl⟩ := mem_list h hentry
  obtain ⟨rfl, -⟩ := list_eq_ok hall
  have hlisted : ∀ child, child ∈ listedBoxes c accountId .empty ↔ child ∈ visibleMailboxes c accountId := by
    intro child
    rw [listedBoxes, mem_orderBy, List.mem_filter]
    exact and_iff_left (decide_eq_true (.inl rfl))
  rw [entryOf, List.any_eq_true]
  constructor
  · rintro ⟨child, hchild, hbelow⟩
    exact ⟨_, List.mem_map_of_mem ((hlisted child).mpr hchild), hbelow⟩
  · rintro ⟨other, hother, hbelow⟩
    obtain ⟨child, hchild, rfl⟩ := List.mem_map.mp hother
    exact ⟨child, (hlisted child).mp hchild, hbelow⟩

end

/-! ## SELECT -/

section
variable {c : CatalogRows} {accountId : CString} {kind : Kind} {selector : Selector}

/-- A box that the selector chooses, with its UID state. -/
structure Chosen (c : CatalogRows) (accountId : CString) (kind : Kind) (selector : Selector) (box : Owned Box)
    (state : Owned UidStateRow) : Prop where
  boxStored : box ∈ c.boxes kind
  stateStored : state ∈ c.uidStates
  on : hasUidState kind box state = true
  selected : isSelected c accountId kind selector (box, state) = true

lemma mem_selectedRows {row : SelectRow} : row ∈ selectedRows c accountId selector kind ↔
    ∃ box state, Chosen c accountId kind selector box state ∧ selectRow c kind (box, state) = row := by
  simp only [selectedRows, List.mem_map, List.mem_filter, mem_join]
  constructor
  · rintro ⟨p, ⟨⟨hbox, hstate, hon⟩, hselected⟩, rfl⟩
    exact ⟨p.1, p.2, ⟨hbox, hstate, hon, hselected⟩, rfl⟩
  · rintro ⟨box, state, hchosen, rfl⟩
    exact ⟨(box, state), ⟨⟨hchosen.boxStored, hchosen.stateStored, hchosen.on⟩, hchosen.selected⟩, rfl⟩

/-- A name or an id chooses one box of each kind, which has one UID state. -/
lemma Chosen.unique {box box' : Owned Box} {state state' : Owned UidStateRow}
    (h : Chosen c accountId kind selector box state) (h' : Chosen c accountId kind selector box' state') :
    box = box' ∧ state = state' := by
  have hselected := h.selected
  have hselected' := h'.selected
  have hon := h.on
  have hon' := h'.on
  simp only [isSelected, hasUidState, decide_eq_true_eq] at hselected hselected' hon hon'
  have hbox : box = box' := by
    cases selector with
    | id mailboxId =>
      have hid : box.row.stableId = mailboxId := of_decide_eq_true hselected.2.2
      have hid' : box'.row.stableId = mailboxId := of_decide_eq_true hselected'.2.2
      refine List.inj_on_of_nodup_map (c.boxIds_nodup kind) h.boxStored h'.boxStored ?_
      exact Prod.ext (hselected.1.trans hselected'.1.symm) (hid.trans hid'.symm)
    | name mailboxName =>
      have hname := (of_decide_eq_true hselected.2.2).1
      have hname' := (of_decide_eq_true hselected'.2.2).1
      refine List.inj_on_of_nodup_map (c.boxNames_nodup kind) h.boxStored h'.boxStored ?_
      exact Prod.ext (hselected.1.trans hselected'.1.symm) (hname.trans hname'.symm)
  refine ⟨hbox, List.inj_on_of_nodup_map c.uidStates_nodup h.stateStored h'.stateStored ?_⟩
  rw [hon.1, hon'.1, hon.2.1, hon'.2.1, hon.2.2, hon'.2.2, hbox]

lemma selectedRows_eq {box : Owned Box} {state : Owned UidStateRow} (h : Chosen c accountId kind selector box state) :
    selectedRows c accountId selector kind = [selectRow c kind (box, state)] := by
  have hboxes : (c.boxes kind).Nodup := (c.boxIds_nodup kind).of_map _
  have hpairs := (@join_nodup _ _ (hasUidState kind) _ _ hboxes (c.uidStates_nodup.of_map _)).filter
    (isSelected c accountId kind selector)
  have hone : (join (hasUidState kind) (c.boxes kind) c.uidStates).filter (isSelected c accountId kind selector) =
      [(box, state)] := by
    refine eq_singleton_of_unique hpairs (List.mem_filter.mpr ⟨mem_join.mpr ⟨h.boxStored, h.stateStored, h.on⟩, h.selected⟩) ?_
    intro p hp
    obtain ⟨hjoin, hselected⟩ := List.mem_filter.mp hp
    obtain ⟨hbox, hstate, hon⟩ := mem_join.mp hjoin
    obtain ⟨rfl, rfl⟩ := Chosen.unique ⟨hbox, hstate, hon, hselected⟩ h
    rfl
  rw [selectedRows, hone, List.map_singleton]

lemma selectedRows_nil (h : ∀ box state, ¬Chosen c accountId kind selector box state) :
    selectedRows c accountId selector kind = [] := by
  refine List.eq_nil_iff_forall_not_mem.mpr fun row hrow => ?_
  obtain ⟨box, state, hchosen, -⟩ := mem_selectedRows.mp hrow
  exact h box state hchosen

/-- The row is of the entry. -/
def SameEntry (entry : ListEntry) (kind : Kind) (mailboxId mailboxName : CString) : Prop :=
  kind = entry.kind ∧ mailboxId = entry.mailboxId ∧ mailboxName = entry.mailboxName

/-- SELECT answers the entry. -/
def Opens (c : CatalogRows) (accountId : CString) (selector : Selector) (entry : ListEntry) : Prop :=
  ∃ result, select c accountId selector = .ok result ∧ SameEntry entry result.kind result.mailboxId result.mailboxName

lemma selectResult_eq_ok {row : SelectRow} {result : SelectResult} : selectResult row = .ok result ↔
    HasTexts row.mailboxId row.mailboxName ∧ row.uidValidity ≠ 0 ∧ row.uidNext ≠ 0 ∧
      result = ⟨row.kind, row.mailboxId, row.mailboxName, row.uidValidity, row.uidNext, row.messageCount⟩ := by
  rw [selectResult, check_eq_ok, check_eq_ok, ite_error_eq_ok, ite_error_eq_ok, HasTexts, and_assoc, Except.ok.injEq]
  exact and_congr_right fun _ => and_congr_right fun _ => and_congr_right fun _ => and_congr_right fun _ => eq_comm

lemma oneRow_eq_ok {α : Type} {none several : ReadError} {rows : List α} {row : α} :
    oneRow none several rows = .ok row ↔ rows = [row] := by
  match rows with
  | [] => simp [oneRow]
  | [a] => simp [oneRow]
  | _ :: _ :: _ => simp [oneRow]

/-- SELECT answers a single row that it can present. -/
lemma select_eq_ok {result : SelectResult} : select c accountId selector = .ok result ↔
    ∃ row, selectRowsBySelector c accountId selector = [row] ∧ fitsUint32 row = true ∧ row.isSelectable = true ∧
      selectResult row = .ok result := by
  unfold select
  dsimp only
  rw [ite_error_eq_ok, bind_eq_ok]
  constructor
  · rintro ⟨hfits, row, hrow, hnext⟩
    rw [oneRow_eq_ok] at hrow
    rw [ite_error_eq_ok] at hnext
    simp only [hrow, List.all_cons, List.all_nil, Bool.and_true, Bool.not_eq_true', Bool.not_eq_false] at hfits hnext
    exact ⟨row, hrow, hfits, hnext⟩
  · rintro ⟨row, hrow, hfits, hselectable, hresult⟩
    refine ⟨by simp [hrow, hfits], row, oneRow_eq_ok.mpr hrow, ?_⟩
    rw [ite_error_eq_ok]
    exact ⟨by simp [hselectable], hresult⟩

end

/-! ## Selecting an entry -/

/-- The box that an entry of LIST shows. -/
structure IsEntry (c : CatalogRows) (accountId : CString) (entry : ListEntry) (shownBox : Owned Box) : Prop where
  stored : shownBox ∈ c.boxes entry.kind
  account : shownBox.accountId = accountId
  visible : shownBox.row.isVisible = true
  free : entry.kind = .virtual → isShadowed c accountId shownBox.row.imapName = false
  same : entry.mailboxId = shownBox.row.stableId ∧ entry.mailboxName = shownBox.row.imapName ∧
    entry.isSelectable = shownBox.row.isSelectable
  texts : HasTexts entry.mailboxId entry.mailboxName

/-- The entry has a UID state whose numbers are 32 bits wide. -/
def HasState (w : World) (accountId : CString) (entry : ListEntry) : Prop :=
  ∃ state, (w.tables accountId).uidState (namespaceOf entry.kind entry.mailboxId) = some state ∧
    state.uidvalidity ≤ maxUint32 ∧ state.uidnext ≤ maxUint32

/-- A visible box of the other kind has the same id and a UID state. -/
def HasTwin (w : World) (accountId : CString) (entry : ListEntry) : Prop :=
  ∃ kind, kind ≠ entry.kind ∧ ∃ twin ∈ boxesOf w accountId kind, twin.stableId = entry.mailboxId ∧ twin.isVisible = true ∧
    ∃ state, (w.tables accountId).uidState (namespaceOf kind entry.mailboxId) = some state

section
variable {seed : Provisioned} {c : CatalogRows} {w : World} {accountId namespacePrefix : CString} {kind : Kind}
  {selector : Selector} {entries : List ListEntry} {entry : ListEntry} {box : Owned Box} {state : Owned UidStateRow}

lemma isEntry_of_list (h : list c accountId namespacePrefix = .ok entries) (hentry : entry ∈ entries) :
    ∃ box, IsEntry c accountId entry box := by
  obtain ⟨listed, hlisted, -, htexts, rfl⟩ := mem_list h hentry
  obtain ⟨box, hbox, hshown, hsame⟩ := mem_visibleMailboxes.mp hlisted
  obtain ⟨haccount, hvisible, hfree⟩ := of_decide_eq_true hshown
  exact ⟨box, hbox, haccount, hvisible, fun hkind => haccount ▸ hfree hkind, ⟨congrArg ListedBox.stableId hsame.symm,
    congrArg ListedBox.imapName hsame.symm, congrArg ListedBox.isSelectable hsame.symm⟩, htexts⟩

lemma mem_selectRowsBySelector {row : SelectRow} : row ∈ selectRowsBySelector c accountId selector ↔
    row ∈ selectedRows c accountId selector row.kind := by
  have hkind : ∀ kind, row ∈ selectedRows c accountId selector kind → row.kind = kind := by
    intro kind hrow
    obtain ⟨box, state, -, rfl⟩ := mem_selectedRows.mp hrow
    rfl
  rw [selectRowsBySelector, List.mem_append]
  constructor
  · rintro (hrow | hrow)
    · rwa [hkind .ordinary hrow]
    · rwa [hkind .virtual hrow]
  · intro hrow
    cases hrowKind : row.kind with
    | ordinary =>
      rw [hrowKind] at hrow
      exact .inl hrow
    | virtual =>
      rw [hrowKind] at hrow
      exact .inr hrow

/-- Only the rows of one kind are selected. -/
lemma selectRows_of_kind (hothers : ∀ other, other ≠ kind → selectedRows c accountId selector other = []) :
    selectRowsBySelector c accountId selector = selectedRows c accountId selector kind := by
  cases kind with
  | ordinary => rw [selectRowsBySelector, hothers .virtual (by simp), List.append_nil]
  | virtual => rw [selectRowsBySelector, hothers .ordinary (by simp), List.nil_append]

lemma opens_row (h : Opens c accountId selector entry) : ∃ box state, Chosen c accountId entry.kind selector box state ∧
    selectRowsBySelector c accountId selector = [selectRow c entry.kind (box, state)] := by
  obtain ⟨result, hselect, hkind, -⟩ := h
  obtain ⟨row, hrows, -, -, hresult⟩ := select_eq_ok.mp hselect
  obtain ⟨-, -, -, rfl⟩ := selectResult_eq_ok.mp hresult
  have hrow : row ∈ selectedRows c accountId selector row.kind :=
    mem_selectRowsBySelector.mp (hrows ▸ List.mem_singleton_self row)
  obtain ⟨box, state, hchosen, heq⟩ := mem_selectedRows.mp hrow
  have hrowKind : row.kind = entry.kind := hkind
  rw [hrowKind] at hchosen heq
  exact ⟨box, state, hchosen, heq ▸ hrows⟩

/-- Visible memberships have different UIDs below UIDNEXT. -/
lemma messageCount_le (hstores : Stores c w accountId)
    (hsound : Sound seed accountId (w.catalog.session accountId) (w.views accountId)) (haccount : box.accountId = accountId)
    {stored : UidState} (hstate : (w.tables accountId).uidState (namespaceOf kind box.row.stableId) = some stored) :
    messageCount c kind box ≤ stored.uidnext := by
  let isCounted : Owned Member → Bool := fun member =>
    member.accountId = box.accountId ∧ member.row.boxId = box.row.stableId ∧ member.row.isVisible
  have hcounted : ∀ member ∈ (c.members kind).filter isCounted, member ∈ c.members kind ∧
      member.accountId = box.accountId ∧ member.row.boxId = box.row.stableId := by
    intro member hmember
    obtain ⟨hmem, hcondition⟩ := List.mem_filter.mp hmember
    have hcondition := of_decide_eq_true hcondition
    exact ⟨hmem, hcondition.1, hcondition.2.1⟩
  have hnodup : (((c.members kind).filter isCounted).map fun member => member.row.uid).Nodup := by
    refine List.pairwise_map.mpr (((List.pairwise_map.mp (c.uids_nodup kind)).filter _).imp_of_mem ?_)
    intro member other hmember hother hne huid
    obtain ⟨-, hown, hbox⟩ := hcounted member hmember
    obtain ⟨-, hown', hbox'⟩ := hcounted other hother
    exact hne (by rw [hown, hown', hbox, hbox', huid])
  have hrange : ((c.members kind).filter isCounted).map (fun member => member.row.uid) ⊆ List.range stored.uidnext := by
    intro uid huid
    obtain ⟨member, hmember, rfl⟩ := List.mem_map.mp huid
    obtain ⟨hmem, hown, hbox⟩ := hcounted member hmember
    obtain ⟨other, hother, hlt⟩ := membersOf_uid_lt hsound (hstores.mem_members hmem (hown.trans haccount))
    rw [hbox, hstate] at hother
    rw [List.mem_range, Option.some.inj hother]
    exact hlt
  have hlength := (hnodup.subperm hrange).length_le
  rw [List.length_map, List.length_range, ← List.countP_eq_length_filter] at hlength
  exact hlength

/-- Only the box of the entry is chosen. -/
lemma opens_single (hstores : Stores c w accountId)
    (hsound : Sound seed accountId (w.catalog.session accountId) (w.views accountId)) (hentry : IsEntry c accountId entry box)
    (hselectable : entry.isSelectable = true) (hchosen : Chosen c accountId entry.kind selector box state)
    (hothers : ∀ other, other ≠ entry.kind → selectedRows c accountId selector other = []) :
    Opens c accountId selector entry ↔ HasState w accountId entry := by
  have hon := of_decide_eq_true hchosen.on
  have hstate : (w.tables accountId).uidState (namespaceOf entry.kind entry.mailboxId) =
      some ⟨state.row.uidnext, state.row.uidvalidity⟩ := by
    have hstored := hstores.mem_uidStates hchosen.stateStored (hon.1.trans hentry.account)
    rwa [hon.2.1, hon.2.2, ← hentry.same.1] at hstored
  have hcount : messageCount c entry.kind box ≤ state.row.uidnext :=
    messageCount_le hstores hsound hentry.account (hentry.same.1 ▸ hstate)
  have hpos := hsound.stored.states _ _ hstate
  have hrows : selectRowsBySelector c accountId selector = [selectRow c entry.kind (box, state)] :=
    (selectRows_of_kind hothers).trans (selectedRows_eq hchosen)
  constructor
  · rintro ⟨result, hselect, -⟩
    obtain ⟨row, hrow, hfits, -⟩ := select_eq_ok.mp hselect
    obtain rfl := List.singleton_inj.mp (hrows.symm.trans hrow)
    have hfits := of_decide_eq_true hfits
    exact ⟨_, hstate, hfits.1, hfits.2.1⟩
  · rintro ⟨stored, hstored, hvalidity, hnext⟩
    obtain rfl := Option.some.inj (hstate.symm.trans hstored)
    have hfits : fitsUint32 (selectRow c entry.kind (box, state)) = true :=
      decide_eq_true ⟨hvalidity, hnext, hcount.trans hnext⟩
    have htexts : HasTexts box.row.stableId box.row.imapName := by
      rw [← hentry.same.1, ← hentry.same.2.1]
      exact hentry.texts
    have hvalidityPos : state.row.uidvalidity ≠ 0 := Nat.one_le_iff_ne_zero.mp hpos.2
    have hnextPos : state.row.uidnext ≠ 0 := Nat.one_le_iff_ne_zero.mp hpos.1
    have hresult := (@selectResult_eq_ok (selectRow c entry.kind (box, state)) _).mpr ⟨htexts, hvalidityPos, hnextPos, rfl⟩
    exact ⟨_, select_eq_ok.mpr ⟨_, hrows, hfits, hentry.same.2.2.symm.trans hselectable, hresult⟩, rfl, hentry.same.1.symm,
      hentry.same.2.1.symm⟩

/-- The UID state of the entry is the row that SELECT joins. -/
lemma hasState_row (hstores : Stores c w accountId) (hentry : IsEntry c accountId entry box)
    (h : HasState w accountId entry) : ∃ state ∈ c.uidStates, hasUidState entry.kind box state = true := by
  obtain ⟨stored, hstored, -⟩ := h
  refine ⟨⟨accountId, entry.kind, entry.mailboxId, stored.uidnext, stored.uidvalidity⟩, ?_, ?_⟩
  · exact (hstores.uidStates _).mpr hstored
  · exact decide_eq_true ⟨hentry.account.symm, rfl, hentry.same.1⟩

/-- No box of the other kind answers to the name of an entry. -/
lemma not_chosen_name (hentry : IsEntry c accountId entry box) {other : Kind} (hother : other ≠ entry.kind)
    (box' : Owned Box) (state : Owned UidStateRow) : ¬Chosen c accountId other (.name entry.mailboxName) box' state := by
  intro hchosen
  obtain ⟨haccount, hvisible, hmeets⟩ := of_decide_eq_true hchosen.selected
  obtain ⟨hname, hfree⟩ := of_decide_eq_true hmeets
  rw [hentry.same.2.1] at hname
  cases other with
  | virtual =>
    have hordinary : entry.kind = .ordinary := by
      cases hkind : entry.kind with
      | ordinary => rfl
      | virtual => exact absurd hkind.symm hother
    have hshadowed : isShadowed c box'.accountId box'.row.imapName = true := by
      rw [isShadowed, List.any_eq_true]
      exact ⟨box, hordinary ▸ hentry.stored, decide_eq_true ⟨hentry.account.trans haccount.symm, hname.symm, hentry.visible⟩⟩
    rw [hfree rfl] at hshadowed
    cases hshadowed
  | ordinary =>
    have hvirtual : entry.kind = .virtual := by
      cases hkind : entry.kind with
      | ordinary => exact absurd hkind.symm hother
      | virtual => rfl
    have hshadowed : isShadowed c accountId box.row.imapName = true := by
      rw [isShadowed, List.any_eq_true]
      exact ⟨box', hchosen.boxStored, decide_eq_true ⟨haccount, hname, hvisible⟩⟩
    rw [hentry.free hvirtual] at hshadowed
    cases hshadowed

/-- SELECT by name. -/
lemma opens_name_iff (hstores : Stores c w accountId)
    (hsound : Sound seed accountId (w.catalog.session accountId) (w.views accountId)) (hentry : IsEntry c accountId entry box)
    (hselectable : entry.isSelectable = true) :
    Opens c accountId (.name entry.mailboxName) entry ↔ HasState w accountId entry := by
  have hothers : ∀ other, other ≠ entry.kind → selectedRows c accountId (.name entry.mailboxName) other = [] :=
    fun other hother => selectedRows_nil (not_chosen_name hentry hother)
  have hselected : ∀ state, isSelected c accountId entry.kind (.name entry.mailboxName) (box, state) = true := by
    intro state
    refine decide_eq_true ⟨hentry.account, hentry.visible, decide_eq_true ⟨hentry.same.2.1.symm, fun hkind => ?_⟩⟩
    rw [hentry.account]
    exact hentry.free hkind
  constructor
  · intro hopens
    obtain ⟨box', state, hchosen, -⟩ := opens_row hopens
    have hname := (of_decide_eq_true (of_decide_eq_true hchosen.selected).2.2).1
    have hbox : box = box' := by
      refine List.inj_on_of_nodup_map (c.boxNames_nodup entry.kind) hentry.stored hchosen.boxStored ?_
      exact Prod.ext (hentry.account.trans (of_decide_eq_true hchosen.selected).1.symm) (hentry.same.2.1.symm.trans hname.symm)
    subst hbox
    exact (opens_single hstores hsound hentry hselectable hchosen hothers).mp hopens
  · intro hstate
    obtain ⟨state, hstored, hon⟩ := hasState_row hstores hentry hstate
    exact (opens_single hstores hsound hentry hselectable ⟨hentry.stored, hstored, hon, hselected state⟩ hothers).mpr hstate

/-- A box of the other kind is chosen by the id exactly if the entry has a twin. -/
lemma hasTwin_iff (hstores : Stores c w accountId) : HasTwin w accountId entry ↔
    ∃ other, other ≠ entry.kind ∧ ∃ box state, Chosen c accountId other (.id entry.mailboxId) box state := by
  constructor
  · rintro ⟨other, hother, twin, htwin, hid, hvisible, stored, hstored⟩
    refine ⟨other, hother, ⟨accountId, twin⟩, ⟨accountId, other, entry.mailboxId, stored.uidnext, stored.uidvalidity⟩,
      (hstores.boxes other twin).mpr htwin, (hstores.uidStates _).mpr hstored, ?_, ?_⟩
    · exact decide_eq_true ⟨rfl, rfl, hid.symm⟩
    · exact decide_eq_true ⟨rfl, hvisible, decide_eq_true hid⟩
  · rintro ⟨other, hother, box, state, hchosen⟩
    obtain ⟨haccount, hvisible, hmeets⟩ := of_decide_eq_true hchosen.selected
    have hid : box.row.stableId = entry.mailboxId := of_decide_eq_true hmeets
    have hon := of_decide_eq_true hchosen.on
    have hstored := hstores.mem_uidStates hchosen.stateStored (hon.1.trans haccount)
    rw [hon.2.1, hon.2.2] at hstored
    exact ⟨other, hother, box.row, hstores.mem_boxes hchosen.boxStored haccount, hid, hvisible, _, hid ▸ hstored⟩

/-- SELECT by id. -/
lemma opens_id_iff (hstores : Stores c w accountId)
    (hsound : Sound seed accountId (w.catalog.session accountId) (w.views accountId)) (hentry : IsEntry c accountId entry box)
    (hselectable : entry.isSelectable = true) :
    Opens c accountId (.id entry.mailboxId) entry ↔ HasState w accountId entry ∧ ¬HasTwin w accountId entry := by
  have hchosen_self : ∀ state ∈ c.uidStates, hasUidState entry.kind box state = true →
      Chosen c accountId entry.kind (.id entry.mailboxId) box state := fun state hstored hon =>
    ⟨hentry.stored, hstored, hon, decide_eq_true ⟨hentry.account, hentry.visible, decide_eq_true hentry.same.1.symm⟩⟩
  rw [hasTwin_iff hstores]
  constructor
  · intro hopens
    obtain ⟨box', state, hchosen, hrows⟩ := opens_row hopens
    have hfree : ∀ other, other ≠ entry.kind → selectedRows c accountId (.id entry.mailboxId) other = [] := by
      intro other hother
      refine selectedRows_nil fun twin state' htwin => ?_
      have hrow : selectRow c other (twin, state') ∈ selectRowsBySelector c accountId (.id entry.mailboxId) :=
        mem_selectRowsBySelector.mpr (mem_selectedRows.mpr ⟨twin, state', htwin, rfl⟩)
      rw [hrows, List.mem_singleton] at hrow
      exact hother (congrArg SelectRow.kind hrow)
    have hbox : box = box' := by
      obtain ⟨haccount, -, hmeets⟩ := of_decide_eq_true hchosen.selected
      have hid : box'.row.stableId = entry.mailboxId := of_decide_eq_true hmeets
      refine List.inj_on_of_nodup_map (c.boxIds_nodup entry.kind) hentry.stored hchosen.boxStored ?_
      exact Prod.ext (hentry.account.trans haccount.symm) (hentry.same.1.symm.trans hid.symm)
    subst hbox
    refine ⟨(opens_single hstores hsound hentry hselectable hchosen hfree).mp hopens, ?_⟩
    rintro ⟨other, hother, twin, state', htwin⟩
    have hrow : selectRow c other (twin, state') ∈ selectedRows c accountId (.id entry.mailboxId) other :=
      mem_selectedRows.mpr ⟨twin, state', htwin, rfl⟩
    rw [hfree other hother] at hrow
    simp at hrow
  · rintro ⟨hstate, hfree⟩
    obtain ⟨state, hstored, hon⟩ := hasState_row hstores hentry hstate
    refine (opens_single hstores hsound hentry hselectable (hchosen_self state hstored hon) fun other hother => ?_).mpr hstate
    exact selectedRows_nil fun twin state' htwin => hfree ⟨other, hother, twin, state', htwin⟩

/-! ## Shadowed views -/

/-- A view of the account whose name a visible mailbox has. -/
structure Shadowed (c : CatalogRows) (accountId : CString) (view : Box) : Prop where
  stored : ⟨accountId, view⟩ ∈ c.boxes .virtual
  shadowed : isShadowed c accountId view.imapName = true

lemma Shadowed.not_listed {view : Box} (hview : Shadowed c accountId view)
    (h : list c accountId namespacePrefix = .ok entries) (hentry : entry ∈ entries) (hkind : entry.kind = .virtual) :
    entry.mailboxId ≠ view.stableId := by
  intro hid
  obtain ⟨box, hbox⟩ := isEntry_of_list h hentry
  have hsame : box = ⟨accountId, view⟩ := by
    refine List.inj_on_of_nodup_map (c.boxIds_nodup .virtual) (hkind ▸ hbox.stored) hview.stored ?_
    exact Prod.ext hbox.account (hbox.same.1.symm.trans hid)
  have hfree := hbox.free hkind
  rw [hsame, hview.shadowed] at hfree
  cases hfree

lemma Shadowed.not_selected {view : Box} {name : CString} {result : SelectResult} (hview : Shadowed c accountId view)
    (h : select c accountId (.name name) = .ok result) (hkind : result.kind = .virtual) : result.mailboxId ≠ view.stableId := by
  intro hid
  obtain ⟨row, hrows, -, -, hresult⟩ := select_eq_ok.mp h
  obtain ⟨-, -, -, rfl⟩ := selectResult_eq_ok.mp hresult
  have hrow : row ∈ selectedRows c accountId (.name name) row.kind :=
    mem_selectRowsBySelector.mp (hrows ▸ List.mem_singleton_self row)
  have hrowKind : row.kind = .virtual := hkind
  rw [hrowKind] at hrow
  obtain ⟨box, state, hchosen, rfl⟩ := mem_selectedRows.mp hrow
  obtain ⟨haccount, -, hmeets⟩ := of_decide_eq_true hchosen.selected
  have hsame : box = ⟨accountId, view⟩ :=
    List.inj_on_of_nodup_map (c.boxIds_nodup .virtual) hchosen.boxStored hview.stored (Prod.ext haccount hid)
  have hfree := (of_decide_eq_true hmeets).2 rfl
  rw [hsame, hview.shadowed] at hfree
  cases hfree

end

/-! ## Coherence -/

structure Coherent (seed : Provisioned) (w : World) (c : CatalogRows) (accountId : CString) : Prop where
  names : ∀ namespacePrefix entries, list c accountId namespacePrefix = .ok entries →
    (entries.map ListEntry.mailboxName).Nodup
  notListed : ∀ view, Shadowed c accountId view → ∀ namespacePrefix entries, list c accountId namespacePrefix = .ok entries →
    ∀ entry ∈ entries, entry.kind = .virtual → entry.mailboxId ≠ view.stableId
  notSelected : ∀ view, Shadowed c accountId view → ∀ name result, select c accountId (.name name) = .ok result →
    result.kind = .virtual → result.mailboxId ≠ view.stableId
  children : ∀ namespacePrefix entries all, list c accountId namespacePrefix = .ok entries →
    list c accountId .empty = .ok all → ∀ entry ∈ entries,
      (entry.hasChildren = true ↔ ∃ other ∈ all, isBelow entry.mailboxName other.mailboxName = true)
  byName : ∀ namespacePrefix entries, list c accountId namespacePrefix = .ok entries → ∀ entry ∈ entries,
    entry.isSelectable = true → (Opens c accountId (.name entry.mailboxName) entry ↔ HasState w accountId entry)
  byId : ∀ namespacePrefix entries, list c accountId namespacePrefix = .ok entries → ∀ entry ∈ entries,
    entry.isSelectable = true →
      (Opens c accountId (.id entry.mailboxId) entry ↔ HasState w accountId entry ∧ ¬HasTwin w accountId entry)
  state : ∀ namespacePrefix entries, list c accountId namespacePrefix = .ok entries → ∀ entry ∈ entries,
    (entry.kind = .ordinary → ∀ mailbox ∈ seed.ofAccount accountId, mailbox.mailboxId ≠ entry.mailboxId) →
      ∃ state, (w.tables accountId).uidState (namespaceOf entry.kind entry.mailboxId) = some state

/-- In a reached catalog LIST and SELECT agree but for mailboxes without a UID state of 32 bits
    and for an id that a mailbox and a view share. -/
theorem list_select_coherent {seed : Provisioned} {sha : Sha256} {w : World} (hreachable : Reachable seed sha w)
    {c : CatalogRows} {accountId : CString} (hstores : Stores c w accountId) : Coherent seed w c accountId := by
  have hsound := hreachable.sound.1 accountId
  refine ⟨?_, ?_, ?_, ?_, ?_, ?_, ?_⟩
  · exact fun _ _ h => list_names h
  · exact fun _ hview _ _ h _ hentry hkind => hview.not_listed h hentry hkind
  · exact fun _ hview _ _ h hkind => hview.not_selected h hkind
  · exact fun _ _ _ h hall _ hentry => list_children h hall hentry
  · intro _ _ h entry hentry hselectable
    obtain ⟨box, hbox⟩ := isEntry_of_list h hentry
    exact opens_name_iff hstores hsound hbox hselectable
  · intro _ _ h entry hentry hselectable
    obtain ⟨box, hbox⟩ := isEntry_of_list h hentry
    exact opens_id_iff hstores hsound hbox hselectable
  · intro _ _ h entry hentry hfree
    obtain ⟨box, hbox⟩ := isEntry_of_list h hentry
    have hstored := hstores.mem_boxes hbox.stored hbox.account
    rw [hbox.same.1] at hfree ⊢
    exact boxesOf_uidState hsound hstored hfree

/-! ## An id of a mailbox and of a view -/

/-- The account's INBOX was set up under the id of its view. -/
def sharedSeed : Provisioned := ⟨[(.literal "a", ⟨.literal "v", .literal "INBOX", true, true⟩)], by decide, by decide⟩

def sharedDelivery : Event := .messageDelivered ⟨.literal "o", 10, 0, ⟨none, none, none, none, none, none, none, 0, .absent,
  .absent⟩, none, none, some (.literal "a"), none, []⟩

def deliveredWorld : World := World.process sharedSeed (.initial sharedSeed) sharedDelivery

def viewTables (sha : Sha256) : AccountTables :=
  ((deliveredWorld.tables (.literal "a")).setUidState (.derivedView (.literal "v")) (sampleUids sha)).setUidState
    (.derivedView (.literal "v")) (sampleUids sha)

def sharedWorld (sha : Sha256) : World := deliveredWorld.withViewState (.literal "a")
  ⟨{ deliveredWorld.catalog.session (.literal "a") with tables := viewTables sha },
    [⟨.literal "v", .literal "V", .literal "w", true, true⟩]⟩

lemma shared_open (sha : Sha256) : openView sha sampleRequest (deliveredWorld.viewState (.literal "a")) =
    .ok (⟨{ deliveredWorld.catalog.session (.literal "a") with
      tables := (deliveredWorld.tables (.literal "a")).setUidState (.derivedView (.literal "v")) (sampleUids sha) },
      [⟨.literal "v", .literal "V", .literal "w", true, true⟩]⟩, sampleUids sha) := by
  have hpos := generateUidvalidity_pos sha (.literal "a") (.literal "v")
  have hinsert : (deliveredWorld.tables (.literal "a")).insertUidState (.derivedView (.literal "v")) (sampleUids sha) =
      .ok ((deliveredWorld.tables (.literal "a")).setUidState (.derivedView (.literal "v")) (sampleUids sha)) :=
    bind_eq_ok.mpr ⟨(), require_eq_ok.mpr ⟨le_refl 1, hpos⟩, rfl⟩
  have hselect : DerivedViewMaterializer.selectUidnext
      ((deliveredWorld.tables (.literal "a")).setUidState (.derivedView (.literal "v")) (sampleUids sha)) (.literal "v") =
        .ok (sampleUids sha) :=
    bind_eq_ok.mpr ⟨(), validate_eq_ok.mpr (Nat.one_le_iff_ne_zero.mp hpos),
      bind_eq_ok.mpr ⟨(), validate_eq_ok.mpr (show 0 ≠ maxGuint64 ∧ 0 + 1 ≤ 1 by decide), rfl⟩⟩
  exact bind_eq_ok.mpr ⟨_, rfl, bind_eq_ok.mpr ⟨_, execute_eq_ok.mpr hinsert, bind_eq_ok.mpr ⟨_, hselect, rfl⟩⟩⟩

lemma shared_refreshed (sha : Sha256) : ∃ state changes,
    refresh sha sampleRequest .currentRule [] (deliveredWorld.viewState (.literal "a")) = .ok (state, changes) ∧
      deliveredWorld.withViewState (.literal "a") state = sharedWorld sha :=
  ⟨_, _, bind_eq_ok.mpr ⟨(), by decide, bind_eq_ok.mpr ⟨_, shared_open sha,
    bind_eq_ok.mpr ⟨_, rfl, bind_eq_ok.mpr ⟨_, rfl, rfl⟩⟩⟩⟩, rfl⟩

lemma sharedWorld_reachable (sha : Sha256) : Reachable sharedSeed sha (sharedWorld sha) := by
  have hchecked : ∀ position, Checked ⟨position, sharedDelivery⟩ := fun position =>
    ⟨trivial, fun object hobject => Option.some.inj hobject ▸ (show CString.literal "o" ≠ .empty by decide),
      fun change hchange => by cases hchange⟩
  obtain ⟨transitions, hdelivered⟩ := @process_history sharedSeed sha (.initial sharedSeed) sharedDelivery (hchecked _)
  obtain ⟨state, changes, hrefresh, heq⟩ := shared_refreshed sha
  rw [← heq]
  exact ⟨_, hdelivered.snoc (.refreshed hrefresh)⟩

def sharedRows (sha : Sha256) : CatalogRows where
  boxes := fun kind => match kind with
    | .ordinary => [⟨.literal "a", .literal "v", .literal "INBOX", true, true⟩]
    | .virtual => [⟨.literal "a", .literal "v", .literal "V", true, true⟩]
  members := fun kind => match kind with
    | .ordinary => [⟨.literal "a", .literal "mailbox:v:journal:0:1", .literal "v", Materializer.journalMessageId ⟨0, 1⟩, 1,
        true, none⟩]
    | .virtual => []
  uidStates := [⟨.literal "a", .ordinary, .literal "v", 2, 1⟩,
    ⟨.literal "a", .virtual, .literal "v", 1, generateUidvalidity sha (.literal "a") (.literal "v")⟩]
  messages := [⟨.literal "a", Materializer.journalMessageId ⟨0, 1⟩, .literal "o"⟩]
  headers := []
  attributes := fun _ => []
  objects := [.literal "o"]
  boxIds_nodup := by rintro (_ | _) <;> decide
  boxNames_nodup := by rintro (_ | _) <;> decide
  mailboxIds_nodup := by decide
  memberIds_nodup := by rintro (_ | _) <;> decide
  uids_nodup := by rintro (_ | _) <;> decide
  mailboxUids_nodup := by decide
  uidStates_nodup := by simp
  messages_nodup := by decide
  headers_nodup := List.nodup_nil
  attributes_nodup := fun _ => List.nodup_nil
  objects_nodup := List.nodup_singleton _

lemma shared_stores (sha : Sha256) : Stores (sharedRows sha) (sharedWorld sha) (.literal "a") where
  boxes := by
    rintro (_ | _) box
    · exact @mem_owned _ _ (boxesOf (sharedWorld sha) (.literal "a") .ordinary) box
    · exact @mem_owned _ _ (boxesOf (sharedWorld sha) (.literal "a") .virtual) box
  members := by
    rintro (_ | _) member
    · exact @mem_owned _ _ (membersOf ((sharedWorld sha).tables (.literal "a")) .ordinary) member
    · exact @mem_owned _ _ (membersOf ((sharedWorld sha).tables (.literal "a")) .virtual) member
  uidStates := by
    rintro ⟨kind, id, uidnext, uidvalidity⟩
    have hstates : ((sharedWorld sha).tables (.literal "a")).uidState = Function.update (Function.update
        (Function.update (Function.update (fun _ => none) (.mailbox (.literal "v")) (some ⟨1, 1⟩))
        (.mailbox (.literal "v")) (some ⟨2, 1⟩)) (.derivedView (.literal "v")) (some (sampleUids sha)))
        (.derivedView (.literal "v")) (some (sampleUids sha)) := rfl
    rw [hstates, Function.update_idem, Function.update_idem]
    cases kind with
    | ordinary =>
      rw [namespaceOf, Function.update_of_ne (by simp), update_eq_some]
      simp [sharedRows]
    | virtual =>
      rw [namespaceOf, Function.update_comm (by simp), Function.update_of_ne (by simp), update_eq_some]
      simp [sharedRows, sampleUids]
  messages := by
    rintro ⟨messageId, objectId⟩
    change _ ↔ ∃ position, Function.update (fun _ => none) (Materializer.journalMessageId ⟨0, 1⟩)
      (some (⟨.literal "o", ⟨0, 1⟩⟩ : Message)) messageId = some ⟨objectId, position⟩
    simp [sharedRows, update_eq_some]
  objects := by
    intro object
    change _ ↔ ∃ size, Function.update (fun _ => none) (CString.literal "o") (some 10) object = some size
    simp [sharedRows, update_eq_some]

/-- The entry of INBOX. -/
def inboxEntry : ListEntry := ⟨.ordinary, .literal "v", .literal "INBOX", true, false⟩

lemma shared_list (sha : Sha256) : list (sharedRows sha) (.literal "a") .empty =
    .ok [inboxEntry, ⟨.virtual, .literal "v", .literal "V", true, false⟩] := rfl

lemma shared_twin (sha : Sha256) : HasTwin (sharedWorld sha) (.literal "a") inboxEntry :=
  ⟨.virtual, by simp [inboxEntry], _, List.mem_cons_self, rfl, rfl, _, rfl⟩

/-- By its name the INBOX of the account is selected, by its id it is not. -/
theorem list_select_coherent_shared :
    Opens (sharedRows JournalCrash.sha256) (.literal "a") (.name (.literal "INBOX")) inboxEntry ∧
      ¬Opens (sharedRows JournalCrash.sha256) (.literal "a") (.id (.literal "v")) inboxEntry := by
  have h := list_select_coherent (sharedWorld_reachable JournalCrash.sha256) (shared_stores _)
  refine ⟨(h.byName _ _ (shared_list _) inboxEntry List.mem_cons_self rfl).mpr ⟨⟨2, 1⟩, rfl, by decide⟩, ?_⟩
  rw [show CString.literal "v" = inboxEntry.mailboxId from rfl, h.byId _ _ (shared_list _) inboxEntry List.mem_cons_self rfl]
  exact fun hopens => hopens.2 (shared_twin _)

/-- The account's INBOX and its view have the same id, and no id selects either. -/
theorem shared_id_ambiguous : ¬∀ (seed : Provisioned) (sha : Sha256) (w : World) (c : CatalogRows)
    (accountId namespacePrefix : CString) (entries : List ListEntry) (entry : ListEntry),
    Reachable seed sha w → Stores c w accountId → list c accountId namespacePrefix = .ok entries → entry ∈ entries →
      entry.isSelectable = true →
        Opens c accountId (.name entry.mailboxName) entry ∧ Opens c accountId (.id entry.mailboxId) entry := by
  intro hclaim
  let sha := JournalCrash.sha256
  obtain ⟨-, hid⟩ := hclaim sharedSeed sha (sharedWorld sha) (sharedRows sha) (.literal "a") .empty _ inboxEntry
    (sharedWorld_reachable sha) (shared_stores sha) (shared_list sha) List.mem_cons_self rfl
  obtain ⟨result, hselect, -⟩ := hid
  obtain ⟨row, hrows, -⟩ := select_eq_ok.mp hselect
  have htwo : (selectRowsBySelector (sharedRows sha) (.literal "a") (.id inboxEntry.mailboxId)).length = 1 := by
    rw [hrows]
    rfl
  exact absurd htwo (by decide)

end Wyrebox.ListSelect
