import Wyrebox.StoredCatalog

set_option autoImplicit false

/-!
# Loading a mailbox while the catalog changes

The plugin asks for SELECT and then for the UID map. Whatever is committed in between, a mailbox
that loads has only UIDs below the loaded UIDNEXT, and only a UID assigned in between refuses it.
-/
namespace Wyrebox.MailboxLoad
open Catalog CatalogRuns DovecotSync StoredCatalog
open Materializer (derivedConflict)
open JournalRecord (Sha256)

/-! ## The answers of a catalog -/

def daemonView (view : DerivedViewMaterializer.DerivedView) : DovecotSync.DerivedView :=
  ⟨view.viewId, view.imapName, view.isSelectable, view.isVisible⟩

/-- What the daemon reads for the account. -/
def daemon (w : World) (account : CString) (flagNames : CString → List CString) : Daemon :=
  ⟨w.tables account, (w.views account).map daemonView, flagNames⟩

/-- A membership of the mailbox or view has the UID, shown or not. -/
def HasUid (t : AccountTables) (kind : Kind) (id : CString) (uid : ℕ) : Prop :=
  ∃ member ∈ membersOf t kind, member.boxId = id ∧ member.uid = uid

section
variable {d : Daemon} {name id : CString} {kind : Kind} {result : SelectResult} {line : UidMapLine}

/-! ### SELECT -/

lemma selectRows_state {row : SelectResult × Bool} (h : row ∈ selectRows d name) :
    d.tables.uidState (namespaceOf row.1.kind row.1.mailboxId) = some ⟨row.1.uidNext, row.1.uidValidity⟩ := by
  unfold selectRows at h
  rcases List.mem_append.mp h with hordinary | hvirtual
  · obtain ⟨mailbox, -, hrow⟩ := List.mem_filterMap.mp hordinary
    obtain ⟨state, hstate, rfl⟩ := Option.map_eq_some_iff.mp hrow
    exact hstate
  · split at hvirtual
    · obtain ⟨view, -, hrow⟩ := List.mem_filterMap.mp hvirtual
      obtain ⟨state, hstate, rfl⟩ := Option.map_eq_some_iff.mp hrow
      exact hstate
    · simp at hvirtual

lemma selectMailbox_mem (h : selectMailbox d name = .ok result) : ∃ isSelectable, (result, isSelectable) ∈ selectRows d name := by
  unfold selectMailbox at h
  dsimp only at h
  split at h
  · simp at h
  · split at h
    · simp at h
    · simp at h
    · rename_i result' isSelectable hrows
      split at h
      · simp at h
      · split at h
        · simp at h
        · obtain rfl := Except.ok.inj h
          exact ⟨isSelectable, hrows ▸ List.mem_singleton_self _⟩

/-- The selected numbers are those of the UID state. -/
lemma selectMailbox_state (h : selectMailbox d name = .ok result) :
    d.tables.uidState (namespaceOf result.kind result.mailboxId) = some ⟨result.uidNext, result.uidValidity⟩ := by
  obtain ⟨isSelectable, hrow⟩ := selectMailbox_mem h
  exact selectRows_state hrow

/-! ### The UID map -/

lemma mem_sortLines {lines : List UidMapLine} : line ∈ sortLines lines ↔ line ∈ lines := List.mem_insertionSort _

/-- A line that the client takes, of a UID state. -/
structure Presentable (state : UidState) (line : UidMapLine) : Prop where
  uidValidity : line.row.uidValidity = state.uidvalidity
  uid : line.row.uid ≠ 0
  messageId : line.row.messageId ≠ .empty
  objectId : line.row.objectId ≠ .empty
  ruleVersionHash : line.ruleVersionHash ≠ some .empty

variable {seed : Provisioned} {account : CString} {w : World} {flagNames : CString → List CString}

/-- Every line is a stored membership of the mailbox. -/
lemma uidMapLines_row (hsound : Sound seed account (w.catalog.session account) (w.views account))
    (h : line ∈ uidMapLines (daemon w account flagNames) kind id) : ∃ state,
    (w.tables account).uidState (namespaceOf kind id) = some state ∧ Presentable state line ∧
      HasUid (w.tables account) kind id line.row.uid := by
  unfold uidMapLines at h
  cases kind with
  | ordinary =>
    dsimp only at h
    split at h
    · simp at h
    · rename_i state hstate
      obtain ⟨row, hrow, hline⟩ := List.mem_filterMap.mp (mem_sortLines.mp h)
      obtain ⟨hmem, hcondition⟩ := List.mem_filter.mp hrow
      obtain ⟨message, hmessage, rfl⟩ := Option.map_eq_some_iff.mp hline
      have hids := hsound.stored.messages _ _ hmessage
      have huid : 1 ≤ row.uid := hsound.stored.uids row hmem
      exact ⟨state, hstate, ⟨rfl, Nat.one_le_iff_ne_zero.mp huid, hids.1, hids.2, by simp⟩, ordinaryMember row,
        List.mem_map_of_mem hmem, (of_decide_eq_true hcondition).1, rfl⟩
  | virtual =>
    dsimp only at h
    split at h
    · simp at h
    · rename_i state hstate
      obtain ⟨row, hrow, hline⟩ := List.mem_filterMap.mp (mem_sortLines.mp h)
      obtain ⟨hmem, hcondition⟩ := List.mem_filter.mp hrow
      obtain ⟨message, hmessage, rfl⟩ := Option.map_eq_some_iff.mp hline
      have hids := hsound.stored.messages _ _ hmessage
      have huid : 1 ≤ row.uid := hsound.assigned.valid.uid_pos row hmem
      have hrule := hsound.stored.rules row hmem
      exact ⟨state, hstate, ⟨rfl, Nat.one_le_iff_ne_zero.mp huid, hids.1, hids.2, fun heq => hrule (Option.some.inj heq)⟩,
        derivedMember row, List.mem_map_of_mem hmem, (of_decide_eq_true hcondition).1, rfl⟩

lemma filterMap_uids {α : Type} {rows : List α} {f : α → Option UidMapLine} (uidOf : α → ℕ)
    (hf : ∀ row line, f row = some line → line.row.uid = uidOf row) (hnodup : (rows.map uidOf).Nodup) :
    ((rows.filterMap f).map fun line => line.row.uid).Nodup := by
  refine hnodup.sublist ?_
  induction rows with
  | nil => exact List.Sublist.refl _
  | cons row rows ih =>
    have hrest := ih (List.nodup_cons.mp hnodup).2
    cases hline : f row with
    | none =>
      rw [List.filterMap_cons_none hline]
      exact hrest.cons _
    | some line =>
      rw [List.filterMap_cons_some hline, List.map_cons, List.map_cons, hf row line hline]
      exact hrest.cons₂ _

lemma uidMapLines_nodup (hsound : Sound seed account (w.catalog.session account) (w.views account)) :
    ((uidMapLines (daemon w account flagNames) kind id).map fun line => line.row.uid).Nodup := by
  have hsorted : ∀ lines : List UidMapLine, (lines.map fun line => line.row.uid).Nodup →
      ((sortLines lines).map fun line => line.row.uid).Nodup := fun lines hlines =>
    ((List.perm_insertionSort _ lines).map _).nodup_iff.mpr hlines
  unfold uidMapLines
  cases kind with
  | ordinary =>
    dsimp only
    split
    · exact List.nodup_nil
    · rename_i state hstate
      refine hsorted _ (filterMap_uids Membership.uid (fun row line hline => ?_) ?_)
      · obtain ⟨message, -, rfl⟩ := Option.map_eq_some_iff.mp hline
        rfl
      · have huids := List.pairwise_map.mp hsound.wellFormed.uids_nodup
        refine List.pairwise_map.mpr ((huids.filter _).imp_of_mem fun hrow hother hne heq => hne ?_)
        have hmailbox := of_decide_eq_true (List.mem_filter.mp hrow).2
        have hmailbox' := of_decide_eq_true (List.mem_filter.mp hother).2
        exact Prod.ext (hmailbox.1.trans hmailbox'.1.symm) heq
  | virtual =>
    dsimp only
    split
    · exact List.nodup_nil
    · rename_i state hstate
      refine hsorted _ (filterMap_uids DerivedMembership.uid (fun row line hline => ?_) ?_)
      · obtain ⟨message, -, rfl⟩ := Option.map_eq_some_iff.mp hline
        rfl
      · have hunique := hsound.assigned.valid.unique
        refine List.pairwise_map.mpr ((hunique.filter _).imp_of_mem fun hrow hother hconflict heq => ?_)
        have hview := of_decide_eq_true (List.mem_filter.mp hrow).2
        have hview' := of_decide_eq_true (List.mem_filter.mp hother).2
        simp [derivedConflict, hview.1, hview'.1, heq] at hconflict

end

/-! ## The load -/

section
variable {result : SelectResult} {lines : List UidMapLine} {rows : List UidMapRow}

lemma mapM_uidMapRow (h : ∀ line ∈ lines, Presentable ⟨result.uidNext, result.uidValidity⟩ line) :
    lines.mapM (uidMapRow result) = .ok (lines.map UidMapLine.row) := by
  induction lines with
  | nil => rfl
  | cons line lines ih =>
    have hfirst := h line List.mem_cons_self
    have hrow : uidMapRow result line = .ok line.row := by
      simp only [uidMapRow, hfirst.uidValidity, hfirst.uid, hfirst.messageId, hfirst.objectId, hfirst.ruleVersionHash,
        ne_eq, not_true_eq_false, if_false]
    rw [List.mapM_cons, hrow, ih fun other hother => h other (List.mem_cons_of_mem _ hother)]
    rfl

/-- Rows below UIDNEXT, each UID once, are taken into the table one after the other. -/
lemma foldlM_indexUidMapRow {table : List (ℕ × UidMapRow)} (hnext : result.uidNext ≤ maxUint32)
    (hgood : ∀ row ∈ rows, row.uid ≠ 0 ∧ row.uid < result.uidNext ∧ row.uidValidity = result.uidValidity ∧
      row.messageId ≠ .empty) (hnodup : (table.map Prod.fst ++ rows.map UidMapRow.uid).Nodup) :
    ∃ table', rows.foldlM (indexUidMapRow result) table = .ok table' := by
  induction rows generalizing table with
  | nil => exact ⟨table, rfl⟩
  | cons row rows ih =>
    obtain ⟨hpos, hlt, hvalidity, hmessage⟩ := hgood row List.mem_cons_self
    have hcast : row.uid % 2 ^ 32 = row.uid := by
      rw [maxUint32] at hnext
      omega
    have hnew : row.uid ∉ table.map Prod.fst := fun hold =>
      List.disjoint_of_nodup_append hnodup hold List.mem_cons_self
    have hrow : indexUidMapRow result table row = .ok (table ++ [(row.uid, row)]) := by
      unfold indexUidMapRow
      rw [if_neg (by omega), if_neg (not_not.mpr hvalidity), if_neg hmessage, hcast, if_neg hnew]
    rw [List.foldlM_cons, hrow]
    refine ih (fun other hother => hgood other (List.mem_cons_of_mem _ hother)) ?_
    rw [List.map_append, List.append_assoc]
    exact hnodup

variable {name account : CString} {seed : Provisioned} {sha : Sha256} {w w' : World} {transitions : List Transition}
  {flagNames flagNames' : CString → List CString}

/-- The selected UIDVALIDITY is still that of the mailbox at the second request. -/
lemma presentable_later (hkept : WorldKept w w') (hsound' : Sound seed account (w'.catalog.session account) (w'.views account))
    (hselect : selectMailbox (daemon w account flagNames) name = .ok result) :
    ∀ line ∈ uidMapLines (daemon w' account flagNames') result.kind result.mailboxId,
      Presentable ⟨result.uidNext, result.uidValidity⟩ line := by
  intro line hline
  obtain ⟨state', hstate', hpresentable, -⟩ := uidMapLines_row hsound' hline
  obtain ⟨later, hlater, hvalidity, -⟩ := hkept account _ _ (selectMailbox_state hselect)
  obtain rfl := Option.some.inj (hstate'.symm.trans hlater)
  exact { hpresentable with uidValidity := hpresentable.uidValidity.trans hvalidity }

/-- After SELECT only a UID at or above the selected UIDNEXT refuses the load. -/
lemma loadState_ok_iff (hkept : WorldKept w w')
    (hsound' : Sound seed account (w'.catalog.session account) (w'.views account))
    (hselect : selectMailbox (daemon w account flagNames) name = .ok result) :
    (∃ state, loadState name (some (daemon w account flagNames)) (some (daemon w' account flagNames')) = .ok state) ↔
      ∀ line ∈ uidMapLines (daemon w' account flagNames') result.kind result.mailboxId, line.row.uid < result.uidNext := by
  have hnext := selectMailbox_uidNext hselect
  have hpresentable : ∀ line ∈ uidMapLines (daemon w' account flagNames') result.kind result.mailboxId,
      Presentable ⟨result.uidNext, result.uidValidity⟩ line := presentable_later hkept hsound' hselect
  have hnodup : ((uidMapLines (daemon w' account flagNames') result.kind result.mailboxId).map fun line =>
      line.row.uid).Nodup := uidMapLines_nodup hsound'
  have hload : ∀ lines, lines = uidMapLines (daemon w' account flagNames') result.kind result.mailboxId →
      loadState name (some (daemon w account flagNames)) (some (daemon w' account flagNames')) = (do
        let table ← indexUidMap result (lines.map UidMapLine.row)
        .ok ⟨result, lines.map UidMapLine.row, table⟩) := by
    rintro lines rfl
    rw [loadState, hselect]
    change (do
      let rows ← (uidMapLines (daemon w' account flagNames') result.kind result.mailboxId).mapM (uidMapRow result)
      let table ← indexUidMap result rows
      .ok (MailboxState.mk result rows table)) = _
    rw [mapM_uidMapRow hpresentable]
    rfl
  generalize uidMapLines (daemon w' account flagNames') result.kind result.mailboxId = lines at hpresentable hnodup hload ⊢
  rw [hload lines rfl]
  constructor
  · rintro ⟨state, hstate⟩ line hline
    obtain ⟨table, htable, -⟩ := Fallible.bind_eq_ok.mp hstate
    have hempty : Indexed result [] [] := ⟨rfl, by simp, List.nodup_nil⟩
    exact ((hempty.foldlM hnext htable).bounds line.row (List.mem_map_of_mem hline)).2
  · intro hbelow
    have hgood : ∀ row ∈ lines.map UidMapLine.row, row.uid ≠ 0 ∧ row.uid < result.uidNext ∧
        row.uidValidity = result.uidValidity ∧ row.messageId ≠ .empty := by
      intro row hrow
      obtain ⟨line, hline, rfl⟩ := List.mem_map.mp hrow
      have h := hpresentable line hline
      exact ⟨h.uid, hbelow line hline, h.uidValidity, h.messageId⟩
    have hfresh : ((([] : List (ℕ × UidMapRow)).map Prod.fst) ++ (lines.map UidMapLine.row).map UidMapRow.uid).Nodup := by
      rw [List.map_map]
      exact hnodup
    obtain ⟨table, htable⟩ := foldlM_indexUidMapRow hnext hgood hfresh
    exact ⟨_, Fallible.bind_eq_ok.mpr ⟨table, htable, rfl⟩⟩

end

/-- Whatever is committed between the two requests: a loaded map has only UIDs below the loaded
    UIDNEXT, each once, and after SELECT the load is refused exactly if the map lists a UID from
    there on, which no membership had at SELECT. -/
theorem load_between_commits {seed : Provisioned} {sha : Sha256} {w w' : World} {transitions : List Transition}
    (hreachable : Reachable seed sha w) (hhistory : History seed sha w transitions w') (account name : CString)
    (flagNames flagNames' : CString → List CString) :
    (∀ state, loadState name (some (daemon w account flagNames)) (some (daemon w' account flagNames')) = .ok state →
      (∀ row ∈ state.uidMap, row.uid ≠ 0 ∧ row.uid < state.selectResult.uidNext) ∧ (uidsOf state).Nodup) ∧
    ∀ result, selectMailbox (daemon w account flagNames) name = .ok result →
      ((∃ state, loadState name (some (daemon w account flagNames)) (some (daemon w' account flagNames')) = .ok state) ↔
        ∀ line ∈ uidMapLines (daemon w' account flagNames') result.kind result.mailboxId, line.row.uid < result.uidNext) ∧
      (∀ uid, HasUid (w.tables account) result.kind result.mailboxId uid → uid < result.uidNext) := by
  obtain ⟨hsound, hlog⟩ := hreachable.sound
  obtain ⟨hsound', hkept, -⟩ := hhistory.kept hlog hsound
  refine ⟨fun state hload => ?_, fun result hselect => ⟨loadState_ok_iff hkept (hsound' account) hselect, fun uid huid => ?_⟩⟩
  · have hindexed := loadState_indexed hload
    exact ⟨hindexed.bounds, hindexed.nodup⟩
  · obtain ⟨member, hmember, hbox, rfl⟩ := huid
    obtain ⟨state, hstate, hlt⟩ := membersOf_uid_lt (hsound account) hmember
    rw [hbox] at hstate
    obtain rfl := Option.some.inj ((selectMailbox_state hselect).symm.trans hstate)
    exact hlt

/-! ## A delivery between the requests -/

def noMailboxes : Provisioned := .empty

def deliverTo (w : World) (objectKey : CString) : World := w.process noMailboxes (delivered 0 objectKey).event

def atSelect : World := deliverTo (.initial noMailboxes) (.literal "object-1")

def atUidMap : World := deliverTo atSelect (.literal "object-2")

lemma delivered_checked {objectKey : CString} (hkey : objectKey ≠ .empty) (position : JournalWriter.Position) :
    Checked ⟨position, (delivered 0 objectKey).event⟩ where
  decoded := trivial
  object := fun object hobject => Option.some.inj hobject ▸ hkey
  ruleVersionHash := by
    intro change hchange
    cases hchange

lemma deliverTo_history (sha : Sha256) (w : World) {objectKey : CString} (hkey : objectKey ≠ .empty) :
    ∃ transitions, History noMailboxes sha w transitions (deliverTo w objectKey) :=
  process_history (delivered_checked hkey _)

lemma atSelect_reachable (sha : Sha256) : Reachable noMailboxes sha atSelect :=
  deliverTo_history sha _ (show CString.literal "object-1" ≠ .empty by decide)

lemma atUidMap_history (sha : Sha256) : ∃ transitions, History noMailboxes sha atSelect transitions atUidMap :=
  deliverTo_history sha _ (show CString.literal "object-2" ≠ .empty by decide)

lemma inbox_selected : (selectMailbox (daemon atSelect viewer fun _ => []) (.literal "INBOX")).toOption.map SelectResult.uidNext =
    some 2 := by
  decide

lemma inbox_refused : loadState (.literal "INBOX") (some (daemon atSelect viewer fun _ => []))
    (some (daemon atUidMap viewer fun _ => [])) = .error .uidOutsideUidnext :=
  rfl

/-- The delivered message has the UID that SELECT answered as the next one. -/
theorem delivery_refuses_load : ¬∀ (seed : Provisioned) (sha : Sha256) (w w' : World) (transitions : List Transition)
    (account name : CString) (flagNames flagNames' : CString → List CString) (result : SelectResult),
    Reachable seed sha w → History seed sha w transitions w' →
      selectMailbox (daemon w account flagNames) name = .ok result →
        ∃ state, loadState name (some (daemon w account flagNames)) (some (daemon w' account flagNames')) = .ok state ∧
          ∀ row ∈ state.uidMap, row.uid < state.selectResult.uidNext := by
  intro hclaim
  obtain ⟨transitions, hhistory⟩ := atUidMap_history JournalCrash.sha256
  cases hselect : selectMailbox (daemon atSelect viewer fun _ => []) (.literal "INBOX") with
  | error error =>
    have hselected := inbox_selected
    rw [hselect] at hselected
    cases hselected
  | ok result =>
    obtain ⟨state, hstate, -⟩ := hclaim noMailboxes JournalCrash.sha256 atSelect atUidMap transitions viewer _ _ _ result
      (atSelect_reachable _) hhistory hselect
    rw [inbox_refused] at hstate
    cases hstate

/-- Loaded with no commit between the requests, and refused with the delivery. -/
theorem load_between_commits_inbox : ∃ result,
    selectMailbox (daemon atSelect viewer fun _ => []) (.literal "INBOX") = .ok result ∧ result.uidNext = 2 ∧
      ¬∀ line ∈ uidMapLines (daemon atUidMap viewer fun _ => []) result.kind result.mailboxId,
        line.row.uid < result.uidNext := by
  obtain ⟨transitions, hhistory⟩ := atUidMap_history JournalCrash.sha256
  have hload := (load_between_commits (atSelect_reachable JournalCrash.sha256) hhistory viewer (.literal "INBOX")
    (fun _ => []) fun _ => []).2
  cases hselect : selectMailbox (daemon atSelect viewer fun _ => []) (.literal "INBOX") with
  | error error =>
    have hselected := inbox_selected
    rw [hselect] at hselected
    cases hselected
  | ok result =>
    have hselected := inbox_selected
    rw [hselect] at hselected
    refine ⟨result, rfl, Option.some.inj hselected, fun hbelow => ?_⟩
    obtain ⟨state, hstate⟩ := (hload result hselect).1.mpr hbelow
    rw [inbox_refused] at hstate
    cases hstate

end Wyrebox.MailboxLoad
