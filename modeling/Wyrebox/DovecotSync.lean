import Mathlib.Data.Finset.Insert
import Wyrebox.AccountReplay
import Wyrebox.MailIndex

set_option autoImplicit false

/-!
# The Dovecot mailbox sync

A session's index follows what the daemon answers to SELECT and to the UID map query.
-/
namespace Wyrebox.DovecotSync
open Catalog

def maxUint32 : ℕ := 2 ^ 32 - 1

/-! ## Flags -/

inductive MailFlag where
  | answered
  | flagged
  | deleted
  | seen
  | draft
  deriving DecidableEq

/-- The value of an index message. -/
structure Attributes where
  flags : Finset MailFlag
  keywords : List CString
  deriving DecidableEq

def asciiLower (b : UInt8) : UInt8 := if 65 ≤ b ∧ b ≤ 90 then b + 32 else b

/-- `g_ascii_strcasecmp` finds no difference. -/
def asciiEqualFold (s t : CString) : Bool := s.bytes.map asciiLower = t.bytes.map asciiLower

def systemFlags : List (CString × MailFlag) :=
  [(.literal "\\Seen", .seen), (.literal "\\Answered", .answered), (.literal "\\Flagged", .flagged),
    (.literal "\\Deleted", .deleted), (.literal "\\Draft", .draft)]

def systemFlagFromName (name : CString) : Option MailFlag :=
  (systemFlags.find? fun entry => asciiEqualFold name entry.1).map Prod.snd

def startsWithBackslash (name : CString) : Bool := name.bytes.head? = some 92

/-- Unknown names with a backslash are ignored. -/
def rowAttributes (names : List CString) : Attributes where
  flags := ((names.filter startsWithBackslash).filterMap systemFlagFromName).toFinset
  keywords := names.filter fun name => !startsWithBackslash name

/-! ## The daemon's answers -/

structure DerivedView where
  viewId : CString
  imapName : CString
  isSelectable : Bool
  isVisible : Bool
  deriving DecidableEq

/-- What the daemon reads for an account. `flagNames` are the flags and keywords of a membership
    in the order of the query. -/
structure Daemon where
  tables : AccountTables
  views : List DerivedView
  flagNames : CString → List CString

inductive Kind where
  | ordinary
  | virtual
  deriving DecidableEq

structure SelectResult where
  kind : Kind
  mailboxId : CString
  mailboxName : CString
  uidValidity : ℕ
  uidNext : ℕ
  messageCount : ℕ
  deriving DecidableEq

inductive LoadError where
  | unavailable
  | integerExceedsUint32
  | notFound
  | ambiguous
  | notSelectable
  | selectResultIncomplete
  | uidvalidityMismatch
  | uidZero
  | messageIdEmpty
  | objectIdEmpty
  | ruleVersionHashEmpty
  | uidOutsideUidnext
  | uidTwice
  deriving DecidableEq

def ordinaryRow (t : AccountTables) (mailbox : Mailbox) : Option (SelectResult × Bool) :=
  (t.uidState (.mailbox mailbox.mailboxId)).map fun state =>
    (⟨.ordinary, mailbox.mailboxId, mailbox.imapName, state.uidvalidity, state.uidnext,
      t.memberships.countP fun row => row.mailboxId = mailbox.mailboxId ∧ row.isVisible⟩, mailbox.isSelectable)

def virtualRow (t : AccountTables) (view : DerivedView) : Option (SelectResult × Bool) :=
  (t.uidState (.derivedView view.viewId)).map fun state =>
    (⟨.virtual, view.viewId, view.imapName, state.uidvalidity, state.uidnext,
      t.derived.countP fun row => row.viewId = view.viewId ∧ row.isVisible⟩, view.isSelectable)

/-- `select_rows_by_selector` by name: a visible ordinary mailbox hides the views of its name. -/
def selectRows (d : Daemon) (name : CString) : List (SelectResult × Bool) :=
  let mailboxes := d.tables.mailboxes.filter fun mailbox => mailbox.isVisible ∧ mailbox.imapName = name
  let views := d.views.filter fun view => view.isVisible ∧ view.imapName = name
  mailboxes.filterMap (ordinaryRow d.tables) ++
    if mailboxes.isEmpty then views.filterMap (virtualRow d.tables) else []

def fitsUint32 (row : SelectResult × Bool) : Bool :=
  row.1.uidValidity ≤ maxUint32 ∧ row.1.uidNext ≤ maxUint32 ∧ row.1.messageCount ≤ maxUint32

def selectMailbox (d : Daemon) (name : CString) : Except LoadError SelectResult :=
  let rows := selectRows d name
  if !rows.all fitsUint32 then .error .integerExceedsUint32
  else
    match rows with
    | [] => .error .notFound
    | _ :: _ :: _ => .error .ambiguous
    | [(result, isSelectable)] =>
      if !isSelectable then .error .notSelectable
      else if result.mailboxId = .empty ∨ result.mailboxName = .empty ∨ result.uidValidity = 0 ∨
          result.uidNext = 0 then .error .selectResultIncomplete
      else .ok result

structure UidMapRow where
  uidValidity : ℕ
  uid : ℕ
  messageId : CString
  objectId : CString
  flags : List CString
  deriving DecidableEq

/-- A line of the answer. Only the lines of a view have a rule version. -/
structure UidMapLine where
  row : UidMapRow
  ruleVersionHash : Option CString
  deriving DecidableEq

def ordinaryLine (d : Daemon) (state : UidState) (membership : Membership) : Option UidMapLine :=
  (d.tables.messages membership.messageId).map fun message =>
    ⟨⟨state.uidvalidity, membership.uid, membership.messageId, message.objectId,
      d.flagNames membership.membershipId⟩, none⟩

def virtualLine (d : Daemon) (state : UidState) (membership : DerivedMembership) : Option UidMapLine :=
  (d.tables.messages membership.messageId).map fun message =>
    ⟨⟨state.uidvalidity, membership.uid, membership.messageId, message.objectId, []⟩,
      some membership.ruleVersionHash⟩

def sortLines (lines : List UidMapLine) : List UidMapLine := lines.insertionSort fun a b => a.row.uid ≤ b.row.uid

/-- `mailbox.uid_map.v1` and `derived_view.uid_map.v1`. -/
def uidMapLines (d : Daemon) (kind : Kind) (id : CString) : List UidMapLine :=
  match kind with
  | .ordinary =>
    match d.tables.uidState (.mailbox id) with
    | none => []
    | some state => sortLines ((d.tables.memberships.filter fun row => row.mailboxId = id ∧ row.isVisible).filterMap
        (ordinaryLine d state))
  | .virtual =>
    match d.tables.uidState (.derivedView id) with
    | none => []
    | some state => sortLines ((d.tables.derived.filter fun row => row.viewId = id ∧ row.isVisible).filterMap
        (virtualLine d state))

def uidMapRow (result : SelectResult) (line : UidMapLine) : Except LoadError UidMapRow :=
  if line.row.uidValidity ≠ result.uidValidity then .error .uidvalidityMismatch
  else if line.row.uid = 0 then .error .uidZero
  else if line.row.messageId = .empty then .error .messageIdEmpty
  else if line.row.objectId = .empty then .error .objectIdEmpty
  else if line.ruleVersionHash = some .empty then .error .ruleVersionHashEmpty
  else .ok line.row

/-! ## The loaded state -/

/-- `rowsByUid` has the UIDs as `guint32`. -/
structure MailboxState where
  selectResult : SelectResult
  uidMap : List UidMapRow
  rowsByUid : List (ℕ × UidMapRow)

def indexUidMapRow (result : SelectResult) (table : List (ℕ × UidMapRow)) (row : UidMapRow) :
    Except LoadError (List (ℕ × UidMapRow)) :=
  if row.uid = 0 ∨ result.uidNext ≤ row.uid then .error .uidOutsideUidnext
  else if row.uidValidity ≠ result.uidValidity then .error .uidvalidityMismatch
  else if row.messageId = .empty then .error .messageIdEmpty
  else if row.uid % 2 ^ 32 ∈ table.map Prod.fst then .error .uidTwice
  else .ok (table ++ [(row.uid % 2 ^ 32, row)])

def indexUidMap (result : SelectResult) (rows : List UidMapRow) : Except LoadError (List (ℕ × UidMapRow)) :=
  rows.foldlM (indexUidMapRow result) []

/-- The two requests may find different catalogs, or no daemon. -/
def loadState (name : CString) (atSelect atUidMap : Option Daemon) : Except LoadError MailboxState :=
  match atSelect with
  | none => .error .unavailable
  | some d => do
    let result ← selectMailbox d name
    match atUidMap with
    | none => .error .unavailable
    | some d => do
      let rows ← (uidMapLines d result.kind result.mailboxId).mapM (uidMapRow result)
      let table ← indexUidMap result rows
      .ok ⟨result, rows, table⟩

/-! ## The sync -/

def lookupRow (state : MailboxState) (uid : ℕ) : Option UidMapRow :=
  (state.rowsByUid.find? fun entry => entry.1 = uid).map Prod.snd

def syncExpungeMissing (state : MailboxState) (index : MailIndex Attributes) : List ℕ :=
  index.uids.filter fun uid => (lookupRow state uid).isNone

def syncApplyExistingFlags (state : MailboxState) (index : MailIndex Attributes) : List (Mail Attributes) :=
  index.uids.filterMap fun uid => (lookupRow state uid).map fun row => ⟨uid, rowAttributes row.flags⟩

/-- Only UIDs from the next UID of the index on are new. -/
def newUids (state : MailboxState) (index : MailIndex Attributes) : List ℕ :=
  ((state.rowsByUid.map Prod.fst).filter fun uid => index.nextUid ≤ uid).insertionSort fun a b => a ≤ b

def flagNames (row : Option UidMapRow) : List CString := row.elim [] UidMapRow.flags

def syncAppendNew (state : MailboxState) (index : MailIndex Attributes) : List (Mail Attributes) :=
  (newUids state index).map fun uid => ⟨uid, rowAttributes (flagNames (lookupRow state uid))⟩

def syncTransaction (state : MailboxState) (index : MailIndex Attributes) : MailTransaction Attributes where
  uidValidity := if index.uidValidity = 0 then some state.selectResult.uidValidity else none
  expunged := syncExpungeMissing state index
  updated := syncApplyExistingFlags state index
  appended := syncAppendNew state index
  nextUid := if index.nextUid < state.selectResult.uidNext then some state.selectResult.uidNext else none

/-- A mailbox of a session, with the state that goes with the index. -/
structure SessionMailbox where
  index : MailIndex Attributes
  state : Option MailboxState
  inconsistent : Bool

/-- The daemon at the two requests, and whether the index begins and commits the sync. -/
structure SyncEnv where
  atSelect : Option Daemon
  atUidMap : Option Daemon
  begins : Bool
  commits : Bool

/-- `wyrebox_dovecot_mailbox_sync_index`, and whether it returned 0. Without `REQUIRE_CHANGES` a
    sync that begins always has something to do. -/
def syncIndex (name : CString) (m : SessionMailbox) (env : SyncEnv) : SessionMailbox × Bool :=
  match loadState name env.atSelect env.atUidMap with
  | .error _ => (m, false)
  | .ok state =>
    if !env.begins then (m, false)
    else if m.index.uidValidity ≠ 0 ∧ m.index.uidValidity ≠ state.selectResult.uidValidity then
      ({ m with inconsistent := true }, false)
    else if !env.commits then (m, false)
    else
      match m.index.commit (syncTransaction state m.index) with
      | none => (m, false)
      | some index => ({ m with index := index, state := some state }, true)

/-- The index is in memory: a session starts with an empty one. -/
def opened (state : MailboxState) : SessionMailbox := ⟨.empty, some state, false⟩

def syncAll (name : CString) (m : SessionMailbox) (envs : List SyncEnv) : SessionMailbox :=
  envs.foldl (fun m env => (syncIndex name m env).1) m

/-! ## What a loaded state promises -/

def uidsOf (state : MailboxState) : List ℕ := state.uidMap.map UidMapRow.uid

lemma selectMailbox_uidNext {d : Daemon} {name : CString} {result : SelectResult}
    (h : selectMailbox d name = .ok result) : result.uidNext ≤ maxUint32 := by
  unfold selectMailbox at h
  dsimp only at h
  split at h
  · simp at h
  · rename_i hfits
    rw [Bool.not_eq_true, Bool.not_eq_false'] at hfits
    split at h
    · simp at h
    · simp at h
    · rename_i result' isSelectable hrows
      have hrow : fitsUint32 (result', isSelectable) = true :=
        List.all_eq_true.mp hfits _ (hrows ▸ List.mem_singleton_self _)
      rw [fitsUint32, decide_eq_true_eq] at hrow
      split at h
      · simp at h
      · split at h
        · simp at h
        · rw [← Except.ok.inj h]
          exact hrow.2.1

/-- The table has each row of the map under its UID, in the same order. -/
structure Indexed (result : SelectResult) (rows : List UidMapRow) (table : List (ℕ × UidMapRow)) : Prop where
  entries : table = rows.map fun row => (row.uid, row)
  bounds : ∀ row ∈ rows, row.uid ≠ 0 ∧ row.uid < result.uidNext
  nodup : (rows.map UidMapRow.uid).Nodup

lemma Indexed.row {result : SelectResult} {rows : List UidMapRow} {table table' : List (ℕ × UidMapRow)}
    {row : UidMapRow} (hnext : result.uidNext ≤ maxUint32) (h : Indexed result rows table)
    (hrow : indexUidMapRow result table row = .ok table') : Indexed result (rows ++ [row]) table' := by
  unfold indexUidMapRow at hrow
  split at hrow
  · simp at hrow
  · rename_i hbounds
    rw [not_or, Nat.not_le] at hbounds
    split at hrow
    · simp at hrow
    · split at hrow
      · simp at hrow
      · split at hrow
        · simp at hrow
        · rename_i hnew
          have hcast : row.uid % 2 ^ 32 = row.uid := by
            rw [maxUint32] at hnext
            omega
          rw [hcast] at hnew hrow
          have hkeys : table.map Prod.fst = rows.map UidMapRow.uid := by
            rw [h.entries, List.map_map]
            rfl
          rw [hkeys] at hnew
          refine ⟨?_, ?_, ?_⟩
          · rw [← Except.ok.inj hrow, h.entries, List.map_append, List.map_singleton]
          · exact List.forall_mem_append.mpr ⟨h.bounds, List.forall_mem_singleton.mpr hbounds⟩
          · rw [List.map_append, List.map_singleton, List.nodup_append]
            exact ⟨h.nodup, List.nodup_singleton _, fun a ha b hb heq => hnew (List.mem_singleton.mp hb ▸ heq ▸ ha)⟩

lemma Indexed.foldlM {result : SelectResult} {done rows : List UidMapRow} {table table' : List (ℕ × UidMapRow)}
    (hnext : result.uidNext ≤ maxUint32) (h : Indexed result done table)
    (hrows : rows.foldlM (indexUidMapRow result) table = .ok table') : Indexed result (done ++ rows) table' := by
  induction rows generalizing done table with
  | nil =>
    obtain rfl : table = table' := Except.ok.inj hrows
    rwa [List.append_nil]
  | cons row rows ih =>
    rw [List.foldlM_cons, Fallible.bind_eq_ok] at hrows
    obtain ⟨table₁, hrow, hrest⟩ := hrows
    rw [List.append_cons]
    exact ih (h.row hnext hrow) hrest

lemma loadState_indexed {name : CString} {atSelect atUidMap : Option Daemon} {state : MailboxState}
    (h : loadState name atSelect atUidMap = .ok state) :
    Indexed state.selectResult state.uidMap state.rowsByUid := by
  cases atSelect with
  | none => simp [loadState] at h
  | some d =>
    simp only [loadState, Fallible.bind_eq_ok] at h
    obtain ⟨result, hselect, h⟩ := h
    cases atUidMap with
    | none => simp at h
    | some d' =>
      simp only [Fallible.bind_eq_ok] at h
      obtain ⟨rows, -, table, htable, heq⟩ := h
      rw [← Except.ok.inj heq]
      have hempty : Indexed result [] [] := ⟨rfl, by simp, List.nodup_nil⟩
      exact hempty.foldlM (selectMailbox_uidNext hselect) htable

/-! ## One sync -/

section
variable {state : MailboxState}

lemma lookupRow_isSome (h : Indexed state.selectResult state.uidMap state.rowsByUid) (uid : ℕ) :
    (lookupRow state uid).isSome ↔ uid ∈ uidsOf state := by
  rw [lookupRow, Option.isSome_map, List.find?_isSome, h.entries, uidsOf, List.mem_map]
  constructor
  · rintro ⟨entry, hentry, huid⟩
    obtain ⟨row, hrow, rfl⟩ := List.mem_map.mp hentry
    exact ⟨row, hrow, of_decide_eq_true huid⟩
  · rintro ⟨row, hrow, rfl⟩
    exact ⟨(row.uid, row), List.mem_map_of_mem hrow, decide_eq_true rfl⟩

lemma lookupRow_uid (h : Indexed state.selectResult state.uidMap state.rowsByUid) {uid : ℕ} {row : UidMapRow}
    (hrow : lookupRow state uid = some row) : row.uid = uid ∧ row ∈ state.uidMap := by
  rw [lookupRow, Option.map_eq_some_iff] at hrow
  obtain ⟨entry, hfind, rfl⟩ := hrow
  have hmem := List.mem_of_find?_eq_some hfind
  have huid : entry.1 = uid := by simpa using List.find?_some hfind
  rw [h.entries] at hmem
  obtain ⟨row, hrow, rfl⟩ := List.mem_map.mp hmem
  exact ⟨huid, hrow⟩

lemma rowsByUid_keys (h : Indexed state.selectResult state.uidMap state.rowsByUid) :
    state.rowsByUid.map Prod.fst = uidsOf state := by
  rw [h.entries, List.map_map]
  rfl

lemma appendNew_uids (index : MailIndex Attributes) : (syncAppendNew state index).map Mail.uid = newUids state index := by
  rw [syncAppendNew, List.map_map]
  exact List.map_id _

lemma mem_newUids (h : Indexed state.selectResult state.uidMap state.rowsByUid) (index : MailIndex Attributes)
    (uid : ℕ) : uid ∈ newUids state index ↔ uid ∈ uidsOf state ∧ index.nextUid ≤ uid := by
  rw [newUids, List.mem_insertionSort, rowsByUid_keys h, List.mem_filter, decide_eq_true_eq]

/-- The new UIDs follow the index in ascending order. -/
lemma appendNew_inOrder (h : Indexed state.selectResult state.uidMap state.rowsByUid)
    (index : MailIndex Attributes) : index.InOrder (syncAppendNew state index) := by
  constructor
  · intro mail hmail
    have huid : mail.uid ∈ newUids state index := appendNew_uids index ▸ List.mem_map_of_mem hmail
    exact ((mem_newUids h index mail.uid).mp huid).2
  · have hnodup : (newUids state index).Nodup := by
      refine (List.perm_insertionSort _ _).nodup_iff.mpr ?_
      rw [rowsByUid_keys h]
      exact h.nodup.sublist List.filter_sublist
    have hsorted : (newUids state index).Pairwise fun a b => a ≤ b := List.pairwise_insertionSort _ _
    have hascending : (newUids state index).Pairwise fun a b => a < b :=
      (hsorted.and hnodup).imp fun ⟨hle, hne⟩ => Nat.lt_of_le_of_ne hle hne
    rw [← appendNew_uids, List.pairwise_map] at hascending
    exact hascending

/-- The commit keeps what the map shows and adds only what lies beyond the next UID. -/
lemma mem_uids_sync (h : Indexed state.selectResult state.uidMap state.rowsByUid)
    {index index' : MailIndex Attributes} (hcommit : index.commit (syncTransaction state index) = some index')
    (uid : ℕ) : uid ∈ index'.uids ↔ uid ∈ uidsOf state ∧ (uid ∈ index.uids ∨ index.nextUid ≤ uid) := by
  have hexpunged : uid ∈ index.uids → (uid ∉ syncExpungeMissing state index ↔ uid ∈ uidsOf state) := by
    intro hmem
    rw [syncExpungeMissing, List.mem_filter, ← lookupRow_isSome h]
    simp [hmem, Option.isSome_iff_ne_none]
  rw [MailIndex.mem_uids_commit hcommit, syncTransaction]
  dsimp only
  rw [appendNew_uids, mem_newUids h]
  tauto

lemma nextUid_sync (h : Indexed state.selectResult state.uidMap state.rowsByUid)
    {index index' : MailIndex Attributes} (hcommit : index.commit (syncTransaction state index) = some index') :
    index'.nextUid = max index.nextUid state.selectResult.uidNext := by
  have hheader : max index.nextUid ((syncTransaction state index).nextUid.getD 0) =
      max index.nextUid state.selectResult.uidNext := by
    rw [syncTransaction]
    dsimp only
    split
    · rfl
    · rename_i hle
      rw [Option.getD_none, Nat.max_eq_left (Nat.zero_le _), Nat.max_eq_left (Nat.not_lt.mp hle)]
  rw [(MailIndex.nextUid_commit hcommit).1, ← hheader]
  refine MailIndex.raiseNextUid_eq fun mail hmail => ?_
  have huid : mail.uid ∈ newUids state index := appendNew_uids index ▸ List.mem_map_of_mem hmail
  obtain ⟨row, hrow, heq⟩ := List.mem_map.mp ((mem_newUids h index mail.uid).mp huid).1
  rw [hheader, ← heq]
  exact Nat.lt_of_lt_of_le (h.bounds row hrow).2 (Nat.le_max_right ..)

/-- The state that a sync installs on an index of this UIDVALIDITY. -/
def installedState (name : CString) (uidValidity : ℕ) (env : SyncEnv) : Option MailboxState :=
  match loadState name env.atSelect env.atUidMap with
  | .error _ => none
  | .ok state =>
    if env.begins ∧ env.commits ∧ (uidValidity = 0 ∨ uidValidity = state.selectResult.uidValidity) then some state
    else none

lemma installedState_indexed {name : CString} {uidValidity : ℕ} {env : SyncEnv}
    (h : installedState name uidValidity env = some state) :
    Indexed state.selectResult state.uidMap state.rowsByUid ∧
      (uidValidity = 0 ∨ uidValidity = state.selectResult.uidValidity) := by
  unfold installedState at h
  split at h
  · simp at h
  · rename_i state' hload
    split at h
    · rename_i hconditions
      obtain rfl := Option.some.inj h
      exact ⟨loadState_indexed hload, hconditions.2.2⟩
    · simp at h

lemma syncIndex_failed {name : CString} {m : SessionMailbox} {env : SyncEnv}
    (h : installedState name m.index.uidValidity env = none) :
    (syncIndex name m env).2 = false ∧ (syncIndex name m env).1.index = m.index := by
  unfold installedState at h
  unfold syncIndex
  cases hload : loadState name env.atSelect env.atUidMap with
  | error error => exact ⟨rfl, rfl⟩
  | ok state =>
    rw [hload] at h
    dsimp only at h ⊢
    split
    · exact ⟨rfl, rfl⟩
    · rename_i hbegins
      split
      · exact ⟨rfl, rfl⟩
      · rename_i hvalidity
        split
        · exact ⟨rfl, rfl⟩
        · rename_i hcommits
          have hconditions : env.begins ∧ env.commits ∧
              (m.index.uidValidity = 0 ∨ m.index.uidValidity = state.selectResult.uidValidity) := by
            rw [not_and_or, not_not, not_not] at hvalidity
            exact ⟨by simpa using hbegins, by simpa using hcommits, hvalidity⟩
          rw [if_pos hconditions] at h
          simp at h

/-- A sync that installs a state commits: its new UIDs are in order. -/
lemma syncIndex_installed {name : CString} {m : SessionMailbox} {env : SyncEnv}
    (h : installedState name m.index.uidValidity env = some state) :
    ∃ index, m.index.commit (syncTransaction state m.index) = some index ∧
      index.uidValidity = state.selectResult.uidValidity ∧
      syncIndex name m env = ({ m with index := index, state := some state }, true) := by
  obtain ⟨hindexed, hvalidity⟩ := installedState_indexed h
  cases hcommit : m.index.commit (syncTransaction state m.index) with
  | none =>
    have hinOrder : m.index.InOrder (syncTransaction state m.index).appended := appendNew_inOrder hindexed m.index
    simp [MailIndex.commit, hinOrder] at hcommit
  | some index =>
    refine ⟨index, rfl, ?_, ?_⟩
    · rw [(MailIndex.nextUid_commit hcommit).2, syncTransaction]
      rcases hvalidity with hzero | hsame
      · simp [hzero]
      · simp only [hsame]
        split <;> rfl
    · unfold installedState at h
      unfold syncIndex
      split at h
      · simp at h
      · rename_i state' hload
        split at h
        · rename_i hconditions
          obtain rfl := Option.some.inj h
          obtain ⟨hbegins, hcommits, hvalidity⟩ := hconditions
          rw [hcommit, if_neg (by simp [hbegins]), if_neg (by tauto), if_neg (by simp [hcommits])]
        · simp at h

end

/-! ## Whole sessions -/

/-- The index has the UIDs of the loaded map, and each of its messages has its row. -/
def Converged (m : SessionMailbox) : Prop :=
  ∃ state, m.state = some state ∧ (∀ uid, uid ∈ m.index.uids ↔ uid ∈ uidsOf state) ∧
    ∀ mail ∈ m.index.mails, ∃ row, lookupRow state mail.uid = some row ∧ row ∈ state.uidMap ∧ row.uid = mail.uid

/-- The states that the syncs of a session install, starting on an index of this UIDVALIDITY. -/
def installedStates (name : CString) : ℕ → List SyncEnv → List MailboxState
  | _, [] => []
  | uidValidity, env :: envs =>
    match installedState name uidValidity env with
    | none => installedStates name uidValidity envs
    | some state => state :: installedStates name state.selectResult.uidValidity envs

/-- No state shows a UID below an earlier UIDNEXT that the state right before it did not show. -/
def Punctual : List ℕ → ℕ → List MailboxState → Prop
  | _, _, [] => True
  | shown, next, state :: states =>
    (∀ uid ∈ uidsOf state, uid < next → uid ∈ shown) ∧
      Punctual (uidsOf state) (max next state.selectResult.uidNext) states

section
variable {name : CString} {m : SessionMailbox}

/-- Whether the index follows depends on the UIDs it lacks. -/
lemma converged_iff {state : MailboxState} {m' : SessionMailbox}
    (hindexed : Indexed state.selectResult state.uidMap state.rowsByUid) (hstate : m'.state = some state)
    (hcommit : m.index.commit (syncTransaction state m.index) = some m'.index) :
    Converged m' ↔ ∀ uid ∈ uidsOf state, uid < m.index.nextUid → uid ∈ m.index.uids := by
  have hmem := mem_uids_sync hindexed hcommit
  constructor
  · rintro ⟨state', hstate', huids, -⟩ uid huid hlt
    obtain rfl : state = state' := Option.some.inj (hstate.symm.trans hstate')
    exact ((hmem uid).mp ((huids uid).mpr huid)).2.resolve_right (Nat.not_le.mpr hlt)
  · intro hpunctual
    refine ⟨state, hstate, fun uid => ⟨fun huid => ((hmem uid).mp huid).1, fun huid => (hmem uid).mpr ⟨huid, ?_⟩⟩,
      fun mail hmail => ?_⟩
    · by_cases hlt : uid < m.index.nextUid
      · exact .inl (hpunctual uid huid hlt)
      · exact .inr (Nat.not_lt.mp hlt)
    · have huid := ((hmem mail.uid).mp (List.mem_map_of_mem hmail)).1
      obtain ⟨row, hrow⟩ := Option.isSome_iff_exists.mp ((lookupRow_isSome hindexed mail.uid).mpr huid)
      exact ⟨row, hrow, (lookupRow_uid hindexed hrow).2, (lookupRow_uid hindexed hrow).1⟩

/-- Every successful sync of the session ends with the index converged. -/
def AlwaysConverged (name : CString) (m : SessionMailbox) (envs : List SyncEnv) : Prop :=
  ∀ done env rest, envs = done ++ env :: rest → (syncIndex name (syncAll name m done) env).2 = true →
    Converged (syncIndex name (syncAll name m done) env).1

lemma alwaysConverged_cons {env : SyncEnv} {envs : List SyncEnv} :
    AlwaysConverged name m (env :: envs) ↔ ((syncIndex name m env).2 = true → Converged (syncIndex name m env).1) ∧
      AlwaysConverged name (syncIndex name m env).1 envs := by
  constructor
  · intro h
    refine ⟨h [] env envs rfl, fun done env' rest hsplit => ?_⟩
    exact h (env :: done) env' rest (by rw [hsplit, List.cons_append])
  · rintro ⟨hfirst, hrest⟩ done env' rest hsplit
    cases done with
    | nil =>
      obtain ⟨rfl, rfl⟩ := List.cons.inj hsplit
      exact hfirst
    | cons first done =>
      obtain ⟨rfl, htail⟩ := List.cons.inj hsplit
      exact hrest done env' rest htail

lemma alwaysConverged_iff {envs : List SyncEnv} {shown : List ℕ} (hshown : ∀ uid, uid ∈ m.index.uids ↔ uid ∈ shown) :
    AlwaysConverged name m envs ↔ Punctual shown m.index.nextUid (installedStates name m.index.uidValidity envs) := by
  induction envs generalizing m shown with
  | nil => exact iff_of_true (fun done env rest habsurd => by simp at habsurd) trivial
  | cons env envs ih =>
    rw [alwaysConverged_cons, installedStates]
    cases hinstalled : installedState name m.index.uidValidity env with
    | none =>
      obtain ⟨hfailed, hsame⟩ := syncIndex_failed hinstalled
      have hrest := @ih (syncIndex name m env).1 shown (by rwa [hsame])
      rw [hfailed, hrest, hsame]
      simp
    | some state =>
      obtain ⟨hindexed, -⟩ := installedState_indexed hinstalled
      obtain ⟨index, hcommit, hvalidity, hsync⟩ := syncIndex_installed hinstalled
      rw [hsync, imp_iff_right rfl]
      dsimp only
      rw [Punctual, converged_iff hindexed rfl hcommit]
      have hlate : (∀ uid ∈ uidsOf state, uid < m.index.nextUid → uid ∈ m.index.uids) ↔
          ∀ uid ∈ uidsOf state, uid < m.index.nextUid → uid ∈ shown :=
        forall₃_congr fun uid _ _ => hshown uid
      rw [hlate, ← nextUid_sync hindexed hcommit, ← hvalidity]
      refine and_congr_right fun hpunctual => @ih { m with index := index, state := some state } _ fun uid => ?_
      obtain ⟨state', hstate', huids, -⟩ :=
        (@converged_iff m _ { m with index := index, state := some state } hindexed rfl hcommit).mpr
          (hlate.mpr hpunctual)
      obtain rfl : state = state' := Option.some.inj hstate'
      exact huids uid

end

/-- A session's index follows the daemon exactly as long as no UID is shown late. -/
theorem index_converges (name : CString) (state : MailboxState) (envs : List SyncEnv) :
    AlwaysConverged name (opened state) envs ↔ Punctual [] 1 (installedStates name 0 envs) :=
  alwaysConverged_iff fun _ => Iff.rfl

/-! ## A view whose first message leaves and returns -/

def viewer : CString := .literal "alice"

def viewName : CString := .literal "Project"

def delivered (sequence : ℕ) (objectKey : CString) : ProjectionRecord :=
  ⟨⟨64 * sequence, sequence⟩, .messageDelivered ⟨objectKey, 10, 0, ⟨none, none, none, none, none, none, none, 0,
    .absent, .absent⟩, none, none, some viewer, none, []⟩⟩

/-- The message of the record at `message` takes its UID in the view or leaves it. -/
def changed (sequence message : ℕ) (isVisible : Bool) : ProjectionRecord :=
  ⟨⟨64 * sequence, sequence⟩, .derivedViewMembershipChanged ⟨viewer, viewName,
    Materializer.journalMessageId ⟨64 * message, message⟩, .literal "member:" ++ .decimal message,
    .literal "rule-1", message, 7, isVisible, 0⟩⟩

def viewRecords : List ProjectionRecord :=
  [delivered 1 (.literal "object-1"), delivered 2 (.literal "object-2"), changed 3 1 true, changed 4 2 true,
    changed 5 1 false, changed 6 1 true]

/-- The catalog after the first records of the journal. -/
def daemonAfter (count : ℕ) : Option Daemon :=
  match AccountReplay.replayRows .empty viewer (Provisioned.empty.accountTables viewer)
      (viewRecords.take count) with
  | .ok t => some ⟨t, [⟨viewName, viewName, true, true⟩], fun _ => []⟩
  | .error _ => none

def syncAfter (count : ℕ) : SyncEnv := ⟨daemonAfter count, daemonAfter count, true, true⟩

/-- What opening the view loads. -/
def viewState : MailboxState :=
  match loadState viewName (daemonAfter 4) (daemonAfter 4) with
  | .ok state => state
  | .error _ => ⟨⟨.virtual, .empty, .empty, 0, 0, 0⟩, [], []⟩

/-- Both messages are shown, the first is hidden, and it is shown again. -/
def viewSession : SessionMailbox × Bool :=
  syncIndex viewName (syncAll viewName (opened viewState) [syncAfter 4, syncAfter 5]) (syncAfter 6)

lemma viewSession_uids : viewSession.2 = true ∧ viewSession.1.index.uids = [2] ∧
    viewSession.1.state.map uidsOf = some [1, 2] := by
  decide

/-- The message that returns under its old UID never comes back into the index. -/
theorem returning_message_not_in_index :
    ¬∀ (name : CString) (state : MailboxState) (envs : List SyncEnv), AlwaysConverged name (opened state) envs := by
  intro hclaim
  obtain ⟨hsynced, hlacks, hshows⟩ := viewSession_uids
  obtain ⟨loaded, hloaded, huids, -⟩ := hclaim viewName viewState [syncAfter 4, syncAfter 5, syncAfter 6]
    [syncAfter 4, syncAfter 5] (syncAfter 6) [] rfl hsynced
  rw [show viewSession.1.state = some loaded from hloaded] at hshows
  have hreturned : 1 ∈ viewSession.1.index.uids := (huids 1).mpr (by rw [Option.some.inj hshows]; simp)
  rw [hlacks] at hreturned
  exact absurd hreturned (by decide)

end Wyrebox.DovecotSync
