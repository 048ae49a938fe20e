import Mathlib.Data.Finset.Disjoint
import Mathlib.Data.List.Sort
import Wyrebox.FlagPush
import Wyrebox.Reapplication

set_option autoImplicit false

/-!
# The copies of a mail's flags

The index, the session's row and the daemon each have a copy of a mail's flags and keywords. The
folded requests change the daemon's as the index records change the index's, and after a push the
three are the same again.
-/
namespace Wyrebox.FlagPush
open Catalog Materializer Event DovecotSync Reapplication ReplayCells
open JournalWriter (Position)

/-! ## Copies as sets -/

inductive FlagKey where
  | system (flag : MailFlag)
  | keyword (name : CString)

def flagName : MailFlag → CString
  | .seen => .literal "\\Seen"
  | .answered => .literal "\\Answered"
  | .flagged => .literal "\\Flagged"
  | .deleted => .literal "\\Deleted"
  | .draft => .literal "\\Draft"

def systemKeys (flags : Finset MailFlag) : Set FlagKey := {key | ∃ flag ∈ flags, key = .system flag}

def keywordKeys (keywords : List CString) : Set FlagKey := {key | ∃ keyword ∈ keywords, key = .keyword keyword}

def indexKeys (attributes : Attributes) : Set FlagKey := systemKeys attributes.flags ∪ keywordKeys attributes.keywords

namespace FlagKey

def table : FlagKey → FlagTable
  | .system _ => .messageFlags
  | .keyword _ => .messageKeywords

def name : FlagKey → CString
  | .system flag => flagName flag
  | .keyword name => name

end FlagKey

def rowKeys (row : UidMapRow) : Set FlagKey :=
  {key | key.name ∈ row.flags ∧ (key.table = .messageKeywords → startsWithBackslash key.name = false)}

def daemonKeys (t : AccountTables) (membershipId : CString) : Set FlagKey :=
  {key | (t.flags key.table membershipId key.name).isSome = true}

/-- One record on a copy. -/
def applyKeys (keys : Set FlagKey) : FlagRecord → Set FlagKey
  | .flags add remove _ => keys \ systemKeys remove ∪ systemKeys add
  | .keywordAdd keyword => keys ∪ {.keyword keyword}
  | .keywordRemove keyword => keys \ {.keyword keyword}

namespace FlagDelta

def added (delta : FlagDelta) : Set FlagKey := systemKeys delta.addFlags ∪ keywordKeys delta.addKeywords

def removed (delta : FlagDelta) : Set FlagKey := systemKeys delta.removeFlags ∪ keywordKeys delta.removeKeywords

end FlagDelta

section
variable {flag : MailFlag} {flags : Finset MailFlag} {name : CString} {keywords : List CString} {keys : Set FlagKey}

@[simp] lemma system_mem_systemKeys : .system flag ∈ systemKeys flags ↔ flag ∈ flags := by
  simp [systemKeys]

@[simp] lemma keyword_mem_systemKeys : .keyword name ∈ systemKeys flags ↔ False := by
  simp [systemKeys]

@[simp] lemma system_mem_keywordKeys : .system flag ∈ keywordKeys keywords ↔ False := by
  simp [keywordKeys]

@[simp] lemma keyword_mem_keywordKeys : .keyword name ∈ keywordKeys keywords ↔ name ∈ keywords := by
  simp [keywordKeys]

/-! ## Folding the records -/

lemma indexKeys_applyRecord (attributes : Attributes) (record : FlagRecord) :
    indexKeys (applyRecord attributes record) = applyKeys (indexKeys attributes) record := by
  ext key
  cases record <;> cases key <;> simp [indexKeys, applyRecord, applyKeys, List.mem_insert_iff, or_comm]

lemma indexKeys_foldl (records : List FlagRecord) (attributes : Attributes) :
    indexKeys (records.foldl applyRecord attributes) = records.foldl applyKeys (indexKeys attributes) := by
  induction records generalizing attributes with
  | nil => rfl
  | cons record records ih => rw [List.foldl_cons, List.foldl_cons, ih, indexKeys_applyRecord]

/-- One more record in the delta is one more record after the delta. -/
lemma added_addRecord (delta : FlagDelta) (record : FlagRecord) :
    (keys ∪ (delta.addRecord record).added) \ (delta.addRecord record).removed =
      applyKeys ((keys ∪ delta.added) \ delta.removed) record := by
  ext key
  cases record with
  | flags add remove disjoint =>
    cases key with
    | system flag =>
      have hnot : flag ∈ add → flag ∉ remove := fun hadd hremove => Finset.disjoint_left.mp disjoint hadd hremove
      simp only [FlagDelta.addRecord, FlagDelta.added, FlagDelta.removed, applyKeys, Set.mem_sdiff, Set.mem_union,
        system_mem_systemKeys, system_mem_keywordKeys, or_false, Finset.mem_union, Finset.mem_sdiff]
      tauto
    | keyword name => simp [FlagDelta.addRecord, FlagDelta.added, FlagDelta.removed, applyKeys]
  | keywordAdd keyword =>
    cases key with
    | system flag => simp [FlagDelta.addRecord, FlagDelta.added, FlagDelta.removed, applyKeys]
    | keyword name =>
      by_cases hname : name = keyword
      · simp [FlagDelta.addRecord, FlagDelta.added, FlagDelta.removed, applyKeys, hname]
      · simp [FlagDelta.addRecord, FlagDelta.added, FlagDelta.removed, applyKeys, hname, List.mem_insert_iff]
  | keywordRemove keyword =>
    cases key with
    | system flag => simp [FlagDelta.addRecord, FlagDelta.added, FlagDelta.removed, applyKeys]
    | keyword name =>
      by_cases hname : name = keyword
      · simp [FlagDelta.addRecord, FlagDelta.added, FlagDelta.removed, applyKeys, hname]
      · simp [FlagDelta.addRecord, FlagDelta.added, FlagDelta.removed, applyKeys, hname, List.mem_insert_iff]

/-- The added keys and then the removed ones are the records in order. -/
theorem added_foldl (records : List FlagRecord) (delta : FlagDelta) :
    (keys ∪ (records.foldl FlagDelta.addRecord delta).added) \ (records.foldl FlagDelta.addRecord delta).removed =
      records.foldl applyKeys ((keys ∪ delta.added) \ delta.removed) := by
  induction records generalizing delta with
  | nil => rfl
  | cons record records ih => rw [List.foldl_cons, List.foldl_cons, ih, added_addRecord]

lemma added_empty : (keys ∪ FlagDelta.empty.added) \ FlagDelta.empty.removed = keys := by
  ext key
  cases key <;> simp [FlagDelta.empty, FlagDelta.added, FlagDelta.removed]

end

/-! ## The requests at the daemon -/

section
variable {t t' : AccountTables} {position : Position} {change : FlagChanged} {row : Membership} {flags : Finset MailFlag}
  {keywords : List CString}

lemma flagName_injective : Function.Injective flagName := by
  intro a b h
  revert h
  cases a <;> cases b <;> decide

lemma mem_systemFlagNames {flag : MailFlag} : flagName flag ∈ systemFlagNames flags ↔ flag ∈ flags := by
  have hentry : ∀ entry ∈ systemFlags, entry.1 = flagName entry.2 := by decide
  have hall : (flagName flag, flag) ∈ systemFlags := by cases flag <;> decide
  simp only [systemFlagNames, List.mem_map, List.mem_filter, decide_eq_true_eq]
  constructor
  · rintro ⟨entry, ⟨hmem, hflag⟩, hname⟩
    rw [hentry entry hmem] at hname
    rwa [← flagName_injective hname]
  · exact fun hflag => ⟨_, ⟨hall, hflag⟩, rfl⟩

lemma systemFlagNames_nodup : (systemFlagNames flags).Nodup := by
  have hnodup : (systemFlags.map Prod.fst).Nodup := by decide
  exact hnodup.sublist (List.filter_sublist.map _)

lemma mem_keywordNames {name : CString} : name ∈ keywordNames keywords ↔ name ∈ keywords :=
  (List.perm_insertionSort _ keywords).mem_iff

lemma keywordNames_nodup (h : keywords.Nodup) : (keywordNames keywords).Nodup :=
  (List.perm_insertionSort _ keywords).nodup_iff.mpr h

/-- The keys a change names. -/
def changeKeys (change : FlagChanged) : Set FlagKey := {key | key.name ∈ Reapplication.flagNames change key.table}

/-- A SET adds its keys to the target, a CLEAR removes them, and the other mails keep theirs. -/
lemma applyFlagChange_keys (hnodup : ∀ table, (Reapplication.flagNames change table).Nodup)
    (hmode : change.mode ≠ .replace)
    (hrow : t.findUid change.mailboxId change.uidvalidity change.uid = some row) :
    ∃ flags, applyFlagChange t change position = .ok { t with flags := flags } ∧
      daemonKeys { t with flags := flags } row.membershipId =
        (if change.mode = .set then daemonKeys t row.membershipId ∪ changeKeys change
          else daemonKeys t row.membershipId \ changeKeys change) ∧
      ∀ membershipId, membershipId ≠ row.membershipId →
        daemonKeys { t with flags := flags } membershipId = daemonKeys t membershipId := by
  obtain ⟨flags, happly, hcells⟩ := @applyFlagChange_cells position t change row hnodup hrow
  have hcell : ∀ table membershipId name, (flags table membershipId name).isSome =
      (Write.act (flagEffect (flagTarget t change) change position (.flag table membershipId name))
        ((t.flags table membershipId name).map .flag)).isSome := by
    intro table membershipId name
    have h := congrArg Option.isSome (congrFun hcells (.flag table membershipId name))
    rwa [cells, Option.isSome_map] at h
  have htarget : flagTarget t change = some row.membershipId := by rw [flagTarget, hrow, Option.map_some]
  refine ⟨flags, happly, ?_, fun membershipId hne => ?_⟩
  · ext key
    have hnamed : (flags key.table row.membershipId key.name).isSome =
        if key.name ∈ Reapplication.flagNames change key.table then decide (change.mode = .set)
        else (t.flags key.table row.membershipId key.name).isSome := by
      rw [hcell]
      simp only [flagEffect, htarget, if_true, flagWrite, nameWrite, if_neg hmode]
      split
      · cases hm : change.mode <;> simp_all [Write.act]
      · simp [Write.act]
    change (flags key.table row.membershipId key.name).isSome = true ↔ _
    rw [hnamed]
    cases hm : change.mode with
    | set =>
      simp only [if_true, decide_true, Set.mem_union]
      change _ ↔ (t.flags key.table row.membershipId key.name).isSome = true ∨
        key.name ∈ Reapplication.flagNames change key.table
      split <;> simp_all
    | clear =>
      simp only [reduceCtorEq, if_false, decide_false, Set.mem_sdiff]
      change _ ↔ (t.flags key.table row.membershipId key.name).isSome = true ∧
        key.name ∉ Reapplication.flagNames change key.table
      split <;> simp_all
    | replace => exact absurd hm hmode
  · ext key
    change (flags key.table membershipId key.name).isSome = true ↔
      (t.flags key.table membershipId key.name).isSome = true
    rw [hcell]
    simp only [flagEffect, htarget, Option.some.injEq, if_neg (Ne.symm hne), Write.act, Option.isSome_map]

lemma changeKeys_requestOf (target : Target) (row : UidMapRow) (mode : UpdateMode) :
    changeKeys (changeOf (requestOf target row mode flags keywords)) = systemKeys flags ∪ keywordKeys keywords := by
  ext key
  cases key with
  | system flag =>
    change flagName flag ∈ systemFlagNames flags ↔ _
    rw [mem_systemFlagNames]
    simp
  | keyword name =>
    change name ∈ keywordNames keywords ↔ _
    rw [mem_keywordNames]
    simp

/-! ## The delta of a mail -/

/-- The keyword lists hold each name once. -/
def FlagDelta.Distinct (delta : FlagDelta) : Prop := delta.addKeywords.Nodup ∧ delta.removeKeywords.Nodup

lemma addRecord_distinct {delta : FlagDelta} (h : delta.Distinct) (record : FlagRecord) :
    (delta.addRecord record).Distinct := by
  cases record with
  | flags add remove disjoint => exact h
  | keywordAdd keyword => exact ⟨h.1.insert, h.2.filter _⟩
  | keywordRemove keyword => exact ⟨h.1.filter _, h.2.insert⟩

lemma foldl_distinct (records : List FlagRecord) {delta : FlagDelta} (h : delta.Distinct) :
    (records.foldl FlagDelta.addRecord delta).Distinct := by
  induction records generalizing delta with
  | nil => exact h
  | cons record records ih => exact ih (addRecord_distinct h record)

lemma empty_distinct : FlagDelta.empty.Distinct := ⟨List.nodup_nil, List.nodup_nil⟩

/-- The folded SET and CLEAR change the daemon's flags and keywords as the records in order do. -/
theorem folded_requests (target : Target) (uidRow : UidMapRow) (records : List FlagRecord) (atSet atClear : Position)
    (hrow : t.findUid target.select.mailboxId target.select.uidValidity uidRow.uid = some row) :
    let delta := records.foldl FlagDelta.addRecord .empty
    ∃ t₁ t₂,
      applyFlagChange t (changeOf (requestOf target uidRow .set delta.addFlags delta.addKeywords)) atSet = .ok t₁ ∧
      applyFlagChange t₁ (changeOf (requestOf target uidRow .clear delta.removeFlags delta.removeKeywords)) atClear =
        .ok t₂ ∧
      daemonKeys t₂ row.membershipId = records.foldl applyKeys (daemonKeys t row.membershipId) := by
  intro delta
  have hdistinct := foldl_distinct records empty_distinct
  have hnodup : ∀ mode flags keywords, keywords.Nodup → ∀ table,
      (Reapplication.flagNames (changeOf (requestOf target uidRow mode flags keywords)) table).Nodup := by
    intro mode flags keywords hkeywords table
    cases table with
    | messageFlags => exact systemFlagNames_nodup
    | messageKeywords => exact keywordNames_nodup hkeywords
  obtain ⟨flags₁, hset, hkeys₁, -⟩ := @applyFlagChange_keys t atSet
    (changeOf (requestOf target uidRow .set delta.addFlags delta.addKeywords)) row
    (hnodup _ _ _ hdistinct.1) (by simp [changeOf, requestOf]) hrow
  obtain ⟨flags₂, hclear, hkeys₂, -⟩ := @applyFlagChange_keys { t with flags := flags₁ } atClear
    (changeOf (requestOf target uidRow .clear delta.removeFlags delta.removeKeywords)) row
    (hnodup _ _ _ hdistinct.2) (by simp [changeOf, requestOf]) hrow
  refine ⟨_, _, hset, hclear, ?_⟩
  rw [changeKeys_requestOf] at hkeys₁ hkeys₂
  have hboth : daemonKeys { t with flags := flags₂ } row.membershipId =
      (daemonKeys t row.membershipId ∪ delta.added) \ delta.removed := by
    rw [if_neg (by simp [changeOf, requestOf])] at hkeys₂
    rw [if_pos (by simp [changeOf, requestOf])] at hkeys₁
    exact hkeys₂.trans (congrArg (· \ _) hkeys₁)
  have hfolded := @added_foldl (daemonKeys t row.membershipId) records .empty
  rw [added_empty] at hfolded
  exact hboth.trans hfolded

end

/-! ## Collecting -/

section
variable {names : List CString} {uids : List ℕ} {uid : ℕ}

lemma foldl_addToDelta (record : FlagRecord) (deltas : Deltas) (hnodup : uids.Nodup) :
    uids.foldl (addToDelta record) deltas uid =
      if uid ∈ uids then some (((deltas uid).getD .empty).addRecord record) else deltas uid := by
  induction uids generalizing deltas with
  | nil => rfl
  | cons first uids ih =>
    rw [List.nodup_cons] at hnodup
    rw [List.foldl_cons, ih _ hnodup.2]
    by_cases huid : uid = first
    · subst huid
      rw [if_neg hnodup.1, if_pos List.mem_cons_self]
      exact Function.update_self ..
    · have hkept : addToDelta record deltas first uid = deltas uid := Function.update_of_ne huid ..
      rw [hkept]
      simp [huid]

def addOne (delta : Option FlagDelta) (record : FlagRecord) : Option FlagDelta :=
  some ((delta.getD .empty).addRecord record)

lemma collect_from (records : List SyncRecord) (progress : Deltas × Bool) (hnodup : uids.Nodup) (hmem : uid ∈ uids) :
    (records.foldl (collectRecord names uids) progress).1 uid =
      (recordsOf names records uid).foldl addOne (progress.1 uid) := by
  induction records generalizing progress with
  | nil => rfl
  | cons record records ih =>
    rw [List.foldl_cons, ih]
    unfold recordsOf collectRecord
    rw [List.filterMap_cons]
    cases hchange : resolve names record.change with
    | none =>
      rw [ite_self]
    | some change =>
      dsimp only
      rw [foldl_addToDelta change progress.1 (hnodup.filter _)]
      simp only [List.mem_filter]
      cases hcovers : record.covers uid with
      | true =>
        simp only [hmem, and_self, if_true]
        rfl
      | false => simp only [Bool.false_eq_true, and_false, if_false]

lemma foldl_addOne (records : List FlagRecord) (delta : Option FlagDelta) :
    (records.foldl addOne delta).getD .empty = records.foldl FlagDelta.addRecord (delta.getD .empty) := by
  induction records generalizing delta with
  | nil => rfl
  | cons record records ih =>
    rw [List.foldl_cons, ih]
    rfl

/-- The table holds the fold of each mail's records. -/
lemma collect_delta (records : List SyncRecord) (hnodup : uids.Nodup) (hmem : uid ∈ uids) :
    ((collectFlagDeltas names uids records).1 uid).getD .empty =
      (recordsOf names records uid).foldl FlagDelta.addRecord .empty := by
  rw [collectFlagDeltas, collect_from records _ hnodup hmem, foldl_addOne]
  rfl

lemma collect_isSome (records : List SyncRecord) (hnodup : uids.Nodup) (hmem : uid ∈ uids)
    (hnone : ((collectFlagDeltas names uids records).1 uid).isSome = false) : recordsOf names records uid = [] := by
  rw [collectFlagDeltas, collect_from records _ hnodup hmem] at hnone
  cases hrecords : recordsOf names records uid with
  | nil => rfl
  | cons record more =>
    rw [hrecords, List.foldl_cons] at hnone
    have hsome : ∀ (l : List FlagRecord) (delta : FlagDelta), (l.foldl addOne (some delta)).isSome = true := by
      intro l
      induction l with
      | nil => exact fun _ => rfl
      | cons _ l ih => exact fun _ => ih _
    rw [addOne, hsome] at hnone
    simp at hnone

end

/-! ## The cached row -/

/-- Every name with a backslash is one of the system flags, spelled as the daemon stores them. -/
def Spelled (row : UidMapRow) : Prop :=
  ∀ name ∈ row.flags, startsWithBackslash name = true → ∃ flag, name = flagName flag

/-- The index has each keyword under its own name. -/
def Known (spelling : CString → CString) (keys : Set FlagKey) : Prop :=
  ∀ name, .keyword name ∈ keys → spelling name = name

section
variable {row : UidMapRow} {mode : UpdateMode} {flags : Finset MailFlag} {keywords : List CString}
  {spelling : CString → CString}

lemma startsWithBackslash_flagName (flag : MailFlag) : startsWithBackslash (flagName flag) = true := by
  cases flag <;> decide

lemma mem_systemNames {name : CString} : name ∈ systemFlags.map Prod.fst ↔ ∃ flag, name = flagName flag := by
  constructor
  · have hall : ∀ name ∈ systemFlags.map Prod.fst, ∃ flag ∈ [MailFlag.seen, .answered, .flagged, .deleted, .draft],
        name = flagName flag := by decide
    intro hname
    obtain ⟨flag, -, heq⟩ := hall name hname
    exact ⟨flag, heq⟩
  · rintro ⟨flag, rfl⟩
    cases flag <;> decide

lemma plain_not_system {name : CString} (h : startsWithBackslash name = false) : name ∉ systemFlags.map Prod.fst := by
  rw [mem_systemNames]
  rintro ⟨flag, rfl⟩
  rw [startsWithBackslash_flagName] at h
  simp at h

/-- An accepted request does to the row what it does at the daemon. -/
lemma rowKeys_rowApplyUpdate (hkeywords : ∀ name ∈ keywords, startsWithBackslash name = false) :
    rowKeys (rowApplyUpdate row mode (systemFlagNames flags) (keywordNames keywords)) =
      (if mode = .set then rowKeys row ∪ (systemKeys flags ∪ keywordKeys keywords)
        else rowKeys row \ (systemKeys flags ∪ keywordKeys keywords)) := by
  ext key
  cases key with
  | system flag =>
    have hname := startsWithBackslash_flagName flag
    have hlisted : flagName flag ∈ systemFlags.map Prod.fst := mem_systemNames.mpr ⟨flag, rfl⟩
    have hplain : flagName flag ∉ keywords := fun hmem => by simp [hkeywords _ hmem] at hname
    have hkeys : ∀ row : UidMapRow, FlagKey.system flag ∈ rowKeys row ↔ flagName flag ∈ row.flags := by
      intro row
      exact and_iff_left (fun h => by simp [FlagKey.table] at h)
    rw [hkeys]
    cases mode with
    | set =>
      simp only [rowApplyUpdate, if_true, List.mem_append, List.mem_filter, hlisted, true_and, hname, Bool.not_true,
        Bool.false_and, and_false, Bool.false_eq_true, or_false, mem_keywordNames, hplain, false_and,
        mem_systemFlagNames, Set.mem_union, hkeys, system_mem_systemKeys, system_mem_keywordKeys]
      by_cases hflag : flag ∈ flags <;> simp [hflag]
    | clear =>
      simp only [rowApplyUpdate, reduceCtorEq, if_false, List.mem_append, List.mem_filter, hlisted, true_and, hname,
        Bool.not_true, Bool.false_and, and_false, Bool.false_eq_true, or_false, mem_systemFlagNames, Set.mem_sdiff,
        Set.mem_union, hkeys, system_mem_systemKeys, system_mem_keywordKeys, List.not_mem_nil]
      by_cases hflag : flag ∈ flags <;> simp [hflag]
  | keyword name =>
    have hkeys : ∀ row : UidMapRow, FlagKey.keyword name ∈ rowKeys row ↔
        name ∈ row.flags ∧ startsWithBackslash name = false := by
      intro row
      exact and_congr_right fun _ => ⟨fun h => h rfl, fun h _ => h⟩
    rw [hkeys]
    cases hplain : startsWithBackslash name with
    | true =>
      have hnot : name ∉ keywords := fun hmem => by simp [hkeywords _ hmem] at hplain
      cases mode <;> simp [hkeys, hplain, hnot]
    | false =>
      have hsystem := plain_not_system hplain
      cases mode with
      | set =>
        simp only [rowApplyUpdate, if_true, List.mem_append, List.mem_filter, hsystem, false_and, false_or, hplain,
          Bool.not_false, Bool.true_and, reduceCtorEq, decide_false, Bool.false_and, and_true, mem_keywordNames,
          Set.mem_union, hkeys, keyword_mem_systemKeys, keyword_mem_keywordKeys, decide_eq_true_eq]
        tauto
      | clear =>
        simp only [rowApplyUpdate, reduceCtorEq, if_false, List.mem_append, List.mem_filter, hsystem, false_and,
          false_or, hplain, Bool.not_false, Bool.true_and, decide_true, mem_keywordNames, and_true, or_false,
          Set.mem_sdiff, Set.mem_union, hkeys, keyword_mem_systemKeys, keyword_mem_keywordKeys, List.not_mem_nil,
          Bool.not_eq_true', decide_eq_false_iff_not]

lemma rowApplyUpdate_spelled (hkeywords : ∀ name ∈ keywords, startsWithBackslash name = false) :
    Spelled (rowApplyUpdate row mode (systemFlagNames flags) (keywordNames keywords)) := by
  intro name hname hbackslash
  simp only [rowApplyUpdate, List.mem_append, List.mem_filter] at hname
  rcases hname with (⟨hlisted, -⟩ | ⟨-, hplain⟩) | hkeyword
  · exact mem_systemNames.mp hlisted
  · simp [hbackslash] at hplain
  · split at hkeyword
    · rw [List.mem_filter, mem_keywordNames] at hkeyword
      rw [hkeywords name hkeyword.1] at hbackslash
      simp at hbackslash
    · simp at hkeyword

lemma systemFlagFromName_flagName (flag : MailFlag) : systemFlagFromName (flagName flag) = some flag := by
  cases flag <;> decide

/-- The index takes over exactly the keys of a row. -/
lemma indexKeys_indexAttributes (hspelled : Spelled row) (hknown : Known spelling (rowKeys row)) :
    indexKeys (indexAttributes spelling row.flags) = rowKeys row := by
  ext key
  cases key with
  | system flag =>
    simp only [indexKeys, indexAttributes, rowAttributes, Set.mem_union, system_mem_systemKeys, system_mem_keywordKeys,
      or_false, List.mem_toFinset, List.mem_filterMap, List.mem_filter]
    constructor
    · rintro ⟨name, ⟨hmem, hbackslash⟩, hfrom⟩
      obtain ⟨flag', rfl⟩ := hspelled name hmem hbackslash
      rw [systemFlagFromName_flagName, Option.some.injEq] at hfrom
      exact ⟨hfrom ▸ hmem, fun h => by simp [FlagKey.table] at h⟩
    · rintro ⟨hmem, -⟩
      exact ⟨_, ⟨hmem, startsWithBackslash_flagName flag⟩, systemFlagFromName_flagName flag⟩
  | keyword name =>
    simp only [indexKeys, indexAttributes, rowAttributes, Set.mem_union, keyword_mem_systemKeys,
      keyword_mem_keywordKeys, false_or, List.mem_map, List.mem_filter, Bool.not_eq_true']
    constructor
    · rintro ⟨name', ⟨hmem, hplain⟩, heq⟩
      have hself := hknown name' ⟨hmem, fun _ => hplain⟩
      rw [hself] at heq
      exact ⟨heq ▸ hmem, fun _ => heq ▸ hplain⟩
    · rintro ⟨hmem, hplain⟩
      exact ⟨name, ⟨hmem, hplain rfl⟩, hknown name ⟨hmem, hplain⟩⟩

end

/-! ## One request -/

/-- The request is answered, or it is refused and nothing is journaled. -/
def Answer.Settled : Answer → Prop
  | .lost _ _ => False
  | _ => True

/-- The row and the daemon's flags of the UID are the same. -/
structure Agrees (spelling : CString → CString) (target : Target) (t : AccountTables) (membership : Membership)
    (uid : ℕ) (row : UidMapRow) : Prop where
  keyed : row.uid = uid
  found : t.findUid target.select.mailboxId target.select.uidValidity uid = some membership
  daemon : daemonKeys t membership.membershipId = rowKeys row
  spelled : Spelled row
  known : Known spelling (rowKeys row)

/-- Only flags differ, and only those of the memberships that `touched` allows. -/
def FlagsOnly (touched : CString → Prop) (t t' : AccountTables) : Prop :=
  (∃ flags, t' = { t with flags := flags }) ∧
    ∀ membershipId, ¬touched membershipId → daemonKeys t' membershipId = daemonKeys t membershipId

section
variable {spelling : CString → CString} {target : Target} {t t' t'' : AccountTables} {membership : Membership} {uid : ℕ}
  {row : UidMapRow} {answer : Answer} {mode : UpdateMode} {flags : Finset MailFlag} {keywords : List CString}
  {touched : CString → Prop}

lemma FlagsOnly.refl (t : AccountTables) : FlagsOnly touched t t := ⟨⟨t.flags, rfl⟩, fun _ _ => rfl⟩

lemma FlagsOnly.trans (h : FlagsOnly touched t t') (h' : FlagsOnly touched t' t'') : FlagsOnly touched t t'' := by
  obtain ⟨⟨flags, rfl⟩, hkeys⟩ := h
  obtain ⟨⟨flags', rfl⟩, hkeys'⟩ := h'
  exact ⟨⟨flags', rfl⟩, fun membershipId hnot => (hkeys' membershipId hnot).trans (hkeys membershipId hnot)⟩

lemma FlagsOnly.findUid (h : FlagsOnly touched t t') (mailboxId : CString) (uidvalidity uid : ℕ) :
    t'.findUid mailboxId uidvalidity uid = t.findUid mailboxId uidvalidity uid := by
  obtain ⟨⟨flags, rfl⟩, -⟩ := h
  rfl

/-- The memberships of a UID of the mailbox. -/
def IsMembershipOf (target : Target) (t : AccountTables) (uid : ℕ) (membershipId : CString) : Prop :=
  ∃ membership, t.findUid target.select.mailboxId target.select.uidValidity uid = some membership ∧
    membership.membershipId = membershipId

lemma flagNames_nodup (h : requestInit (requestOf target row mode flags keywords) = true) (table : FlagTable) :
    (Reapplication.flagNames (changeOf (requestOf target row mode flags keywords)) table).Nodup := by
  simp only [requestInit, decide_eq_true_eq] at h
  cases table with
  | messageFlags => exact h.2.2.2.2.2.1
  | messageKeywords => exact h.2.2.2.2.2.2.2.1

lemma plain_of_requestInit (h : requestInit (requestOf target row mode flags keywords) = true) :
    ∀ name ∈ keywords, startsWithBackslash name = false := by
  simp only [requestInit, decide_eq_true_eq, List.all_eq_true] at h
  intro name hname
  have hvalid := h.2.2.2.2.2.2.1 name (mem_keywordNames.mpr hname)
  simp only [validUserKeyword, decide_eq_true_eq, Bool.not_eq_true'] at hvalid
  exact hvalid.2.1

lemma changeOf_mode (request : UpdateRequest) : (changeOf request).mode ≠ .replace := by
  cases hmode : request.mode <;> simp [changeOf, hmode]

lemma handle_flagsOnly (answer : Answer) (h : requestInit (requestOf target row mode flags keywords) = true) :
    FlagsOnly (IsMembershipOf target t row.uid) t (handle t (requestOf target row mode flags keywords) answer).1 := by
  have happlied : ∀ position t', applyFlagChange t (changeOf (requestOf target row mode flags keywords)) position =
      .ok t' → FlagsOnly (IsMembershipOf target t row.uid) t t' := by
    intro position t' happly
    cases hfound : t.findUid target.select.mailboxId target.select.uidValidity row.uid with
    | none =>
      have htarget : resolveFlagTarget t (changeOf (requestOf target row mode flags keywords)) =
          .error .flagTargetMissing := by
        have hchange : t.findUid (changeOf (requestOf target row mode flags keywords)).mailboxId
            (changeOf (requestOf target row mode flags keywords)).uidvalidity
            (changeOf (requestOf target row mode flags keywords)).uid = none := hfound
        rw [resolveFlagTarget, hchange]
      rw [applyFlagChange, htarget] at happly
      simp [bind, Except.bind] at happly
    | some membership =>
      obtain ⟨flags', happly', -, hothers⟩ := @applyFlagChange_keys t position _ membership (flagNames_nodup h)
        (changeOf_mode _) hfound
      obtain rfl := Except.ok.inj (happly'.symm.trans happly)
      exact ⟨⟨flags', rfl⟩, fun membershipId hnot => hothers membershipId fun heq => hnot ⟨membership, hfound, heq.symm⟩⟩
  cases answer with
  | accepted position =>
    rw [handle]
    split
    · exact happlied position _ ‹_›
    · exact .refl t
  | refused error => exact .refl t
  | lost position error =>
    rw [handle]
    split
    · exact happlied position _ ‹_›
    · exact .refl t

/-- Whatever the answer, a request changes no other UID. -/
lemma pushUpdate_flagsOnly :
    FlagsOnly (IsMembershipOf target t row.uid) t (pushUpdate target answer t row mode flags keywords).tables ∧
      (pushUpdate target answer t row mode flags keywords).row.uid = row.uid := by
  unfold pushUpdate
  dsimp only
  split
  · exact ⟨.refl t, rfl⟩
  · split
    · exact ⟨.refl t, rfl⟩
    · rename_i hvalid
      have hframe := @handle_flagsOnly target t row mode flags keywords answer (by simpa using hvalid)
      split
      · rename_i t' hhandle
        rw [hhandle] at hframe
        exact ⟨hframe, rfl⟩
      · rename_i t' error hhandle
        rw [hhandle] at hframe
        exact ⟨hframe, rfl⟩

/-- What a request that went through does to the row's keys. -/
def updatedKeys (mode : UpdateMode) (keys changed : Set FlagKey) : Set FlagKey :=
  if mode = .set then keys ∪ changed else keys \ changed

lemma updatedKeys_known {keys : Set FlagKey} (hknown : Known spelling keys)
    (hkeywords : ∀ name ∈ keywords, spelling name = name) :
    Known spelling (updatedKeys mode keys (systemKeys flags ∪ keywordKeys keywords)) := by
  intro name hname
  cases mode with
  | set =>
    simp only [updatedKeys, if_true, Set.mem_union, keyword_mem_systemKeys, keyword_mem_keywordKeys, false_or] at hname
    exact hname.elim (hknown name) (hkeywords name)
  | clear =>
    simp only [updatedKeys, reduceCtorEq, if_false, Set.mem_sdiff] at hname
    exact hknown name hname.1

/-- A settled request keeps the row and the daemon the same, and changes both when it went through. -/
lemma pushUpdate_agrees (h : Agrees spelling target t membership uid row)
    (hkeywords : ∀ name ∈ keywords, spelling name = name) (hanswer : answer.Settled) :
    Agrees spelling target (pushUpdate target answer t row mode flags keywords).tables membership uid
        (pushUpdate target answer t row mode flags keywords).row ∧
      ((pushUpdate target answer t row mode flags keywords).result = .ok →
        rowKeys (pushUpdate target answer t row mode flags keywords).row =
          updatedKeys mode (rowKeys row) (systemKeys flags ∪ keywordKeys keywords)) := by
  unfold pushUpdate
  dsimp only
  split
  · rename_i hempty
    refine ⟨h, fun _ => ?_⟩
    have hnone : systemKeys flags ∪ keywordKeys keywords = ∅ := by
      rw [List.isEmpty_iff, List.isEmpty_iff] at hempty
      ext key
      cases key with
      | system flag =>
        have hnot : flagName flag ∉ systemFlagNames flags := by
          rw [show systemFlagNames flags = [] from hempty.1]
          exact List.not_mem_nil
        simpa [mem_systemFlagNames] using hnot
      | keyword name =>
        have hnot : name ∉ keywordNames keywords := by
          rw [show keywordNames keywords = [] from hempty.2]
          exact List.not_mem_nil
        simpa [mem_keywordNames] using hnot
    rw [updatedKeys, hnone, Set.union_empty, Set.sdiff_empty, ite_self]
  · split
    · exact ⟨h, fun hok => by simp at hok⟩
    · rename_i hvalid
      have hvalid' : requestInit (requestOf target row mode flags keywords) = true := by simpa using hvalid
      cases answer with
      | refused error =>
        refine ⟨h, fun hok => ?_⟩
        cases error <;> simp [handle, resultOf] at hok
      | lost position error => exact hanswer.elim
      | accepted position =>
        have hfound : t.findUid (changeOf (requestOf target row mode flags keywords)).mailboxId
            (changeOf (requestOf target row mode flags keywords)).uidvalidity
            (changeOf (requestOf target row mode flags keywords)).uid = some membership := by
          rw [← h.found, ← h.keyed]
          rfl
        obtain ⟨flags', happly, hkeys, -⟩ := @applyFlagChange_keys t position _ membership (flagNames_nodup hvalid')
          (changeOf_mode _) hfound
        have hplain := plain_of_requestInit hvalid'
        have hrow := @rowKeys_rowApplyUpdate row mode flags keywords hplain
        rw [changeKeys_requestOf, h.daemon] at hkeys
        have hmode : (changeOf (requestOf target row mode flags keywords)).mode = .set ↔ mode = .set := by
          cases mode <;> simp [changeOf, requestOf]
        simp only [hmode] at hkeys
        simp only [handle, happly]
        refine ⟨⟨h.keyed, h.found, hkeys.trans hrow.symm, rowApplyUpdate_spelled hplain, ?_⟩, fun _ => hrow⟩
        change Known spelling (rowKeys (rowApplyUpdate row mode (systemFlagNames flags) (keywordNames keywords)))
        rw [hrow]
        exact updatedKeys_known h.known hkeywords

/-! ## One mail -/

lemma pushDelta_flagsOnly (answer : UpdateMode → Answer) (delta : FlagDelta) :
    FlagsOnly (IsMembershipOf target t row.uid) t (pushDelta target answer t row delta).tables ∧
      (pushDelta target answer t row delta).row.uid = row.uid := by
  unfold pushDelta
  dsimp only
  obtain ⟨hset, huid⟩ := @pushUpdate_flagsOnly target t row (answer .set) .set delta.addFlags delta.addKeywords
  split
  · obtain ⟨hclear, huid'⟩ := @pushUpdate_flagsOnly target
      (pushUpdate target (answer .set) t row .set delta.addFlags delta.addKeywords).tables
      (pushUpdate target (answer .set) t row .set delta.addFlags delta.addKeywords).row (answer .clear) .clear
      delta.removeFlags delta.removeKeywords
    refine ⟨hset.trans ⟨hclear.1, fun membershipId hnot => hclear.2 membershipId fun htouched => hnot ?_⟩,
      huid'.trans huid⟩
    obtain ⟨membership, hfound, heq⟩ := htouched
    rw [huid, hset.findUid] at hfound
    exact ⟨membership, hfound, heq⟩
  · exact ⟨hset, huid⟩

/-- Settled requests keep the row and the daemon the same, and when both went through the row has
    the folded records. -/
lemma pushDelta_agrees {answer : UpdateMode → Answer} {delta : FlagDelta}
    (h : Agrees spelling target t membership uid row)
    (hadd : ∀ name ∈ delta.addKeywords, spelling name = name)
    (hremove : ∀ name ∈ delta.removeKeywords, spelling name = name) (hanswer : ∀ mode, (answer mode).Settled) :
    Agrees spelling target (pushDelta target answer t row delta).tables membership uid
        (pushDelta target answer t row delta).row ∧
      ((pushDelta target answer t row delta).result = .ok →
        rowKeys (pushDelta target answer t row delta).row = (rowKeys row ∪ delta.added) \ delta.removed) := by
  unfold pushDelta
  dsimp only
  obtain ⟨hset, hkeys⟩ := @pushUpdate_agrees spelling target t membership uid row (answer .set) .set delta.addFlags
    delta.addKeywords h hadd (hanswer .set)
  split
  · rename_i hok
    obtain ⟨hclear, hkeys'⟩ := @pushUpdate_agrees spelling target _ membership uid _ (answer .clear) .clear
      delta.removeFlags delta.removeKeywords hset hremove (hanswer .clear)
    refine ⟨hclear, fun hok' => ?_⟩
    rw [hkeys' hok', hkeys hok]
    rfl
  · rename_i hfailed
    exact ⟨hset, fun hok => absurd hok hfailed⟩

end

/-! ## The loop -/

def lastReset (resets : List (Mail Attributes)) (uid : ℕ) : Option (Mail Attributes) :=
  resets.reverse.find? fun new => new.uid = uid

/-- The state of one UID in the loop. -/
structure SameFor (uid : ℕ) (membershipId : CString) (s s' : PushState) : Prop where
  row : findRow s'.rows uid = findRow s.rows uid
  reset : lastReset s'.resets uid = lastReset s.resets uid
  daemon : daemonKeys s'.tables membershipId = daemonKeys s.tables membershipId

/-- Every row is kept under its own UID. -/
def Keyed (rows : Rows) : Prop := ∀ uid row, findRow rows uid = some row → row.uid = uid

section
variable {target : Target} {env : PushEnv} {deltas : Deltas} {s s' : PushState} {uid other : ℕ} {membershipId : CString}
  {row row' : UidMapRow} {rows : Rows} {uids : List ℕ}

lemma findRow_setRow_of_ne (hne : other ≠ uid) : findRow (setRow rows uid row) other = findRow rows other := by
  induction rows with
  | nil => rfl
  | cons entry rows ih =>
    simp only [findRow, setRow, List.map_cons, List.find?_cons] at ih ⊢
    by_cases hentry : entry.1 = uid
    · have hnot : entry.1 ≠ other := fun h => hne (h.symm.trans hentry)
      simp only [hentry, if_true, decide_eq_false hne.symm]
      exact ih
    · simp only [hentry, if_false]
      cases decide (entry.1 = other) with
      | true => rfl
      | false => exact ih

lemma findRow_setRow (h : findRow rows uid = some row') : findRow (setRow rows uid row) uid = some row := by
  induction rows with
  | nil => simp [findRow] at h
  | cons entry rows ih =>
    simp only [findRow, setRow, List.map_cons, List.find?_cons] at ih h ⊢
    by_cases hentry : entry.1 = uid
    · simp [hentry]
    · simp only [hentry, if_false, decide_false] at h ⊢
      exact ih h

lemma lastReset_append_of_ne {resets : List (Mail Attributes)} {attributes : Attributes} (hne : other ≠ uid) :
    lastReset (resets ++ [⟨uid, attributes⟩]) other = lastReset resets other := by
  rw [lastReset, List.reverse_append]
  change List.find? _ (⟨uid, attributes⟩ :: resets.reverse) = _
  rw [List.find?_cons_of_neg (by simpa using hne.symm)]
  rfl

lemma lastReset_append {resets : List (Mail Attributes)} {attributes : Attributes} :
    lastReset (resets ++ [⟨uid, attributes⟩]) uid = some ⟨uid, attributes⟩ := by
  rw [lastReset, List.reverse_append]
  change List.find? _ (⟨uid, attributes⟩ :: resets.reverse) = _
  rw [List.find?_cons_of_pos (by simp)]

lemma SameFor.refl (uid : ℕ) (membershipId : CString) (s : PushState) : SameFor uid membershipId s s :=
  ⟨rfl, rfl, rfl⟩

lemma SameFor.trans {s'' : PushState} (h : SameFor uid membershipId s s') (h' : SameFor uid membershipId s' s'') :
    SameFor uid membershipId s s'' :=
  ⟨h'.row.trans h.row, h'.reset.trans h.reset, h'.daemon.trans h.daemon⟩

/-- The outcome of a turn that sends requests. -/
lemma pushUid_sent (hrow : findRow s.rows uid = some row) (hrunning : s.stopped = false) :
    let outcome := pushDelta target (env.answer uid) s.tables row ((deltas uid).getD .empty)
    (pushUid target env deltas s uid).rows = setRow s.rows uid outcome.row ∧
      (pushUid target env deltas s uid).tables = outcome.tables ∧
      (pushUid target env deltas s uid).resets =
        if outcome.result = .ok then s.resets
        else s.resets ++ [⟨uid, indexAttributes env.spelling outcome.row.flags⟩] := by
  simp only [pushUid, hrow, hrunning, Bool.false_eq_true, if_false]
  split
  · exact ⟨rfl, rfl, rfl⟩
  · split <;> exact ⟨rfl, rfl, rfl⟩

/-- What one turn leaves in place: the memberships, the keys of the rows, and the other UIDs. -/
lemma pushUid_frame (hkeyed : Keyed s.rows) :
    (∃ flags, (pushUid target env deltas s uid).tables = { s.tables with flags := flags }) ∧
      Keyed (pushUid target env deltas s uid).rows ∧
      ∀ other membershipId, other ≠ uid → ¬IsMembershipOf target s.tables uid membershipId →
        SameFor other membershipId s (pushUid target env deltas s uid) := by
  cases hrow : findRow s.rows uid with
  | none =>
    simp only [pushUid, hrow]
    exact ⟨⟨_, rfl⟩, hkeyed, fun _ _ _ _ => ⟨rfl, rfl, rfl⟩⟩
  | some row =>
    cases hrunning : s.stopped with
    | true =>
      simp only [pushUid, hrow, hrunning, if_true]
      exact ⟨⟨_, rfl⟩, hkeyed, fun other membershipId hne _ => ⟨rfl, lastReset_append_of_ne hne, rfl⟩⟩
    | false =>
      obtain ⟨hrows, htables, hresets⟩ := @pushUid_sent target env deltas s uid row hrow hrunning
      obtain ⟨hframe, huid⟩ := @pushDelta_flagsOnly target s.tables row (env.answer uid) ((deltas uid).getD .empty)
      rw [hkeyed _ _ hrow] at hframe
      refine ⟨by rw [htables]; exact hframe.1, ?_, fun other membershipId hne hnot => ⟨?_, ?_, ?_⟩⟩
      · intro other row' hrow'
        rw [hrows] at hrow'
        by_cases hne : other = uid
        · subst hne
          rw [findRow_setRow hrow, Option.some.injEq] at hrow'
          rw [← hrow', huid]
          exact hkeyed _ _ hrow
        · rw [findRow_setRow_of_ne hne] at hrow'
          exact hkeyed _ _ hrow'
      · rw [hrows, findRow_setRow_of_ne hne]
      · rw [hresets]
        split
        · rfl
        · exact lastReset_append_of_ne hne
      · rw [htables]
        exact hframe.2 membershipId hnot

/-- Turns for other UIDs. -/
lemma foldl_pushUid_frame (hkeyed : Keyed s.rows) :
    (∃ flags, (uids.foldl (pushUid target env deltas) s).tables = { s.tables with flags := flags }) ∧
      Keyed (uids.foldl (pushUid target env deltas) s).rows ∧
      ∀ other membershipId, other ∉ uids → (∀ uid ∈ uids, ¬IsMembershipOf target s.tables uid membershipId) →
        SameFor other membershipId s (uids.foldl (pushUid target env deltas) s) := by
  induction uids generalizing s with
  | nil => exact ⟨⟨_, rfl⟩, hkeyed, fun _ _ _ _ => .refl ..⟩
  | cons uid uids ih =>
    obtain ⟨⟨flags, htables⟩, hkeyed', hothers⟩ := @pushUid_frame target env deltas s uid hkeyed
    obtain ⟨⟨flags', htables'⟩, hkeyed'', hothers'⟩ := ih hkeyed'
    rw [htables] at htables' hothers'
    refine ⟨⟨flags', htables'⟩, hkeyed'', fun other membershipId hnot hids => ?_⟩
    rw [List.mem_cons, not_or] at hnot
    rw [List.forall_mem_cons] at hids
    exact (hothers other membershipId hnot.1 hids.1).trans (hothers' other membershipId hnot.2 hids.2)

/-- The turn of a UID whose copies agree. Either the index keeps the records and the row has them
    too, or the index is reset to the row. -/
lemma pushUid_settles {membership : Membership} (hrow : findRow s.rows uid = some row)
    (h : Agrees env.spelling target s.tables membership uid row) (hnone : lastReset s.resets uid = none)
    (hadd : ∀ name ∈ ((deltas uid).getD .empty).addKeywords, env.spelling name = name)
    (hremove : ∀ name ∈ ((deltas uid).getD .empty).removeKeywords, env.spelling name = name)
    (hanswer : ∀ mode, (env.answer uid mode).Settled) :
    ∃ row', findRow (pushUid target env deltas s uid).rows uid = some row' ∧
      Agrees env.spelling target (pushUid target env deltas s uid).tables membership uid row' ∧
      ((lastReset (pushUid target env deltas s uid).resets uid = none ∧
          rowKeys row' = (rowKeys row ∪ ((deltas uid).getD .empty).added) \ ((deltas uid).getD .empty).removed) ∨
        lastReset (pushUid target env deltas s uid).resets uid = some ⟨uid, indexAttributes env.spelling row'.flags⟩) := by
  cases hrunning : s.stopped with
  | true =>
    simp only [pushUid, hrow, hrunning, if_true]
    exact ⟨row, rfl, h, .inr lastReset_append⟩
  | false =>
    obtain ⟨hrows, htables, hresets⟩ := @pushUid_sent target env deltas s uid row hrow hrunning
    obtain ⟨hagrees, hok⟩ := pushDelta_agrees h hadd hremove hanswer
    rw [hrows, htables, hresets]
    refine ⟨_, findRow_setRow hrow, hagrees, ?_⟩
    split
    · rename_i hresult
      exact .inl ⟨hnone, hok hresult⟩
    · exact .inr lastReset_append

end

/-! ## The push -/

section
variable {names : List CString} {records : List SyncRecord} {spelling : CString → CString} {uid : ℕ}

lemma keyword_mem_names {record : FlagRecord} (h : record ∈ recordsOf names records uid) :
    ∀ keyword, record = .keywordAdd keyword ∨ record = .keywordRemove keyword → keyword ∈ names := by
  obtain ⟨sync, -, hresolve⟩ := List.mem_filterMap.mp h
  split at hresolve
  · rintro keyword (rfl | rfl)
    · cases hchange : sync.change <;> simp_all [resolve]
      exact List.mem_of_getElem? hresolve
    · cases hchange : sync.change <;> simp_all [resolve]
      exact List.mem_of_getElem? hresolve
  · simp at hresolve

/-- The delta names keywords of the index only. -/
lemma foldl_known {own : List FlagRecord} {delta : FlagDelta}
    (hown : ∀ record ∈ own, ∀ keyword, record = .keywordAdd keyword ∨ record = .keywordRemove keyword →
      spelling keyword = keyword)
    (hadd : ∀ name ∈ delta.addKeywords, spelling name = name)
    (hremove : ∀ name ∈ delta.removeKeywords, spelling name = name) :
    (∀ name ∈ (own.foldl FlagDelta.addRecord delta).addKeywords, spelling name = name) ∧
      ∀ name ∈ (own.foldl FlagDelta.addRecord delta).removeKeywords, spelling name = name := by
  induction own generalizing delta with
  | nil => exact ⟨hadd, hremove⟩
  | cons record own ih =>
    rw [List.forall_mem_cons] at hown
    refine ih hown.2 ?_ ?_
    · intro name hname
      cases record with
      | flags add remove disjoint => exact hadd name hname
      | keywordAdd keyword =>
        rcases List.mem_insert_iff.mp hname with rfl | hmem
        · exact hown.1 _ (.inl rfl)
        · exact hadd name hmem
      | keywordRemove keyword => exact hadd name (List.mem_of_mem_filter hname)
    · intro name hname
      cases record with
      | flags add remove disjoint => exact hremove name hname
      | keywordAdd keyword => exact hremove name (List.mem_of_mem_filter hname)
      | keywordRemove keyword =>
        rcases List.mem_insert_iff.mp hname with rfl | hmem
        · exact hown.1 _ (.inr rfl)
        · exact hremove name hmem

/-- No two UIDs of a mailbox share a membership id. -/
lemma other_membership {target : Target} {t : AccountTables} {membership : Membership} {other : ℕ}
    (hids : (t.memberships.map Membership.membershipId).Nodup)
    (hfound : t.findUid target.select.mailboxId target.select.uidValidity uid = some membership) (hne : other ≠ uid) :
    ¬IsMembershipOf target t other membership.membershipId := by
  have hmem : ∀ {uid : ℕ} {row : Membership},
      t.findUid target.select.mailboxId target.select.uidValidity uid = some row → row ∈ t.memberships ∧ row.uid = uid := by
    intro uid row h
    unfold AccountTables.findUid at h
    split at h
    · have huid := List.find?_some h
      rw [decide_eq_true_eq] at huid
      exact ⟨List.mem_of_find?_eq_some h, huid.2⟩
    · simp at h
  rintro ⟨row, hrow, hid⟩
  have hsame := List.inj_on_of_nodup_map hids (hmem hrow).1 (hmem hfound).1 hid
  exact hne ((hmem hrow).2.symm.trans (hsame ▸ (hmem hfound).2))

lemma update_of_none {mail : Mail Attributes} {resets : List (Mail Attributes)} (h : lastReset resets mail.uid = none) :
    MailIndex.update resets mail = mail := by
  unfold MailIndex.update
  rw [show List.find? _ _ = none from h]

lemma update_of_some {mail new : Mail Attributes} {resets : List (Mail Attributes)}
    (h : lastReset resets mail.uid = some new) : MailIndex.update resets mail = ⟨mail.uid, new.value⟩ := by
  unfold MailIndex.update
  rw [show List.find? _ _ = some new from h]

/-- Where the copies of a mail agreed before its records were committed, they agree after a push
    whose requests for it were settled. -/
lemma push_agrees {target : Target} {env : PushEnv} {base : Session} {mail : Mail Attributes} {row : UidMapRow}
    {membership : Membership} (hbegins : env.begins = true) (hcommits : env.commits = true)
    (huids : (base.mails.map Mail.uid).Nodup) (hkeyed : Keyed base.rows)
    (hids : (base.tables.memberships.map Membership.membershipId).Nodup)
    (hnames : ∀ name ∈ names, env.spelling name = name) (hmail : mail ∈ base.mails)
    (hrow : findRow base.rows mail.uid = some row)
    (hagrees : Agrees env.spelling target base.tables membership mail.uid row)
    (hindex : indexKeys mail.value = rowKeys row) (hanswer : ∀ mode, (env.answer mail.uid mode).Settled) :
    ∃ row' mail', findRow (pushFlagChanges target env names base records).1.rows mail.uid = some row' ∧
      mail' ∈ (pushFlagChanges target env names base records).1.mails ∧ mail'.uid = mail.uid ∧
      indexKeys mail'.value = rowKeys row' ∧
      daemonKeys (pushFlagChanges target env names base records).1.tables membership.membershipId = rowKeys row' := by
  have hmails : (base.mails.map (committed names records)).map Mail.uid = base.mails.map Mail.uid := by
    rw [List.map_map]
    rfl
  simp only [pushFlagChanges, hbegins, hcommits, Bool.not_true, Bool.false_eq_true, if_false, hmails]
  set collected := collectFlagDeltas names (base.mails.map Mail.uid) records with hcollected
  set pushed := (base.mails.map Mail.uid).filter fun uid => (collected.1 uid).isSome with hpushed
  set start : PushState := ⟨base.rows, base.tables, [], none, false, collected.2⟩ with hstart
  have huid : mail.uid ∈ base.mails.map Mail.uid := List.mem_map_of_mem hmail
  have hdelta : (collected.1 mail.uid).getD .empty =
      (recordsOf names records mail.uid).foldl FlagDelta.addRecord .empty := collect_delta records huids huid
  have hknown := @foldl_known env.spelling (recordsOf names records mail.uid) .empty
    (fun record hrecord keyword hkeyword => hnames keyword (keyword_mem_names hrecord keyword hkeyword))
    (by simp [FlagDelta.empty]) (by simp [FlagDelta.empty])
  rw [← hdelta] at hknown
  -- the index keeps the records of a UID that no turn resets
  have hkept : indexKeys (committed names records mail).value =
      (rowKeys row ∪ ((collected.1 mail.uid).getD .empty).added) \ ((collected.1 mail.uid).getD .empty).removed := by
    rw [hdelta, added_foldl, added_empty, ← hindex]
    exact indexKeys_foldl ..
  have hother : ∀ (l : List ℕ) (s : PushState), mail.uid ∉ l → Keyed s.rows →
      (∃ flags, s.tables = { base.tables with flags := flags }) →
      (∃ flags, (l.foldl (pushUid target env collected.1) s).tables = { s.tables with flags := flags }) ∧
        Keyed (l.foldl (pushUid target env collected.1) s).rows ∧
        SameFor mail.uid membership.membershipId s (l.foldl (pushUid target env collected.1) s) := by
    rintro l s hnot hkeyed' ⟨flags, htables⟩
    obtain ⟨hflags, hkeyed'', hsame⟩ := @foldl_pushUid_frame target env collected.1 s l hkeyed'
    refine ⟨hflags, hkeyed'', hsame _ _ hnot fun other hmem => ?_⟩
    rw [htables]
    exact @other_membership mail.uid target _ membership other hids hagrees.found fun heq => hnot (heq ▸ hmem)
  -- whatever the loop does, the row and the daemon agree and the index follows one of them
  have hloop : ∃ row', findRow (pushed.foldl (pushUid target env collected.1) start).rows mail.uid = some row' ∧
      Agrees env.spelling target (pushed.foldl (pushUid target env collected.1) start).tables membership mail.uid row' ∧
      ((lastReset (pushed.foldl (pushUid target env collected.1) start).resets mail.uid = none ∧
          rowKeys row' = indexKeys (committed names records mail).value) ∨
        lastReset (pushed.foldl (pushUid target env collected.1) start).resets mail.uid =
          some ⟨mail.uid, indexAttributes env.spelling row'.flags⟩) := by
    by_cases hmem : mail.uid ∈ pushed
    · obtain ⟨before, after, hsplit⟩ := List.append_of_mem hmem
      have hnodup : pushed.Nodup := huids.filter _
      rw [hsplit, List.nodup_append, List.nodup_cons] at hnodup
      obtain ⟨-, ⟨hafter, -⟩, hcross⟩ := hnodup
      have hbefore : mail.uid ∉ before := fun h => hcross _ h _ List.mem_cons_self rfl
      obtain ⟨⟨flags, htables⟩, hkeyed₁, hsame⟩ := hother before start hbefore hkeyed ⟨_, rfl⟩
      set s := before.foldl (pushUid target env collected.1) start with hs
      have hagrees₁ : Agrees env.spelling target s.tables membership mail.uid row :=
        ⟨hagrees.keyed, by rw [htables]; exact hagrees.found, hsame.daemon.trans hagrees.daemon, hagrees.spelled,
          hagrees.known⟩
      obtain ⟨row', hrow', hagrees', hreset⟩ := @pushUid_settles target env collected.1 s mail.uid row membership
        (hsame.row.trans hrow) hagrees₁ hsame.reset hknown.1 hknown.2 hanswer
      obtain ⟨⟨flags', htables'⟩, hkeyed₂, -⟩ := @pushUid_frame target env collected.1 s mail.uid hkeyed₁
      obtain ⟨⟨flags'', htables''⟩, -, hsame'⟩ := hother after (pushUid target env collected.1 s mail.uid) hafter
        hkeyed₂ ⟨flags', by rw [htables', htables]⟩
      rw [hsplit, List.foldl_append, List.foldl_cons, ← hs]
      refine ⟨row', hsame'.row.trans hrow', ⟨hagrees'.keyed, ?_, hsame'.daemon.trans hagrees'.daemon,
        hagrees'.spelled, hagrees'.known⟩, ?_⟩
      · rw [htables'']
        exact hagrees'.found
      · rw [hsame'.reset, hkept]
        exact hreset
    · obtain ⟨⟨flags, htables⟩, -, hsame⟩ := hother pushed start hmem hkeyed ⟨_, rfl⟩
      have hempty : recordsOf names records mail.uid = [] := by
        refine collect_isSome records huids huid ?_
        rw [hpushed, List.mem_filter, not_and, Bool.not_eq_true] at hmem
        exact hmem huid
      refine ⟨row, hsame.row.trans hrow, ⟨hagrees.keyed, by rw [htables]; exact hagrees.found,
        hsame.daemon.trans hagrees.daemon, hagrees.spelled, hagrees.known⟩, .inl ⟨hsame.reset, ?_⟩⟩
      rw [committed, hempty]
      exact hindex.symm
  obtain ⟨row', hrow', hagrees', hreset⟩ := hloop
  refine ⟨row', MailIndex.update (pushed.foldl (pushUid target env collected.1) start).resets
    (committed names records mail), hrow', List.mem_map_of_mem (List.mem_map_of_mem hmail), ?_, ?_, hagrees'.daemon⟩
  · unfold MailIndex.update
    split <;> rfl
  · rcases hreset with ⟨hnone, hkeys⟩ | hsome
    · rw [@update_of_none (committed names records mail) _ hnone, hkeys]
    · rw [@update_of_some (committed names records mail) _ _ hsome]
      exact indexKeys_indexAttributes hagrees'.spelled hagrees'.known

end

/-! ## A sample mailbox -/

def sampleMembership : Membership :=
  ⟨.literal "m1", .literal "box", .literal "message", 1, 0, ⟨0, 1⟩, 0, true, none⟩

/-- One mail, with the system flags of `names` at the daemon. -/
def sampleTables (names : List CString) : AccountTables where
  mailboxes := []
  memberships := [sampleMembership]
  uidState := fun ns => if ns = .mailbox (.literal "box") then some ⟨2, 1⟩ else none
  messages := .empty
  headers := .empty
  flags := fun table membershipId name =>
    if table = .messageFlags ∧ membershipId = .literal "m1" ∧ name ∈ names then some ⟨.literal "box", ⟨0, 1⟩⟩ else none
  derived := []
  extractions := fun _ => none

def sampleTarget : Target := ⟨.literal "alice", ⟨.ordinary, .literal "box", .literal "INBOX", 1, 2, 1⟩⟩

/-- The session synced when the mail had no flags. -/
def sampleSession (names : List CString) : Session :=
  ⟨[⟨1, ⟨∅, []⟩⟩], [(1, ⟨1, 1, .literal "message", .literal "object", []⟩)], sampleTables names, false⟩

def storeSeen : SyncRecord := ⟨.flags {.seen} ∅ (by simp), 1, 1⟩

/-- The daemon journals the SET and its answer does not arrive. -/
def lostAnswer : Session × Bool :=
  pushFlagChanges sampleTarget ⟨true, true, id, fun _ _ => .lost ⟨64, 2⟩ .other⟩ [] (sampleSession []) [storeSeen]

/-- The SET is accepted, but another client has set a flag since the last sync. -/
def otherClient : Session × Bool :=
  pushFlagChanges sampleTarget ⟨true, true, id, fun _ _ => .accepted ⟨128, 3⟩⟩ []
    (sampleSession [.literal "\\Flagged"]) [storeSeen]

end Wyrebox.FlagPush
