import Mathlib.Data.List.Sort
import Mathlib.Data.Nat.Notation

set_option autoImplicit false

/-!
# Mail indexes

An index of mails by ascending UID whose next UID only rises. A transaction is written against a
view of the index and takes effect when it commits.
-/
namespace Wyrebox

structure Mail (α : Type) where
  uid : ℕ
  value : α
  deriving DecidableEq

structure MailIndex (α : Type) where
  uidValidity : ℕ
  nextUid : ℕ
  mails : List (Mail α)
  sorted : mails.Pairwise fun a b => a.uid < b.uid
  below : ∀ mail ∈ mails, mail.uid < nextUid

/-- What a transaction does. A sequence number of its view stands for the UID there. -/
structure MailTransaction (α : Type) where
  uidValidity : Option ℕ
  expunged : List ℕ
  updated : List (Mail α)
  appended : List (Mail α)
  nextUid : Option ℕ

namespace MailTransaction

def empty {α : Type} : MailTransaction α := ⟨none, [], [], [], none⟩

end MailTransaction

namespace MailIndex

section
variable {α : Type}

def empty : MailIndex α := ⟨0, 1, [], .nil, by simp⟩

def uids (index : MailIndex α) : List ℕ := index.mails.map Mail.uid

def expunge (mails : List (Mail α)) (uids : List ℕ) : List (Mail α) := mails.filter fun mail => mail.uid ∉ uids

/-- The last update of a mail replaces its value. -/
def update (updated : List (Mail α)) (mail : Mail α) : Mail α :=
  match updated.reverse.find? fun new => new.uid = mail.uid with
  | some new => ⟨mail.uid, new.value⟩
  | none => mail

/-- New mails follow the index in ascending order. -/
def InOrder (index : MailIndex α) (appended : List (Mail α)) : Prop :=
  (∀ mail ∈ appended, index.nextUid ≤ mail.uid) ∧ appended.Pairwise fun a b => a.uid < b.uid

instance (index : MailIndex α) (appended : List (Mail α)) : Decidable (index.InOrder appended) :=
  inferInstanceAs (Decidable (_ ∧ _))

/-- The next UID after the last new mail, raised to the one in the header when that is greater. -/
def raiseNextUid (next : ℕ) (appended : List (Mail α)) (header : Option ℕ) : ℕ :=
  (appended.map fun mail => mail.uid + 1).foldl max (max next (header.getD 0))

lemma le_foldl_max {n : ℕ} {l : List ℕ} : n ≤ l.foldl max n ∧ ∀ m ∈ l, m ≤ l.foldl max n := by
  induction l generalizing n with
  | nil => simp
  | cons a l ih =>
    rw [List.foldl_cons]
    obtain ⟨hstart, hrest⟩ := @ih (max n a)
    refine ⟨le_trans (Nat.le_max_left n a) hstart, List.forall_mem_cons.mpr ⟨?_, hrest⟩⟩
    exact le_trans (Nat.le_max_right n a) hstart

lemma le_raiseNextUid (next : ℕ) (appended : List (Mail α)) (header : Option ℕ) :
    next ≤ raiseNextUid next appended header ∧ header.getD 0 ≤ raiseNextUid next appended header ∧
      ∀ mail ∈ appended, mail.uid < raiseNextUid next appended header := by
  obtain ⟨hstart, hmails⟩ := @le_foldl_max (max next (header.getD 0)) (appended.map fun mail => mail.uid + 1)
  exact ⟨le_trans (Nat.le_max_left ..) hstart, le_trans (Nat.le_max_right ..) hstart,
    fun mail hmail => hmails _ (List.mem_map_of_mem hmail)⟩

lemma foldl_max_eq {n : ℕ} {l : List ℕ} (h : ∀ m ∈ l, m ≤ n) : l.foldl max n = n := by
  induction l with
  | nil => rfl
  | cons a l ih =>
    obtain ⟨ha, hl⟩ := List.forall_mem_cons.mp h
    rw [List.foldl_cons, Nat.max_eq_left ha]
    exact ih hl

/-- New mails below the header's next UID do not raise it. -/
lemma raiseNextUid_eq {next : ℕ} {appended : List (Mail α)} {header : Option ℕ}
    (h : ∀ mail ∈ appended, mail.uid < max next (header.getD 0)) :
    raiseNextUid next appended header = max next (header.getD 0) :=
  foldl_max_eq (List.forall_mem_map.mpr h)

lemma update_uid (updated : List (Mail α)) (mail : Mail α) : (update updated mail).uid = mail.uid := by
  unfold update
  split <;> rfl

lemma mem_kept {index : MailIndex α} {trans : MailTransaction α} {mail : Mail α}
    (h : mail ∈ (expunge index.mails trans.expunged).map (update trans.updated)) :
    ∃ old ∈ index.mails, old.uid = mail.uid := by
  obtain ⟨old, hold, rfl⟩ := List.mem_map.mp h
  exact ⟨old, List.mem_of_mem_filter hold, (update_uid ..).symm⟩

/-- A transaction whose new mails are out of order does not commit. -/
def commit (index : MailIndex α) (trans : MailTransaction α) : Option (MailIndex α) :=
  if h : index.InOrder trans.appended then
    some
      { uidValidity := trans.uidValidity.getD index.uidValidity
        nextUid := raiseNextUid index.nextUid trans.appended trans.nextUid
        mails := (expunge index.mails trans.expunged).map (update trans.updated) ++ trans.appended
        sorted := by
          rw [List.pairwise_append]
          refine ⟨List.pairwise_map.mpr ?_, h.2, fun a ha b hb => ?_⟩
          · refine (index.sorted.sublist List.filter_sublist).imp fun {a b} hab => ?_
            rw [update_uid, update_uid]
            exact hab
          · obtain ⟨old, hold, huid⟩ := mem_kept ha
            rw [← huid]
            exact Nat.lt_of_lt_of_le (index.below old hold) (h.1 b hb)
        below := by
          obtain ⟨hnext, -, hnew⟩ := le_raiseNextUid index.nextUid trans.appended trans.nextUid
          refine List.forall_mem_append.mpr ⟨fun mail hmail => ?_, hnew⟩
          obtain ⟨old, hold, huid⟩ := mem_kept hmail
          rw [← huid]
          exact Nat.lt_of_lt_of_le (index.below old hold) hnext }
  else none

lemma mem_uids_commit {index index' : MailIndex α} {trans : MailTransaction α}
    (h : index.commit trans = some index') (uid : ℕ) :
    uid ∈ index'.uids ↔ (uid ∈ index.uids ∧ uid ∉ trans.expunged) ∨ uid ∈ trans.appended.map Mail.uid := by
  unfold commit at h
  split at h
  · rw [← Option.some.inj h, uids, List.map_append, List.mem_append, List.map_map]
    refine or_congr_left ?_
    have hsame : (Mail.uid ∘ update trans.updated : Mail α → ℕ) = Mail.uid := funext (update_uid trans.updated)
    rw [hsame, expunge, uids, List.mem_map, List.mem_map]
    constructor
    · rintro ⟨mail, hmail, rfl⟩
      obtain ⟨hmem, hkept⟩ := List.mem_filter.mp hmail
      exact ⟨⟨mail, hmem, rfl⟩, of_decide_eq_true hkept⟩
    · rintro ⟨⟨mail, hmem, rfl⟩, hkept⟩
      exact ⟨mail, List.mem_filter.mpr ⟨hmem, decide_eq_true hkept⟩, rfl⟩
  · simp at h

lemma nextUid_commit {index index' : MailIndex α} {trans : MailTransaction α} (h : index.commit trans = some index') :
    index'.nextUid = raiseNextUid index.nextUid trans.appended trans.nextUid ∧
      index'.uidValidity = trans.uidValidity.getD index.uidValidity := by
  unfold commit at h
  split at h
  · rw [← Option.some.inj h]
    exact ⟨rfl, rfl⟩
  · simp at h

end
end MailIndex
end Wyrebox
