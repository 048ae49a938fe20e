import Mathlib.Data.Nat.Notation
import Wyrebox.Fallible

set_option autoImplicit false

/-!
# Transactions

Statements that run one after the other on one connection. A statement that refuses, or a database
that fails at it, may leave the writes of earlier statements behind until the rollback.
-/
namespace Wyrebox.Transaction
open Fallible

section
variable {S ε : Type}

/-- What a connection sees, and inside a transaction what it saw at the start. -/
structure Connection (S : Type) where
  current : S
  saved : Option S

namespace Connection

def begin (c : Connection S) : Connection S := { c with saved := some c.current }

def write (c : Connection S) (s : S) : Connection S := { c with current := s }

def rollback (c : Connection S) : Connection S := ⟨c.saved.getD c.current, none⟩

def commit (c : Connection S) : Connection S := { c with saved := none }

end Connection

/-- At which statements the database fails, and what a statement that did not succeed has written. -/
structure Faults (S : Type) where
  fails : ℕ → Bool
  leaves : ℕ → S → S

def Faults.none : Faults S := ⟨fun _ => false, fun _ s => s⟩

/-- The statements from the `i`-th on, until one does not succeed. -/
def execute (faults : Faults S) : ℕ → List (S → Except ε S) → S → S × Bool
  | _, [], s => (s, true)
  | i, statement :: statements, s =>
    if faults.fails i then (faults.leaves i s, false)
    else
      match statement s with
      | .error _ => (faults.leaves i s, false)
      | .ok s => execute faults (i + 1) statements s

/-- The database may also fail at the beginning and at the commit. -/
def transact (faults : Faults S) (statements : List (S → Except ε S)) (c : Connection S) : Connection S × Bool :=
  if faults.fails 0 then (c, false)
  else
    match execute faults 1 statements c.current with
    | (s, done) =>
      if done && !faults.fails (statements.length + 1) then ((c.begin.write s).commit, true)
      else ((c.begin.write s).rollback, false)

lemma execute_done {faults : Faults S} {i : ℕ} {statements : List (S → Except ε S)} {s s' : S}
    (h : execute faults i statements s = (s', true)) :
    statements.foldlM (fun s statement => statement s) s = .ok s' := by
  induction statements generalizing i s with
  | nil =>
    obtain rfl := (Prod.mk.inj h).1
    rfl
  | cons statement statements ih =>
    rw [execute] at h
    split at h
    · simp at h
    · split at h
      · simp at h
      · rename_i s₁ hfirst
        rw [List.foldlM_cons, bind_eq_ok]
        exact ⟨s₁, hfirst, ih h⟩

/-- A transaction that fails at any of its statements leaves what it found. -/
theorem transact_failed {faults : Faults S} {statements : List (S → Except ε S)} {c c' : Connection S}
    (h : transact faults statements c = (c', false)) : c'.current = c.current := by
  rw [transact] at h
  split at h
  · rw [(Prod.mk.inj h).1]
  · cases hrun : execute faults 1 statements c.current with
    | mk s done =>
      simp only [hrun] at h
      split at h
      · simp at h
      · rw [← (Prod.mk.inj h).1]
        rfl

/-- A transaction that commits has run all of its statements. -/
theorem transact_committed {faults : Faults S} {statements : List (S → Except ε S)} {c c' : Connection S}
    (h : transact faults statements c = (c', true)) :
    statements.foldlM (fun s statement => statement s) c.current = .ok c'.current := by
  rw [transact] at h
  split at h
  · simp at h
  · cases hrun : execute faults 1 statements c.current with
    | mk s done =>
      simp only [hrun] at h
      split at h
      · rename_i hdone
        rw [Bool.and_eq_true] at hdone
        obtain rfl : done = true := hdone.1
        rw [← (Prod.mk.inj h).1]
        exact execute_done hrun
      · simp at h

end
end Wyrebox.Transaction
