import Mathlib.Data.List.Nodup
import Mathlib.Data.Set.Insert
import Mathlib.Tactic.Convert
import Mathlib.Tactic.Tauto

set_option autoImplicit false

/-!
# Changes of a set

A set is changed by retracting and inserting single elements. `Leads` follows a list of changes none of
which is idle; the difference of two lists leads from one to the other.
-/
namespace Wyrebox.SetChange

inductive Change (κ : Type) where
  | retract (key : κ)
  | insert (key : κ)
  deriving DecidableEq

section
variable {κ : Type}

def Change.key : Change κ → κ
  | .retract key => key
  | .insert key => key

def Change.isRetraction : Change κ → Bool
  | .retract _ => true
  | .insert _ => false

def Change.apply (S : Set κ) : Change κ → Set κ
  | .retract key => S \ {key}
  | .insert key => Insert.insert key S

/-- The changes in order, each of which changes the set it meets. -/
inductive Leads : Set κ → List (Change κ) → Set κ → Prop
  | nil (S : Set κ) : Leads S [] S
  | cons {S T : Set κ} {change : Change κ} {changes : List (Change κ)} (h : change.apply S ≠ S)
    (rest : Leads (change.apply S) changes T) : Leads S (change :: changes) T

theorem Leads.append {S T U : Set κ} {changes later : List (Change κ)} (h : Leads S changes T)
    (h' : Leads T later U) : Leads S (changes ++ later) U := by
  induction h with
  | nil => exact h'
  | cons hne _ ih => exact Leads.cons hne (ih h')

theorem leads_retractions {S : Set κ} {keys : List κ} (hnodup : keys.Nodup) (hmem : ∀ k ∈ keys, k ∈ S) :
    Leads S (keys.map .retract) (S \ {k | k ∈ keys}) := by
  induction keys generalizing S with
  | nil =>
    have hset : S \ {k | k ∈ ([] : List κ)} = S := by
      ext k
      simp only [Set.mem_sdiff, Set.mem_ofPred_eq, List.not_mem_nil, not_false_eq_true, and_true]
    rw [hset]
    exact Leads.nil S
  | cons key keys ih =>
    rw [List.nodup_cons] at hnodup
    have hkey : key ∈ S := hmem key List.mem_cons_self
    have hrest := @ih (S \ {key}) hnodup.2 fun k hk =>
      ⟨hmem k (List.mem_cons_of_mem _ hk), fun heq => hnodup.1 (Set.mem_singleton_iff.mp heq ▸ hk)⟩
    have hset : (S \ {key}) \ {k | k ∈ keys} = S \ {k | k ∈ key :: keys} := by
      ext k
      simp only [Set.mem_sdiff, Set.mem_singleton_iff, Set.mem_ofPred_eq, List.mem_cons, not_or, and_assoc]
    rw [hset] at hrest
    refine Leads.cons (fun heq => ?_) hrest
    have hout : key ∉ (Change.retract key).apply S := fun hin => hin.2 rfl
    rw [heq] at hout
    exact hout hkey

theorem leads_insertions {S : Set κ} {keys : List κ} (hnodup : keys.Nodup) (hmem : ∀ k ∈ keys, k ∉ S) :
    Leads S (keys.map .insert) (S ∪ {k | k ∈ keys}) := by
  induction keys generalizing S with
  | nil => simpa using Leads.nil S
  | cons key keys ih =>
    rw [List.nodup_cons] at hnodup
    have hkey : key ∉ S := hmem key List.mem_cons_self
    have hrest := @ih (Insert.insert key S) hnodup.2 fun k hk hin => by
      rcases hin with heq | hold
      · exact hnodup.1 (heq ▸ hk)
      · exact hmem k (List.mem_cons_of_mem _ hk) hold
    have hset : Insert.insert key S ∪ {k | k ∈ keys} = S ∪ {k | k ∈ key :: keys} := by
      ext k
      simp only [Set.mem_union, Set.mem_insert_iff, Set.mem_ofPred_eq, List.mem_cons]
      tauto
    rw [hset] at hrest
    refine Leads.cons (fun heq => ?_) hrest
    have hin : key ∈ Insert.insert key S := Set.mem_insert key S
    exact hkey (heq ▸ hin)

variable [DecidableEq κ]

/-- What has to go, then what has to come. -/
def difference (previous desired : List κ) : List (Change κ) :=
  (previous.filter (· ∉ desired)).map .retract ++ (desired.filter (· ∉ previous)).map .insert

theorem leads_difference {previous desired : List κ} (hprevious : previous.Nodup) (hdesired : desired.Nodup) :
    Leads {k | k ∈ previous} (difference previous desired) {k | k ∈ desired} := by
  have hout := leads_retractions (S := {k | k ∈ previous}) (hprevious.filter (· ∉ desired))
    fun k hk => (List.mem_filter.mp hk).1
  refine hout.append ?_
  have hin := leads_insertions (S := {k | k ∈ previous} \ {k | k ∈ previous.filter (· ∉ desired)})
    (hdesired.filter (· ∉ previous)) fun k hk hold => by
      have hnew := (List.mem_filter.mp hk).2
      exact absurd hold.1 (by simpa using hnew)
  convert hin using 1
  ext k
  simp only [Set.mem_union, Set.mem_sdiff, Set.mem_ofPred_eq, List.mem_filter, decide_eq_true_eq]
  tauto

theorem difference_key_nodup {previous desired : List κ} (hprevious : previous.Nodup) (hdesired : desired.Nodup) :
    ((difference previous desired).map Change.key).Nodup := by
  have hkeys : (difference previous desired).map Change.key =
      previous.filter (· ∉ desired) ++ desired.filter (· ∉ previous) := by
    rw [difference, List.map_append, List.map_map, List.map_map]
    congr 1
    · exact List.map_id _
    · exact List.map_id _
  rw [hkeys]
  refine (hprevious.filter _).append (hdesired.filter _) ?_
  intro k hk hk'
  have hgone := (List.mem_filter.mp hk).2
  exact absurd (List.mem_filter.mp hk').1 (by simpa using hgone)

theorem difference_self (keys : List κ) : difference keys keys = [] := by
  simp [difference]

end
end Wyrebox.SetChange
