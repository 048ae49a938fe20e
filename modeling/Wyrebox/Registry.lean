import Mathlib.Logic.Function.Basic

set_option autoImplicit false

/-!
# Registries

A table that is only written by `INSERT OR IGNORE` followed by a check that the stored row is
the wanted one. Writers that agree on the row of every key never disturb each other.
-/
namespace Wyrebox

abbrev Registry (K V : Type) : Type := K → Option V

namespace Registry

section
variable {K V : Type}

def empty : Registry K V := fun _ => none

/-- Every row of `r` is stored in `s`. -/
def Within (r s : Registry K V) : Prop := ∀ k v, r k = some v → s k = some v

lemma Within.refl (r : Registry K V) : r.Within r := fun _ _ => id

lemma Within.trans {r s t : Registry K V} (h : r.Within s) (h' : s.Within t) : r.Within t :=
  fun k v hk => h' k v (h k v hk)

variable [DecidableEq K] [DecidableEq V]

/-- `INSERT OR IGNORE` and the exact check. -/
def register (r : Registry K V) (k : K) (v : V) : Option (Registry K V) :=
  match r k with
  | none => some (Function.update r k (some v))
  | some stored => if stored = v then some r else none

lemma register_eq_some {r s : Registry K V} {k : K} {v : V} (h : r.register k v = some s) :
    s k = some v ∧ r.Within s ∧ ∀ k', k' ≠ k → s k' = r k' := by
  simp only [register] at h
  split at h
  · rename_i hnone
    simp only [Option.some.injEq] at h
    subst h
    refine ⟨Function.update_self .., ?_, fun k' hk' => Function.update_of_ne hk' ..⟩
    intro k' v' hk'
    have hne : k' ≠ k := by
      rintro rfl
      simp [hnone] at hk'
    rwa [Function.update_of_ne hne]
  · rename_i stored hstored
    split at h
    · rename_i heq
      simp only [Option.some.injEq] at h
      subst h heq
      exact ⟨hstored, fun _ _ => id, fun _ _ => rfl⟩
    · simp at h

/-- A key whose row is unset or already the wanted one can be registered. -/
lemma exists_register {r : Registry K V} {k : K} {v : V} (h : ∀ stored, r k = some stored → stored = v) :
    ∃ s, r.register k v = some s := by
  simp only [register]
  split
  · exact ⟨_, rfl⟩
  · rename_i stored hstored
    rw [if_pos (h stored hstored)]
    exact ⟨_, rfl⟩

lemma register_self {r : Registry K V} {k : K} {v : V} (h : r k = some v) :
    r.register k v = some r := by
  simp [register, h]

lemma register_within {r s t : Registry K V} {k : K} {v : V} (h : r.register k v = some s)
    (hr : r.Within t) (hk : t k = some v) : s.Within t := by
  obtain ⟨hself, -, hothers⟩ := register_eq_some h
  intro k' v' hk'
  by_cases heq : k' = k
  · subst heq
    rw [hself] at hk'
    rw [hk, ← hk']
  · exact hr k' v' (by rwa [hothers k' heq] at hk')

/-- Registering a row of a larger registry succeeds in every smaller one. -/
lemma Within.exists_register {r t : Registry K V} {k : K} {v : V} (h : r.Within t)
    (hk : t k = some v) : ∃ s, r.register k v = some s ∧ s.Within t := by
  obtain ⟨s, hs⟩ := Registry.exists_register (r := r) (k := k) (v := v) fun stored hstored => by
    have := h k stored hstored
    rw [hk] at this
    exact (Option.some.inj this).symm
  exact ⟨s, hs, register_within hs h hk⟩

end
end Registry
end Wyrebox
