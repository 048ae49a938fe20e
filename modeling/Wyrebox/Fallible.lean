import Mathlib.Data.List.Forall2

set_option autoImplicit false

/-!
# Fallible computations

Inversion rules for code that checks a condition, reports an error and otherwise continues.
-/
namespace Wyrebox.Fallible

section
variable {ε α β : Type} {c : Prop} [Decidable c]

/-- A check that precedes a successful computation was passed. -/
theorem ite_error_eq_ok {error : ε} {next : Except ε α} {result : α} :
    (if c then .error error else next) = .ok result ↔ ¬c ∧ next = .ok result := by
  by_cases h : c <;> simp [h]

theorem ite_ok_eq_ok {error : ε} {next : Except ε α} {result : α} :
    (if c then next else .error error) = .ok result ↔ c ∧ next = .ok result := by
  by_cases h : c <;> simp [h]

theorem ite_none_eq_some {next : Option α} {result : α} :
    (if c then none else next) = some result ↔ ¬c ∧ next = some result := by
  by_cases h : c <;> simp [h]

theorem bind_eq_ok {first : Except ε α} {next : α → Except ε β} {result : β} :
    (first >>= next) = .ok result ↔ ∃ value, first = .ok value ∧ next value = .ok result := by
  cases first <;> simp [bind, Except.bind]

/-- A check returns nothing. -/
theorem check_eq_ok {check : Except ε Unit} {next : Except ε α} {result : α} :
    (check >>= fun _ => next) = .ok result ↔ check = .ok () ∧ next = .ok result := by
  cases check <;> simp [bind, Except.bind]

/-- Each value of the list was computed, in order. -/
theorem mapM_eq_ok {f : α → Except ε β} {l : List α} {results : List β} :
    l.mapM f = .ok results ↔ List.Forall₂ (fun value result => f value = .ok result) l results := by
  induction l generalizing results with
  | nil =>
    rw [List.forall₂_nil_left_iff]
    exact ⟨fun h => (Except.ok.inj h).symm, fun h => h ▸ rfl⟩
  | cons value l ih =>
    rw [List.mapM_cons, bind_eq_ok, List.forall₂_cons_left_iff]
    constructor
    · rintro ⟨first, hfirst, hrest⟩
      obtain ⟨later, hlater, heq⟩ := bind_eq_ok.mp hrest
      exact ⟨first, later, hfirst, ih.mp hlater, (Except.ok.inj heq).symm⟩
    · rintro ⟨first, later, hfirst, hlater, rfl⟩
      exact ⟨first, hfirst, bind_eq_ok.mpr ⟨later, ih.mpr hlater, rfl⟩⟩

end
end Wyrebox.Fallible
