import Mathlib.Data.List.Dedup
import Mathlib.Data.List.Perm.Subperm
import Mathlib.Logic.Relation

set_option autoImplicit false

/-!
# Recursive queries

`WITH RECURSIVE … UNION`: the rows of the last round are stepped until a round brings no new row.
-/
namespace Wyrebox.RecursiveQuery

variable {α : Type} [DecidableEq α] (step : α → List α)

/-- `working` is the last round, `rows` are all of them. -/
def recursion : ℕ → List α → List α → List α
  | 0, rows, _ => rows
  | fuel + 1, rows, working =>
    let fresh := (working.flatMap step).dedup.filter (· ∉ rows)
    if fresh.isEmpty then rows else recursion fuel (rows ++ fresh) fresh

def Reaches : α → α → Prop := Relation.ReflTransGen fun a b => b ∈ step a

variable {step} {rows working : List α} {x : α}

theorem reached_of_mem (fuel : ℕ) (hworking : working ⊆ rows) (h : x ∈ recursion step fuel rows working) :
    ∃ row ∈ rows, Reaches step row x := by
  induction fuel generalizing rows working with
  | zero => exact ⟨x, h, .refl⟩
  | succ fuel ih =>
    rw [recursion] at h
    split at h
    · exact ⟨x, h, .refl⟩
    obtain ⟨row, hrow, hreaches⟩ := ih (List.subset_append_right _ _) h
    obtain hrow | hrow := List.mem_append.mp hrow
    · exact ⟨row, hrow, hreaches⟩
    · obtain ⟨before, hbefore, hstep⟩ := List.mem_flatMap.mp (List.mem_dedup.mp (List.mem_of_mem_filter hrow))
      exact ⟨before, hworking hbefore, .head hstep hreaches⟩

omit [DecidableEq α] in
theorem mem_of_closed (hclosed : ∀ y ∈ rows, step y ⊆ rows) {row : α} (hrow : row ∈ rows) (h : Reaches step row x) :
    x ∈ rows := by
  induction h with
  | refl => exact hrow
  | tail _ hstep ih => exact hclosed _ ih hstep

/-- In a finite domain the rounds end, with every row that is reached. -/
theorem mem_of_reached {domain : List α} (hclosed : ∀ x ∈ domain, step x ⊆ domain) (fuel : ℕ)
    (hfuel : domain.length < rows.length + fuel) (hnodup : rows.Nodup) (hrows : rows ⊆ domain)
    (hworking : working ⊆ rows) (hdone : ∀ row ∈ rows, row ∈ working ∨ step row ⊆ rows) {row : α} (hrow : row ∈ rows)
    (h : Reaches step row x) : x ∈ recursion step fuel rows working := by
  induction fuel generalizing rows working with
  | zero =>
    have hlength := (hnodup.subperm hrows).length_le
    omega
  | succ fuel ih =>
    have hmem : ∀ y ∈ working, ∀ z ∈ step y, z ∈ rows ∨ z ∈ (working.flatMap step).dedup.filter (· ∉ rows) := by
      intro y hy z hz
      by_cases hold : z ∈ rows
      · exact .inl hold
      · exact .inr (List.mem_filter.mpr ⟨List.mem_dedup.mpr (List.mem_flatMap.mpr ⟨y, hy, hz⟩), decide_eq_true hold⟩)
    rw [recursion]
    split
    -- no row is new: the rows are closed
    · rename_i hnone
      rw [List.isEmpty_iff] at hnone
      refine mem_of_closed (fun y hy z hz => ?_) hrow h
      obtain hy | hy := hdone y hy
      · exact (hmem y hy z hz).resolve_right (by rw [hnone]; exact List.not_mem_nil)
      · exact hy hz
    · rename_i hsome
      have hpos := List.length_pos_iff.mpr (fun hnil => hsome (List.isEmpty_iff.mpr hnil))
      refine ih ?_ ?_ ?_ (List.subset_append_right _ _) ?_ (List.mem_append_left _ hrow)
      · rw [List.length_append]
        omega
      · refine List.nodup_append.mpr ⟨hnodup, (List.nodup_dedup _).filter _, fun a ha b hb hab => ?_⟩
        exact of_decide_eq_true (List.mem_filter.mp hb).2 (hab ▸ ha)
      · refine List.append_subset.mpr ⟨hrows, fun z hz => ?_⟩
        obtain ⟨y, hy, hz⟩ := List.mem_flatMap.mp (List.mem_dedup.mp (List.mem_of_mem_filter hz))
        exact hclosed y (hrows (hworking hy)) hz
      · intro y hy
        obtain hy | hy := List.mem_append.mp hy
        · refine .inr fun z hz => List.mem_append.mpr ?_
          obtain hy | hy := hdone y hy
          · exact hmem y hy z hz
          · exact .inl (hy hz)
        · exact .inl hy

/-- Started with its seeds, the query gives the rows that are reached from one of them. -/
theorem mem_recursion_iff {domain seeds : List α} (hclosed : ∀ x ∈ domain, step x ⊆ domain)
    (hseeds : seeds ⊆ domain) {fuel : ℕ} (hfuel : domain.length < fuel) :
    x ∈ recursion step fuel seeds.dedup seeds.dedup ↔ ∃ seed ∈ seeds, Reaches step seed x := by
  constructor
  · intro h
    obtain ⟨seed, hseed, hreaches⟩ := reached_of_mem fuel (List.Subset.refl _) h
    exact ⟨seed, List.mem_dedup.mp hseed, hreaches⟩
  · rintro ⟨seed, hseed, hreaches⟩
    exact mem_of_reached hclosed fuel (by omega) (List.nodup_dedup _) (fun y hy => hseeds (List.mem_dedup.mp hy))
      (List.Subset.refl _) (fun _ => .inl) (List.mem_dedup.mpr hseed) hreaches

end Wyrebox.RecursiveQuery
