import Mathlib.Data.List.Basic

set_option autoImplicit false

/-!
# Lines of a text

Lines end at a pair of characters. The last line of a text has no end.
-/
namespace Wyrebox.TextLines

variable {α : Type} [DecidableEq α] (cr lf : α)

def splitLines : List α → List (List α)
  | [] => [[]]
  | [a] => [[a]]
  | a :: b :: rest =>
    if a = cr ∧ b = lf then [] :: splitLines rest else (splitLines (b :: rest)).modifyHead (a :: ·)

def joinLines : List (List α) → List α
  | [] => []
  | line :: lines => line ++ lines.flatMap fun line => cr :: lf :: line

variable {cr lf}

theorem splitLines_ne_nil (text : List α) : splitLines cr lf text ≠ [] := by
  fun_induction splitLines cr lf text with
  | case1 => simp
  | case2 => simp
  | case3 => simp
  | case4 a b rest hbreak ih =>
    obtain ⟨line, lines, hlines⟩ := List.exists_cons_of_ne_nil ih
    simp [hlines]

omit [DecidableEq α] in
theorem joinLines_cons {line : List α} {lines : List (List α)} (hne : lines ≠ []) :
    joinLines cr lf (line :: lines) = line ++ cr :: lf :: joinLines cr lf lines := by
  obtain ⟨next, lines, rfl⟩ := List.exists_cons_of_ne_nil hne
  simp [joinLines]

/-- A text is its lines. -/
theorem joinLines_splitLines (text : List α) : joinLines cr lf (splitLines cr lf text) = text := by
  fun_induction splitLines cr lf text with
  | case1 => rfl
  | case2 => simp [joinLines]
  | case3 a b rest hbreak ih =>
    obtain ⟨rfl, rfl⟩ := hbreak
    rw [joinLines_cons (splitLines_ne_nil _), ih]
    rfl
  | case4 a b rest hbreak ih =>
    obtain ⟨line, lines, hlines⟩ := List.exists_cons_of_ne_nil (@splitLines_ne_nil _ _ cr lf (b :: rest))
    rw [hlines] at ih ⊢
    simp only [List.modifyHead_cons, joinLines, List.cons_append] at ih ⊢
    rw [ih]

/-- A line without a `cr` is read up to its end. -/
theorem splitLines_append {line rest : List α} (h : cr ∉ line) :
    splitLines cr lf (line ++ cr :: lf :: rest) = line :: splitLines cr lf rest := by
  induction line with
  | nil => rw [List.nil_append, splitLines, if_pos ⟨rfl, rfl⟩]
  | cons a line ih =>
    rw [List.mem_cons, not_or] at h
    have hsplit := ih h.2
    cases line with
    | nil =>
      rw [List.nil_append] at hsplit
      rw [List.cons_append, List.nil_append, splitLines, if_neg (fun hbreak => h.1 hbreak.1.symm), hsplit]
      rfl
    | cons b line =>
      rw [List.cons_append] at hsplit
      rw [List.cons_append, List.cons_append, splitLines, if_neg (fun hbreak => h.1 hbreak.1.symm), hsplit]
      rfl

theorem splitLines_single {line : List α} (h : cr ∉ line) : splitLines cr lf line = [line] := by
  induction line with
  | nil => rfl
  | cons a line ih =>
    rw [List.mem_cons, not_or] at h
    cases line with
    | nil => rfl
    | cons b line =>
      rw [splitLines, if_neg (fun hbreak => h.1 hbreak.1.symm), ih h.2]
      rfl

end Wyrebox.TextLines
