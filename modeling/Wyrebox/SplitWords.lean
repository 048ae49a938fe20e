import Mathlib.Data.List.DropRight
import Mathlib.Data.List.TakeWhile

set_option autoImplicit false

/-!
# Words of a text

What remains of a text that is split at separators when the empty parts are left out.
-/
namespace Wyrebox.SplitWords

variable {α : Type} {p : α → Bool}

def words (p : α → Bool) (text : List α) : List (List α) := (text.splitOnP p).filter fun word => !word.isEmpty

/-- The text is these words with runs of separators between them. -/
inductive Separated (p : α → Bool) : List (List α) → List α → Prop where
  | last {word : List α} : word ≠ [] → (∀ a ∈ word, p a = false) → Separated p [word] word
  | cons {word gap : List α} {rest : List (List α)} {text : List α} : word ≠ [] → (∀ a ∈ word, p a = false) →
      gap ≠ [] → (∀ a ∈ gap, p a = true) → Separated p rest text → Separated p (word :: rest) (word ++ gap ++ text)

theorem words_cons_of_pos {a : α} (h : p a = true) (text : List α) : words p (a :: text) = words p text := by
  have hsplit := @List.splitOnP_append_cons_of_forall_mem α p [] (by simp) a h text
  rw [List.nil_append] at hsplit
  rw [words, hsplit, List.filter_cons_of_neg (by simp)]
  rfl

theorem words_gap {gap : List α} (h : ∀ a ∈ gap, p a = true) (text : List α) : words p (gap ++ text) = words p text := by
  induction gap with
  | nil => rfl
  | cons a gap ih =>
    rw [List.cons_append, words_cons_of_pos (h a (by simp)), ih fun b hb => h b (by simp [hb])]

theorem words_word {word : List α} (hne : word ≠ []) (h : ∀ a ∈ word, p a = false) : words p word = [word] := by
  rw [words, List.splitOnP_eq_singleton h, List.filter_cons_of_pos (by simpa using hne), List.filter_nil]

theorem words_word_cons {word : List α} (hne : word ≠ []) (h : ∀ a ∈ word, p a = false) {a : α} (ha : p a = true)
    (text : List α) : words p (word ++ a :: text) = word :: words p text := by
  rw [words, List.splitOnP_append_cons_of_forall_mem h a ha, List.filter_cons_of_pos (by simpa using hne)]
  rfl

theorem words_of_separated {parts : List (List α)} {text : List α} (h : Separated p parts text) : words p text = parts := by
  induction h with
  | last hne hword => exact words_word hne hword
  | @cons word gap rest text hne hword hgap hblank _ ih =>
    cases gap with
    | nil => exact absurd rfl hgap
    | cons a gap =>
      rw [List.append_assoc, List.cons_append, words_word_cons hne hword (hblank a (by simp)),
        words_gap fun b hb => hblank b (by simp [hb]), ih]

theorem separated_intercalate {s : α} (hs : p s = true) {parts : List (List α)} (hne : parts ≠ [])
    (hparts : ∀ part ∈ parts, part ≠ [] ∧ ∀ a ∈ part, p a = false) : Separated p parts ([s].intercalate parts) := by
  induction parts with
  | nil => exact absurd rfl hne
  | cons part rest ih =>
    obtain ⟨hpart, hword⟩ := hparts part (by simp)
    cases rest with
    | nil => simpa [List.intercalate] using Separated.last hpart hword
    | cons next rest =>
      have hrest := ih (by simp) fun q hq => hparts q (by simp [hq])
      have hcons : [s].intercalate (part :: next :: rest) = part ++ [s] ++ [s].intercalate (next :: rest) := by
        simp [List.intercalate]
      rw [hcons]
      exact .cons hpart hword (by simp) (by simp [hs]) hrest

theorem Separated.head {parts : List (List α)} {text : List α} (h : Separated p parts text) :
    ∃ word, parts.head? = some word ∧ ∃ a ∈ word, text.head? = some a := by
  cases h with
  | @last _ hne _ =>
    obtain ⟨a, rest, rfl⟩ := List.exists_cons_of_ne_nil hne
    exact ⟨_, rfl, a, by simp, rfl⟩
  | cons hne _ _ _ _ =>
    obtain ⟨a, rest, rfl⟩ := List.exists_cons_of_ne_nil hne
    exact ⟨_, rfl, a, by simp, rfl⟩

theorem Separated.getLast {parts : List (List α)} {text : List α} (h : Separated p parts text) :
    ∃ word, parts.getLast? = some word ∧ ∃ a ∈ word, text.getLast? = some a := by
  induction h with
  | @last word hne _ => exact ⟨word, rfl, word.getLast hne, List.getLast_mem hne, List.getLast?_eq_some_getLast hne⟩
  | @cons first _ rest _ _ _ _ _ hrest ih =>
    obtain ⟨word, hword, a, ha, hlast⟩ := ih
    have hne : rest ≠ [] := by
      rintro rfl
      cases hword
    refine ⟨word, ?_, a, ha, ?_⟩
    · rw [← hword]
      exact List.getLast?_append_of_ne_nil [first] hne
    · rw [List.getLast?_append_of_ne_nil _ (by rintro rfl; cases hlast), hlast]

/-- A text that neither begins nor ends with a separator is its words. -/
theorem separated_words {text : List α} (hfirst : ∃ a, text.head? = some a ∧ p a = false)
    (hlast : ∃ a, text.getLast? = some a ∧ p a = false) : Separated p (words p text) text := by
  induction hlength : text.length using Nat.strong_induction_on generalizing text with
  | h n ih =>
    have hsplit : text.takeWhile (fun a => !p a) ++ text.dropWhile (fun a => !p a) = text :=
      List.takeWhile_append_dropWhile
    have hword : ∀ a ∈ text.takeWhile (fun a => !p a), p a = false := fun a ha => by
      simpa using List.mem_takeWhile_imp ha
    have hne : text.takeWhile (fun a => !p a) ≠ [] := by
      obtain ⟨first, hhead, hfirst⟩ := hfirst
      rw [← List.cons_head?_tail hhead]
      simp [hfirst]
    have hafter : ∀ a, (text.dropWhile fun a => !p a).head? = some a → p a = true := fun a ha => by
      have h := List.head?_dropWhile_not (fun a => !p a) text
      rw [ha] at h
      simpa using h
    generalize text.takeWhile (fun a => !p a) = word at hsplit hword hne
    generalize text.dropWhile (fun a => !p a) = after at hsplit hafter
    rcases after with _ | ⟨s, after⟩
    · rw [List.append_nil] at hsplit
      subst hsplit
      rw [words_word hne hword]
      exact .last hne hword
    · have hs := hafter s rfl
      have hgapSplit : (s :: after).takeWhile p ++ (s :: after).dropWhile p = s :: after :=
        List.takeWhile_append_dropWhile
      have hblank : ∀ a ∈ (s :: after).takeWhile p, p a = true := fun a ha => List.mem_takeWhile_imp ha
      have hgap : (s :: after).takeWhile p ≠ [] := by simp [hs]
      have hnextFirst : ∀ a, ((s :: after).dropWhile p).head? = some a → p a = false := fun a ha => by
        have h := List.head?_dropWhile_not p (s :: after)
        rw [ha] at h
        exact h
      generalize (s :: after).takeWhile p = gap at hgapSplit hblank hgap
      generalize (s :: after).dropWhile p = next at hgapSplit hnextFirst
      rw [← hgapSplit] at hsplit
      subst hsplit
      obtain ⟨last, hgetLast, hlastFalse⟩ := hlast
      -- the last element is not in the gap
      have hnext : next ≠ [] := by
        rintro rfl
        rw [List.append_nil, List.getLast?_append_of_ne_nil _ hgap] at hgetLast
        rw [hblank last (List.mem_of_getLast? hgetLast)] at hlastFalse
        cases hlastFalse
      rw [← List.append_assoc, List.getLast?_append_of_ne_nil _ hnext] at hgetLast
      obtain ⟨a, next, rfl⟩ := List.exists_cons_of_ne_nil hnext
      have hlt : (a :: next).length < n := by
        have hpos := List.length_pos_of_ne_nil hne
        rw [← hlength, List.length_append, List.length_append]
        omega
      have hrest := ih _ hlt ⟨a, rfl, hnextFirst a rfl⟩ ⟨last, hgetLast, hlastFalse⟩ rfl
      have hwords : words p (word ++ (gap ++ a :: next)) = word :: words p (a :: next) := by
        rw [← List.append_assoc]
        exact words_of_separated (by simpa only [words_of_separated hrest] using Separated.cons hne hword hgap hblank hrest)
      rw [hwords, ← List.append_assoc]
      exact .cons hne hword hgap hblank hrest

/-! ## Text without what surrounds it -/

theorem dropWhile_append_of_head {lead text : List α} (hlead : ∀ a ∈ lead, p a = true)
    (hfirst : ∃ a, text.head? = some a ∧ p a = false) : (lead ++ text).dropWhile p = text := by
  induction lead with
  | nil =>
    obtain ⟨a, hhead, ha⟩ := hfirst
    rw [← List.cons_head?_tail hhead, List.nil_append, List.dropWhile_cons_of_neg (by simp [ha])]
  | cons b lead ih =>
    rw [List.cons_append, List.dropWhile_cons_of_pos (hlead b (by simp)), ih fun a ha => hlead a (by simp [ha])]

theorem rdropWhile_append_of_getLast {text trail : List α} (htrail : ∀ a ∈ trail, p a = true)
    (hlast : ∃ a, text.getLast? = some a ∧ p a = false) : (text ++ trail).rdropWhile p = text := by
  obtain ⟨a, hgetLast, ha⟩ := hlast
  rw [List.rdropWhile, List.reverse_append, dropWhile_append_of_head (by simpa using htrail), List.reverse_reverse]
  exact ⟨a, by rw [List.head?_reverse, hgetLast], ha⟩

/-- What is dropped at both ends. -/
theorem exists_surrounding (p : α → Bool) (text : List α) : ∃ lead trail : List α, (∀ a ∈ lead, p a = true) ∧
    (∀ a ∈ trail, p a = true) ∧ text = lead ++ (text.dropWhile p).rdropWhile p ++ trail := by
  refine ⟨text.takeWhile p, (text.dropWhile p).rtakeWhile p, fun a ha => List.mem_takeWhile_imp ha,
    fun a ha => List.mem_rtakeWhile_imp ha, ?_⟩
  rw [List.append_assoc, List.rdropWhile_append_rtakeWhile, List.takeWhile_append_dropWhile]

theorem surrounded_head {text : List α} (hne : (text.dropWhile p).rdropWhile p ≠ []) :
    ∃ a, ((text.dropWhile p).rdropWhile p).head? = some a ∧ p a = false := by
  obtain ⟨a, rest, heq⟩ := List.exists_cons_of_ne_nil hne
  refine ⟨a, by rw [heq]; rfl, ?_⟩
  have hprefix : (text.dropWhile p).rdropWhile p <+: text.dropWhile p := List.rdropWhile_prefix p _
  have hhead := List.head?_dropWhile_not p text
  rw [heq] at hprefix
  obtain ⟨tail, htail⟩ := hprefix
  rw [← htail] at hhead
  simpa using hhead

theorem surrounded_getLast {text : List α} (hne : (text.dropWhile p).rdropWhile p ≠ []) :
    ∃ a, ((text.dropWhile p).rdropWhile p).getLast? = some a ∧ p a = false := by
  refine ⟨_, List.getLast?_eq_some_getLast hne, ?_⟩
  exact Bool.eq_false_iff.mpr (List.rdropWhile_last_not p _ hne)

end Wyrebox.SplitWords
