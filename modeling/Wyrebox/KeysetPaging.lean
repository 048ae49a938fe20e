import Mathlib.Data.List.Sort
import Mathlib.Order.Basic

set_option autoImplicit false

/-!
# Keyset paging

Rows are read in pages after a cursor, in the order of a group and a member. A page is completed
with the rest of its last group, which becomes the next cursor, so no group is split.
-/
namespace Wyrebox.KeysetPaging

section
variable {α β : Type} [LinearOrder α] [LinearOrder β]

def Before (row other : α × β) : Prop := row.1 < other.1 ∨ (row.1 = other.1 ∧ row.2 < other.2)

/-- The next cursor and the members of the next page. -/
def nextPage (rows : List (α × β)) (size : ℕ) (cursor : α) : Option (α × List β) :=
  let page := (rows.filter fun row => cursor < row.1).take size
  page.getLast?.map fun last =>
    (last.1, (page ++ rows.filter fun row => row.1 = last.1 ∧ last.2 < row.2).map Prod.snd)

/-- The pages until one is empty, unless the fuel ends before. -/
def pages (rows : List (α × β)) (size : ℕ) : ℕ → α → Option (List (List β))
  | 0, _ => none
  | fuel + 1, cursor =>
    match nextPage rows size cursor with
    | none => some []
    | some (cursor, page) => (pages rows size fuel cursor).map (page :: ·)

/-- The members of the groups after one cursor, up to another. -/
def members (rows : List (α × β)) (low high : α) : List β :=
  (rows.filter fun row => low < row.1 ∧ row.1 ≤ high).map Prod.snd

variable {rows : List (α × β)} {size fuel : ℕ} {cursor cursor' : α} {page : List β}

lemma Before.le {row other : α × β} (h : Before row other) : row.1 ≤ other.1 :=
  h.elim le_of_lt fun heq => heq.1.le

lemma Before.not_before {row other : α × β} (h : Before row other) : ¬Before other row := by
  rintro (hlt | ⟨hsame, hlt⟩)
  · exact absurd h.le (not_le.mpr hlt)
  · obtain hlt' | ⟨-, hlt'⟩ := h
    · exact absurd hlt' (not_lt.mpr hsame.le)
    · exact absurd hlt (not_lt.mpr hlt'.le)

/-- The last row of a page is after every row of the page and before every row that is left. -/
lemma last_of_take {l : List (α × β)} {last : α × β} (hsorted : l.Pairwise Before)
    (hlast : (l.take size).getLast? = some last) :
    (∀ row ∈ l.take size, row = last ∨ Before row last) ∧ ∀ row ∈ l.drop size, Before last row := by
  have hmem : last ∈ l.take size := List.mem_of_getLast? hlast
  have hsplit : (l.take size).Pairwise Before ∧ (l.drop size).Pairwise Before ∧
      ∀ row ∈ l.take size, ∀ other ∈ l.drop size, Before row other :=
    List.pairwise_append.mp ((List.take_append_drop size l).symm ▸ hsorted)
  refine ⟨fun row hrow => ?_, hsplit.2.2 last hmem⟩
  obtain ⟨front, hfront⟩ := List.getLast?_eq_some_iff.mp hlast
  rw [hfront] at hrow hsplit
  rcases List.mem_append.mp hrow with hbefore | hself
  · exact .inr ((List.pairwise_append.mp hsplit.1).2.2 row hbefore last (List.mem_singleton_self _))
  · exact .inl (List.mem_singleton.mp hself)

/-- A page holds the groups up to the next cursor. -/
theorem nextPage_eq (hsorted : rows.Pairwise Before) (h : nextPage rows size cursor = some (cursor', page)) :
    (cursor < cursor' ∧ ∃ member, (cursor', member) ∈ rows) ∧ page = members rows cursor cursor' := by
  obtain ⟨last, hlast, heq⟩ := Option.map_eq_some_iff.mp h
  obtain ⟨rfl, rfl⟩ := Prod.mk.inj heq
  obtain ⟨hpage, hleft⟩ := last_of_take (hsorted.filter _) hlast
  obtain ⟨hrow, hcursor⟩ := List.mem_filter.mp (List.mem_of_mem_take (List.mem_of_getLast? hlast))
  rw [decide_eq_true_eq] at hcursor
  refine ⟨⟨hcursor, last.2, hrow⟩, congrArg (List.map Prod.snd) ?_⟩
  -- both filters only look at the rows after the cursor, and tell the page from the rows that are left
  have hafter : ∀ p : α × β → Bool, (∀ row, p row = true → cursor < row.1) → rows.filter p =
      ((rows.filter fun row => cursor < row.1).take size).filter p ++
        ((rows.filter fun row => cursor < row.1).drop size).filter p := by
    intro p hp
    rw [← List.filter_append, List.take_append_drop, List.filter_filter]
    refine List.filter_congr fun row _ => ?_
    by_cases hrow : p row = true
    · simp [hrow, hp row hrow]
    · simp [hrow]
  rw [hafter (fun row => row.1 = last.1 ∧ last.2 < row.2) (fun row hrow => ?_),
    hafter (fun row => cursor < row.1 ∧ row.1 ≤ last.1) (fun row hrow => (of_decide_eq_true hrow).1)]
  · have hnone : ((rows.filter fun row => cursor < row.1).take size).filter
        (fun row => row.1 = last.1 ∧ last.2 < row.2) = [] := by
      refine List.filter_eq_nil_iff.mpr fun row hrow hsame => ?_
      obtain ⟨hgroup, hlt⟩ := of_decide_eq_true hsame
      have hbefore : Before last row := .inr ⟨hgroup.symm, hlt⟩
      obtain rfl | hlast := hpage row hrow
      · exact lt_irrefl _ hlt
      · exact hlast.not_before hbefore
    have hall : ((rows.filter fun row => cursor < row.1).take size).filter
        (fun row => cursor < row.1 ∧ row.1 ≤ last.1) = (rows.filter fun row => cursor < row.1).take size := by
      refine List.filter_eq_self.mpr fun row hrow => decide_eq_true ⟨?_, ?_⟩
      · exact of_decide_eq_true (List.mem_filter.mp (List.mem_of_mem_take hrow)).2
      · obtain rfl | hlast := hpage row hrow
        · exact le_rfl
        · exact hlast.le
    rw [hnone, hall, List.nil_append]
    refine congrArg _ (List.filter_congr fun row hrow => decide_eq_decide.mpr ?_)
    have hbefore := hleft row hrow
    constructor
    · rintro ⟨hgroup, -⟩
      exact ⟨hgroup ▸ hcursor, hgroup.le⟩
    · rintro ⟨-, hle⟩
      obtain hlt | ⟨hsame, hlt⟩ := hbefore
      · exact absurd hlt (not_lt.mpr hle)
      · exact ⟨hsame.symm, hlt⟩
  · exact (of_decide_eq_true hrow).1 ▸ hcursor

lemma nextPage_none (hsize : 0 < size) (h : nextPage rows size cursor = none) :
    (rows.filter fun row => cursor < row.1) = [] := by
  have hnil : (rows.filter fun row => cursor < row.1).take size = [] :=
    List.getLast?_eq_none_iff.mp (Option.map_eq_none_iff.mp h)
  exact (List.take_eq_nil_iff.mp hnil).resolve_left (by omega)

/-- The rows after a cursor, in two parts. -/
lemma filter_split (hsorted : rows.Pairwise Before) (h : cursor < cursor') :
    (rows.filter fun row => cursor < row.1).map Prod.snd =
      members rows cursor cursor' ++ (rows.filter fun row => cursor' < row.1).map Prod.snd := by
  rw [members, ← List.map_append]
  refine congrArg (List.map Prod.snd) ?_
  induction rows with
  | nil => rfl
  | cons row rows ih =>
    obtain ⟨hrow, hrows⟩ := List.pairwise_cons.mp hsorted
    by_cases hlow : cursor < row.1
    · by_cases hhigh : row.1 ≤ cursor'
      · simp only [List.filter_cons, hlow, hhigh, not_lt.mpr hhigh, decide_true, decide_false, and_self, if_true,
          Bool.false_eq_true, if_false, ih hrows, List.cons_append]
      -- every later row is after the second cursor too
      · have hlater : ∀ other ∈ rows, cursor' < other.1 := fun other hmem =>
          (not_le.mp hhigh).trans_le (hrow other hmem).le
        have hnone : (rows.filter fun row => cursor < row.1 ∧ row.1 ≤ cursor') = [] :=
          List.filter_eq_nil_iff.mpr fun other hmem hboth =>
            absurd (hlater other hmem) (not_lt.mpr (of_decide_eq_true hboth).2)
        have hrest := ih hrows
        rw [hnone, List.nil_append] at hrest
        simp only [List.filter_cons, hlow, hhigh, not_le.mp hhigh, decide_true, decide_false, and_false, if_true,
          Bool.false_eq_true, if_false, hrest, hnone, List.nil_append]
    · have hhigh : ¬cursor' < row.1 := fun hlt => hlow (h.trans hlt)
      simp only [List.filter_cons, hlow, hhigh, false_and, decide_false, Bool.false_eq_true, if_false, ih hrows]

/-- The pages end, and are the rows after the cursor in their order, each page some whole groups. -/
theorem pages_eq (hsorted : rows.Pairwise Before) (hsize : 0 < size)
    (hfuel : (rows.filter fun row => cursor < row.1).length < fuel) :
    ∃ found, pages rows size fuel cursor = some found ∧
      found.flatten = (rows.filter fun row => cursor < row.1).map Prod.snd ∧
      ∀ page ∈ found, page ≠ [] ∧ ∃ low high, page = members rows low high := by
  induction fuel generalizing cursor with
  | zero => omega
  | succ fuel ih =>
    unfold pages
    split
    · rename_i hnone
      exact ⟨[], rfl, by rw [nextPage_none hsize hnone]; rfl, fun page hpage => by cases hpage⟩
    · rename_i cursor' first hnext
      obtain ⟨⟨hlt, last, hlast⟩, rfl⟩ := nextPage_eq hsorted hnext
      have hmem : last ∈ members rows cursor cursor' :=
        List.mem_map.mpr ⟨_, List.mem_filter.mpr ⟨hlast, decide_eq_true ⟨hlt, le_rfl⟩⟩, rfl⟩
      have hsplit := filter_split hsorted hlt
      have hlength := congrArg List.length hsplit
      have hpos := List.length_pos_of_mem hmem
      rw [List.length_map, List.length_append, List.length_map] at hlength
      obtain ⟨found, hfound, hflatten, hpages⟩ := @ih cursor' (by omega)
      refine ⟨_, congrArg (Option.map _) hfound, ?_, ?_⟩
      · rw [List.flatten_cons, hflatten, hsplit]
      · rw [List.forall_mem_cons]
        exact ⟨⟨List.ne_nil_of_mem hmem, cursor, cursor', rfl⟩, hpages⟩

end
end Wyrebox.KeysetPaging
