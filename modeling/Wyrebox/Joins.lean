import Mathlib.Data.List.Dedup
import Mathlib.Data.List.Sort
import Mathlib.Data.List.Perm.Basic

set_option autoImplicit false

/-!
# Joins and orders of row lists

The rows of a table are a list whose order means nothing. A join whose condition compares a column
of both sides never leaves the rows with one value of it.
-/
namespace Wyrebox.Joins

section
variable {α β : Type}

/-- `rows JOIN others ON on`. -/
def join (on : α → β → Bool) (rows : List α) (others : List β) : List (α × β) :=
  rows.flatMap fun a => (others.filter (on a)).map fun b => (a, b)

/-- The rows of a `LEFT JOIN` for one row. -/
def leftRows (on : α → β → Bool) (others : List β) (a : α) : List (α × Option β) :=
  match others.filter (on a) with
  | [] => [(a, none)]
  | b :: found => (b :: found).map fun b => (a, some b)

/-- `rows LEFT JOIN others ON on`. -/
def leftJoin (on : α → β → Bool) (rows : List α) (others : List β) : List (α × Option β) :=
  rows.flatMap (leftRows on others)

variable {on : α → β → Bool} {rows rows' : List α} {others others' : List β}

lemma mem_join {p : α × β} : p ∈ join on rows others ↔ p.1 ∈ rows ∧ p.2 ∈ others ∧ on p.1 p.2 = true := by
  obtain ⟨a, b⟩ := p
  simp only [join, List.mem_flatMap, List.mem_map, List.mem_filter, Prod.mk.injEq]
  constructor
  · rintro ⟨a', ha', b', ⟨hb', hon⟩, rfl, rfl⟩
    exact ⟨ha', hb', hon⟩
  · rintro ⟨ha, hb, hon⟩
    exact ⟨a, ha, b, ⟨hb, hon⟩, rfl, rfl⟩

lemma join_perm (hrows : rows.Perm rows') (hothers : others.Perm others') :
    (join on rows others).Perm (join on rows' others') :=
  hrows.flatMap fun a _ => (hothers.filter (on a)).map _

lemma join_nodup (hrows : rows.Nodup) (hothers : others.Nodup) : (join on rows others).Nodup := by
  refine List.nodup_flatMap.mpr ⟨fun a _ => ?_, hrows.imp fun hne => ?_⟩
  · exact (hothers.filter _).map fun _ _ heq => (Prod.mk.inj heq).2
  · intro p hp hp'
    obtain ⟨b, -, rfl⟩ := List.mem_map.mp hp
    obtain ⟨b', -, heq⟩ := List.mem_map.mp hp'
    exact hne (Prod.mk.inj heq).1.symm

/-- The only row of a list. -/
lemma eq_singleton_of_unique {rows : List α} {a : α} (hnodup : rows.Nodup) (ha : a ∈ rows) (hone : ∀ b ∈ rows, b = a) :
    rows = [a] := by
  refine List.perm_singleton.mp ((List.perm_ext_iff_of_nodup hnodup (List.nodup_singleton a)).mpr fun b => ?_)
  rw [List.mem_singleton]
  exact ⟨hone b, fun hb => hb ▸ ha⟩

/-! ## Restricting a side -/

lemma flatMap_filter_fst {γ : Type} (P : α → Bool) (f : α → List (α × γ)) (hf : ∀ a, ∀ p ∈ f a, p.1 = a) :
    (rows.flatMap f).filter (fun p => P p.1) = (rows.filter P).flatMap f := by
  induction rows with
  | nil => rfl
  | cons a rows ih =>
    rw [List.flatMap_cons, List.filter_append, ih, List.filter_cons]
    have hsame : (f a).filter (fun p => P p.1) = (f a).filter fun _ => P a :=
      List.filter_congr fun p hp => by rw [hf a p hp]
    rw [hsame]
    cases P a <;> simp

lemma join_filter_left (P : α → Bool) :
    (join on rows others).filter (fun p => P p.1) = join on (rows.filter P) others := by
  refine flatMap_filter_fst P _ fun a p hp => ?_
  obtain ⟨b, -, rfl⟩ := List.mem_map.mp hp
  rfl

/-- Rows that no row matches can be dropped from the other side. -/
lemma join_filter_right {Q : β → Bool} (h : ∀ a ∈ rows, ∀ b ∈ others, on a b = true → Q b = true) :
    join on rows (others.filter Q) = join on rows others := by
  refine List.flatMap_congr fun a ha => ?_
  rw [List.filter_filter]
  refine congrArg _ (List.filter_congr fun b hb => ?_)
  cases hon : on a b
  · rfl
  · rw [Bool.true_and]
    exact h a ha b hb hon

/-- A condition on the left side that every match hands on to the right side. -/
lemma join_scoped {P : α → Bool} {Q : β → Bool} (hon : ∀ a b, P a = true → on a b = true → Q b = true) :
    join on (rows.filter P) (others.filter Q) = (join on rows others).filter fun p => P p.1 := by
  rw [join_filter_left]
  exact join_filter_right fun a ha b _ => hon a b (List.mem_filter.mp ha).2

lemma filter_filter_of_imp {P condition : α → Bool} (h : ∀ a, condition a = true → P a = true) :
    (rows.filter P).filter condition = rows.filter condition := by
  rw [List.filter_filter]
  refine List.filter_congr fun a _ => ?_
  cases ha : condition a
  · rfl
  · rw [Bool.true_and]
    exact h a ha

/-! ## Left joins -/

lemma mem_leftRows {a : α} {p : α × Option β} (hp : p ∈ leftRows on others a) :
    p.1 = a ∧ ∀ b, p.2 = some b → b ∈ others ∧ on a b = true := by
  unfold leftRows at hp
  split at hp
  · obtain rfl := List.mem_singleton.mp hp
    exact ⟨rfl, fun b hb => by simp at hb⟩
  · rename_i first found hfound
    obtain ⟨b, hb, rfl⟩ := List.mem_map.mp hp
    rw [← hfound] at hb
    exact ⟨rfl, fun b' hb' => Option.some.inj hb' ▸ List.mem_filter.mp hb⟩

lemma leftRows_perm (a : α) (h : others.Perm others') : (leftRows on others a).Perm (leftRows on others' a) := by
  have hfound := h.filter (on a)
  unfold leftRows
  cases hleft : others.filter (on a) with
  | nil =>
    rw [hleft] at hfound
    rw [List.nil_perm.mp hfound]
  | cons b found =>
    cases hright : others'.filter (on a) with
    | nil =>
      rw [hleft, hright, List.perm_nil] at hfound
      simp at hfound
    | cons b' found' =>
      rw [hleft, hright] at hfound
      exact hfound.map _

lemma leftJoin_perm (hrows : rows.Perm rows') (hothers : others.Perm others') :
    (leftJoin on rows others).Perm (leftJoin on rows' others') :=
  hrows.flatMap fun a _ => leftRows_perm a hothers

lemma leftJoin_filter_left (P : α → Bool) :
    (leftJoin on rows others).filter (fun p => P p.1) = leftJoin on (rows.filter P) others :=
  flatMap_filter_fst P _ fun _ _ hp => (mem_leftRows hp).1

/-- The key of the other side allows a single match. -/
lemma filter_eq_find {κ : Type} [DecidableEq κ] {key : β → κ} (hkey : (others.map key).Nodup) {a : α} {k : κ}
    (hon : ∀ b, on a b = decide (key b = k)) : others.filter (on a) = (others.find? (on a)).toList := by
  have hone : ∀ b ∈ others, on a b = true → ∀ b' ∈ others, on a b' = true → b' = b := by
    intro b hb hmatch b' hb' hmatch'
    rw [hon, decide_eq_true_eq] at hmatch hmatch'
    exact List.inj_on_of_nodup_map hkey hb' hb (hmatch'.trans hmatch.symm)
  cases hfound : others.find? (on a) with
  | none =>
    refine List.filter_eq_nil_iff.mpr fun b hb => ?_
    exact List.find?_eq_none.mp hfound b hb
  | some b =>
    have hb := List.mem_of_find?_eq_some hfound
    have hmatch := List.find?_some hfound
    refine eq_singleton_of_unique ((hkey.of_map key).filter _) (List.mem_filter.mpr ⟨hb, hmatch⟩) fun b' hb' => ?_
    exact hone b hb hmatch b' (List.mem_filter.mp hb').1 (List.mem_filter.mp hb').2

/-- A row without a match, or with the single one. -/
lemma leftRows_eq {κ : Type} [DecidableEq κ] {key : β → κ} (hkey : (others.map key).Nodup) {a : α} {k : κ}
    (hon : ∀ b, on a b = decide (key b = k)) : leftRows on others a = [(a, others.find? (on a))] := by
  unfold leftRows
  rw [filter_eq_find hkey hon]
  cases others.find? (on a) <;> rfl

/-- Joined rows are counted by the rows of one side. -/
lemma countP_join {κ : Type} [DecidableEq κ] {key : β → κ} (hkey : (others.map key).Nodup) {f : α → κ}
    (hon : ∀ a b, on a b = decide (key b = f a)) (P : α → Bool) (Q : β → Bool) :
    (join on rows others).countP (fun p => P p.1 && Q p.2) =
      rows.countP fun a => P a && others.any fun b => on a b && Q b := by
  induction rows with
  | nil => rfl
  | cons a rows ih =>
    have hsplit : join on (a :: rows) others = ((others.filter (on a)).map fun b => (a, b)) ++ join on rows others := rfl
    have hany : (others.any fun b => on a b && Q b) = (others.find? (on a)).any Q := by
      rw [← List.any_filter, filter_eq_find hkey (hon a)]
      cases others.find? (on a) <;> simp
    rw [hsplit, List.countP_append, ih, List.countP_cons, hany, filter_eq_find hkey (hon a), Nat.add_comm]
    refine congrArg _ ?_
    cases others.find? (on a) with
    | none => simp
    | some b => simp [List.countP_cons]

/-- A join on a key of the other side keeps at most one row for each row. -/
lemma leftJoin_eq_map {κ : Type} [DecidableEq κ] {key : β → κ} (hkey : (others.map key).Nodup) {f : α → κ}
    (hon : ∀ a b, on a b = decide (key b = f a)) :
    leftJoin on rows others = rows.map fun a => (a, others.find? (on a)) := by
  rw [List.map_eq_flatMap]
  exact List.flatMap_congr fun a _ => leftRows_eq hkey (hon a)

end

/-! ## Groups -/

section
variable {α κ : Type} [DecidableEq κ]

/-- `SELECT key, SUM(CASE WHEN counted ...) FROM rows GROUP BY key`. -/
def groupCount (key : α → κ) (counted : α → Bool) (rows : List α) : List (κ × ℕ) :=
  (rows.map key).dedup.map fun k => (k, (rows.filter fun row => key row = k).countP counted)

/-- `COALESCE` of a count that a `LEFT JOIN` may not have found. -/
def coalesce (group : Option (κ × ℕ)) : ℕ := group.elim 0 Prod.snd

variable {key : α → κ} {counted : α → Bool} {rows : List α}

lemma groupCount_nodup : ((groupCount key counted rows).map Prod.fst).Nodup := by
  rw [groupCount, List.map_map]
  exact (List.nodup_dedup _).map Function.injective_id

/-- A group that no row is in counts nothing. -/
lemma coalesce_groupCount (k : κ) : coalesce ((groupCount key counted rows).find? fun group => group.1 = k) =
    rows.countP fun row => key row = k ∧ counted row := by
  have hcount : (rows.filter fun row => key row = k).countP counted = rows.countP fun row => key row = k ∧ counted row := by
    rw [List.countP_filter]
    exact List.countP_congr fun row _ => by simp [and_comm]
  rw [groupCount, List.find?_map]
  cases hfound : (rows.map key).dedup.find? ((fun group : κ × ℕ => decide (group.1 = k)) ∘
      fun k => (k, (rows.filter fun row => key row = k).countP counted)) with
  | some k' =>
    have hkey := List.find?_some hfound
    obtain rfl : k' = k := of_decide_eq_true hkey
    exact hcount
  | none =>
    have hnone := List.find?_eq_none.mp hfound
    refine (List.countP_eq_zero.mpr fun row hrow hcounted => ?_).symm
    have hkey : key row = k := (of_decide_eq_true hcounted).1
    refine hnone k (List.mem_dedup.mpr (hkey ▸ List.mem_map_of_mem hrow)) ?_
    exact decide_eq_true rfl

end

/-! ## Orders -/

section
variable {α κ : Type} [LinearOrder κ] {rows rows' : List α}

/-- `ORDER BY key`. -/
def orderBy (key : α → κ) (rows : List α) : List α := rows.insertionSort fun a b => key a ≤ key b

lemma orderBy_perm (key : α → κ) (rows : List α) : (orderBy key rows).Perm rows := List.perm_insertionSort _ _

lemma mem_orderBy {key : α → κ} {a : α} : a ∈ orderBy key rows ↔ a ∈ rows := List.mem_insertionSort _

lemma orderBy_pairwise (key : α → κ) (rows : List α) : (orderBy key rows).Pairwise fun a b => key a ≤ key b := by
  have htotal : Std.Total fun a b : α => key a ≤ key b := ⟨fun a b => le_total (key a) (key b)⟩
  have htrans : IsTrans α fun a b => key a ≤ key b := ⟨fun _ _ _ => le_trans⟩
  exact List.pairwise_insertionSort _ _

/-- Rows with different keys come in one order, however they are stored. -/
lemma orderBy_congr {key : α → κ} (hperm : rows.Perm rows') (hkey : ∀ a ∈ rows, ∀ b ∈ rows, key a = key b → a = b) :
    orderBy key rows = orderBy key rows' := by
  refine List.Perm.eq_of_pairwise (fun a b ha hb hab hba => ?_) (orderBy_pairwise key rows) (orderBy_pairwise key rows')
    ((orderBy_perm key rows).trans (hperm.trans (orderBy_perm key rows').symm))
  exact hkey a (mem_orderBy.mp ha) b (hperm.mem_iff.mpr (mem_orderBy.mp hb)) (le_antisymm hab hba)

end
end Wyrebox.Joins
