import Mathlib.Data.List.Basic

set_option autoImplicit false

/-!
# Replay into cells

Cells that a log's records erase, set or fill where they are empty. A replay that stops anywhere
and starts again at an earlier record still ends in the same cells.
-/
namespace Wyrebox.ReplayCells

/-- What one record does to one cell. -/
inductive Write (V : Type) where
  | keep
  | erase
  | put (v : V)
  | fill (v : V)

section
variable {I V : Type}

def Write.act : Write V → Option V → Option V
  | .keep, c => c
  | .erase, _ => none
  | .put v, _ => some v
  | .fill v, c => some (c.getD v)

def actAll (ws : List (Write V)) (c : Option V) : Option V := ws.foldl (fun c w => w.act c) c

lemma actAll_append (ws ws' : List (Write V)) (c : Option V) :
    actAll (ws ++ ws') c = actAll ws' (actAll ws c) := List.foldl_append

lemma actAll_keep {ws : List (Write V)} (h : ∀ w ∈ ws, w = .keep) (c : Option V) : actAll ws c = c := by
  induction ws with
  | nil => rfl
  | cons w ws ih =>
    rw [List.forall_mem_cons] at h
    rw [h.1]
    exact ih h.2

/-- Writes either forget the cell or leave every row in place. -/
lemma actAll_forgets_or_keeps (ws : List (Write V)) :
    (∀ c d, actAll ws c = actAll ws d) ∨ ∀ v, actAll ws (some v) = some v := by
  induction ws with
  | nil => exact .inr fun _ => rfl
  | cons w ws ih =>
    have hforget : (∀ c d, w.act c = w.act d) → ∀ c d, actAll (w :: ws) c = actAll (w :: ws) d :=
      fun hw c d => congrArg (actAll ws) (hw c d)
    rcases ih with hforgets | hkeeps
    · exact .inl fun c d => hforgets (w.act c) (w.act d)
    · cases w with
      | keep => exact .inr hkeeps
      | erase => exact .inl (hforget fun _ _ => rfl)
      | put v => exact .inl (hforget fun _ _ => rfl)
      | fill v => exact .inr hkeeps

/-- Doing the last write once more at the beginning changes nothing or does everything. -/
lemma actAll_last_first (ws : List (Write V)) (w : Write V) (c : Option V) :
    actAll (ws ++ [w]) (w.act c) = actAll (ws ++ [w]) c ∨ actAll (ws ++ [w]) (w.act c) = w.act c := by
  cases w with
  | keep => exact .inl rfl
  | erase => exact .inr (actAll_append ..)
  | put v => exact .inr (actAll_append ..)
  | fill v =>
    rcases actAll_forgets_or_keeps (ws ++ [.fill v]) with hforgets | hkeeps
    · exact .inl (hforgets _ _)
    · exact .inr (hkeeps _)

/-- Writes that end a log do nothing more when they are done again. -/
lemma actAll_suffix (ws ws' : List (Write V)) (c : Option V) :
    actAll ws' (actAll (ws ++ ws') c) = actAll (ws ++ ws') c := by
  rw [actAll_append]
  rcases actAll_forgets_or_keeps ws' with hforgets | hkeeps
  · exact hforgets _ _
  · cases hend : actAll ws' (actAll ws c) with
    | none =>
      have hstart : actAll ws c = none := by
        cases hc : actAll ws c with
        | none => rfl
        | some v =>
          rw [hc, hkeeps] at hend
          exact hend
      rw [← hstart]
      exact hend.trans hstart.symm
    | some v => exact hkeeps v

/-! ## Whole states -/

abbrev Effect (I V : Type) : Type := I → Write V

def Effect.apply (e : Effect I V) (s : I → Option V) : I → Option V := fun i => (e i).act (s i)

def replay (es : List (Effect I V)) (s : I → Option V) : I → Option V := fun i => actAll (es.map (· i)) (s i)

lemma replay_append (es es' : List (Effect I V)) (s : I → Option V) :
    replay (es ++ es') s = replay es' (replay es s) := by
  funext i
  rw [replay, List.map_append, actAll_append]
  rfl

lemma replay_suffix (es es' : List (Effect I V)) (s : I → Option V) :
    replay es' (replay (es ++ es') s) = replay (es ++ es') s := by
  funext i
  simp only [replay, List.map_append]
  exact actAll_suffix ..

/-- A replay stands before record `i`: from there or any earlier record it reaches `final`. -/
def Resumable (es : List (Effect I V)) (i : ℕ) (s final : I → Option V) : Prop :=
  ∀ j ≤ i, replay (es.drop j) s = final

variable {es : List (Effect I V)} {i j : ℕ} {s final final' : I → Option V} {e : Effect I V}

lemma Resumable.restart (h : Resumable es i s final) (hj : j ≤ i) : Resumable es j s final :=
  fun k hk => h k (Nat.le_trans hk hj)

lemma Resumable.finished (h : Resumable es i s final) (hi : es.length ≤ i) : s = final := by
  have hlast := h es.length hi
  rwa [List.drop_length] at hlast

lemma resumable_nil (s : I → Option V) : Resumable [] 0 s s := fun _ _ => by
  rw [List.drop_nil]
  rfl

theorem Resumable.next (h : Resumable es i s final) (he : es[i]? = some e) :
    Resumable es (i + 1) (e.apply s) final := by
  obtain ⟨hlt, rfl⟩ := List.getElem?_eq_some_iff.mp he
  have hhere : replay (es.drop (i + 1)) (es[i].apply s) = final := by
    have hi := h i (Nat.le_refl i)
    rwa [List.drop_eq_getElem_cons hlt] at hi
  intro j hj
  rcases Nat.lt_or_eq_of_le hj with hbefore | rfl
  · have hj' : j ≤ i := Nat.le_of_lt_succ hbefore
    have hsplit : es.drop j = ((es.drop j).take (i - j) ++ [es[i]]) ++ es.drop (i + 1) := by
      have hrest : (es.drop j).drop (i - j) = es[i] :: es.drop (i + 1) := by
        rw [List.drop_drop, Nat.add_sub_cancel' hj', List.drop_eq_getElem_cons hlt]
      rw [List.append_assoc, List.singleton_append, ← hrest, List.take_append_drop]
    have hstart := h j hj'
    rw [hsplit, replay_append] at hstart ⊢
    funext c
    have hc : (replay ((es.drop j).take (i - j) ++ [es[i]]) (es[i].apply s)) c =
        (replay ((es.drop j).take (i - j) ++ [es[i]]) s) c ∨
        (replay ((es.drop j).take (i - j) ++ [es[i]]) (es[i].apply s)) c = es[i].apply s c := by
      have hcell := actAll_last_first (((es.drop j).take (i - j)).map (· c)) (es[i] c) (s c)
      simpa only [replay, Effect.apply, List.map_append, List.map_cons, List.map_nil] using hcell
    rcases hc with hforgotten | hkept
    · rw [← hstart, replay, hforgotten]
      rfl
    · rw [← hhere, replay, hkept]
      rfl
  · exact hhere

/-- The first record past the end. A cell it writes otherwise than a repetition would is a cell
    that no record so far and no repetition writes. -/
theorem Resumable.first (h : Resumable es es.length final final)
    (hfirst : ∀ c, final' c = e.apply final c ∨ ((∀ e' ∈ es, e' c = .keep) ∧ e c = .keep)) :
    Resumable (es ++ [e]) (es.length + 1) final' final' := by
  intro j hj
  funext c
  rcases hfirst c with hsame | ⟨hkeep, hkeep'⟩
  · rcases Nat.lt_or_eq_of_le hj with hbefore | rfl
    · have hj' : j ≤ es.length := Nat.le_of_lt_succ hbefore
      have hdone : actAll ((es.drop j).map (· c)) (final c) = final c := congrFun (h j hj') c
      have hcell := actAll_last_first ((es.drop j).map (· c)) (e c) (final c)
      rw [actAll_append _ _ (final c), hdone] at hcell
      rw [List.drop_append_of_le_length hj', replay, hsame, List.map_append]
      exact hcell.elim id id
    · rw [List.drop_of_length_le (by simp)]
      rfl
  · apply actAll_keep
    intro w hw
    obtain ⟨e', he', rfl⟩ := List.mem_map.mp hw
    rcases List.mem_append.mp (List.mem_of_mem_drop he') with hold | hnew
    · exact hkeep e' hold
    · rw [List.mem_singleton.mp hnew]
      exact hkeep'

end
end Wyrebox.ReplayCells
