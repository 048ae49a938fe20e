import Mathlib.Data.List.Basic

set_option autoImplicit false

/-!
# Replay of a switch

A switch remembers when it was last turned on and, while it is off, when it was turned off. Turning
it the way it already is changes nothing. A log of turns that is replayed on its own result mostly
reproduces it.
-/
namespace Wyrebox.SwitchReplay

section
variable {T : Type}

/-- When a switch was turned on and then, if it is off, off again. `none` was never on. -/
abbrev Switch (T : Type) : Type := Option (T × Option T)

def turn (s : Switch T) (event : Bool × T) : Switch T :=
  match event, s with
  | (true, _), some (since, none) => some (since, none)
  | (true, time), _ => some (time, none)
  | (false, time), some (since, none) => some (since, some time)
  | (false, _), s => s

def replay (log : List (Bool × T)) (s : Switch T) : Switch T := log.foldl turn s

/-- The switch is on. -/
def IsOn (s : Switch T) : Prop := ∃ since, s = some (since, none)

lemma replay_append (log log' : List (Bool × T)) (s : Switch T) :
    replay (log ++ log') s = replay log' (replay log s) := List.foldl_append

lemma turn_on_eq_of_not (s : Switch T) (hs : ¬IsOn s) (time : T) :
    turn s (true, time) = some (time, none) := by
  rcases s with _ | ⟨since, _ | off⟩
  · rfl
  · exact absurd ⟨since, rfl⟩ hs
  · rfl

lemma isOn_turn_on (s : Switch T) (time : T) : IsOn (turn s (true, time)) := by
  rcases s with _ | ⟨since, _ | off⟩
  · exact ⟨time, rfl⟩
  · exact ⟨since, rfl⟩
  · exact ⟨time, rfl⟩

lemma not_isOn_turn_off (s : Switch T) (time : T) : ¬IsOn (turn s (false, time)) := by
  rcases s with _ | ⟨since, _ | off⟩ <;> simp [IsOn, turn]

lemma turn_off_of_not (s : Switch T) (hs : ¬IsOn s) (time : T) : turn s (false, time) = s := by
  rcases s with _ | ⟨since, _ | off⟩
  · rfl
  · exact absurd ⟨since, rfl⟩ hs
  · rfl

/-- Turns on leave a switch that is on alone. -/
lemma replay_ons {log : List (Bool × T)} (hlog : ∀ event ∈ log, event.1 = true) (since : T) :
    replay log (some (since, none)) = some (since, none) := by
  induction log with
  | nil => rfl
  | cons event log ih =>
    rw [List.forall_mem_cons] at hlog
    obtain ⟨on, time⟩ := event
    cases hlog.1
    exact ih hlog.2

/-- Turns off leave a switch that is not on alone. -/
lemma replay_offs {log : List (Bool × T)} (hlog : ∀ event ∈ log, event.1 = false) (s : Switch T)
    (hs : ¬IsOn s) : replay log s = s := by
  induction log with
  | nil => rfl
  | cons event log ih =>
    rw [List.forall_mem_cons] at hlog
    obtain ⟨on, time⟩ := event
    cases hlog.1
    change replay log (turn s (false, time)) = s
    rw [turn_off_of_not s hs]
    exact ih hlog.2

/-- A log turns the switch off and right afterwards on, or all its turns on precede those off. -/
lemma off_on_or_split (log : List (Bool × T)) :
    (∃ before off on after, log = before ++ (false, off) :: (true, on) :: after) ∨
      ∃ ons offs, log = ons ++ offs ∧ (∀ event ∈ ons, event.1 = true) ∧ ∀ event ∈ offs, event.1 = false := by
  induction log with
  | nil => exact .inr ⟨[], [], rfl, by simp, by simp⟩
  | cons event log ih =>
    rcases ih with ⟨before, off, on, after, rfl⟩ | ⟨ons, offs, rfl, hons, hoffs⟩
    · exact .inl ⟨event :: before, off, on, after, rfl⟩
    obtain ⟨kind, time⟩ := event
    cases kind with
    | true =>
      exact .inr ⟨(true, time) :: ons, offs, rfl, List.forall_mem_cons.mpr ⟨rfl, hons⟩, hoffs⟩
    | false =>
      cases ons with
      | nil => exact .inr ⟨[], (false, time) :: offs, rfl, hons, List.forall_mem_cons.mpr ⟨rfl, hoffs⟩⟩
      | cons first ons =>
        obtain ⟨kind, on⟩ := first
        have hkind := (List.forall_mem_cons.mp hons).1
        cases hkind
        exact .inl ⟨[], time, on, ons ++ offs, rfl⟩

/-- A log that turns the switch off and then on forgets how the switch was. -/
lemma replay_forgets (before after : List (Bool × T)) (off on : T) (s s' : Switch T) :
    replay (before ++ (false, off) :: (true, on) :: after) s =
      replay (before ++ (false, off) :: (true, on) :: after) s' := by
  have hpassed : ∀ s : Switch T, replay (before ++ (false, off) :: (true, on) :: after) s =
      replay after (some (on, none)) := by
    intro s
    rw [replay_append]
    change replay after (turn (turn (replay before s) (false, off)) (true, on)) = _
    rw [turn_on_eq_of_not _ (not_isOn_turn_off _ off)]
  rw [hpassed s, hpassed s']

/-- A log of turns on and then turns off, at least one of each. -/
structure OnsThenOffs (log : List (Bool × T)) (on off : T) (ons offs : List (Bool × T)) : Prop where
  log_eq : log = (true, on) :: ons ++ (false, off) :: offs
  ons_on : ∀ event ∈ ons, event.1 = true
  offs_off : ∀ event ∈ offs, event.1 = false

lemma OnsThenOffs.replay_on {log ons offs : List (Bool × T)} {on off : T}
    (h : OnsThenOffs log on off ons offs) (since : T) :
    replay log (some (since, none)) = some (since, some off) := by
  rw [h.log_eq, replay_append]
  change replay offs (turn (replay ons (some (since, none))) (false, off)) = _
  rw [replay_ons h.ons_on]
  exact replay_offs h.offs_off _ (not_isOn_turn_off (some (since, none)) off)

lemma OnsThenOffs.replay_off {log ons offs : List (Bool × T)} {on off : T}
    (h : OnsThenOffs log on off ons offs) (s : Switch T) (hs : ¬IsOn s) :
    replay log s = some (on, some off) := by
  rw [h.log_eq, replay_append]
  change replay offs (turn (replay ons (turn s (true, on))) (false, off)) = _
  rw [turn_on_eq_of_not s hs, replay_ons h.ons_on]
  exact replay_offs h.offs_off _ (not_isOn_turn_off (some (on, none)) off)

lemma OnsThenOffs.of_kinds {log : List (Bool × T)} {ons offs : ℕ}
    (h : log.map Prod.fst = List.replicate (ons + 1) true ++ List.replicate (offs + 1) false) :
    ∃ on off ons offs, OnsThenOffs log on off ons offs := by
  obtain ⟨left, right, rfl, hleft, hright⟩ := List.map_eq_append_iff.mp h
  have hkinds : ∀ {events : List (Bool × T)} {n : ℕ} {kind : Bool},
      events.map Prod.fst = List.replicate n kind → ∀ event ∈ events, event.1 = kind := by
    intro events n kind hevents event hmem
    exact List.eq_of_mem_replicate (hevents ▸ List.mem_map_of_mem hmem)
  rcases left with _ | ⟨⟨kind, on⟩, left⟩
  · simp at hleft
  rcases right with _ | ⟨⟨kind', off⟩, right⟩
  · simp at hright
  have hleft := List.forall_mem_cons.mp (hkinds hleft)
  have hright := List.forall_mem_cons.mp (hkinds hright)
  cases hleft.1
  cases hright.1
  exact ⟨on, off, left, right, rfl, hleft.2, hright.2⟩

lemma OnsThenOffs.kinds {log ons offs : List (Bool × T)} {on off : T} (h : OnsThenOffs log on off ons offs) :
    log.map Prod.fst = List.replicate (ons.length + 1) true ++ List.replicate (offs.length + 1) false := by
  have hkinds : ∀ {events : List (Bool × T)} {kind : Bool}, (∀ event ∈ events, event.1 = kind) →
      events.map Prod.fst = List.replicate events.length kind :=
    fun hevents => List.eq_replicate_iff.mpr ⟨List.length_map .., by simpa using hevents⟩
  rw [h.log_eq, List.map_append, List.map_cons, List.map_cons, hkinds h.ons_on, hkinds h.offs_off]
  rfl

/-- Replayed on its own result, a log reproduces it, unless it found the switch on and consists of
    turns on followed by turns off. -/
theorem replay_replay (log : List (Bool × T)) (s : Switch T) :
    replay log (replay log s) = replay log s ∨
      (IsOn s ∧ ∃ on off ons offs, OnsThenOffs log on off ons offs) := by
  rcases off_on_or_split log with ⟨before, off, on, after, rfl⟩ | ⟨ons, offs, rfl, hons, hoffs⟩
  · exact .inl (replay_forgets before after off on _ _)
  cases offs with
  | nil =>
    left
    rw [List.append_nil]
    cases ons with
    | nil => rfl
    | cons event ons =>
      rw [List.forall_mem_cons] at hons
      obtain ⟨kind, time⟩ := event
      cases hons.1
      obtain ⟨since, hsince⟩ := isOn_turn_on s time
      have hon : replay ((true, time) :: ons) s = some (since, none) := by
        change replay ons (turn s (true, time)) = _
        rw [hsince, replay_ons hons.2]
      rw [hon]
      exact replay_ons (List.forall_mem_cons.mpr ⟨rfl, hons.2⟩) since
  | cons event offs =>
    obtain ⟨kind, off⟩ := event
    have hoff := (List.forall_mem_cons.mp hoffs).1
    cases hoff
    cases ons with
    | nil =>
      left
      rw [List.nil_append]
      apply replay_offs hoffs
      change ¬IsOn (replay offs (turn s (false, off)))
      rw [replay_offs (List.forall_mem_cons.mp hoffs).2 _ (not_isOn_turn_off s off)]
      exact not_isOn_turn_off s off
    | cons event ons =>
      obtain ⟨kind, on⟩ := event
      have hon := (List.forall_mem_cons.mp hons).1
      cases hon
      have hlog : OnsThenOffs ((true, on) :: ons ++ (false, off) :: offs) on off ons offs :=
        ⟨rfl, (List.forall_mem_cons.mp hons).2, (List.forall_mem_cons.mp hoffs).2⟩
      by_cases hs : IsOn s
      · exact .inr ⟨hs, on, off, ons, offs, hlog⟩
      · left
        rw [hlog.replay_off s hs, hlog.replay_off]
        simp [IsOn]

/-- A switch that starts unused is on exactly after a log that ends with a turn on, and since one of
    its turns. -/
theorem isOn_replay (log : List (Bool × T)) :
    IsOn (replay log none) ↔ log.getLast?.map Prod.fst = some true := by
  rcases List.eq_nil_or_concat log with rfl | ⟨log, event, rfl⟩
  · simp [replay, IsOn]
  rw [List.concat_eq_append, replay_append, List.getLast?_concat]
  obtain ⟨kind, time⟩ := event
  cases kind with
  | true => exact iff_of_true (isOn_turn_on (replay log none) time) rfl
  | false => exact iff_of_false (not_isOn_turn_off (replay log none) time) (by simp)

lemma turn_since (s : Switch T) (event : Bool × T) {since : T} {off : Option T}
    (h : turn s event = some (since, off)) : event = (true, since) ∨ ∃ off', s = some (since, off') := by
  obtain ⟨kind, time⟩ := event
  by_cases hs : IsOn s
  · obtain ⟨since', rfl⟩ := hs
    right
    cases kind with
    | true =>
      simp only [turn, Option.some.injEq, Prod.mk.injEq] at h
      exact ⟨none, by rw [h.1]⟩
    | false =>
      simp only [turn, Option.some.injEq, Prod.mk.injEq] at h
      exact ⟨none, by rw [h.1]⟩
  · cases kind with
    | true =>
      rw [turn_on_eq_of_not s hs] at h
      simp only [Option.some.injEq, Prod.mk.injEq] at h
      exact .inl (by rw [h.1])
    | false =>
      rw [turn_off_of_not s hs] at h
      exact .inr ⟨off, h⟩

lemma since_mem (log : List (Bool × T)) (s : Switch T) {since : T} {off : Option T}
    (h : replay log s = some (since, off)) : (true, since) ∈ log ∨ ∃ off', s = some (since, off') := by
  induction log generalizing s with
  | nil => exact .inr ⟨off, h⟩
  | cons event log ih =>
    rcases ih (turn s event) h with hmem | ⟨off', hturn⟩
    · exact .inl (List.mem_cons_of_mem _ hmem)
    · rcases turn_since s event hturn with rfl | hs
      · exact .inl List.mem_cons_self
      · exact .inr hs

end
end Wyrebox.SwitchReplay
