import Wyrebox.Materializer
import Wyrebox.SwitchReplay

set_option autoImplicit false

/-!
# Replay of fact mutations

Fact mutations are applied in journal order and a suffix of them is applied again. Each fact is a
switch that is turned on by inserts and off by retractions.
-/
namespace Wyrebox.FactReplay
open Event JournalWriter Catalog Materializer SwitchReplay Fallible

/-- `wyrebox_delivery_materializer_apply_fact_mutation` as a transaction on the catalog. -/
def applyMutation (cat : Catalog) (record : FactMutation × Position) : Except InvalidData Catalog :=
  (applyFactMutation (cat.session record.1.scopeId) record.1 record.2).map
    (cat.withSession record.1.scopeId)

def applyMutations (cat : Catalog) (log : List (FactMutation × Position)) : Except InvalidData Catalog :=
  log.foldlM applyMutation cat

/-- `build_fact_id` with the source that fact mutations have. -/
def factId (mutation : FactMutation) : FactId :=
  ⟨mutation.predicateId, .literal "fact-mutation:" ++ mutation.scopeId, mutation.arguments⟩

/-- What is done to one fact, in order. -/
def turnsOf (log : List (FactMutation × Position)) (id : FactId) : List (Bool × Position) :=
  (log.filter fun record => factId record.1 = id).map fun record => (decide (record.1.kind = .insert), record.2)

/-- The row of a fact that a mutation names, from its switch. -/
def rowOf (cat : Catalog) (mutation : FactMutation) (switch : Position × Option Position) : Fact where
  accountId := mutation.scopeId
  messageId := mutation.arguments.head?.getD .empty
  objectId := messageObject (cat.session mutation.scopeId) (mutation.arguments.head?.getD .empty)
  confidencePpm := 1000000
  createdAtUnixUs := switch.1.sequence
  retractedAtUnixUs := (switch.2.map Position.sequence).getD 0
  position := switch.2.getD switch.1

lemma factId_scope {mutation mutation' : FactMutation} (h : factId mutation = factId mutation') :
    mutation.scopeId = mutation'.scopeId ∧ mutation.arguments = mutation'.arguments := by
  simp only [factId, FactId.mk.injEq] at h
  exact ⟨CString.append_right_injective _ h.2.1, h.2.2⟩

lemma rowOf_congr (cat : Catalog) {mutation mutation' : FactMutation}
    (h : factId mutation = factId mutation') : rowOf cat mutation = rowOf cat mutation' := by
  obtain ⟨hscope, harguments⟩ := factId_scope h
  funext switch
  simp only [rowOf, hscope, harguments]

section
variable {cat cat' : Catalog} {mutation : FactMutation} {position : Position}

/-- The row of the mutation's fact afterwards. -/
def mutatedRow (cat : Catalog) (mutation : FactMutation) (position : Position) (switch : Switch Position) :
    Option Fact :=
  (turn switch (mutation.kind = .insert, position)).map (rowOf cat mutation)

lemma session_of_same {row : Option Fact} (h : row = cat.facts (factId mutation)) :
    { cat.session mutation.scopeId with facts := Function.update cat.facts (factId mutation) row } =
      cat.session mutation.scopeId := by
  rw [h, Function.update_eq_self]
  rfl

lemma insertFact_eq {switch : Switch Position} (hkind : mutation.kind = .insert)
    (hrow : cat.facts (factId mutation) = switch.map (rowOf cat mutation))
    (hstamp : ∀ since off, switch = some (since, some off) → off.sequence ≠ 0) :
    insertFact (cat.session mutation.scopeId) (factId mutation) mutation position =
      { cat.session mutation.scopeId with
        facts := Function.update cat.facts (factId mutation) (mutatedRow cat mutation position switch) } := by
  have hfacts : (cat.session mutation.scopeId).facts = cat.facts := rfl
  rcases switch with _ | ⟨since, _ | off⟩
  · rw [Option.map_none] at hrow
    simp only [insertFact, insertFactRow, hfacts, hrow, setFact, mutatedRow, hkind, decide_true, turn,
      Option.map_some]
    rfl
  · rw [session_of_same (by rw [hrow]; simp [mutatedRow, hkind, turn])]
    rw [Option.map_some] at hrow
    simp only [insertFact, insertFactRow, hfacts, hrow, rowOf, Option.map_none, Option.getD_none, ne_eq,
      not_true_eq_false, if_false]
  · rw [Option.map_some] at hrow
    have hoff := hstamp since off rfl
    simp only [insertFact, insertFactRow, hfacts, hrow, mutatedRow, hkind, decide_true, turn, Option.map_some,
      rowOf, Option.getD_some, ne_eq, hoff, not_false_eq_true, if_true, setFact, Function.update_self]
    rfl

lemma retractFact_eq {switch : Switch Position} (hkind : mutation.kind = .retract)
    (hrow : cat.facts (factId mutation) = switch.map (rowOf cat mutation))
    (hstamp : ∀ since off, switch = some (since, some off) → off.sequence ≠ 0) :
    retractFact (cat.session mutation.scopeId) (factId mutation) position =
      { cat.session mutation.scopeId with
        facts := Function.update cat.facts (factId mutation) (mutatedRow cat mutation position switch) } := by
  have hfacts : (cat.session mutation.scopeId).facts = cat.facts := rfl
  rcases switch with _ | ⟨since, _ | off⟩
  · rw [session_of_same (by rw [hrow]; simp [mutatedRow, hkind, turn])]
    rw [Option.map_none] at hrow
    simp only [retractFact, hfacts, hrow]
  · rw [Option.map_some] at hrow
    simp only [retractFact, hfacts, hrow, mutatedRow, hkind, reduceCtorEq, decide_false, turn, Option.map_some,
      rowOf, Option.map_none, Option.getD_none, if_true, setFact]
    rfl
  · rw [session_of_same (by rw [hrow]; simp [mutatedRow, hkind, turn])]
    rw [Option.map_some] at hrow
    have hoff := hstamp since off rfl
    simp only [retractFact, hfacts, hrow, rowOf, Option.map_some, Option.getD_some, hoff, if_false]

/-- The catalog after a mutation of a fact that `switch` describes. -/
def mutated (cat : Catalog) (mutation : FactMutation) (position : Position) (switch : Switch Position) :
    Catalog :=
  { cat with
    facts := Function.update cat.facts (factId mutation) (mutatedRow cat mutation position switch) }

/-- What `applyFactMutation` asks of a record, whatever the catalog. -/
def Complete (mutation : FactMutation) (position : Position) : Prop :=
  mutation.scopeId ≠ .empty ∧ mutation.predicateId ≠ .empty ∧ position.sequence ≠ 0

/-- A mutation turns the switch of its fact and writes nothing else. -/
lemma applyMutation_ok {switch : Switch Position}
    (hrow : cat.facts (factId mutation) = switch.map (rowOf cat mutation))
    (hstamp : ∀ since off, switch = some (since, some off) → off.sequence ≠ 0) :
    applyMutation cat (mutation, position) = .ok cat' ↔
      Complete mutation position ∧ cat' = mutated cat mutation position switch := by
  have hfold : ∀ facts, cat.withSession mutation.scopeId
      { cat.session mutation.scopeId with facts := facts } = { cat with facts := facts } := by
    intro facts
    simp only [withSession, session, Function.update_eq_self]
  have happly : Complete mutation position → applyFactMutation (cat.session mutation.scopeId) mutation position =
      .ok { cat.session mutation.scopeId with
        facts := Function.update cat.facts (factId mutation) (mutatedRow cat mutation position switch) } := by
    intro hcomplete
    have hrequire : require (mutation.scopeId ≠ .empty ∧ mutation.predicateId ≠ .empty ∧
        position.sequence ≠ 0) .factMutationIncomplete = .ok () := require_eq_ok.mpr hcomplete
    simp only [applyFactMutation, hrequire]
    cases hkind : mutation.kind with
    | insert => exact congrArg _ (insertFact_eq hkind hrow hstamp)
    | retract => exact congrArg _ (retractFact_eq hkind hrow hstamp)
  by_cases hcomplete : Complete mutation position
  · rw [applyMutation, happly hcomplete]
    simp only [Except.map, hfold, Except.ok.injEq, hcomplete, true_and]
    exact eq_comm
  · simp only [hcomplete, false_and, iff_false]
    intro h
    have hrequire : require (mutation.scopeId ≠ .empty ∧ mutation.predicateId ≠ .empty ∧
        position.sequence ≠ 0) .factMutationIncomplete = .error .factMutationIncomplete := if_neg hcomplete
    simp only [applyMutation, applyFactMutation, hrequire] at h
    simp [bind, Except.bind, Except.map] at h

end

/-! ## Runs of mutations -/

/-- `cat` came from `start` by mutations whose facts the switches describe. -/
structure Tracks (start cat : Catalog) (switches : FactId → Switch Position) : Prop where
  frame : cat = { start with facts := cat.facts }
  rows : ∀ mutation, cat.facts (factId mutation) = (switches (factId mutation)).map (rowOf start mutation)
  others : ∀ id, (∀ mutation, factId mutation ≠ id) → cat.facts id = start.facts id
  stamped : ∀ id since off, switches id = some (since, some off) → off.sequence ≠ 0

section
variable {start cat cat' : Catalog} {switches : FactId → Switch Position}
  {log : List (FactMutation × Position)}

lemma Tracks.rowOf_eq (h : Tracks start cat switches) (mutation : FactMutation) :
    rowOf cat mutation = rowOf start mutation := by
  rw [h.frame]
  rfl

lemma turnsOf_cons (record : FactMutation × Position) (log : List (FactMutation × Position)) (id : FactId) :
    turnsOf (record :: log) id =
      if factId record.1 = id then (decide (record.1.kind = .insert), record.2) :: turnsOf log id
      else turnsOf log id := by
  rw [turnsOf, List.filter_cons]
  by_cases hid : factId record.1 = id
  · simp [hid, turnsOf]
  · simp [hid, turnsOf]

lemma turn_off_stamp {s : Switch Position} {kind : Bool} {position since off : Position}
    (hstamp : ∀ since off, s = some (since, some off) → off.sequence ≠ 0) (hposition : position.sequence ≠ 0)
    (h : turn s (kind, position) = some (since, some off)) : off.sequence ≠ 0 := by
  cases kind with
  | true =>
    obtain ⟨since', hon⟩ := isOn_turn_on s position
    rw [hon] at h
    simp at h
  | false =>
    by_cases hs : IsOn s
    · obtain ⟨since', rfl⟩ := hs
      simp only [turn, Option.some.injEq, Prod.mk.injEq] at h
      rw [← h.2]
      exact hposition
    · rw [turn_off_of_not s hs] at h
      exact hstamp since off h

lemma Tracks.step {record : FactMutation × Position} (h : Tracks start cat switches)
    (hcomplete : Complete record.1 record.2) : ∃ cat', applyMutation cat record = .ok cat' ∧
      Tracks start cat' fun id => replay (turnsOf [record] id) (switches id) := by
  obtain ⟨mutation, position⟩ := record
  have hrow : cat.facts (factId mutation) = (switches (factId mutation)).map (rowOf cat mutation) := by
    rw [h.rows, h.rowOf_eq]
  refine ⟨mutated cat mutation position (switches (factId mutation)),
    (applyMutation_ok hrow (h.stamped (factId mutation))).mpr ⟨hcomplete, rfl⟩, ?_, ?_, ?_, ?_⟩
  · simp only [mutated]
    rw [h.frame]
  · intro other
    rw [turnsOf_cons]
    change Function.update cat.facts (factId mutation) _ (factId other) = _
    by_cases hid : factId mutation = factId other
    · rw [if_pos hid, ← hid, Function.update_self, rowOf_congr start hid.symm, mutatedRow, h.rowOf_eq]
      rfl
    · rw [if_neg hid, Function.update_of_ne (Ne.symm hid), h.rows]
      rfl
  · intro id hid
    change Function.update cat.facts (factId mutation) _ id = _
    rw [Function.update_of_ne (Ne.symm (hid mutation)), h.others id hid]
  · intro id since off hswitch
    rw [turnsOf_cons] at hswitch
    by_cases hid : factId mutation = id
    · rw [if_pos hid] at hswitch
      exact turn_off_stamp (h.stamped id) hcomplete.2.2 hswitch
    · rw [if_neg hid] at hswitch
      exact h.stamped id since off hswitch

lemma Tracks.run (h : Tracks start cat switches) (hcomplete : ∀ record ∈ log, Complete record.1 record.2) :
    ∃ cat', applyMutations cat log = .ok cat' ∧
      Tracks start cat' fun id => replay (turnsOf log id) (switches id) := by
  induction log generalizing cat switches with
  | nil => exact ⟨cat, rfl, h⟩
  | cons record log ih =>
    rw [List.forall_mem_cons] at hcomplete
    obtain ⟨cat₁, hfirst, htracks⟩ := h.step hcomplete.1
    obtain ⟨cat₂, hrest, htracks⟩ := ih htracks hcomplete.2
    refine ⟨cat₂, ?_, ?_⟩
    · rw [applyMutations, List.foldlM_cons, hfirst]
      exact hrest
    · have hturns : ∀ id, turnsOf (record :: log) id = turnsOf [record] id ++ turnsOf log id := by
        intro id
        simp only [turnsOf, ← List.map_append, ← List.filter_append, List.singleton_append]
      simp only [hturns, replay_append]
      exact htracks

/-- Mutations that were applied are complete. -/
lemma Tracks.complete (h : Tracks start cat switches) (hrun : applyMutations cat log = .ok cat') :
    ∀ record ∈ log, Complete record.1 record.2 := by
  induction log generalizing cat switches with
  | nil => simp
  | cons record log ih =>
    rw [applyMutations, List.foldlM_cons] at hrun
    obtain ⟨cat₁, hfirst, hrest⟩ := bind_eq_ok.mp hrun
    have hrow : cat.facts (factId record.1) = (switches (factId record.1)).map (rowOf cat record.1) := by
      rw [h.rows, h.rowOf_eq]
    obtain ⟨hcomplete, -⟩ := (applyMutation_ok hrow (h.stamped _)).mp hfirst
    obtain ⟨cat₂, hsame, htracks⟩ := h.step hcomplete
    rw [hfirst, Except.ok.injEq] at hsame
    subst hsame
    exact List.forall_mem_cons.mpr ⟨hcomplete, ih htracks hrest⟩

lemma tracks_start (hempty : start.facts = fun _ => none) : Tracks start start fun _ => none := by
  refine ⟨rfl, fun mutation => ?_, fun _ _ => rfl, fun id since off h => by simp at h⟩
  rw [hempty]
  rfl

end

/-- The kinds of what is done to one fact, in order; `true` is an insert. -/
def kindsOf (log : List (FactMutation × Position)) (id : FactId) : List Bool :=
  (turnsOf log id).map Prod.fst

/-- `before` leaves the fact active, `suffix` inserts it some times and then retracts it some times. -/
def Reactivated (before suffix : List (FactMutation × Position)) (id : FactId) : Prop :=
  (kindsOf before id).getLast? = some true ∧ ∃ inserts retractions,
    kindsOf suffix id = List.replicate (inserts + 1) true ++ List.replicate (retractions + 1) false

section
variable {start cat cat' : Catalog} {before suffix : List (FactMutation × Position)}

lemma mem_turnsOf {log : List (FactMutation × Position)} {id : FactId} {event : Bool × Position}
    (h : event ∈ turnsOf log id) : ∃ record ∈ log, factId record.1 = id ∧ record.2 = event.2 := by
  obtain ⟨record, hrecord, rfl⟩ := List.mem_map.mp h
  obtain ⟨hmem, hid⟩ := List.mem_filter.mp hrecord
  exact ⟨record, hmem, of_decide_eq_true hid, rfl⟩

/-- The switch of such a fact is on since a record of `before`, and since one of `suffix` after that
    is replayed on its own result. -/
lemma Reactivated.replays {id : FactId} (h : Reactivated before suffix id) :
    ∃ since on off, (∃ record ∈ before, factId record.1 = id ∧ record.2 = since) ∧
      (∃ record ∈ suffix, record.2 = on) ∧
      replay (turnsOf suffix id) (replay (turnsOf before id) none) = some (since, some off) ∧
      replay (turnsOf suffix id) (replay (turnsOf suffix id) (replay (turnsOf before id) none)) =
        some (on, some off) := by
  obtain ⟨hlast, inserts, retractions, hkinds⟩ := h
  rw [kindsOf, List.getLast?_map] at hlast
  obtain ⟨since, hsince⟩ := (isOn_replay (turnsOf before id)).mpr hlast
  obtain ⟨on, off, ons, offs, hlog⟩ := OnsThenOffs.of_kinds hkinds
  have hsinceMem : (true, since) ∈ turnsOf before id := by
    rcases since_mem _ _ hsince with hmem | ⟨off', hnone⟩
    · exact hmem
    · simp at hnone
  have honMem : (true, on) ∈ turnsOf suffix id := by
    rw [hlog.log_eq]
    simp
  obtain ⟨record, hrecord, -, hposition⟩ := mem_turnsOf honMem
  refine ⟨since, on, off, mem_turnsOf hsinceMem, ⟨record, hrecord, hposition⟩, ?_, ?_⟩
  · rw [hsince, hlog.replay_on]
  · rw [hsince, hlog.replay_on, hlog.replay_off]
    simp [IsOn]

lemma replay_of_not_reactivated {id : FactId} (h : ¬Reactivated before suffix id) :
    replay (turnsOf suffix id) (replay (turnsOf suffix id) (replay (turnsOf before id) none)) =
      replay (turnsOf suffix id) (replay (turnsOf before id) none) := by
  rcases replay_replay (turnsOf suffix id) (replay (turnsOf before id) none) with
    hsame | ⟨hon, on, off, ons, offs, hlog⟩
  · exact hsame
  · exfalso
    apply h
    refine ⟨?_, _, _, hlog.kinds⟩
    rw [kindsOf, List.getLast?_map]
    exact (isOn_replay _).mp hon

end

/-- Mutations applied in journal order to a catalog without facts, a suffix of them applied again:
    the rows are the same exactly when no fact was active before the suffix and is in it only
    inserted and then only retracted. -/
theorem suffix_replay {start cat : Catalog} {before suffix : List (FactMutation × Position)}
    (hempty : start.facts = fun _ => none)
    (hordered : (before ++ suffix).Pairwise fun a b => a.2.sequence < b.2.sequence)
    (hrun : applyMutations start (before ++ suffix) = .ok cat) :
    ∃ cat', applyMutations cat suffix = .ok cat' ∧
      (cat'.facts = cat.facts ↔ ∀ id, ¬Reactivated before suffix id) := by
  have hcomplete := (tracks_start hempty).complete hrun
  obtain ⟨cat₁, hrun₁, htracks⟩ := (tracks_start hempty).run hcomplete
  rw [hrun, Except.ok.injEq] at hrun₁
  subst hrun₁
  have hsuffix : ∀ record ∈ suffix, Complete record.1 record.2 := fun record hmem =>
    hcomplete record (List.mem_append_right _ hmem)
  obtain ⟨cat', hrun', htracks'⟩ := htracks.run hsuffix
  have hsplit : ∀ id, replay (turnsOf (before ++ suffix) id) none =
      replay (turnsOf suffix id) (replay (turnsOf before id) none) := by
    intro id
    rw [← replay_append]
    simp only [turnsOf, List.filter_append, List.map_append]
  simp only [hsplit] at htracks htracks'
  refine ⟨cat', hrun', ?_, ?_⟩
  · intro hfacts id hreactivated
    obtain ⟨since, on, off, ⟨record, hrecord, hid, hsince⟩, ⟨again, hagain, hon⟩, hfirst, hsecond⟩ :=
      hreactivated.replays
    have hrow := htracks.rows record.1
    have hrow' := htracks'.rows record.1
    rw [hid, hfirst, Option.map_some] at hrow
    rw [hid, hsecond, Option.map_some, hfacts, hrow, Option.some.injEq] at hrow'
    have hcreated : since.sequence = on.sequence := congrArg Fact.createdAtUnixUs hrow'
    have hlt := (List.pairwise_append.mp hordered).2.2 record hrecord again hagain
    rw [hsince, hon] at hlt
    omega
  · intro hsafe
    funext id
    by_cases hnamed : ∃ mutation, factId mutation = id
    · obtain ⟨mutation, rfl⟩ := hnamed
      rw [htracks'.rows, htracks.rows, replay_of_not_reactivated (hsafe _)]
    · have hother : ∀ mutation, factId mutation ≠ id := fun mutation h => hnamed ⟨mutation, h⟩
      rw [htracks'.others id hother, htracks.others id hother]

def noSeed : Provisioned := .empty

def urgentFact (kind : FactMutationKind) : FactMutation := ⟨kind, .literal "urgent", .literal "alice", [.literal "m1"]⟩

/-- A fact that is inserted, retracted and inserted again, with the last two applied again. -/
theorem suffix_replay_reinsert : ∃ cat cat',
    applyMutations (.initial noSeed) [(urgentFact .insert, ⟨0, 1⟩), (urgentFact .retract, ⟨200, 2⟩),
      (urgentFact .insert, ⟨400, 3⟩)] = .ok cat ∧
    applyMutations cat [(urgentFact .retract, ⟨200, 2⟩), (urgentFact .insert, ⟨400, 3⟩)] = .ok cat' ∧
    (cat'.facts = cat.facts ↔ ∀ id, ¬Reactivated [(urgentFact .insert, ⟨0, 1⟩)]
      [(urgentFact .retract, ⟨200, 2⟩), (urgentFact .insert, ⟨400, 3⟩)] id) := by
  obtain ⟨cat', hrun, hsame⟩ := @suffix_replay (.initial noSeed) _ [(urgentFact .insert, ⟨0, 1⟩)]
    [(urgentFact .retract, ⟨200, 2⟩), (urgentFact .insert, ⟨400, 3⟩)] rfl (by decide) rfl
  exact ⟨_, cat', rfl, hrun, hsame⟩

/-- Inserted twice and then retracted: applied again from the second insert, the row shows the second
    insert's time. -/
theorem suffix_replay_moves_creation : ∃ cat cat',
    applyMutations (.initial noSeed) [(urgentFact .insert, ⟨0, 1⟩), (urgentFact .insert, ⟨200, 2⟩),
      (urgentFact .retract, ⟨400, 3⟩)] = .ok cat ∧
    applyMutations cat [(urgentFact .insert, ⟨200, 2⟩), (urgentFact .retract, ⟨400, 3⟩)] = .ok cat' ∧
    cat'.facts ≠ cat.facts := by
  refine ⟨_, _, rfl, rfl, fun h => ?_⟩
  have hrow := congrArg (Option.map Fact.createdAtUnixUs) (congrFun h (factId (urgentFact .insert)))
  revert hrow
  decide

end Wyrebox.FactReplay
