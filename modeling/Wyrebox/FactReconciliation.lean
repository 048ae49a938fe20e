import Wyrebox.FactRecords
import Wyrebox.SetChange

set_option autoImplicit false

/-!
# Fact reconciliation

Two snapshots of active facts are compared by identity: predicate, arguments and source. The changes
are the retractions of the facts that are gone and then the facts that are new.
-/
namespace Wyrebox.FactReconciliation
open Event FactRecords Fallible
open FactMutationPayload (isEmpty_iff)
open SetChange (Change Leads difference leads_difference difference_key_nodup difference_self)

/-- `WyreboxFactRecord` as a snapshot holds it; its strings may be `NULL`. -/
structure Record where
  predicate : Option CString
  args : Option (List CString)
  source : Option CString
  confidencePpm : ℕ
  createdAtUnixUs : ℕ
  retractedAtUnixUs : ℕ
  deriving DecidableEq

structure Identity where
  predicate : CString
  args : List CString
  source : CString
  deriving DecidableEq

/-- A returned record: an inserted fact has no retraction time. -/
structure Mutation where
  fact : FactRecord
  retractedAtUnixUs : ℕ
  deriving DecidableEq

/-- Every one of these is a `G_IO_ERROR_INVALID_ARGUMENT`. -/
inductive ReconcileError where
  | previousRequired
  | newRequired
  | timestampRequired
  | recordRequired
  | predicateRequired
  | argsRequired
  | sourceRequired
  | emptyArgument
  | factRequired (snapshot : String) (index : ℕ)
  | noCreation (snapshot : String) (index : ℕ)
  | notActive (snapshot : String) (index : ℕ)
  | duplicate (snapshot : String) (index : ℕ)
  | invalidRecord (error : FactError)
  | uninitialized
  | retractionBeforeCreation
  deriving DecidableEq

def ReconcileError.message : ReconcileError → String
  | .previousRequired => "previous facts array is required"
  | .newRequired => "new facts array is required"
  | .timestampRequired => "retraction timestamp is required"
  | .recordRequired => "fact record is required"
  | .predicateRequired => "fact predicate is required"
  | .argsRequired => "fact args are required"
  | .sourceRequired => "fact source is required"
  | .emptyArgument => "fact args must not be empty"
  | .factRequired snapshot index => snapshot ++ " fact at index " ++ toString index ++ " is required"
  | .noCreation snapshot index => snapshot ++ " fact at index " ++ toString index ++ " has no creation timestamp"
  | .notActive snapshot index => snapshot ++ " fact at index " ++ toString index ++ " is not active"
  | .duplicate snapshot index =>
    snapshot ++ " fact at index " ++ toString index ++ " duplicates an earlier fact identity"
  | .invalidRecord error => error.message
  | .uninitialized => "cannot retract an uninitialized fact"
  | .retractionBeforeCreation => "fact retraction timestamp must not precede creation"

/-! ## Identity keys -/

def requiredText (error : ReconcileError) : Option CString → Except ReconcileError CString
  | none => .error error
  | some value => if value.bytes.isEmpty then .error error else .ok value

/-- The checks of `build_fact_identity_key`. -/
def identityOf : Option Record → Except ReconcileError Identity
  | none => .error .recordRequired
  | some record => do
    let predicate ← requiredText .predicateRequired record.predicate
    match record.args with
    | none => .error .argsRequired
    | some args => do
      let source ← requiredText .sourceRequired record.source
      if args.any fun arg => arg.bytes.isEmpty then .error .emptyArgument else .ok ⟨predicate, args, source⟩

/-- The text of `build_fact_identity_key`: components behind the letters `P`, `A` and `S`. -/
def Identity.key (identity : Identity) : List UInt8 :=
  80 :: (keyComponent identity.predicate ++ (identity.args.flatMap (fun arg => 65 :: keyComponent arg) ++
    83 :: keyComponent identity.source))

def validateActiveFact (snapshot : String) (index : ℕ) : Option Record → Except ReconcileError Unit
  | none => .error (.factRequired snapshot index)
  | some record =>
    if record.createdAtUnixUs = 0 then .error (.noCreation snapshot index)
    else if record.retractedAtUnixUs ≠ 0 then .error (.notActive snapshot index)
    else .ok ()

/-- The loop of `build_identity_set` from `index` on, with the keys found so far. -/
def buildIdentitySet (snapshot : String) : ℕ → List (List UInt8) → List (Option Record) →
    Except ReconcileError (List (List UInt8))
  | _, identities, [] => .ok identities
  | index, identities, record :: records => do
    validateActiveFact snapshot index record
    let identity ← identityOf record
    if identity.key ∈ identities then .error (.duplicate snapshot index)
    else buildIdentitySet snapshot (index + 1) (identities ++ [identity.key]) records

/-! ## Changes -/

def copyFactRecord (identity : Identity) : Option Record → Except ReconcileError Mutation
  | none => .error .recordRequired
  | some record =>
    match recordInit identity.predicate identity.args identity.source record.confidencePpm record.createdAtUnixUs with
    | .error error => .error (.invalidRecord error)
    | .ok fact => .ok ⟨fact, 0⟩

/-- `wyrebox_fact_record_mark_retracted`. -/
def markRetracted (retractedAtUnixUs : ℕ) (copy : Mutation) : Except ReconcileError Mutation :=
  if copy.fact.createdAtUnixUs = 0 then .error .uninitialized
  else if retractedAtUnixUs < copy.fact.createdAtUnixUs then .error .retractionBeforeCreation
  else .ok { copy with retractedAtUnixUs }

/-- The loop of `append_retractions` and `append_inserts`: a change for each fact that is not known. -/
def appendChanges (known : List (List UInt8)) (change : Identity → Option Record → Except ReconcileError Mutation) :
    List (Option Record) → Except ReconcileError (List Mutation)
  | [] => .ok []
  | record :: records => do
    let identity ← identityOf record
    if identity.key ∈ known then appendChanges known change records
    else do
      let mutation ← change identity record
      let mutations ← appendChanges known change records
      .ok (mutation :: mutations)

def appendRetractions (newIdentities : List (List UInt8)) (retractedAtUnixUs : ℕ) :
    List (Option Record) → Except ReconcileError (List Mutation) :=
  appendChanges newIdentities fun identity record => do
    let copy ← copyFactRecord identity record
    markRetracted retractedAtUnixUs copy

def appendInserts (previousIdentities : List (List UInt8)) :
    List (Option Record) → Except ReconcileError (List Mutation) :=
  appendChanges previousIdentities copyFactRecord

/-- `wyrebox_fact_reconciliation_reconcile`. -/
def reconcile (previousFacts newFacts : Option (List (Option Record))) (retractedAtUnixUs : ℕ) :
    Except ReconcileError (List Mutation) :=
  match previousFacts, newFacts with
  | none, _ => .error .previousRequired
  | some _, none => .error .newRequired
  | some previous, some new =>
    if retractedAtUnixUs = 0 then .error .timestampRequired
    else do
      let previousIdentities ← buildIdentitySet "previous" 0 [] previous
      let newIdentities ← buildIdentitySet "new" 0 [] new
      let retractions ← appendRetractions newIdentities retractedAtUnixUs previous
      let inserts ← appendInserts previousIdentities new
      .ok (retractions ++ inserts)

/-! ## Keys are identities -/

lemma flatMap_arguments_append_inj {args args' : List CString} {source source' : CString}
    (h : args.flatMap (fun arg => 65 :: keyComponent arg) ++ 83 :: keyComponent source =
      args'.flatMap (fun arg => 65 :: keyComponent arg) ++ 83 :: keyComponent source') :
    args = args' ∧ source = source' := by
  induction args generalizing args' with
  | nil =>
    cases args' with
    | nil =>
      simp only [List.flatMap_nil, List.nil_append, List.cons.injEq, true_and] at h
      refine ⟨rfl, (@keyComponent_append_inj source source' [] [] ?_).1⟩
      rw [h]
    | cons arg args' => simp at h
  | cons arg args ih =>
    cases args' with
    | nil => simp at h
    | cons arg' args' =>
      simp only [List.flatMap_cons, List.cons_append, List.append_assoc, List.cons.injEq, true_and] at h
      obtain ⟨rfl, hrest⟩ := keyComponent_append_inj h
      obtain ⟨rfl, rfl⟩ := ih hrest
      exact ⟨rfl, rfl⟩

/-- The letters and lengths keep the components apart. -/
theorem key_injective : Function.Injective Identity.key := by
  rintro ⟨predicate, args, source⟩ ⟨predicate', args', source'⟩ h
  simp only [Identity.key, List.cons.injEq, true_and] at h
  obtain ⟨rfl, hrest⟩ := keyComponent_append_inj h
  obtain ⟨rfl, rfl⟩ := flatMap_arguments_append_inj hrest
  rfl

/-! ## What the loops find -/

/-- The identities of a snapshot, in its order. -/
def identities (facts : List (Option Record)) : List Identity := facts.filterMap fun record => (identityOf record).toOption

def Mutation.identity (mutation : Mutation) : Identity :=
  ⟨mutation.fact.predicate, mutation.fact.args, mutation.fact.source⟩

/-- A returned record read as a change of the set of active facts. -/
def Mutation.change (mutation : Mutation) : Change Identity :=
  if mutation.retractedAtUnixUs ≠ 0 then .retract mutation.identity else .insert mutation.identity

section
variable {record : Option Record} {records : List (Option Record)} {identity : Identity}

lemma identities_cons (h : identityOf record = .ok identity) :
    identities (record :: records) = identity :: identities records := by
  rw [identities, List.filterMap_cons, h]
  rfl

/-- A snapshot that is accepted has every identity once. -/
lemma buildIdentitySet_eq_ok {snapshot : String} {index : ℕ} {known keys : List (List UInt8)} (hknown : known.Nodup)
    (h : buildIdentitySet snapshot index known records = .ok keys) :
    keys = known ++ (identities records).map Identity.key ∧ keys.Nodup := by
  induction records generalizing index known with
  | nil =>
    cases h
    exact ⟨(List.append_nil _).symm, hknown⟩
  | cons record records ih =>
    simp only [buildIdentitySet, bind_eq_ok, ite_error_eq_ok] at h
    obtain ⟨-, -, identity, hidentity, hfresh, hrest⟩ := h
    have hnext : (known ++ [identity.key]).Nodup :=
      hknown.append (List.nodup_singleton _) (List.disjoint_singleton.mpr hfresh)
    obtain ⟨hkeys, hnodup⟩ := ih hnext hrest
    refine ⟨?_, hnodup⟩
    rw [hkeys, identities_cons hidentity, List.append_assoc]
    rfl

/-- The name of a snapshot only shows in errors. -/
lemma buildIdentitySet_renamed {snapshot : String} {index : ℕ} {known keys : List (List UInt8)}
    (h : buildIdentitySet snapshot index known records = .ok keys) (snapshot' : String) :
    buildIdentitySet snapshot' index known records = .ok keys := by
  induction records generalizing index known with
  | nil => exact h
  | cons record records ih =>
    simp only [buildIdentitySet, bind_eq_ok, ite_error_eq_ok] at h ⊢
    obtain ⟨_, hactive, identity, hidentity, hfresh, hrest⟩ := h
    refine ⟨(), ?_, identity, hidentity, hfresh, ih hrest⟩
    cases record with
    | none => cases hactive
    | some record =>
      simp only [validateActiveFact, ite_error_eq_ok] at hactive ⊢
      exact hactive

lemma identified_of_ok {snapshot : String} {index : ℕ} {known keys : List (List UInt8)}
    (h : buildIdentitySet snapshot index known records = .ok keys) :
    ∀ record ∈ records, ∃ identity, identityOf record = .ok identity := by
  induction records generalizing index known with
  | nil => exact fun record hmem => absurd hmem List.not_mem_nil
  | cons record records ih =>
    simp only [buildIdentitySet, bind_eq_ok, ite_error_eq_ok] at h
    obtain ⟨-, -, identity, hidentity, -, hrest⟩ := h
    rw [List.forall_mem_cons]
    exact ⟨⟨identity, hidentity⟩, ih hrest⟩

lemma copyFactRecord_identity {mutation : Mutation} (h : copyFactRecord identity record = .ok mutation) :
    mutation.identity = identity ∧ mutation.retractedAtUnixUs = 0 := by
  cases record with
  | none => cases h
  | some record =>
    rw [copyFactRecord] at h
    cases hinit : recordInit identity.predicate identity.args identity.source record.confidencePpm
        record.createdAtUnixUs with
    | error error => simp [hinit] at h
    | ok fact =>
      simp only [hinit, Except.ok.injEq] at h
      simp only [recordInit, bind_eq_ok, ite_error_eq_ok, Except.ok.injEq] at hinit
      obtain ⟨-, -, -, -, -, -, -, -, rfl⟩ := hinit
      rw [← h]
      exact ⟨rfl, rfl⟩

/-- One change for each identity that is not known, in the order of the snapshot. -/
lemma appendChanges_eq_ok {known : List (List UInt8)}
    {change : Identity → Option Record → Except ReconcileError Mutation} {kind : Identity → Change Identity}
    (hkind : ∀ identity record mutation, change identity record = .ok mutation → mutation.change = kind identity)
    {mutations : List Mutation} (h : appendChanges known change records = .ok mutations) :
    mutations.map Mutation.change = ((identities records).filter (·.key ∉ known)).map kind := by
  induction records generalizing mutations with
  | nil =>
    cases h
    rfl
  | cons record records ih =>
    simp only [appendChanges, bind_eq_ok] at h
    obtain ⟨identity, hidentity, h⟩ := h
    rw [identities_cons hidentity, List.filter_cons]
    by_cases hmem : identity.key ∈ known
    · rw [if_pos hmem] at h
      rw [if_neg (by simpa using hmem)]
      exact ih h
    · simp only [hmem, if_false, bind_eq_ok] at h
      obtain ⟨mutation, hchange, later, hlater, heq⟩ := h
      cases heq
      rw [if_pos (by simpa using hmem), List.map_cons, List.map_cons, ih hlater, hkind identity record mutation hchange]

lemma appendChanges_mem {known : List (List UInt8)}
    {change : Identity → Option Record → Except ReconcileError Mutation} {mutations : List Mutation}
    (h : appendChanges known change records = .ok mutations) :
    ∀ mutation ∈ mutations, ∃ identity record, change identity record = .ok mutation := by
  induction records generalizing mutations with
  | nil =>
    cases h
    exact fun mutation hmem => absurd hmem List.not_mem_nil
  | cons record records ih =>
    simp only [appendChanges, bind_eq_ok] at h
    obtain ⟨identity, -, h⟩ := h
    by_cases hmem : identity.key ∈ known
    · rw [if_pos hmem] at h
      exact ih h
    · simp only [hmem, if_false, bind_eq_ok] at h
      obtain ⟨mutation, hchange, later, hlater, heq⟩ := h
      cases heq
      rw [List.forall_mem_cons]
      exact ⟨⟨identity, record, hchange⟩, ih hlater⟩

end

lemma mem_map_key {identity : Identity} {facts : List (Option Record)} :
    identity.key ∈ (identities facts).map Identity.key ↔ identity ∈ identities facts :=
  List.mem_map_of_injective key_injective

section
variable {previous new : List (Option Record)} {retractedAtUnixUs : ℕ} {mutations : List Mutation}

/-- The changes are the difference of the two snapshots. -/
theorem reconcile_eq_ok (h : reconcile (some previous) (some new) retractedAtUnixUs = .ok mutations) :
    mutations.map Mutation.change = difference (identities previous) (identities new) ∧
      (identities previous).Nodup ∧ (identities new).Nodup := by
  simp only [reconcile, ite_error_eq_ok, bind_eq_ok] at h
  obtain ⟨htime, previousKeys, hprevious, newKeys, hnew, retractions, hretractions, inserts, hinserts, heq⟩ := h
  cases heq
  obtain ⟨rfl, hpreviousNodup⟩ := buildIdentitySet_eq_ok List.nodup_nil hprevious
  obtain ⟨rfl, hnewNodup⟩ := buildIdentitySet_eq_ok List.nodup_nil hnew
  rw [List.nil_append] at hpreviousNodup hnewNodup hretractions hinserts
  have hgone : retractions.map Mutation.change =
      ((identities previous).filter (·.key ∉ (identities new).map Identity.key)).map .retract := by
    refine appendChanges_eq_ok (fun identity record mutation hchange => ?_) hretractions
    simp only [bind_eq_ok] at hchange
    obtain ⟨copy, hcopy, hmark⟩ := hchange
    simp only [markRetracted, ite_error_eq_ok, Except.ok.injEq] at hmark
    obtain ⟨-, -, rfl⟩ := hmark
    rw [Mutation.change, if_pos htime]
    exact congrArg Change.retract (copyFactRecord_identity hcopy).1
  have hcome : inserts.map Mutation.change =
      ((identities new).filter (·.key ∉ (identities previous).map Identity.key)).map .insert := by
    refine appendChanges_eq_ok (fun identity record mutation hcopy => ?_) hinserts
    obtain ⟨hidentity, hactive⟩ := copyFactRecord_identity hcopy
    rw [Mutation.change, if_neg (not_not.mpr hactive), hidentity]
  refine ⟨?_, hpreviousNodup.of_map _, hnewNodup.of_map _⟩
  rw [List.map_append, hgone, hcome, difference]
  simp only [mem_map_key]

theorem reconcile_self {facts : List (Option Record)} {keys : List (List UInt8)} {snapshot : String}
    (htime : retractedAtUnixUs ≠ 0) (h : buildIdentitySet snapshot 0 [] facts = .ok keys) :
    reconcile (some facts) (some facts) retractedAtUnixUs = .ok [] := by
  have hnone : ∀ change, appendChanges keys change facts = .ok [] := by
    intro change
    obtain ⟨hkeys, -⟩ := buildIdentitySet_eq_ok List.nodup_nil h
    have hidentified := identified_of_ok h
    have hknown : ∀ identity ∈ identities facts, identity.key ∈ keys := by
      intro identity hmem
      rw [hkeys]
      exact List.mem_append_right _ (List.mem_map_of_mem hmem)
    clear h hkeys
    induction facts with
    | nil => rfl
    | cons record records ih =>
      obtain ⟨identity, hidentity⟩ := hidentified record List.mem_cons_self
      rw [identities_cons hidentity, List.forall_mem_cons] at hknown
      rw [appendChanges, hidentity]
      change (if identity.key ∈ keys then _ else _) = _
      rw [if_pos hknown.1]
      exact ih (fun record' hrecord' => hidentified record' (List.mem_cons_of_mem _ hrecord')) hknown.2
  simp only [reconcile, htime, if_false, buildIdentitySet_renamed h "previous", buildIdentitySet_renamed h "new"]
  change (appendRetractions keys retractedAtUnixUs facts >>= _) = _
  rw [appendRetractions, hnone]
  change (appendInserts keys facts >>= _) = _
  rw [appendInserts, hnone]
  rfl

/-- The returned list leads from the previous set of active facts to the new one, no change of it is idle and
    no identity occurs twice; retractions come first, and a snapshot differs from itself in nothing. -/
theorem reconciliation (h : reconcile (some previous) (some new) retractedAtUnixUs = .ok mutations) :
    Leads {identity | identity ∈ identities previous} (mutations.map Mutation.change)
        {identity | identity ∈ identities new} ∧
      (mutations.map Mutation.identity).Nodup ∧
      (∃ retractions inserts, mutations = retractions ++ inserts ∧
        (∀ mutation ∈ retractions, mutation.retractedAtUnixUs = retractedAtUnixUs ∧ 0 < retractedAtUnixUs) ∧
        ∀ mutation ∈ inserts, mutation.retractedAtUnixUs = 0) ∧
      reconcile (some previous) (some previous) retractedAtUnixUs = .ok [] ∧
      reconcile (some new) (some new) retractedAtUnixUs = .ok [] := by
  obtain ⟨hchanges, hpreviousNodup, hnewNodup⟩ := reconcile_eq_ok h
  have hkey : ∀ mutation : Mutation, mutation.change.key = mutation.identity := by
    intro mutation
    rw [Mutation.change]
    split <;> rfl
  simp only [reconcile, ite_error_eq_ok, bind_eq_ok] at h
  obtain ⟨htime, previousKeys, hprevious, newKeys, hnew, retractions, hretractions, inserts, hinserts, heq⟩ := h
  cases heq
  refine ⟨?_, ?_, ⟨retractions, inserts, rfl, ?_, ?_⟩, reconcile_self htime hprevious, reconcile_self htime hnew⟩
  · rw [hchanges]
    exact leads_difference hpreviousNodup hnewNodup
  · have hnodup := difference_key_nodup hpreviousNodup hnewNodup
    rw [← hchanges, List.map_map] at hnodup
    simpa only [Function.comp_def, hkey] using hnodup
  · intro mutation hmem
    obtain ⟨identity, record, hchange⟩ := appendChanges_mem hretractions mutation hmem
    simp only [bind_eq_ok, markRetracted, ite_error_eq_ok, Except.ok.injEq] at hchange
    obtain ⟨copy, -, -, -, rfl⟩ := hchange
    exact ⟨rfl, Nat.pos_of_ne_zero htime⟩
  · intro mutation hmem
    obtain ⟨identity, record, hcopy⟩ := appendChanges_mem hinserts mutation hmem
    exact (copyFactRecord_identity hcopy).2

end

/-! ## A sample -/

def sampleFact (argument : String)
    (h : (JournalRecord.ascii argument).contains 0 = false := by exact (rfl : false = false)) : Option Record :=
  some ⟨some (.literal "read"), some [.literal argument h], some (.literal "imap"), 1000000, 100, 0⟩

/-- The fact on `a` is gone, the one on `c` is new. -/
theorem reconciliation_read :
    Leads {identity | identity ∈ identities [sampleFact "a", sampleFact "b"]}
        ([⟨⟨.literal "read", [.literal "a"], .literal "imap", 1000000, 100⟩, 200⟩,
          ⟨⟨.literal "read", [.literal "c"], .literal "imap", 1000000, 100⟩, 0⟩].map Mutation.change)
        {identity | identity ∈ identities [sampleFact "b", sampleFact "c"]} :=
  (@reconciliation [sampleFact "a", sampleFact "b"] [sampleFact "b", sampleFact "c"] 200 _ (by decide)).1

end Wyrebox.FactReconciliation
