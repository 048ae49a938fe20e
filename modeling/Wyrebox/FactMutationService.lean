import Wyrebox.DaemonAuditPayload
import Wyrebox.FactSnapshot
import Wyrebox.JournalLife

set_option autoImplicit false

/-!
# The fact mutation service

Clients insert and retract facts, one at a time or in batches, and every request that succeeds leaves an audit
record behind its facts. Such requests take turns, but other threads of the daemon write to the same journal
between any two of their records.
-/
namespace Wyrebox.FactMutationService
open JournalRecord JournalReader JournalWriter JournalLife Event Fallible
open FactMutationPayload (RequestError encodeRequest decodeRequest countArguments)
open DaemonAuditPayload (Operation Outcome Fields encodePayload decodePayload usesV2)
open FactSnapshot (mutationEvent isFactMutation)

/-! ## Who may change facts -/

/-- `WyreboxDaemonRequestIdentity`. -/
structure RequestIdentity where
  requestId : Option CString
  correlationId : Option CString
  callerIdentity : Option CString
  accountIdentity : Option CString
  toolIdentity : Option CString
  deriving DecidableEq

/-- `WyreboxDaemonClientIdentityClass`. -/
inductive IdentityClass where
  | adminCli
  | trustedTool
  | postfixHelper
  | dovecotPlugin
  | unknown
  deriving DecidableEq, Repr

/-- `wyrebox_daemon_client_identity_classify_name`. -/
def classifyName (callerIdentity : Option CString) : IdentityClass :=
  if callerIdentity = some (.literal "admin-cli") then .adminCli
  else if callerIdentity = some (.literal "trusted-tool") then .trustedTool
  else if callerIdentity = some (.literal "postfix-helper") then .postfixHelper
  else if callerIdentity = some (.literal "dovecot") then .dovecotPlugin
  else if callerIdentity = some (.literal "dovecot-plugin") then .dovecotPlugin
  else .unknown

/-- `wyrebox_daemon_client_identity_can_mutate_facts`. -/
def canMutateFacts (identityClass : IdentityClass) : Bool := identityClass == .trustedTool

inductive ServiceError where
  | rejected (text : String)
  | request (error : RequestError)
  | audit (error : DaemonAuditPayload.PayloadError)
  | append (error : AppendError)
  deriving DecidableEq

def authorize (identity : RequestIdentity) (scopeId : Option CString) (caller scope : String) :
    Except ServiceError Unit :=
  if canMutateFacts (classifyName identity.callerIdentity) = false then .error (.rejected caller)
  else if identity.accountIdentity = none ∨ identity.accountIdentity ≠ scopeId then .error (.rejected scope)
  else .ok ()

def authorizeFactMutationIdentity (identity : RequestIdentity) (request : FactMutation) : Except ServiceError Unit :=
  authorize identity (some request.scopeId) "caller is not authorized to mutate facts"
    "caller is not authorized for fact mutation account scope"

/-- `WyreboxDaemonFactBatchImportRequest`. -/
structure BatchImportRequest where
  entries : Option (List FactMutation)
  scopeId : Option CString
  deriving DecidableEq

def authorizeFactBatchImportIdentity (identity : RequestIdentity) (request : BatchImportRequest) :
    Except ServiceError Unit :=
  authorize identity request.scopeId "caller is not authorized to import fact batches"
    "caller is not authorized for fact batch import account scope"

def validateRequestId (requestId : Option CString) : Except ServiceError Unit :=
  if requestId.getD .empty = .empty then .error (.rejected "fact mutation request_id is required") else .ok ()

def maxEntries : ℕ := 1024

def validateEntryScope (entry : FactMutation) (expectedScopeId : CString) : Except ServiceError Unit :=
  if entry.scopeId = .empty then .error (.rejected "fact batch import entry scope_id is required")
  else if entry.scopeId ≠ expectedScopeId then
    .error (.rejected "fact batch import entries must share one scope_id")
  else .ok ()

/-- The payload of a request that is to be appended, with its event. -/
def requestEntry (request : FactMutation) : Except ServiceError Entry :=
  match encodeRequest request with
  | .error error => .error (.request error)
  | .ok payload => .ok ⟨mutationEvent request.kind, payload⟩

/-- The loop of `wyrebox_daemon_fact_batch_import_request_validate`. -/
def validateEntries (scopeId : CString) : List FactMutation → Except ServiceError Unit
  | [] => .ok ()
  | entry :: entries => do
    validateEntryScope entry scopeId
    let _ ← requestEntry entry
    validateEntries scopeId entries

/-- `wyrebox_daemon_fact_batch_import_request_validate`. -/
def validateBatch (request : BatchImportRequest) : Except ServiceError Unit :=
  match request.entries with
  | none => .error (.rejected "fact batch import request is required")
  | some entries =>
    if entries = [] then .error (.rejected "fact batch import requires at least one entry")
    else if maxEntries < entries.length then .error (.rejected "fact batch import exceeds max entries")
    else if request.scopeId.getD .empty = .empty then .error (.rejected "fact batch import scope_id is required")
    else validateEntries (request.scopeId.getD .empty) entries

/-! ## A request at work -/

/-- A request that has passed its checks: how many of its entries it has appended, and where the last of them is. -/
structure Work where
  operation : Operation
  identity : RequestIdentity
  scopeId : Option CString
  predicateId : Option CString
  entries : List FactMutation
  appended : ℕ
  position : Position

/-- `wyrebox_daemon_fact_mutation_service_handle_identity` up to the first append. -/
def handleIdentity (identity : RequestIdentity) (request : FactMutation) : Except ServiceError Work := do
  authorizeFactMutationIdentity identity request
  validateRequestId identity.requestId
  .ok
    { operation := .singleFactMutation, identity
      scopeId := some request.scopeId
      predicateId := some request.predicateId
      entries := [request], appended := 0, position := ⟨0, 0⟩ }

/-- `wyrebox_daemon_fact_mutation_service_handle_batch_identity` up to the first append. -/
def handleBatchIdentity (identity : RequestIdentity) (request : BatchImportRequest) : Except ServiceError Work := do
  validateBatch request
  authorizeFactBatchImportIdentity identity request
  validateRequestId identity.requestId
  validateBatch request
  .ok
    { operation := .factBatchImport, identity
      scopeId := request.scopeId
      predicateId := none
      entries := request.entries.getD [], appended := 0, position := ⟨0, 0⟩ }

/-- The payload of `append_audit_record`. -/
def auditFields (work : Work) : Fields where
  operation := work.operation.code
  outcome := Outcome.success.code
  requestId := work.identity.requestId
  correlationId := work.identity.correlationId
  callerIdentity := work.identity.callerIdentity
  accountIdentity := work.identity.accountIdentity
  toolIdentity := work.identity.toolIdentity
  scopeId := work.scopeId
  mutationCount := work.entries.length
  predicateId := work.predicateId
  finalJournalOffset := work.position.offset
  finalJournalSequence := work.position.sequence
  queryId := none
  templateId := none
  errorDomain := none
  errorCode := 0
  errorClass := none
  errorMessage := none

def auditEntry (work : Work) : Except ServiceError Entry :=
  match encodePayload (auditFields work) with
  | .error error => .error (.audit error)
  | .ok payload => .ok ⟨.daemonAuditRecorded, payload⟩

/-- The next record: an entry of the request, or the audit record behind the last of them. -/
def Work.nextEntry (work : Work) : Except ServiceError Entry :=
  match work.entries[work.appended]? with
  | some request => requestEntry request
  | none => auditEntry work

/-- What a request has come to by one more record. The answer names the last fact, not the audit record. -/
inductive Turn where
  | more (work : Work)
  | answered (result : Except ServiceError Position)

def Work.onAppend (work : Work) (position : Position) : Turn :=
  if work.appended < work.entries.length then
    .more { work with appended := work.appended + 1, position }
  else .answered (.ok work.position)

/-- One append of `handle_authorized_fact_mutation` or `handle_authorized_fact_batch_import`. -/
def Work.turn (sha : Sha256) (work : Work) (journal : JournalState) (w : Writer) (disk : Disk) :
    JournalState × Turn :=
  match work.nextEntry with
  | .error error => (journal, .answered (.error error))
  | .ok entry =>
    match journal.append sha w entry disk with
    | (journal', .error error) => (journal', .answered (.error (.append error)))
    | (journal', .ok position) => (journal', work.onAppend position)

/-! ## The daemon -/

/-- The journal and the request that holds `mutation_route_mutex`, if it is one of these; `acknowledged` are the
    requests that were answered with success so far. -/
structure Daemon where
  journal : JournalState
  route : Option Work
  acknowledged : List Work

def Daemon.onTurn (daemon : Daemon) (work : Work) : JournalState × Turn → Daemon
  | (journal, .more work') => ⟨journal, some work', daemon.acknowledged⟩
  | (journal, .answered (.ok _)) => ⟨journal, none, daemon.acknowledged ++ [work]⟩
  | (journal, .answered (.error _)) => ⟨journal, none, daemon.acknowledged⟩

/-- What the rest of the daemon appends: no fact mutations, and audit records of queries only. -/
structure Foreign (entry : Entry) : Prop where
  event : isFactMutation entry.eventType = false
  audit : entry.eventType = .daemonAuditRecorded → ∃ fields, DaemonAuditPayload.Fits fields ∧
    usesV2 fields.operation = true ∧ encodePayload fields = .ok entry.payload

/-- One append, or a request's entry, or what happens to the process. The refresh of derived views after a request
    counts among the rest: it appends to the journal, and its failures are only logged. -/
inductive Step (sha : Sha256) : Daemon → Daemon → Prop where
  | mutation (daemon : Daemon) (identity : RequestIdentity) (request : FactMutation) (work : Work)
      (hfree : daemon.route = none) (hchecked : handleIdentity identity request = .ok work) :
      Step sha daemon { daemon with route := some work }
  | batchImport (daemon : Daemon) (identity : RequestIdentity) (request : BatchImportRequest) (work : Work)
      (hfree : daemon.route = none) (hchecked : handleBatchIdentity identity request = .ok work) :
      Step sha daemon { daemon with route := some work }
  | turn (daemon : Daemon) (work : Work) (w : Writer) (disk : Disk) (hroute : daemon.route = some work)
      (hwriter : daemon.journal.writer = some w) :
      Step sha daemon (daemon.onTurn work (work.turn sha daemon.journal w disk))
  | foreign (daemon : Daemon) (entry : Entry) (w : Writer) (disk : Disk) (hentry : Foreign entry)
      (hwriter : daemon.journal.writer = some w) :
      Step sha daemon { daemon with journal := (daemon.journal.append sha w entry disk).1 }
  | maintain (daemon : Daemon) (journal : JournalState) (hstep : Maintain sha daemon.journal journal) :
      Step sha daemon ⟨journal, none, daemon.acknowledged⟩

inductive Reachable (sha : Sha256) : Daemon → Prop where
  | initial : Reachable sha ⟨.initial, none, []⟩
  | step {daemon daemon' : Daemon} (h : Reachable sha daemon) (hstep : Step sha daemon daemon') :
      Reachable sha daemon'

/-! ## What the journal shows -/

/-- A request as its payload spells it. -/
def journaled (request : FactMutation) : FactMutation :=
  { request with arguments := request.arguments.take (countArguments request.arguments) }

/-- The record of one entry of a request. -/
def RecordOf (record : Record) (request : FactMutation) : Prop :=
  record.eventType = mutationEvent request.kind ∧ decodeRequest record.payload = .ok (journaled request)

def facts (records : List Record) : List Record := records.filter fun record => isFactMutation record.eventType

def positionOf (record : Record) : Position := ⟨record.offset, record.sequence⟩

/-- A request that has passed its checks. -/
structure Allowed (work : Work) : Prop where
  caller : work.identity.callerIdentity = some (.literal "trusted-tool")
  scope : ∃ scopeId, work.scopeId = some scopeId ∧ work.identity.accountIdentity = some scopeId ∧
    ∀ entry ∈ work.entries, entry.scopeId = scopeId
  entries : work.entries ≠ [] ∧ work.entries.length ≤ maxEntries
  operation : (work.operation = .singleFactMutation ∧ ∃ request, work.entries = [request] ∧
      work.predicateId = some request.predicateId) ∨
    work.operation = .factBatchImport ∧ work.predicateId = none

/-- `audit` is the audit record of `work`, and the facts of `work` are the last ones before it, in their order and
    with no other fact between them. -/
structure Audits (before : List Record) (audit : Record) (work : Work) : Prop where
  event : audit.eventType = .daemonAuditRecorded
  payload : decodePayload audit.payload = .ok (auditFields work)
  facts : ∃ older found, facts before = older ++ found ∧ List.Forall₂ RecordOf found work.entries ∧
    found.getLast?.map positionOf = some work.position

/-- `record`, behind the records `before`, claims no change of facts that was not made as it says. -/
structure Fair (before : List Record) (record : Record) : Prop where
  audit : ∀ payload, record.eventType = .daemonAuditRecorded → decodePayload record.payload = .ok payload →
    usesV2 payload.operation = false → ∃ work, Allowed work ∧ payload = auditFields work ∧ Audits before record work
  fact : isFactMutation record.eventType = true → ∃ request, RecordOf record request

def Sound (records : List Record) : Prop :=
  ∀ before record after, records = before ++ record :: after → Fair before record

/-- The audit record of `work` is among the first `k`. -/
def Kept (records : List Record) (k : ℕ) (work : Work) : Prop :=
  ∃ before audit after, records = before ++ audit :: after ∧ before.length < k ∧ Audits before audit work

/-- The entries that `work` has appended are the last facts there are. -/
structure Underway (records : List Record) (work : Work) : Prop where
  appended : work.appended ≤ work.entries.length
  position : work.position.offset < 2 ^ 64 ∧ work.position.sequence < 2 ^ 64
  facts : ∃ older found, facts records = older ++ found ∧
    List.Forall₂ RecordOf found (work.entries.take work.appended) ∧
    (found.getLast?.map positionOf).getD ⟨0, 0⟩ = work.position

section
variable {records : List Record} {record : Record} {work : Work} {k k' : ℕ}

lemma facts_concat_fact (h : isFactMutation record.eventType = true) :
    facts (records ++ [record]) = facts records ++ [record] := by
  simp only [facts, List.filter_append, List.filter_cons, h, if_true, List.filter_nil]

lemma facts_concat_other (h : isFactMutation record.eventType = false) :
    facts (records ++ [record]) = facts records := by
  rw [facts, List.filter_append, List.filter_cons_of_neg (by simp only [h, Bool.false_eq_true, not_false_eq_true])]
  exact List.append_nil _

/-- Where a record of a longer journal stands. -/
lemma split_concat {before after : List Record} {found : Record}
    (h : records ++ [record] = before ++ found :: after) :
    (before = records ∧ found = record) ∨ ∃ rest, records = before ++ found :: rest := by
  rcases List.eq_nil_or_concat after with rfl | ⟨rest, last, rfl⟩
  · obtain ⟨hbefore, hlast⟩ := List.append_inj' h rfl
    exact .inl ⟨hbefore.symm, (List.singleton_injective hlast).symm⟩
  · refine .inr ⟨rest, ?_⟩
    rw [List.concat_eq_append, ← List.cons_append, ← List.append_assoc] at h
    exact (List.append_inj' h rfl).1

theorem Sound.concat (h : Sound records) (hfair : Fair records record) : Sound (records ++ [record]) := by
  intro before found after hsplit
  rcases split_concat hsplit with ⟨rfl, rfl⟩ | ⟨rest, hrest⟩
  · exact hfair
  · exact h before found rest hrest

theorem Sound.take (h : Sound records) (n : ℕ) : Sound (records.take n) := by
  intro before found after hsplit
  refine h before found (after ++ records.drop n) ?_
  rw [← List.cons_append, ← List.append_assoc, ← hsplit, List.take_append_drop]

theorem Sound.facts (h : Sound records) : ∀ record ∈ facts records, ∃ request, RecordOf record request := by
  intro record hmem
  obtain ⟨hmem, hevent⟩ := List.mem_filter.mp hmem
  obtain ⟨before, after, hsplit⟩ := List.append_of_mem hmem
  exact (h before record after hsplit).fact hevent

theorem Kept.concat (h : Kept records k work) (hk : k ≤ k') : Kept (records ++ [record]) k' work := by
  obtain ⟨before, audit, after, rfl, hlt, haudits⟩ := h
  exact ⟨before, audit, after ++ [record], by rw [List.append_assoc, List.cons_append], by omega, haudits⟩

theorem Kept.take (h : Kept records k work) {n : ℕ} (hn : k ≤ n) : Kept (records.take n) k work := by
  obtain ⟨before, audit, after, rfl, hlt, haudits⟩ := h
  refine ⟨before, audit, after.take (n - before.length - 1), ?_, hlt, haudits⟩
  rw [List.take_append, List.take_of_length_le (by omega)]
  obtain ⟨m, hm⟩ : ∃ m, n - before.length = m + 1 := ⟨n - before.length - 1, by omega⟩
  rw [hm, List.take_succ_cons, Nat.add_sub_cancel]

/-- Records of other threads do not come between a request and its facts. -/
theorem Underway.concat_other (h : Underway records work) (hevent : isFactMutation record.eventType = false) :
    Underway (records ++ [record]) work := by
  refine ⟨h.appended, h.position, ?_⟩
  rw [facts_concat_other hevent]
  exact h.facts

theorem Underway.concat_fact (h : Underway records work) {request : FactMutation}
    (hnext : work.entries[work.appended]? = some request) (hrecord : RecordOf record request)
    (hevent : isFactMutation record.eventType = true)
    (hposition : record.offset < 2 ^ 64 ∧ record.sequence < 2 ^ 64) :
    Underway (records ++ [record]) { work with appended := work.appended + 1, position := positionOf record } := by
  obtain ⟨older, found, hfacts, hall, -⟩ := h.facts
  obtain ⟨hlt, hget⟩ := List.getElem?_eq_some_iff.mp hnext
  refine ⟨hlt, hposition, older, found ++ [record], ?_, ?_, ?_⟩
  · rw [facts_concat_fact hevent, hfacts, List.append_assoc]
  · change List.Forall₂ RecordOf (found ++ [record]) (work.entries.take (work.appended + 1))
    rw [List.take_succ_eq_append_getElem hlt, hget]
    exact List.rel_append hall (.cons hrecord .nil)
  · rw [List.getLast?_concat]
    rfl

/-- All the entries are there. -/
theorem Underway.audits (h : Underway records work) (hnext : work.entries[work.appended]? = none)
    (hentries : work.entries ≠ []) (hevent : record.eventType = .daemonAuditRecorded)
    (hpayload : decodePayload record.payload = .ok (auditFields work)) : Audits records record work := by
  obtain ⟨older, found, hfacts, hall, hlast⟩ := h.facts
  rw [List.take_of_length_le (List.getElem?_eq_none_iff.mp hnext)] at hall
  have hfound : found ≠ [] := by
    rintro rfl
    exact hentries (List.forall₂_nil_left_iff.mp hall)
  refine ⟨hevent, hpayload, older, found, hfacts, hall, ?_⟩
  rw [List.getLast?_eq_some_getLast hfound] at hlast ⊢
  exact congrArg some hlast

end

/-! ## What a request appends -/

section
variable {request : FactMutation} {entry : Entry} {work : Work}

lemma mutationEvent_isFactMutation (kind : FactMutationKind) : isFactMutation (mutationEvent kind) = true := by
  cases kind <;> rfl

lemma validateArguments_take {arguments : List CString}
    (h : FactMutationPayload.validateArguments arguments = .ok ()) (n : ℕ) :
    FactMutationPayload.validateArguments (arguments.take n) = .ok () := by
  induction arguments generalizing n with
  | nil =>
    rw [List.take_nil]
    exact h
  | cons argument arguments ih =>
    cases n with
    | zero => rfl
    | succ n =>
      simp only [FactMutationPayload.validateArguments, ite_error_eq_ok, List.take_succ_cons] at h ⊢
      exact ⟨h.1, h.2.1, ih h.2.2 n⟩

/-- What `count_arguments` does not count is not in the payload. -/
theorem encodeRequest_journaled {payload : GBytes} (h : encodeRequest request = .ok payload) :
    encodeRequest (journaled request) = .ok payload := by
  have hcount : countArguments (journaled request).arguments = countArguments request.arguments := by
    have hle : countArguments request.arguments ≤ request.arguments.length := Nat.mod_le _ _
    have hlt : countArguments request.arguments < 2 ^ 32 := Nat.mod_lt _ (by decide)
    change (request.arguments.take (countArguments request.arguments)).length % 2 ^ 32 = _
    rw [List.length_take, Nat.min_eq_left hle, Nat.mod_eq_of_lt hlt]
  have htake : (journaled request).arguments.take (countArguments request.arguments) =
      request.arguments.take (countArguments request.arguments) := by
    change (request.arguments.take _).take _ = _
    rw [List.take_take, Nat.min_self]
  have hlayout : FactMutationPayload.layout (journaled request) = FactMutationPayload.layout request := by
    simp only [FactMutationPayload.layout, hcount, htake]
    rfl
  simp only [encodeRequest, bind_eq_ok, hcount, htake, hlayout] at h ⊢
  obtain ⟨_, hinit, _, hlengths, hdata⟩ := h
  refine ⟨journaled request, ?_, (), hlengths, hdata⟩
  simp only [FactMutationPayload.requestInit, bind_eq_ok, Except.ok.injEq] at hinit ⊢
  obtain ⟨_, hpredicate, _, hscope, _, harguments, -⟩ := hinit
  exact ⟨(), hpredicate, (), hscope, (), validateArguments_take harguments _, trivial⟩

theorem recordOf_requestEntry (h : requestEntry request = .ok entry) (offset sequence : ℕ) :
    RecordOf (recordOf entry offset sequence) request := by
  rw [requestEntry] at h
  cases hencode : encodeRequest request with
  | error error =>
    rw [hencode] at h
    cases h
  | ok payload =>
    rw [hencode] at h
    cases h
    refine ⟨rfl, FactMutationPayload.decode_encode (encodeRequest_journaled hencode) ?_⟩
    have hlt : countArguments request.arguments < 2 ^ 32 := Nat.mod_lt _ (by decide)
    exact (List.length_take_le _ _).trans_lt hlt

lemma requestEntry_event (h : requestEntry request = .ok entry) : isFactMutation entry.eventType = true := by
  rw [← mutationEvent_isFactMutation request.kind]
  exact congrArg isFactMutation (recordOf_requestEntry h 0 0).1

lemma kept_auditFields (hmutation : usesV2 work.operation.code = false) :
    DaemonAuditPayload.kept (auditFields work) = auditFields work := by
  have hoperation : usesV2 (auditFields work).operation = false := hmutation
  rw [DaemonAuditPayload.kept, hoperation, if_neg Bool.false_ne_true]
  rfl

lemma Allowed.usesV2 (h : Allowed work) : usesV2 work.operation.code = false := by
  rcases h.operation with ⟨hsingle, -⟩ | ⟨hbatch, -⟩
  · rw [hsingle]
    rfl
  · rw [hbatch]
    rfl

theorem payload_auditEntry (hallowed : Allowed work)
    (hposition : work.position.offset < 2 ^ 64 ∧ work.position.sequence < 2 ^ 64)
    (h : auditEntry work = .ok entry) : entry.eventType = .daemonAuditRecorded ∧ decodePayload entry.payload.data = .ok (auditFields work) := by
  rw [auditEntry] at h
  cases hencode : encodePayload (auditFields work) with
  | error error =>
    rw [hencode] at h
    cases h
  | ok payload =>
    rw [hencode] at h
    cases h
    have hcount := hallowed.entries.2
    rw [maxEntries] at hcount
    have hfits : DaemonAuditPayload.Fits (auditFields work) := by
      refine ⟨?_, hposition, ?_⟩
      · change work.entries.length < 2 ^ 64
        omega
      · change -2 ^ 31 ≤ (0 : ℤ) ∧ (0 : ℤ) < 2 ^ 31
        decide
    refine ⟨rfl, ?_⟩
    obtain ⟨hvalid, hstrings, hdata, -⟩ := DaemonAuditPayload.encodePayload_eq_ok.mp hencode
    refine DaemonAuditPayload.decodePayload_eq_ok.mpr
      ⟨_, DaemonAuditPayload.spelled_wireOf hfits hvalid hstrings, hvalid, ?_, hdata⟩
    rw [DaemonAuditPayload.fieldsOf_wireOf hfits, kept_auditFields hallowed.usesV2]

/-- The audit record of a query is never taken for one of a change of facts. -/
theorem Foreign.not_mutation (h : Foreign entry) (hevent : entry.eventType = .daemonAuditRecorded) {payload : Fields}
    (hpayload : decodePayload entry.payload.data = .ok payload) : usesV2 payload.operation = true := by
  obtain ⟨fields, hfits, hquery, hencode⟩ := h.audit hevent
  obtain ⟨hvalid, hstrings, hdata, -⟩ := DaemonAuditPayload.encodePayload_eq_ok.mp hencode
  have hdecode : decodePayload entry.payload.data = .ok (DaemonAuditPayload.kept fields) :=
    DaemonAuditPayload.decodePayload_eq_ok.mpr ⟨_, DaemonAuditPayload.spelled_wireOf hfits hvalid hstrings,
      (DaemonAuditPayload.validatePayload_kept fields).trans hvalid, DaemonAuditPayload.fieldsOf_wireOf hfits,
      hdata⟩
  rw [hpayload, Except.ok.injEq, DaemonAuditPayload.kept, if_pos hquery] at hdecode
  rwa [hdecode]

/-! ## The checks -/

lemma authorize_eq_ok {identity : RequestIdentity} {scopeId : Option CString} {caller scope : String} {u : Unit}
    (h : authorize identity scopeId caller scope = .ok u) :
    identity.callerIdentity = some (.literal "trusted-tool") ∧
      ∃ account, scopeId = some account ∧ identity.accountIdentity = some account := by
  simp only [authorize, ite_error_eq_ok, not_or, not_not, Bool.not_eq_false] at h
  obtain ⟨hclass, ⟨haccount, hscope⟩, -⟩ := h
  refine ⟨?_, ?_⟩
  · have htrusted : classifyName identity.callerIdentity = .trustedTool := by
      cases hname : classifyName identity.callerIdentity <;> rw [hname] at hclass <;> first | rfl | cases hclass
    rw [classifyName] at htrusted
    split at htrusted
    · cases htrusted
    · split at htrusted
      · assumption
      · split at htrusted
        · cases htrusted
        · split at htrusted
          · cases htrusted
          · split at htrusted <;> cases htrusted
  · cases hid : identity.accountIdentity with
    | none => exact absurd hid haccount
    | some account => exact ⟨account, by rw [← hscope, hid], rfl⟩

lemma validateEntries_eq_ok {scopeId : CString} {entries : List FactMutation} {u : Unit}
    (h : validateEntries scopeId entries = .ok u) : ∀ entry ∈ entries, entry.scopeId = scopeId := by
  induction entries with
  | nil => simp
  | cons entry entries ih =>
    simp only [validateEntries, bind_eq_ok, validateEntryScope, ite_error_eq_ok, not_not] at h
    obtain ⟨_, ⟨-, hscope, -⟩, _, -, hrest⟩ := h
    exact List.forall_mem_cons.mpr ⟨hscope, ih hrest⟩

theorem handleIdentity_allowed {identity : RequestIdentity} (h : handleIdentity identity request = .ok work) :
    Allowed work ∧ work.appended = 0 ∧ work.position = ⟨0, 0⟩ := by
  simp only [handleIdentity, bind_eq_ok, Except.ok.injEq] at h
  obtain ⟨_, hauthorized, _, -, rfl⟩ := h
  obtain ⟨hcaller, account, hscope, haccount⟩ := authorize_eq_ok hauthorized
  refine ⟨⟨hcaller, ⟨account, hscope, haccount, ?_⟩, ⟨List.cons_ne_nil _ _, ?_⟩, .inl ⟨rfl, request, rfl, rfl⟩⟩,
    rfl, rfl⟩
  · rw [List.forall_mem_singleton]
    exact Option.some.inj hscope
  · change 1 ≤ maxEntries
    decide

theorem handleBatchIdentity_allowed {identity : RequestIdentity} {request : BatchImportRequest}
    (h : handleBatchIdentity identity request = .ok work) :
    Allowed work ∧ work.appended = 0 ∧ work.position = ⟨0, 0⟩ := by
  simp only [handleBatchIdentity, bind_eq_ok, Except.ok.injEq] at h
  obtain ⟨_, hvalid, _, hauthorized, _, -, _, -, rfl⟩ := h
  obtain ⟨hcaller, account, hscope, haccount⟩ := authorize_eq_ok hauthorized
  obtain ⟨entries, scopeId⟩ := request
  cases entries with
  | none => cases hvalid
  | some entries =>
    obtain rfl : scopeId = some account := hscope
    simp only [validateBatch, ite_error_eq_ok, Option.getD_some, not_lt] at hvalid
    obtain ⟨hne, hcount, -, hentries⟩ := hvalid
    exact ⟨⟨hcaller, ⟨account, rfl, haccount, validateEntries_eq_ok hentries⟩, ⟨hne, hcount⟩, .inr ⟨rfl, rfl⟩⟩,
      rfl, rfl⟩

end

/-! ## The invariant -/

section
variable {sha : Sha256} {daemon daemon' : Daemon} {es : List Entry} {k : ℕ}

/-- The records of a journal that holds the entries `es`. -/
abbrev recordsOfAll (es : List Entry) : List Record := recordsOf 0 1 es

def nextRecord (es : List Entry) (entry : Entry) : Record := recordOf entry (totalSize es) (es.length + 1)

lemma recordsOfAll_concat (es : List Entry) (entry : Entry) :
    recordsOfAll (es ++ [entry]) = recordsOfAll es ++ [nextRecord es entry] := by
  rw [recordsOfAll, recordsOf_append, Nat.zero_add, Nat.add_comm 1]
  rfl

lemma recordsOfAll_take (es : List Entry) (n : ℕ) : recordsOfAll (es.take n) = (recordsOfAll es).take n := by
  have hsplit := recordsOf_append 0 1 (es.take n) (es.drop n)
  rw [List.take_append_drop] at hsplit
  by_cases hn : n ≤ es.length
  · have hlength : (recordsOf 0 1 (es.take n)).length = n := by
      rw [recordsOf_length, List.length_take, Nat.min_eq_left hn]
    change recordsOf 0 1 (es.take n) = (recordsOf 0 1 es).take n
    rw [hsplit, List.take_left' hlength]
  · rw [List.take_of_length_le (by omega), List.take_of_length_le (by rw [recordsOf_length]; omega)]

lemma no_route {P : Work → Prop} : ∀ work, none = some work → P work := fun _ hnone => by cases hnone

/-- What holds of the daemon and the entries `es` of its journal, of which a crash leaves the first `k`. -/
structure Inv (sha : Sha256) (daemon : Daemon) (es : List Entry) (k : ℕ) : Prop where
  holds : Holds sha daemon.journal es k
  sound : Sound (recordsOfAll es)
  route : ∀ work, daemon.route = some work → Allowed work ∧ Underway (recordsOfAll es) work
  acknowledged : ∀ work ∈ daemon.acknowledged, Allowed work ∧ Kept (recordsOfAll es) k work

lemma inv_initial (sha : Sha256) : Inv sha ⟨.initial, none, []⟩ [] 0 where
  holds := holds_initial sha
  sound := fun before record after h => absurd (congrArg List.length h) (by simp [recordsOf])
  route := fun _ h => by cases h
  acknowledged := by simp

/-- A request that has passed its checks has the lock and has appended nothing. -/
theorem Inv.enter (h : Inv sha daemon es k) {work : Work} (hallowed : Allowed work)
    (hstart : work.appended = 0 ∧ work.position = ⟨0, 0⟩) :
    Inv sha { daemon with route := some work } es k := by
  refine ⟨h.holds, h.sound, ?_, h.acknowledged⟩
  rintro _ ⟨⟩
  refine ⟨hallowed, ?_, ?_, facts (recordsOfAll es), [], (List.append_nil _).symm, ?_, ?_⟩
  · rw [hstart.1]
    exact Nat.zero_le _
  · rw [hstart.2]
    decide
  · rw [hstart.1]
    exact .nil
  · rw [hstart.2]
    rfl

/-- The acknowledged requests and the journal, after one record more. -/
theorem Inv.concat (h : Inv sha daemon es k) {entry : Entry} {journal : JournalState} {k' : ℕ} (hk : k ≤ k')
    (hholds : Holds sha journal (es ++ [entry]) k') (hfair : Fair (recordsOfAll es) (nextRecord es entry))
    {route : Option Work} (hroute : ∀ work, route = some work → Allowed work ∧
      Underway (recordsOfAll es ++ [nextRecord es entry]) work) :
    Inv sha ⟨journal, route, daemon.acknowledged⟩ (es ++ [entry]) k' where
  holds := hholds
  sound := by
    rw [recordsOfAll_concat]
    exact h.sound.concat hfair
  route := by
    rw [recordsOfAll_concat]
    exact hroute
  acknowledged := by
    rw [recordsOfAll_concat]
    exact fun work hmem => ⟨(h.acknowledged work hmem).1, (h.acknowledged work hmem).2.concat hk⟩

/-- An append that failed, with the record or without. -/
theorem Inv.fail (h : Inv sha daemon es k) {entry : Entry} {journal : JournalState}
    (hholds : Holds sha journal es k ∨ Holds sha journal (es ++ [entry]) k)
    (hfair : Fair (recordsOfAll es) (nextRecord es entry)) :
    ∃ es' k', Inv sha ⟨journal, none, daemon.acknowledged⟩ es' k' := by
  rcases hholds with hsame | hlonger
  · exact ⟨es, k, hsame, h.sound, no_route, h.acknowledged⟩
  · exact ⟨_, k, h.concat le_rfl hlonger hfair no_route⟩

theorem fair_request {request : FactMutation} {entry : Entry} (h : requestEntry request = .ok entry) :
    Fair (recordsOfAll es) (nextRecord es entry) where
  audit := by
    intro _ htype
    change entry.eventType = .daemonAuditRecorded at htype
    have hevent := requestEntry_event h
    rw [htype] at hevent
    cases hevent
  fact := fun _ => ⟨request, recordOf_requestEntry h _ _⟩

theorem fair_audit {work : Work} {record : Record} (hallowed : Allowed work)
    (haudits : Audits (recordsOfAll es) record work) : Fair (recordsOfAll es) record where
  audit := by
    intro payload _ hfound _
    rw [haudits.payload, Except.ok.injEq] at hfound
    exact ⟨work, hallowed, hfound.symm, haudits⟩
  fact := by
    intro hmutation
    rw [haudits.event] at hmutation
    cases hmutation

theorem fair_foreign {entry : Entry} (h : Foreign entry) : Fair (recordsOfAll es) (nextRecord es entry) where
  audit := by
    intro payload hevent hpayload hmutation
    rw [h.not_mutation hevent hpayload] at hmutation
    cases hmutation
  fact := by
    intro hmutation
    change isFactMutation entry.eventType = true at hmutation
    rw [h.event] at hmutation
    cases hmutation

lemma Holds.position_lt {s : JournalState} {entry : Entry} (h : Holds sha s (es ++ [entry]) k) :
    totalSize es < 2 ^ 64 ∧ es.length + 1 < 2 ^ 64 := by
  have hcount := h.file.length_lt
  rw [List.length_append, List.length_singleton] at hcount
  have hsize := s.segment.size_le
  have hbytes : totalSize (es ++ [entry]) ≤ s.segment.bytes.length := by
    cases h.file with
    | intact himage => rw [himage, image_length]
    | torn e n hpos hn himage =>
      rw [himage, List.length_append, image_length]
      exact Nat.le_add_right _ _
  rw [totalSize_append] at hbytes
  rw [maxOffset] at hsize
  omega

theorem Inv.turn (h : Inv sha daemon es k) {work : Work} {w : Writer} (disk : Disk)
    (hroute : daemon.route = some work) (hwriter : daemon.journal.writer = some w) :
    ∃ es' k', Inv sha (daemon.onTurn work (work.turn sha daemon.journal w disk)) es' k' := by
  obtain ⟨hallowed, hunderway⟩ := h.route work hroute
  have hk : k ≤ es.length + 1 := h.holds.synced_le.trans (Nat.le_succ _)
  rw [Work.turn]
  cases hnext : work.nextEntry with
  | error error => exact ⟨es, k, h.holds, h.sound, no_route, h.acknowledged⟩
  | ok entry =>
    rw [Work.nextEntry] at hnext
    cases hrequest : work.entries[work.appended]? with
    | some request =>
      -- one more entry of the request
      rw [hrequest] at hnext
      have hlt : work.appended < work.entries.length := (List.getElem?_eq_some_iff.mp hrequest).1
      have hfair : Fair (recordsOfAll es) (nextRecord es entry) := fair_request hnext
      rcases h.holds.append hwriter entry disk with ⟨s', hs', hnew⟩ | ⟨s', error, hs', hnew⟩
      · simp only [hs', Work.onAppend, if_pos hlt, Daemon.onTurn]
        refine ⟨_, _, h.concat hk hnew hfair ?_⟩
        rintro _ ⟨⟩
        exact ⟨⟨hallowed.caller, hallowed.scope, hallowed.entries, hallowed.operation⟩,
          hunderway.concat_fact hrequest (recordOf_requestEntry hnext _ _) (requestEntry_event hnext)
            (Holds.position_lt hnew)⟩
      · simp only [hs', Daemon.onTurn]
        exact h.fail hnew hfair
    | none =>
      -- all the entries are there, and `entry` is the audit record
      rw [hrequest] at hnext
      obtain ⟨hevent, hpayload⟩ := payload_auditEntry hallowed hunderway.position hnext
      have haudits : Audits (recordsOfAll es) (nextRecord es entry) work :=
        hunderway.audits hrequest hallowed.entries.1 hevent hpayload
      have hfair : Fair (recordsOfAll es) (nextRecord es entry) := fair_audit hallowed haudits
      have hlast : ¬work.appended < work.entries.length := Nat.not_lt.mpr (List.getElem?_eq_none_iff.mp hrequest)
      rcases h.holds.append hwriter entry disk with ⟨s', hs', hnew⟩ | ⟨s', error, hs', hnew⟩
      · simp only [hs', Work.onAppend, if_neg hlast, Daemon.onTurn]
        have hinv := h.concat hk hnew hfair no_route
        refine ⟨_, _, hinv.holds, hinv.sound, no_route, ?_⟩
        rw [List.forall_mem_append]
        refine ⟨hinv.acknowledged, List.forall_mem_singleton.mpr ⟨hallowed, ?_⟩⟩
        refine ⟨recordsOfAll es, _, [], recordsOfAll_concat es entry, ?_, haudits⟩
        rw [recordsOf_length]
        exact Nat.lt_succ_self _
      · simp only [hs', Daemon.onTurn]
        exact h.fail hnew hfair

theorem Inv.foreign (h : Inv sha daemon es k) {entry : Entry} {w : Writer} (disk : Disk) (hentry : Foreign entry)
    (hwriter : daemon.journal.writer = some w) :
    ∃ es' k', Inv sha { daemon with journal := (daemon.journal.append sha w entry disk).1 } es' k' := by
  have hfair : Fair (recordsOfAll es) (nextRecord es entry) := fair_foreign hentry
  have hunderway : ∀ work, daemon.route = some work → Allowed work ∧
      Underway (recordsOfAll es ++ [nextRecord es entry]) work :=
    fun work hroute => ⟨(h.route work hroute).1, (h.route work hroute).2.concat_other hentry.event⟩
  rcases h.holds.append hwriter entry disk with ⟨s', hs', hnew⟩ | ⟨s', error, hs', hsame | hlonger⟩
  · simp only [hs']
    exact ⟨_, _, h.concat (h.holds.synced_le.trans (Nat.le_succ _)) hnew hfair hunderway⟩
  · simp only [hs']
    exact ⟨es, k, hsame, h.sound, h.route, h.acknowledged⟩
  · simp only [hs']
    exact ⟨_, _, h.concat le_rfl hlonger hfair hunderway⟩

theorem Inv.maintain (h : Inv sha daemon es k) {journal : JournalState}
    (hstep : Maintain sha daemon.journal journal) : ∃ es' k', Inv sha ⟨journal, none, daemon.acknowledged⟩ es' k' := by
  obtain ⟨n, hkn, -, hholds⟩ := h.holds.maintain hstep
  refine ⟨_, _, hholds, ?_, no_route, ?_⟩
  · rw [recordsOfAll_take]
    exact h.sound.take n
  · intro work hmem
    rw [recordsOfAll_take]
    exact ⟨(h.acknowledged work hmem).1, (h.acknowledged work hmem).2.take hkn⟩

theorem Inv.step (h : Inv sha daemon es k) (hstep : Step sha daemon daemon') :
    ∃ es' k', Inv sha daemon' es' k' := by
  cases hstep with
  | mutation identity request work hfree hchecked =>
    obtain ⟨hallowed, hstart⟩ := handleIdentity_allowed hchecked
    exact ⟨es, k, h.enter hallowed hstart⟩
  | batchImport identity request work hfree hchecked =>
    obtain ⟨hallowed, hstart⟩ := handleBatchIdentity_allowed hchecked
    exact ⟨es, k, h.enter hallowed hstart⟩
  | turn work w disk hroute hwriter => exact h.turn disk hroute hwriter
  | foreign entry w disk hentry hwriter => exact h.foreign disk hentry hwriter
  | maintain journal hmaintain => exact h.maintain hmaintain

theorem Reachable.inv (h : Reachable sha daemon) : ∃ es k, Inv sha daemon es k := by
  induction h with
  | initial => exact ⟨[], 0, inv_initial sha⟩
  | step _ hstep ih =>
    obtain ⟨es, k, hinv⟩ := ih
    exact hinv.step hstep

end

/-! ## Every run -/

/-- Every audit record of a change of facts vouches for the facts right before it, and every request that was
    answered with success still has its facts and its audit record. -/
structure Safe (sha : Sha256) (daemon : Daemon) : Prop where
  journal : Sound (records sha daemon.journal)
  acknowledged : ∀ work ∈ daemon.acknowledged, Allowed work ∧ ∃ before audit after,
    records sha daemon.journal = before ++ audit :: after ∧ Audits before audit work

section
variable {sha : Sha256} {daemon : Daemon}

/-- Whatever the other threads append meanwhile, whichever appends fail, and wherever the machine stops. -/
theorem audit_trail (h : Reachable sha daemon) : Safe sha daemon := by
  obtain ⟨es, k, hinv⟩ := h.inv
  have hrecords : records sha daemon.journal = recordsOfAll es := hinv.holds.records
  refine ⟨hrecords ▸ hinv.sound, fun work hmem => ?_⟩
  obtain ⟨hallowed, before, audit, after, hsplit, -, haudits⟩ := hinv.acknowledged work hmem
  exact ⟨hallowed, before, audit, after, hrecords.trans hsplit, haudits⟩

end

/-! One insert, from a fresh journal to its answer. -/

def aliceTool : RequestIdentity :=
  ⟨some (.literal "r1"), none, some (.literal "trusted-tool"), some (.literal "alice"), none⟩

def urgentWork : Work :=
  { operation := .singleFactMutation, identity := aliceTool, scopeId := some (.literal "alice")
    predicateId := some (.literal "urgent"), entries := [FactReplay.urgentFact .insert], appended := 0
    position := ⟨0, 0⟩ }

def freshDaemon : Daemon := ⟨⟨.empty, 0, some ⟨1, 0, false⟩⟩, none, []⟩

def workingDaemon : Daemon := { freshDaemon with route := some urgentWork }

def writtenDaemon : Daemon :=
  workingDaemon.onTurn urgentWork
    (urgentWork.turn JournalCrash.sha256 workingDaemon.journal ⟨1, 0, false⟩ .synced)

def writtenWork : Work := { urgentWork with appended := 1, position := ⟨0, 1⟩ }

def lastWriter : Writer := writtenDaemon.journal.writer.getD ⟨0, 0, false⟩

def answeredDaemon : Daemon :=
  writtenDaemon.onTurn writtenWork (writtenWork.turn JournalCrash.sha256 writtenDaemon.journal lastWriter .synced)

lemma answeredDaemon_reachable : Reachable JournalCrash.sha256 answeredDaemon := by
  have hstarted : Reachable JournalCrash.sha256 freshDaemon :=
    .step .initial (.maintain _ _ (.start _ ⟨.empty, ⟨1, 0, false⟩⟩ rfl rfl))
  have hchecked : handleIdentity aliceTool (FactReplay.urgentFact .insert) = .ok urgentWork := rfl
  have hworking : Reachable JournalCrash.sha256 workingDaemon :=
    hstarted.step (.mutation freshDaemon _ _ _ rfl hchecked)
  have hroute : writtenDaemon.route = some writtenWork := rfl
  have hwriter : writtenDaemon.journal.writer = some lastWriter := rfl
  have hwritten : Reachable JournalCrash.sha256 writtenDaemon :=
    hworking.step (.turn workingDaemon urgentWork _ .synced rfl rfl)
  exact hwritten.step (.turn writtenDaemon writtenWork lastWriter .synced hroute hwriter)

theorem audit_trail_answered : answeredDaemon.acknowledged = [writtenWork] ∧
    Safe JournalCrash.sha256 answeredDaemon :=
  ⟨rfl, audit_trail answeredDaemon_reachable⟩

/-! ## What a reader makes of the facts -/

open FactSnapshot (Active Mirrors loadRecord loadActive sortedRecords)
open FactReplay (factId turnsOf)
open SwitchReplay (Switch IsOn)

/-- The mutations of a journal with their positions. -/
def factLog (records : List Record) : List (FactMutation × Position) :=
  (facts records).filterMap fun record => (decodeRequest record.payload).toOption.map fun request =>
    (request, positionOf record)

/-- The kind of the last mutation of a fact. -/
def lastKind (log : List (FactMutation × Position)) (id : Catalog.FactId) : Option FactMutationKind :=
  (log.filter fun entry => factId entry.1 = id).getLast?.map fun entry => entry.1.kind

section
variable {sha : Sha256} {daemon : Daemon}

lemma isOn_replay (log : List (FactMutation × Position)) (id : Catalog.FactId) :
    IsOn (SwitchReplay.replay (turnsOf log id) (none : Switch Position)) ↔ lastKind log id = some .insert := by
  rw [turnsOf, lastKind]
  generalize log.filter (fun entry => factId entry.1 = id) = turns
  rcases List.eq_nil_or_concat turns with rfl | ⟨turns, ⟨mutation, position⟩, rfl⟩
  · simp [SwitchReplay.replay, IsOn]
  · rw [List.concat_eq_append, List.map_append, SwitchReplay.replay_append, List.getLast?_concat, Option.map_some,
      Option.some.injEq]
    change IsOn (SwitchReplay.turn _ (decide (mutation.kind = .insert), position)) ↔ mutation.kind = .insert
    cases mutation.kind with
    | insert => exact iff_of_true (SwitchReplay.isOn_turn_on _ _) rfl
    | retract => exact iff_of_false (SwitchReplay.not_isOn_turn_off _ _) (by simp)

lemma factLog_cons_other {record : Record} {rest : List Record} (h : isFactMutation record.eventType = false) :
    factLog (record :: rest) = factLog rest := by
  simp only [factLog, facts, List.filter_cons, h, Bool.false_eq_true, if_false]

lemma factLog_cons_fact {record : Record} {rest : List Record} {request : FactMutation}
    (h : isFactMutation record.eventType = true) (hdecode : decodeRequest record.payload = .ok request) :
    factLog (record :: rest) = (request, positionOf record) :: factLog rest := by
  simp only [factLog, facts, List.filter_cons, h, if_true, List.filterMap_cons, hdecode]
  rfl

/-- The loop of `load_active` gets through a journal of the daemon. -/
theorem load_sound {records : List Record}
    (hfacts : ∀ record ∈ facts records, ∃ request, RecordOf record request)
    (hsequences : ∀ record ∈ records, record.sequence ≠ 0) {active : Active}
    {switches : Catalog.FactId → Switch Position} (hmirrors : Mirrors active switches) :
    ∃ active', records.foldlM loadRecord active = .ok active' ∧
      Mirrors active' fun id => SwitchReplay.replay (turnsOf (factLog records) id) (switches id) := by
  induction records generalizing active switches with
  | nil => exact ⟨active, rfl, hmirrors⟩
  | cons record rest ih =>
    rw [List.forall_mem_cons] at hsequences
    rw [List.foldlM_cons]
    cases hevent : isFactMutation record.eventType with
    | false =>
      have hrest : ∀ other ∈ facts rest, ∃ request, RecordOf other request := by
        intro other hmem
        refine hfacts other ?_
        rw [facts, List.filter_cons, hevent, if_neg Bool.false_ne_true]
        exact hmem
      have hload : loadRecord active record = .ok active := by
        rw [loadRecord, hevent, if_neg Bool.false_ne_true]
      rw [hload, factLog_cons_other hevent]
      exact ih hrest hsequences.2 hmirrors
    | true =>
      have hfiltered : facts (record :: rest) = record :: facts rest := by
        rw [facts, List.filter_cons, hevent, if_pos rfl]
        rfl
      rw [hfiltered, List.forall_mem_cons] at hfacts
      obtain ⟨⟨request, htype, hdecode⟩, hrest⟩ := hfacts
      have hvalid := FactMutationPayload.decodeRequest_valid hdecode
      obtain ⟨active₁, hfirst, hmirrors₁⟩ := @FactSnapshot.Mirrors.apply active switches (journaled request)
        (positionOf record) hmirrors hvalid hsequences.1
      have hload : loadRecord active record = .ok active₁ := by
        rw [loadRecord, hevent, if_pos rfl, FactSnapshot.applyFactMutationRecord, hdecode]
        exact (if_neg (not_not.mpr htype)).trans hfirst
      obtain ⟨active', hrun, hmirrors'⟩ := ih hrest hsequences.2 hmirrors₁
      rw [hload]
      refine ⟨active', hrun, ?_⟩
      have hlog : ∀ id, turnsOf (factLog (record :: rest)) id =
          turnsOf [(journaled request, positionOf record)] id ++ turnsOf (factLog rest) id := by
        intro id
        rw [factLog_cons_fact hevent hdecode]
        exact FactSnapshot.turnsOf_append [(journaled request, positionOf record)] _ id
      simp only [hlog, SwitchReplay.replay_append]
      exact hmirrors'

lemma mem_sortedRecords {active : Active} {fact : FactRecord} :
    fact ∈ sortedRecords active ↔ ∃ key, (key, fact) ∈ active := by
  rw [sortedRecords, (List.mergeSort_perm _ _).mem_iff, List.mem_map]
  constructor
  · rintro ⟨⟨key, found⟩, hmem, rfl⟩
    exact ⟨key, hmem⟩
  · rintro ⟨key, hmem⟩
    exact ⟨(key, fact), hmem, rfl⟩

lemma recordOf_id {id id' : Catalog.FactId} {since since' : Position}
    (h : FactSnapshot.recordOf id since = FactSnapshot.recordOf id' since') : id = id' := by
  obtain ⟨_, _, _⟩ := id
  obtain ⟨_, _, _⟩ := id'
  simp only [FactSnapshot.recordOf, FactRecord.mk.injEq] at h
  obtain ⟨rfl, rfl, rfl, -⟩ := h
  rfl

/-- No run of the daemon writes a fact that cannot be read: a journal is refused only for its own damage. The
    snapshot lists the facts whose last mutation is an insert, and no others. -/
theorem snapshot_of_run (h : Reachable sha daemon) : ∃ found : List FactRecord,
    loadActive sha (some daemon.journal.segment) =
      (readSegment sha (some daemon.journal.segment)).2.elim (.ok found) (fun error => .error (.read error)) ∧
    (∀ mutation, (∃ since, FactSnapshot.recordOf (factId mutation) since ∈ found) ↔
      lastKind (factLog (records sha daemon.journal)) (factId mutation) = some .insert) ∧
    ∀ fact ∈ found, ∃ mutation since, fact = FactSnapshot.recordOf (factId mutation) since := by
  obtain ⟨es, k, hinv⟩ := h.inv
  have hrecords : records sha daemon.journal = recordsOfAll es := hinv.holds.records
  have hsequences : ∀ record ∈ records sha daemon.journal, record.sequence ≠ 0 :=
    FactSnapshot.readSegment_sequences (some daemon.journal.segment)
  obtain ⟨active, hload, hmirrors⟩ := load_sound (hrecords ▸ hinv.sound.facts) hsequences Mirrors.empty
  refine ⟨sortedRecords active, ?_, fun mutation => ?_, fun fact hfact => ?_⟩
  · have hread : readSegment sha (some daemon.journal.segment) =
        (records sha daemon.journal, (readSegment sha (some daemon.journal.segment)).2) := rfl
    rw [loadActive, hread]
    change (records sha daemon.journal).foldlM loadRecord [] >>= _ = _
    rw [hload]
    cases (readSegment sha (some daemon.journal.segment)).2 with
    | none => rfl
    | some error => rfl
  · rw [← isOn_replay]
    constructor
    · rintro ⟨since, hmem⟩
      obtain ⟨key, hactive⟩ := mem_sortedRecords.mp hmem
      obtain ⟨mutation', since', hon, -, hfact⟩ := (hmirrors.mem_iff _ _).mp hactive
      rw [recordOf_id hfact]
      exact ⟨since', hon⟩
    · rintro ⟨since, hon⟩
      refine ⟨since, mem_sortedRecords.mpr ⟨FactSnapshot.keyOf (factId mutation), ?_⟩⟩
      exact (hmirrors.mem_iff _ _).mpr ⟨mutation, since, hon, rfl, rfl⟩
  · obtain ⟨key, hactive⟩ := mem_sortedRecords.mp hfact
    obtain ⟨mutation, since, -, -, rfl⟩ := (hmirrors.mem_iff _ _).mp hactive
    exact ⟨mutation, since, rfl⟩

end

theorem snapshot_of_run_answered : ∃ found : List FactRecord,
    loadActive JournalCrash.sha256 (some answeredDaemon.journal.segment) =
      (readSegment JournalCrash.sha256 (some answeredDaemon.journal.segment)).2.elim (.ok found)
        (fun error => .error (.read error)) ∧
    ∀ fact ∈ found, ∃ mutation since, fact = FactSnapshot.recordOf (factId mutation) since := by
  obtain ⟨found, hload, -, hfacts⟩ := snapshot_of_run answeredDaemon_reachable
  exact ⟨found, hload, hfacts⟩

end Wyrebox.FactMutationService
