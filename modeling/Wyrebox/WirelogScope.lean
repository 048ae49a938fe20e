import Mathlib.Data.List.Lex
import Wyrebox.CString
import Wyrebox.Fallible
import Wyrebox.KeysetPaging
import Wyrebox.RecursiveQuery

set_option autoImplicit false

/-!
# The scope of a view refresh

A refresh evaluates the messages that changed since the last one, with every message that links connect
to them. The scope is read in batches, and a batch never splits a component.
-/
namespace Wyrebox.WirelogScope
open RecursiveQuery Fallible

/-- `VARCHAR` columns are compared by their bytes. -/
instance : LinearOrder CString :=
  LinearOrder.lift' (fun s => s.bytes.map UInt8.toNat) fun _ _ h =>
    CString.ext (List.map_injective_iff.mpr (fun _ _ => UInt8.toNat_inj.mp) h)

def maxGuint64 : ℕ := 2 ^ 64 - 1

/-! ## The tables of an account -/

structure MessageRow where
  messageId : CString
  journalSequence : ℕ
  deriving DecidableEq

/-- `args` is what `parse_args_json` makes of `args_json`. -/
structure FactRow where
  messageId : CString
  predicate : CString
  args : Option (List CString)
  retractedAtUnixUs : ℕ
  journalSequence : ℕ
  deriving DecidableEq

structure MembershipRow where
  messageId : CString
  journalSequence : ℕ
  expungedJournalSequence : Option ℕ
  deriving DecidableEq

/-- Message ids are built from journal positions, and a fact's message id is its first argument; no
    argument is empty. -/
structure Tables where
  messages : List MessageRow
  facts : List FactRow
  memberships : List MembershipRow
  message_id_ne : ∀ row ∈ messages, row.messageId ≠ .empty
  fact_id_ne : ∀ row ∈ facts, ∀ args, row.args = some args → args ≠ [] → row.messageId ≠ .empty

/-- Why a refresh fails before its first batch. -/
inductive ScopeError where
  | malformedArgs
  deriving DecidableEq, Repr

inductive ViewScope where
  | message
  | thread
  deriving DecidableEq, Repr

/-! ## Thread links -/

structure ThreadLink where
  messageId : CString
  linkKey : CString
  deriving DecidableEq

def linkPredicates : List CString := [.literal "message_id", .literal "replies_to", .literal "references"]

/-- The loop over the rows of the query. -/
def threadLinks : List FactRow → Except ScopeError (List ThreadLink)
  | [] => .ok []
  | row :: rows =>
    match row.args with
    | none => .error .malformedArgs
    | some (_ :: key :: _) => do
      let links ← threadLinks rows
      .ok (⟨row.messageId, key⟩ :: links)
    | some _ => threadLinks rows

/-- `fill_thread_links`. Links retracted since the last refresh still connect. -/
def fillThreadLinks (t : Tables) (full : Bool) (since : ℕ) : Except ScopeError (List ThreadLink) :=
  threadLinks (t.facts.filter fun row => row.predicate ∈ linkPredicates ∧
    (row.retractedAtUnixUs = 0 ∨ (if full then maxGuint64 else since) < row.journalSequence))

/-- The `links` of the query: messages with the same key. -/
def linkTargets (links : List ThreadLink) (messageId : CString) : List CString :=
  links.flatMap fun source =>
    if source.messageId = messageId then
      (links.filter fun target => source.linkKey = target.linkKey ∧ source.messageId ≠ target.messageId).map
        ThreadLink.messageId
    else []

/-! ## The scope -/

/-- `REFRESH_CHANGED_MESSAGES`. -/
def changedMessages (t : Tables) (since : ℕ) : List CString :=
  ((t.messages.filter fun row => since < row.journalSequence).map MessageRow.messageId ++
    ((t.facts.filter fun row => since < row.journalSequence).map FactRow.messageId ++
      (t.memberships.filter fun row => since < row.journalSequence ∨ since < row.expungedJournalSequence.getD 0).map
        MembershipRow.messageId)).dedup

/-- `REFRESH_EXISTING_MESSAGE`. -/
def isExisting (t : Tables) (messageId : CString) : Bool := t.messages.any fun row => row.messageId = messageId

/-- The rows of `wirelog_refresh_scope`: component and message. -/
def messageScope (t : Tables) (since : ℕ) : List (CString × CString) :=
  ((changedMessages t since).filter (isExisting t)).map fun messageId => (messageId, messageId)

def reachStep (links : List ThreadLink) (row : CString × CString) : List (CString × CString) :=
  (linkTargets links row.2).map fun target => (row.1, target)

/-- The rows that the recursion can reach. -/
def reachDomain (links : List ThreadLink) (changed : List CString) : List (CString × CString) :=
  changed ×ˢ (changed ++ links.map ThreadLink.messageId)

def reach (links : List ThreadLink) (changed : List CString) : List (CString × CString) :=
  let seeds := (changed.map fun messageId => (messageId, messageId)).dedup
  recursion (reachStep links) ((reachDomain links changed).length + 1) seeds seeds

/-- `thread_scope_sql`. -/
def threadScope (t : Tables) (links : List ThreadLink) (since : ℕ) : List (CString × CString) :=
  let reached := reach links (changedMessages t since)
  ((reached.map Prod.snd).dedup.filter (isExisting t)).filterMap fun messageId =>
    ((reached.filter fun row => row.2 = messageId).map Prod.fst).min?.map fun component => (component, messageId)

/-- `fill_refresh_scope`. -/
def fillRefreshScope (t : Tables) (scope : ViewScope) (full : Bool) (since : ℕ) :
    Except ScopeError (List (CString × CString)) := do
  match scope with
  | .message => .ok (messageScope t (if full then 0 else since))
  | .thread => do
    let links ← fillThreadLinks t full since
    .ok (threadScope t links (if full then 0 else since))

/-! ## Batches -/

/-- `ORDER BY component, message_id`. -/
def rowLe (row other : CString × CString) : Bool := row.1 < other.1 ∨ (row.1 = other.1 ∧ row.2 ≤ other.2)

/-- `next_refresh_batch`: the new cursor and the batch, which is empty at the end. -/
def nextRefreshBatch (scope : List (CString × CString)) (batchSize : ℕ) (cursor : CString) :
    CString × List CString :=
  let page := ((scope.filter fun row => cursor < row.1).mergeSort rowLe).take batchSize
  match page.getLast? with
  | none => (cursor, [])
  | some last =>
    let rest := (scope.filter fun row => row.1 = last.1 ∧ last.2 < row.2).map Prod.snd
    (last.1, page.map Prod.snd ++ rest.mergeSort fun messageId other => messageId ≤ other)

/-- The loop of `refresh_scoped_views`, unless the fuel ends before. -/
def refreshBatches (scope : List (CString × CString)) (batchSize : ℕ) : ℕ → CString → Option (List (List CString))
  | 0, _ => none
  | fuel + 1, cursor =>
    let (cursor, batch) := nextRefreshBatch scope batchSize cursor
    if batch.isEmpty then some [] else (refreshBatches scope batchSize fuel cursor).map (batch :: ·)

end Wyrebox.WirelogScope
