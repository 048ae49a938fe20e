import Wyrebox.MembershipConservation
import Wyrebox.RowFrames

set_option autoImplicit false

/-!
# What a record writes

Every message, fact and membership that a record makes or changes carries the record's sequence
number afterwards.
-/
namespace Wyrebox.RecordWrites
open Catalog Materializer Event Fallible AccountRows AccountReplay Reapplication RowFrames MembershipConservation
open JournalWriter (Position)

/-! ## Facts -/

/-- Facts are never removed, and a changed row of an account carries the sequence number. -/
structure FactWrites (sequence : ℕ) (facts facts' : FactId → Option Fact) : Prop where
  kept : ∀ id fact, facts id = some fact → ∃ fact', facts' id = some fact' ∧ fact'.accountId = fact.accountId ∧
    fact'.messageId = fact.messageId
  written : ∀ id fact', facts' id = some fact' → facts id = some fact' ∨ fact'.position.sequence = sequence

/-- A fact is stored under the message that its first argument names, and no argument is empty. -/
def Keyed (facts : FactId → Option Fact) : Prop :=
  ∀ id fact, facts id = some fact → fact.messageId = id.args.head?.getD .empty ∧ ∀ arg ∈ id.args, arg ≠ .empty

/-- What the payload decoders check of the facts in a record. -/
def ArgsChecked (record : ProjectionRecord) : Prop :=
  match record.event with
  | .factMutated mutation => ∀ arg ∈ mutation.arguments, arg ≠ .empty
  | .factsExtracted extraction => ∀ fact ∈ extraction.facts, ∀ arg ∈ fact.args, arg ≠ .empty
  | _ => True

section
variable {sequence : ℕ} {facts facts' facts'' : FactId → Option Fact} {id : FactId} {fact : Fact}
  {s s' : Session} {position : Position}

lemma FactWrites.refl (facts : FactId → Option Fact) : FactWrites sequence facts facts :=
  ⟨fun _ fact h => ⟨fact, h, rfl, rfl⟩, fun _ _ h => .inl h⟩

lemma FactWrites.trans (h : FactWrites sequence facts facts') (h' : FactWrites sequence facts' facts'') :
    FactWrites sequence facts facts'' where
  kept := by
    intro id fact hfact
    obtain ⟨fact', hfact', haccount, hmessage⟩ := h.kept id fact hfact
    obtain ⟨fact'', hfact'', haccount', hmessage'⟩ := h'.kept id fact' hfact'
    exact ⟨fact'', hfact'', haccount'.trans haccount, hmessage'.trans hmessage⟩
  written := fun id fact'' h'' => (h'.written id fact'' h'').elim (h.written id fact'') .inr

/-- One row is written at the sequence number. -/
lemma factWrites_set (hsequence : fact.position.sequence = sequence)
    (hsame : ∀ old, facts id = some old → fact.accountId = old.accountId ∧ fact.messageId = old.messageId) :
    FactWrites sequence facts (Function.update facts id (some fact)) where
  kept := by
    intro other old hold
    by_cases hid : other = id
    · subst hid
      exact ⟨fact, Function.update_self .., hsame old hold⟩
    · exact ⟨old, (Function.update_of_ne hid ..).trans hold, rfl, rfl⟩
  written := by
    intro other fact' hfact'
    by_cases hid : other = id
    · subst hid
      rw [Function.update_self, Option.some.injEq] at hfact'
      exact .inr (hfact' ▸ hsequence)
    · exact .inl ((Function.update_of_ne hid ..).symm.trans hfact')

lemma Keyed.set (h : Keyed facts) (hmessage : fact.messageId = id.args.head?.getD .empty)
    (hargs : ∀ arg ∈ id.args, arg ≠ .empty) : Keyed (Function.update facts id (some fact)) := by
  intro other fact' hfact'
  by_cases hid : other = id
  · subst hid
    rw [Function.update_self, Option.some.injEq] at hfact'
    exact ⟨hfact' ▸ hmessage, hargs⟩
  · exact h other fact' ((Function.update_of_ne hid ..).symm.trans hfact')

lemma insertFactRow_writes {account messageId : CString} {confidencePpm : ℕ} (hkeyed : Keyed s.facts)
    (hmessage : messageId = id.args.head?.getD .empty) (hargs : ∀ arg ∈ id.args, arg ≠ .empty) :
    FactWrites position.sequence s.facts (insertFactRow s id account messageId confidencePpm position).facts ∧
      Keyed (insertFactRow s id account messageId confidencePpm position).facts := by
  unfold insertFactRow
  split
  · exact ⟨.refl _, hkeyed⟩
  · rename_i hnone
    exact ⟨factWrites_set rfl fun old hold => by simp [hnone] at hold, hkeyed.set hmessage hargs⟩

lemma insertFact_writes {mutation : FactMutation} (hkeyed : Keyed s.facts) (hid : id.args = mutation.arguments)
    (hargs : ∀ arg ∈ mutation.arguments, arg ≠ .empty) :
    FactWrites position.sequence s.facts (insertFact s id mutation position).facts ∧
      Keyed (insertFact s id mutation position).facts := by
  have hrow : ∀ s₁ : Session, FactWrites position.sequence s.facts s₁.facts → Keyed s₁.facts →
      FactWrites position.sequence s.facts (insertFactRow s₁ id mutation.scopeId
        (mutation.arguments.head?.getD .empty) 1000000 position).facts ∧
      Keyed (insertFactRow s₁ id mutation.scopeId (mutation.arguments.head?.getD .empty) 1000000 position).facts := by
    intro s₁ hwrites hkeyed₁
    obtain ⟨hwrites', hkeyed'⟩ := @insertFactRow_writes id s₁ position mutation.scopeId
      (mutation.arguments.head?.getD .empty) 1000000 hkeyed₁ (by rw [hid]) (hid ▸ hargs)
    exact ⟨hwrites.trans hwrites', hkeyed'⟩
  unfold insertFact
  split
  · rename_i fact hfact
    split
    · refine hrow _ (factWrites_set rfl fun old hold => ?_) (hkeyed.set (hkeyed id fact hfact).1 (hid ▸ hargs))
      obtain rfl := Option.some.inj (hfact.symm.trans hold)
      exact ⟨rfl, rfl⟩
    · exact hrow s (.refl _) hkeyed
  · exact hrow s (.refl _) hkeyed

lemma retractFact_writes (hkeyed : Keyed s.facts) :
    FactWrites position.sequence s.facts (retractFact s id position).facts ∧
      Keyed (retractFact s id position).facts := by
  unfold retractFact
  split
  · rename_i fact hfact
    split
    · refine ⟨factWrites_set rfl fun old hold => ?_, hkeyed.set (hkeyed id fact hfact).1 (hkeyed id fact hfact).2⟩
      obtain rfl := Option.some.inj (hfact.symm.trans hold)
      exact ⟨rfl, rfl⟩
    · exact ⟨.refl _, hkeyed⟩
  · exact ⟨.refl _, hkeyed⟩

lemma insertExtractedFacts_writes {extraction : FactsExtracted} {records : List FactRecord}
    (h : records.foldlM (insertExtractedFact extraction position) s = .ok s') (hkeyed : Keyed s.facts)
    (hargs : ∀ record ∈ records, ∀ arg ∈ record.args, arg ≠ .empty) :
    FactWrites position.sequence s.facts s'.facts ∧ Keyed s'.facts := by
  induction records generalizing s with
  | nil =>
    rw [← Except.ok.inj h]
    exact ⟨.refl _, hkeyed⟩
  | cons record records ih =>
    rw [List.foldlM_cons, bind_eq_ok] at h
    obtain ⟨s₁, hfirst, hrest⟩ := h
    simp only [insertExtractedFact, bind_eq_ok, require_eq_ok] at hfirst
    obtain ⟨-, hhead, heq⟩ := hfirst
    obtain rfl := Except.ok.inj heq
    obtain ⟨hwrites, hkeyed₁⟩ := @insertFactRow_writes ⟨record.predicate, record.source, record.args⟩ s position
      extraction.accountId extraction.messageId record.confidencePpm hkeyed (by rw [hhead]; rfl)
      (hargs record List.mem_cons_self)
    obtain ⟨hwrites', hkeyed'⟩ := ih hrest hkeyed₁ fun other hother => hargs other (List.mem_cons_of_mem _ hother)
    exact ⟨hwrites.trans hwrites', hkeyed'⟩

end

section
variable {seed : Provisioned} {account : CString} {s s' : Session} {record : ProjectionRecord}

lemma ensureObject_facts {stored : MessageRecord} (h : ensureObject s stored = .ok s') : s'.facts = s.facts := by
  obtain ⟨objects, -, rfl⟩ := ensureObject_eq_ok h
  rfl

lemma applyToInbox_facts {deliveries : List (Position × MessageRecord)}
    (h : applyToInbox seed account s deliveries = .ok s') : s'.facts = s.facts := by
  have hfold : ∀ (mailboxId : CString) (deliveries : List (Position × MessageRecord)) (progress progress' : Session × ℕ),
      deliveries.foldlM (applyRecord mailboxId) progress = .ok progress' → progress'.1.facts = progress.1.facts := by
    intro mailboxId deliveries
    induction deliveries with
    | nil =>
      intro progress progress' h
      rw [← Except.ok.inj h]
    | cons delivery deliveries ih =>
      intro progress progress' h
      rw [List.foldlM_cons, bind_eq_ok] at h
      obtain ⟨middle, hfirst, hrest⟩ := h
      refine (ih _ _ hrest).trans ?_
      simp only [applyRecord, bind_eq_ok] at hfirst
      obtain ⟨-, -, s₁, hobject, t₁, -, t₂, -, found, -, hinsert⟩ := hfirst
      have hobjects : s₁.facts = progress.1.facts := ensureObject_facts hobject
      cases found with
      | true =>
        rw [← Except.ok.inj hinsert]
        exact hobjects
      | false =>
        simp only [Bool.false_eq_true, if_false, bind_eq_ok] at hinsert
        obtain ⟨t₃, -, heq⟩ := hinsert
        rw [← Except.ok.inj heq]
        exact hobjects
  simp only [applyToInbox, applyInTransaction, bind_eq_ok] at h
  obtain ⟨mailboxId, -, t₁, -, t₂, -, uidnext, -, ⟨s₁, uidnext'⟩, hdeliveries, t₃, -, heq⟩ := h
  rw [← Except.ok.inj heq]
  exact hfold _ _ _ _ hdeliveries

lemma applyMessageAppended_facts {append : MessageAppended} {position : Position}
    (h : applyMessageAppended seed s append position = .ok s') : s'.facts = s.facts := by
  simp only [applyMessageAppended, bind_eq_ok] at h
  obtain ⟨t₁, -, s₁, hobject, t₂, -, t₃, -, t₄, -, heq⟩ := h
  obtain ⟨objects, -, rfl⟩ := ensureObject_eq_ok hobject
  rw [← Except.ok.inj heq]

lemma map_tables_facts {result : Except InvalidData AccountTables}
    (h : (result.map fun t => { s with tables := t }) = .ok s') : s'.facts = s.facts := by
  cases result with
  | error e => simp [Except.map] at h
  | ok t =>
    rw [← Except.ok.inj h]

lemma applyMembershipChange_facts {change : DerivedViewMembershipChanged}
    (h : applyMembershipChange s change = .ok s') : s'.facts = s.facts := by
  simp only [applyMembershipChange, bind_eq_ok] at h
  obtain ⟨-, -, s₁, hupsert, t, -, heq⟩ := h
  rw [← Except.ok.inj heq]
  unfold upsertViewMembership at hupsert
  split at hupsert
  · simp at hupsert
  · split at hupsert
    · simp only [bind_eq_ok] at hupsert
      obtain ⟨-, -, heq⟩ := hupsert
      rw [← Except.ok.inj heq]
    · simp only [bind_eq_ok] at hupsert
      obtain ⟨t₁, -, heq⟩ := hupsert
      rw [← Except.ok.inj heq]

/-- Only fact records write facts. -/
theorem apply_facts (hkeyed : Keyed s.facts) (hargs : ArgsChecked record) (h : apply seed account s record = .ok s') :
    FactWrites record.position.sequence s.facts s'.facts ∧ Keyed s'.facts := by
  have hsame : s'.facts = s.facts → FactWrites record.position.sequence s.facts s'.facts ∧ Keyed s'.facts := by
    intro heq
    rw [heq]
    exact ⟨.refl _, hkeyed⟩
  obtain ⟨position, event⟩ := record
  cases event with
  | messageDelivered delivery => exact hsame (applyToInbox_facts h)
  | flagChanged change => exact hsame (@map_tables_facts s s' (applyFlagChange s.tables change position) h)
  | factMutated mutation =>
    change applyFactMutation s mutation position = .ok s' at h
    simp only [applyFactMutation, bind_eq_ok] at h
    obtain ⟨-, -, h⟩ := h
    split at h
    · rw [← Except.ok.inj h]
      exact insertFact_writes hkeyed rfl hargs
    · rw [← Except.ok.inj h]
      exact retractFact_writes hkeyed
  | factsExtracted extraction =>
    change applyFactsExtracted s extraction position = .ok s' at h
    simp only [applyFactsExtracted, bind_eq_ok] at h
    obtain ⟨-, -, h⟩ := h
    split at h
    · exact hsame (by rw [← Except.ok.inj h])
    · have hwrites := insertExtractedFacts_writes h hkeyed hargs
      exact hwrites
  | derivedViewMembershipChanged change => exact hsame (applyMembershipChange_facts h)
  | membershipsExpunged expunge =>
    exact hsame (@map_tables_facts s s' (applyMembershipsExpunged s.tables expunge position) h)
  | membershipsCopied copy =>
    exact hsame (@map_tables_facts s s' (applyMembershipsCopied false s.tables copy position) h)
  | membershipsMoved move =>
    exact hsame (@map_tables_facts s s' (applyMembershipsCopied true s.tables move position) h)
  | messageAppended append => exact hsame (applyMessageAppended_facts h)

/-! ## All that a record writes -/

/-- The rows of a session after a record that is no membership change of a view. -/
structure Writes (sequence : ℕ) (s s' : Session) : Prop where
  facts : FactWrites sequence s.facts s'.facts
  messages : s.tables.messages.Within s'.tables.messages
  stored : ∀ messageId message, s'.tables.messages messageId = some message →
    s.tables.messages messageId = some message ∨ (message.position.sequence = sequence ∧ messageId ≠ .empty)
  memberships : ∀ row ∈ s.tables.memberships, row ∈ s'.tables.memberships ∨
    ∃ row' ∈ s'.tables.memberships, row'.messageId = row.messageId ∧
      ∃ position, row'.expunged = some position ∧ position.sequence = sequence
  written : ∀ row' ∈ s'.tables.memberships, row' ∈ s.tables.memberships ∨ row'.position.sequence = sequence ∨
    ∃ position, row'.expunged = some position ∧ position.sequence = sequence
  derived : s'.tables.derived = s.tables.derived

lemma journalMessageId_ne_empty (position : Position) : journalMessageId position ≠ .empty := by
  intro h
  have hbytes : JournalRecord.ascii "journal:" ++ _ = [] := congrArg CString.bytes h
  have hnil : JournalRecord.ascii "journal:" = [] := (List.append_eq_nil_iff.mp hbytes).1
  exact absurd hnil (by decide)

lemma rows_store {t t' : AccountTables} (hchange : ∀ change, record.event ≠ .derivedViewMembershipChanged change)
    (h : rows seed account t record = .ok t') :
    t'.derived = t.derived ∧ ∀ messageId message, t'.messages messageId = some message →
      t.messages messageId = some message ∨
        (message.position = record.position ∧ messageId = journalMessageId message.position) := by
  have hstore : StoreFrame [record.position] t t' → t'.derived = t.derived ∧ ∀ messageId message,
      t'.messages messageId = some message → t.messages messageId = some message ∨
        (message.position = record.position ∧ messageId = journalMessageId message.position) := by
    intro hstore
    refine ⟨hstore.derived, fun messageId message hmessage => ?_⟩
    exact (hstore.messages messageId message hmessage).imp_right fun hnew => ⟨List.mem_singleton.mp hnew.1, hnew.2⟩
  obtain ⟨position, event⟩ := record
  cases event with
  | messageDelivered delivery => exact hstore (deliverRows_store h)
  | flagChanged change =>
    obtain ⟨flags, rfl⟩ := applyFlagChange_frame h
    exact hstore (.of_eq rfl rfl rfl)
  | factMutated mutation =>
    change mutationRows t mutation position = .ok t' at h
    simp only [mutationRows, bind_eq_ok] at h
    obtain ⟨-, -, heq⟩ := h
    obtain rfl := Except.ok.inj heq
    exact hstore (.of_eq rfl rfl rfl)
  | factsExtracted extraction =>
    change extractionRows t extraction position = .ok t' at h
    simp only [extractionRows, bind_eq_ok] at h
    obtain ⟨-, -, h⟩ := h
    split at h
    · obtain rfl := Except.ok.inj h
      exact hstore (.of_eq rfl rfl rfl)
    · simp only [bind_eq_ok] at h
      obtain ⟨-, -, heq⟩ := h
      obtain rfl := Except.ok.inj heq
      exact ⟨rfl, fun _ _ hmessage => .inl hmessage⟩
  | derivedViewMembershipChanged change => exact absurd rfl (hchange change)
  | membershipsExpunged expunge =>
    obtain ⟨memberships, rfl⟩ := expunged_frame h
    exact hstore (.of_eq rfl rfl rfl)
  | membershipsCopied copy =>
    obtain ⟨memberships, uidState, flags, rfl⟩ := copied_frame h
    exact hstore (.of_eq rfl rfl rfl)
  | membershipsMoved move =>
    obtain ⟨memberships, uidState, flags, rfl⟩ := copied_frame h
    exact hstore (.of_eq rfl rfl rfl)
  | messageAppended append => exact hstore (appendRows_store h)

/-- What a record makes or changes carries its sequence number. -/
theorem apply_writes (hdecoded : Decoded record) (hargs : ArgsChecked record) (hw : WellFormed s.tables)
    (hkeyed : Keyed s.facts) (hchange : ∀ change, record.event ≠ .derivedViewMembershipChanged change)
    (h : apply seed account s record = .ok s') :
    Writes record.position.sequence s s' ∧ WellFormed s'.tables ∧ Keyed s'.facts ∧ SharedWithin s s' := by
  obtain ⟨hrows, hshared, -⟩ := apply_rows h
  obtain ⟨hfacts, hkeyed'⟩ := apply_facts hkeyed hargs h
  obtain ⟨hw', hextends⟩ := rows_progress hdecoded hw hrows
  obtain ⟨hderived, hstored⟩ := rows_store hchange hrows
  refine ⟨⟨hfacts, hextends.messages, fun messageId message hmessage => ?_, fun row hrow => ?_, ?_, hderived⟩, hw',
    hkeyed', hshared⟩
  · refine (hstored messageId message hmessage).imp_right fun hnew => ⟨by rw [hnew.1], ?_⟩
    rw [hnew.2]
    exact journalMessageId_ne_empty _
  · obtain ⟨row', hrow', rfl | ⟨-, -, rfl⟩⟩ := hextends.memberships row hrow
    · exact .inl hrow'
    · exact .inr ⟨_, hrow', rfl, record.position, rfl, rfl⟩
  · have hstart : Everywhere (fun row => row ∈ s.tables.memberships ∨
        row.position.sequence = record.position.sequence ∨
        ∃ position, row.expunged = some position ∧ position.sequence = record.position.sequence) s.tables :=
      fun row hrow => .inl hrow
    refine hstart.rows ⟨fun row hposition _ _ => .inr (.inl (by rw [hposition])), fun row _ => ?_⟩ hdecoded hw hrows
    exact .inr (.inr ⟨record.position, rfl, rfl⟩)

end
end Wyrebox.RecordWrites
