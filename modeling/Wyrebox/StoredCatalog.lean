import Wyrebox.CatalogReads
import Wyrebox.CatalogRuns

set_option autoImplicit false

/-!
# The rows of a reached catalog

The reads see the tables of all accounts as lists of rows. For one account these are the rows that
the daemon's transactions left.
-/
namespace Wyrebox.StoredCatalog
open Catalog CatalogRuns CatalogReads
open DovecotSync (Kind)

def namespaceOf (kind : Kind) (id : CString) : Namespace :=
  match kind with
  | .ordinary => .mailbox id
  | .virtual => .derivedView id

def mailboxBox (mailbox : Mailbox) : Box :=
  ⟨mailbox.mailboxId, mailbox.imapName, mailbox.isSelectable, mailbox.isVisible⟩

def viewBox (view : DerivedViewMaterializer.DerivedView) : Box :=
  ⟨view.viewId, view.imapName, view.isSelectable, view.isVisible⟩

def boxesOf (w : World) (account : CString) : Kind → List Box
  | .ordinary => (w.tables account).mailboxes.map mailboxBox
  | .virtual => (w.views account).map viewBox

def ordinaryMember (row : Membership) : Member :=
  ⟨row.membershipId, row.mailboxId, row.messageId, row.uid, row.isVisible, none⟩

def derivedMember (row : DerivedMembership) : Member :=
  ⟨row.membershipId, row.viewId, row.messageId, row.uid, row.isVisible, some row.ruleVersionHash⟩

def membersOf (t : AccountTables) : Kind → List Member
  | .ordinary => t.memberships.map ordinaryMember
  | .virtual => t.derived.map derivedMember

/-- The account's rows are those of the world. -/
structure Stores (c : CatalogRows) (w : World) (account : CString) : Prop where
  boxes : ∀ kind box, ⟨account, box⟩ ∈ c.boxes kind ↔ box ∈ boxesOf w account kind
  members : ∀ kind member, ⟨account, member⟩ ∈ c.members kind ↔ member ∈ membersOf (w.tables account) kind
  uidStates : ∀ row : UidStateRow, ⟨account, row⟩ ∈ c.uidStates ↔
    (w.tables account).uidState (namespaceOf row.kind row.namespaceId) = some ⟨row.uidnext, row.uidvalidity⟩
  messages : ∀ row : MessageRow, ⟨account, row⟩ ∈ c.messages ↔
    ∃ position, (w.tables account).messages row.messageId = some ⟨row.objectId, position⟩
  objects : ∀ object, object ∈ c.objects ↔ ∃ size, w.catalog.objects object = some size

lemma mem_owned {α : Type} {account : CString} {rows : List α} {row : α} :
    (⟨account, row⟩ : Owned α) ∈ rows.map (Owned.mk account) ↔ row ∈ rows := by
  rw [List.mem_map]
  exact ⟨fun ⟨_, hrow, heq⟩ => (Owned.mk.inj heq).2 ▸ hrow, fun hrow => ⟨row, hrow, rfl⟩⟩

/-- A table of one row. -/
lemma update_eq_some {K V : Type} [DecidableEq K] {k k' : K} {v v' : V} :
    Function.update (fun _ => none) k (some v) k' = some v' ↔ k' = k ∧ v' = v := by
  rw [Function.update_apply]
  split
  · rename_i hk
    rw [Option.some.injEq, and_iff_right hk]
    exact eq_comm
  · rename_i hk
    simp [hk]

section
variable {seed : Provisioned} {c : CatalogRows} {w : World} {account : CString} {kind : Kind}

lemma Stores.mem_boxes (h : Stores c w account) {box : Owned Box} (hbox : box ∈ c.boxes kind)
    (haccount : box.accountId = account) : box.row ∈ boxesOf w account kind := by
  subst haccount
  exact (h.boxes kind box.row).mp hbox

lemma Stores.mem_members (h : Stores c w account) {member : Owned Member} (hmember : member ∈ c.members kind)
    (haccount : member.accountId = account) : member.row ∈ membersOf (w.tables account) kind := by
  subst haccount
  exact (h.members kind member.row).mp hmember

lemma Stores.mem_uidStates (h : Stores c w account) {state : Owned UidStateRow} (hstate : state ∈ c.uidStates)
    (haccount : state.accountId = account) :
    (w.tables account).uidState (namespaceOf state.row.kind state.row.namespaceId) =
      some ⟨state.row.uidnext, state.row.uidvalidity⟩ := by
  subst haccount
  exact (h.uidStates state.row).mp hstate

lemma Stores.mem_messages (h : Stores c w account) {message : Owned MessageRow} (hmessage : message ∈ c.messages)
    (haccount : message.accountId = account) :
    ∃ position, (w.tables account).messages message.row.messageId = some ⟨message.row.objectId, position⟩ := by
  subst haccount
  exact (h.messages message.row).mp hmessage

/-- Stored UIDs are below the UIDNEXT of their box. -/
lemma membersOf_uid_lt (hsound : Sound seed account (w.catalog.session account) (w.views account)) {member : Member}
    (hmember : member ∈ membersOf (w.tables account) kind) : ∃ state,
    (w.tables account).uidState (namespaceOf kind member.boxId) = some state ∧ member.uid < state.uidnext := by
  cases kind with
  | ordinary =>
    obtain ⟨row, hrow, rfl⟩ := List.mem_map.mp hmember
    exact hsound.wellFormed.uid_lt row hrow
  | virtual =>
    obtain ⟨row, hrow, rfl⟩ := List.mem_map.mp hmember
    exact hsound.assigned.below row hrow

/-- A box has a UID state, but for mailboxes set up outside. -/
lemma boxesOf_uidState (hsound : Sound seed account (w.catalog.session account) (w.views account)) {box : Box}
    (hbox : box ∈ boxesOf w account kind)
    (hkind : kind = .ordinary → ∀ mailbox ∈ seed.ofAccount account, mailbox.mailboxId ≠ box.stableId) :
    ∃ state, (w.tables account).uidState (namespaceOf kind box.stableId) = some state := by
  cases kind with
  | ordinary =>
    obtain ⟨mailbox, hmailbox, rfl⟩ := List.mem_map.mp hbox
    rcases hsound.stored.mailboxes mailbox hmailbox with hseed | hstate
    · exact absurd rfl (hkind rfl mailbox hseed)
    · exact hstate
  | virtual =>
    obtain ⟨view, hview, rfl⟩ := List.mem_map.mp hbox
    exact hsound.views view hview

end
end Wyrebox.StoredCatalog
