import Wyrebox.Materializer

set_option autoImplicit false

/-!
# The derived view materializer

A refresh brings the rows of one view in line with an evaluated set of members and reports what it
changed. New members get the next UID, members that return keep theirs.
-/
namespace Wyrebox.DerivedViewMaterializer
open Catalog Materializer Event
open JournalRecord (Sha256)

/-! ## Mailbox names -/

/-- The code points of valid UTF-8. Overlong forms, surrogates and numbers past U+10FFFF are not. -/
def decodeUtf8 : List UInt8 → Option (List ℕ)
  | [] => some []
  | a :: bs =>
    if a < 0x80 then (decodeUtf8 bs).map (a.toNat :: ·)
    else
      match bs with
      | b :: bs =>
        if 0xC2 ≤ a ∧ a < 0xE0 then
          if trailing b then (decodeUtf8 bs).map ((a.toNat % 32 * 64 + b.toNat % 64) :: ·) else none
        else
          match bs with
          | c :: bs =>
            let code := a.toNat % 16 * 4096 + b.toNat % 64 * 64 + c.toNat % 64
            if 0xE0 ≤ a ∧ a < 0xF0 then
              if trailing b ∧ trailing c ∧ 0x800 ≤ code ∧ ¬(0xD800 ≤ code ∧ code < 0xE000) then
                (decodeUtf8 bs).map (code :: ·)
              else none
            else
              match bs with
              | d :: bs =>
                let code := a.toNat % 8 * 262144 + b.toNat % 64 * 4096 + c.toNat % 64 * 64 + d.toNat % 64
                if 0xF0 ≤ a ∧ a < 0xF8 ∧ trailing b ∧ trailing c ∧ trailing d ∧ 0x10000 ≤ code ∧
                    code ≤ 0x10FFFF then
                  (decodeUtf8 bs).map (code :: ·)
                else none
              | [] => none
          | [] => none
      | [] => none
where
  trailing (b : UInt8) : Bool := 0x80 ≤ b ∧ b < 0xC0

/-- `g_unichar_iscntrl`. -/
def isCntrl (code : ℕ) : Bool := code < 0x20 ∨ (0x7F ≤ code ∧ code < 0xA0)

def hasEmptySegment : List UInt8 → Bool
  | a :: b :: bs => (a = 47 ∧ b = 47) || hasEmptySegment (b :: bs)
  | _ => false

/-- `wyrebox_derived_view_imap_name_validate_stored`. -/
def validateStored (imapName : CString) : Bool :=
  match decodeUtf8 imapName.bytes with
  | none => false
  | some codes =>
    imapName ≠ .empty ∧ imapName.bytes.head? ≠ some 47 ∧ imapName.bytes.getLast? ≠ some 47 ∧
      codes.all (fun code => !isCntrl code) ∧ 42 ∉ imapName.bytes ∧ 37 ∉ imapName.bytes ∧
      !hasEmptySegment imapName.bytes

/-! ## Requests -/

/-- `WyreboxWirelogDerivedMembership`. -/
structure WirelogMembership where
  viewId : CString
  messageId : CString
  deriving DecidableEq

structure Request where
  accountId : CString
  viewId : CString
  imapName : CString
  definitionRef : CString
  ruleVersionHash : CString
  materializedAtUnixUs : ℕ

/-- A row of `derived_views`. -/
structure DerivedView where
  viewId : CString
  imapName : CString
  definitionRef : CString
  isSelectable : Bool
  isVisible : Bool
  deriving DecidableEq

/-- What a refresh reads and writes: the account's rows and its derived views. -/
structure ViewState where
  session : Session
  views : List DerivedView

inductive RefreshError where
  | accountIdRequired
  | viewIdRequired
  | imapNameInvalid
  | definitionRefRequired
  | ruleVersionHashRequired
  | timestampRequired
  | membershipIncomplete
  | duplicateMembership
  | outsideRefreshedMessages
  | viewMismatch
  | uidStateMissing
  | uidvalidityInvalid
  | uidStateStale
  | membershipOfOtherView
  | membershipMalformed
  | unknownMessage
  | constraint
  deriving DecidableEq, Repr

def validate (c : Prop) [Decidable c] (error : RefreshError) : Except RefreshError Unit :=
  if c then .ok () else .error error

@[simp] lemma validate_eq_ok {c : Prop} [Decidable c] {error : RefreshError} {u : Unit} :
    validate c error = .ok u ↔ c := by
  simp [validate]

/-- A statement of the transaction, which fails on a constraint. -/
def execute {α : Type} (result : Except InvalidData α) : Except RefreshError α :=
  match result with
  | .ok a => .ok a
  | .error _ => .error .constraint

@[simp] lemma execute_eq_ok {α : Type} {result : Except InvalidData α} {a : α} :
    execute result = .ok a ↔ result = .ok a := by
  cases result <;> simp [execute]

def membershipKey (request : Request) (membership : WirelogMembership) : CString :=
  membership.viewId ++ ⟨[31], by decide⟩ ++ membership.messageId ++ ⟨[31], by decide⟩ ++ request.ruleVersionHash

def validateMemberships (request : Request) : List CString → List WirelogMembership → Except RefreshError Unit
  | _, [] => .ok ()
  | seen, membership :: memberships => do
    validate (membership.viewId ≠ .empty ∧ membership.messageId ≠ .empty) .membershipIncomplete
    validate (membershipKey request membership ∉ seen) .duplicateMembership
    validateMemberships request (membershipKey request membership :: seen) memberships

/-- `materializer_validate_inputs`. -/
def validateInputs (request : Request) (memberships : List WirelogMembership) : Except RefreshError Unit := do
  validate (request.accountId ≠ .empty) .accountIdRequired
  validate (request.viewId ≠ .empty) .viewIdRequired
  validate (validateStored request.imapName) .imapNameInvalid
  validate (request.definitionRef ≠ .empty) .definitionRefRequired
  validate (request.ruleVersionHash ≠ .empty) .ruleVersionHashRequired
  validate (request.materializedAtUnixUs ≠ 0) .timestampRequired
  validateMemberships request [] memberships

/-! ## The view and its UID state -/

/-- `materializer_ensure_derived_view`. -/
def ensureDerivedView (request : Request) (views : List DerivedView) : Except RefreshError (List DerivedView) := do
  let wanted := ⟨request.viewId, request.imapName, request.definitionRef, true, true⟩
  let taken := views.any fun view => view.viewId = request.viewId ∨ view.imapName = request.imapName
  let views := if taken then views else views ++ [wanted]
  validate (views.count wanted = 1) .viewMismatch
  .ok views

def bigEndian (bs : List UInt8) : ℕ := bs.foldl (fun n b => n * 256 + b.toNat) 0

/-- The strings with their lengths before them, as both digests take them. -/
def framed (components : List CString) : List UInt8 :=
  components.flatMap fun component =>
    (LittleEndian.encode 8 component.bytes.length).reverse ++ component.bytes

/-- `materializer_generate_uidvalidity`: the first eight hexadecimal digits. -/
def generateUidvalidity (sha : Sha256) (accountId viewId : CString) : ℕ :=
  let uidvalidity := bigEndian ((sha.digest
    (framed [.literal "derived-view-uidvalidity:v1", accountId, viewId])).take 4)
  if uidvalidity = 0 then 1 else uidvalidity

lemma generateUidvalidity_pos (sha : Sha256) (accountId viewId : CString) :
    1 ≤ generateUidvalidity sha accountId viewId := by
  unfold generateUidvalidity
  dsimp only
  split
  · exact le_refl 1
  · rename_i hne
    exact Nat.one_le_iff_ne_zero.mpr hne

def maxViewUid (t : AccountTables) (viewId : CString) : ℕ :=
  ((t.derived.filter fun row => row.viewId = viewId).map DerivedMembership.uid).foldl max 0

/-- `materializer_select_uidnext`. -/
def selectUidnext (t : AccountTables) (viewId : CString) : Except RefreshError UidState :=
  match t.uidState (.derivedView viewId) with
  | none => .error .uidStateMissing
  | some state => do
    validate (state.uidvalidity ≠ 0) .uidvalidityInvalid
    validate (maxViewUid t viewId ≠ maxGuint64 ∧ maxViewUid t viewId + 1 ≤ state.uidnext) .uidStateStale
    .ok state

/-- The first statements of every refresh. -/
def openView (sha : Sha256) (request : Request) (state : ViewState) : Except RefreshError (ViewState × UidState) := do
  let views ← ensureDerivedView request state.views
  let t ← execute (state.session.tables.insertUidState (.derivedView request.viewId)
    ⟨1, generateUidvalidity sha request.accountId request.viewId⟩)
  let uidState ← selectUidnext t request.viewId
  .ok (⟨{ state.session with tables := t }, views⟩, uidState)

/-! ## Rows of the view -/

def hexDigit (n : ℕ) : UInt8 := UInt8.ofNat (if n < 10 then 48 + n else 87 + n)

lemma hexDigit_ne_zero : ∀ n < 16, hexDigit n ≠ 0 := by decide

def hexadecimal (bs : List UInt8) : CString where
  bytes := bs.flatMap fun b => [hexDigit (b.toNat / 16), hexDigit (b.toNat % 16)]
  no_nul := by
    rw [List.mem_flatMap]
    rintro ⟨b, -, hmem⟩
    have hb := b.toNat_lt
    simp only [List.mem_cons, List.not_mem_nil, or_false] at hmem
    rcases hmem with hhigh | hlow
    · exact hexDigit_ne_zero _ (by omega) hhigh.symm
    · exact hexDigit_ne_zero _ (by omega) hlow.symm

/-- `materializer_build_membership_id`. -/
def buildMembershipId (sha : Sha256) (request : Request) (messageId : CString) : CString :=
  .literal "derived-view:sha256:" ++ hexadecimal (sha.digest
    (framed [request.accountId, request.viewId, messageId, request.ruleVersionHash]))

def validateMessageExists (t : AccountTables) (messageId : CString) : Except RefreshError Unit :=
  validate (t.messages messageId ≠ none) .unknownMessage

def hasVisibleOrdinaryMembership (t : AccountTables) (messageId : CString) : Bool :=
  t.memberships.any fun row => row.messageId = messageId ∧ row.isVisible

/-- The rows of the view under the rule version of the request. -/
def inScope (request : Request) (row : DerivedMembership) : Bool :=
  row.viewId = request.viewId ∧ row.ruleVersionHash = request.ruleVersionHash

/-- The rows of the view under other rule versions that are visible. -/
def otherRuleVersion (request : Request) (row : DerivedMembership) : Bool :=
  row.viewId = request.viewId ∧ row.ruleVersionHash ≠ request.ruleVersionHash ∧ row.isVisible

/-- `materializer_select_membership_details`. -/
def selectMembershipDetails (request : Request) (t : AccountTables) (messageId : CString) :
    Except RefreshError (Option DerivedMembership) :=
  match t.derived.filter fun row => inScope request row ∧ row.messageId = messageId with
  | [] => .ok none
  | [row] => .ok (some row)
  | _ => .error .membershipMalformed

/-- `UPDATE derived_view_memberships SET is_visible` where the condition holds. -/
def setVisible (t : AccountTables) (condition : DerivedMembership → Bool) (isVisible : Bool)
    (materializedAtUnixUs : ℕ) : AccountTables :=
  { t with derived := t.derived.map fun row =>
      if condition row then { row with isVisible, materializedAtUnixUs } else row }

/-- `membership_change_new` for a stored row. -/
def changeOf (request : Request) (uidvalidity : ℕ) (isVisible : Bool) (row : DerivedMembership) :
    DerivedViewMembershipChanged where
  accountId := request.accountId
  viewId := request.viewId
  messageId := row.messageId
  membershipId := row.membershipId
  ruleVersionHash := row.ruleVersionHash
  uid := row.uid
  uidvalidity := uidvalidity
  isVisible := isVisible
  materializedAtUnixUs := request.materializedAtUnixUs

def orderedByUid (rows : List DerivedMembership) : List DerivedMembership :=
  rows.insertionSort fun row other => row.uid ≤ other.uid

/-- The order of the rule versions, then of the UIDs. -/
def orderedByRuleAndUid (rows : List DerivedMembership) : List DerivedMembership :=
  rows.insertionSort fun row other =>
    row.ruleVersionHash ≠ other.ruleVersionHash ∧ row.ruleVersionHash.Le other.ruleVersionHash ∨
      row.ruleVersionHash = other.ruleVersionHash ∧ row.uid ≤ other.uid

/-- A refresh under way: the rows, the next UID and the reported changes. -/
structure Refreshing where
  session : Session
  uidnext : ℕ
  changes : List DerivedViewMembershipChanged

def Refreshing.withTables (p : Refreshing) (t : AccountTables) : Refreshing :=
  { p with session := { p.session with tables := t } }

def Refreshing.report (p : Refreshing) (changes : List DerivedViewMembershipChanged) : Refreshing :=
  { p with changes := p.changes ++ changes }

/-- `materializer_insert_membership` with its change and `(*uidnext)++`. -/
def insertMembership (sha : Sha256) (request : Request) (uidvalidity : ℕ) (p : Refreshing)
    (messageId : CString) : Except RefreshError Refreshing :=
  let row : DerivedMembership := ⟨buildMembershipId sha request messageId, request.viewId, messageId, p.uidnext,
    true, request.ruleVersionHash, request.materializedAtUnixUs⟩
  match p.session.derivedOwner.register row.membershipId request.accountId with
  | none => .error .constraint
  | some derivedOwner => do
    let t ← execute (insertDerivedRow p.session.tables row)
    .ok {
      session := { p.session with derivedOwner := derivedOwner, tables := t }
      uidnext := (p.uidnext + 1) % 2 ^ 64
      changes := p.changes ++ [changeOf request uidvalidity true row] }

/-- `materializer_update_uidnext`. -/
def updateUidnext (request : Request) (p : Refreshing) : Except RefreshError Refreshing := do
  let t ← execute (p.session.tables.updateUidnext (.derivedView request.viewId) fun _ => p.uidnext)
  .ok (p.withTables t)

/-! ## Refreshing the whole view -/

/-- The message ids that are members and have a visible ordinary membership. -/
def retainOrdinarilyVisible (t : AccountTables) (memberships : List WirelogMembership) : List CString :=
  (memberships.map WirelogMembership.messageId).filter (hasVisibleOrdinaryMembership t)

def collectHiddenMessageIds (request : Request) (t : AccountTables) : List CString :=
  (t.derived.filter fun row => inScope request row ∧ !row.isVisible).map DerivedMembership.messageId

/-- The visible rows that `materializer_append_stale_hide_changes` reports. -/
def staleRows (request : Request) (incoming : List CString) (t : AccountTables) : List DerivedMembership :=
  (orderedByUid (t.derived.filter fun row => inScope request row ∧ row.isVisible)).filter
    fun row => row.messageId ∉ incoming

/-- `materializer_refresh_membership`. -/
def refreshMembership (sha : Sha256) (request : Request) (uidvalidity : ℕ) (hiddenBefore : List CString)
    (p : Refreshing) (membership : WirelogMembership) : Except RefreshError Refreshing := do
  validate (membership.viewId = request.viewId) .membershipOfOtherView
  validate (membership.messageId ≠ .empty) .membershipIncomplete
  validateMessageExists p.session.tables membership.messageId
  match ← selectMembershipDetails request p.session.tables membership.messageId with
  | some row =>
    if row.isVisible then .ok p
    else
      let p' := p.withTables (setVisible p.session.tables
        (fun row => inScope request row ∧ row.messageId = membership.messageId) true request.materializedAtUnixUs)
      .ok (if membership.messageId ∈ hiddenBefore then p'.report [changeOf request uidvalidity true row] else p')
  | none => insertMembership sha request uidvalidity p membership.messageId

/-- One turn of the loop over the members. -/
def refreshIncoming (sha : Sha256) (request : Request) (uidvalidity : ℕ) (incoming hiddenBefore : List CString)
    (p : Refreshing) (membership : WirelogMembership) : Except RefreshError Refreshing :=
  if membership.messageId ∈ incoming then
    refreshMembership sha request uidvalidity hiddenBefore p membership
  else do
    validateMessageExists p.session.tables membership.messageId
    .ok p

/-- `materializer_append_other_rule_hide_changes` and `materializer_hide_other_rule_versions`. -/
def hideOtherRuleVersions (request : Request) (uidvalidity : ℕ) (p : Refreshing) : Refreshing :=
  let rows := orderedByRuleAndUid (p.session.tables.derived.filter (otherRuleVersion request))
  (p.withTables (setVisible p.session.tables (otherRuleVersion request) false request.materializedAtUnixUs)).report
    (rows.map (changeOf request uidvalidity false))

/-- `materializer_refresh_memberships_with_changes`. -/
def refreshMemberships (sha : Sha256) (request : Request) (hideOthers : Bool) (memberships : List WirelogMembership)
    (state : ViewState) : Except RefreshError (ViewState × List DerivedViewMembershipChanged) := do
  validateInputs request memberships
  let incoming := retainOrdinarilyVisible state.session.tables memberships
  let (state, uidState) ← openView sha request state
  let t := state.session.tables
  let hidden := setVisible t (inScope request) false request.materializedAtUnixUs
  let stale := (staleRows request incoming t).map (changeOf request uidState.uidvalidity false)
  let p ← memberships.foldlM
    (refreshIncoming sha request uidState.uidvalidity incoming (collectHiddenMessageIds request t))
    ⟨{ state.session with tables := hidden }, uidState.uidnext, stale⟩
  let p ← updateUidnext request p
  let p := if hideOthers then hideOtherRuleVersions request uidState.uidvalidity p else p
  .ok (⟨p.session, state.views⟩, p.changes)

/-! ## Refreshing single messages -/

/-- `materializer_set_membership_visibility` for the rows, with their changes. -/
def hideRows (request : Request) (uidvalidity : ℕ) (p : Refreshing) (rows : List DerivedMembership) : Refreshing :=
  rows.foldl (fun p row =>
    (p.withTables (updateDerivedRow p.session.tables row.membershipId false request.materializedAtUnixUs)).report
      [changeOf request uidvalidity false row]) p

/-- `materializer_hide_message_other_rule_versions`. -/
def hideMessageOtherRuleVersions (request : Request) (uidvalidity : ℕ) (messageId : CString) (p : Refreshing) :
    Refreshing :=
  hideRows request uidvalidity p (orderedByUid (p.session.tables.derived.filter fun row =>
    otherRuleVersion request row ∧ row.messageId = messageId))

/-- `materializer_refresh_message`. -/
def refreshMessage (sha : Sha256) (request : Request) (uidvalidity : ℕ) (isMember : Bool) (p : Refreshing)
    (messageId : CString) : Except RefreshError Refreshing := do
  let p := hideMessageOtherRuleVersions request uidvalidity messageId p
  match ← selectMembershipDetails request p.session.tables messageId with
  | some row =>
    if row.isVisible = isMember then .ok p
    else
      .ok ((p.withTables (updateDerivedRow p.session.tables row.membershipId isMember
        request.materializedAtUnixUs)).report [changeOf request uidvalidity isMember row])
  | none =>
    if isMember then do
      validateMessageExists p.session.tables messageId
      insertMembership sha request uidvalidity p messageId
    else .ok p

/-- One turn of the loop over the listed messages. -/
def refreshListed (sha : Sha256) (request : Request) (uidvalidity : ℕ) (members : List CString) (p : Refreshing)
    (messageId : CString) : Except RefreshError Refreshing := do
  (if messageId ∈ members then validateMessageExists p.session.tables messageId else .ok ())
  refreshMessage sha request uidvalidity
    (messageId ∈ members ∧ hasVisibleOrdinaryMembership p.session.tables messageId) p messageId

/-- `wyrebox_derived_view_materializer_refresh_message_memberships_with_changes`. -/
def refreshMessageMemberships (sha : Sha256) (request : Request) (messageIds : List CString)
    (memberships : List WirelogMembership) (state : ViewState) :
    Except RefreshError (ViewState × List DerivedViewMembershipChanged) := do
  validateInputs request memberships
  validate (∀ membership ∈ memberships, membership.viewId = request.viewId ∧ membership.messageId ∈ messageIds)
    .outsideRefreshedMessages
  let (state, uidState) ← openView sha request state
  let p ← messageIds.foldlM
    (refreshListed sha request uidState.uidvalidity (memberships.map WirelogMembership.messageId))
    ⟨state.session, uidState.uidnext, []⟩
  let p ← updateUidnext request p
  .ok (⟨p.session, state.views⟩, p.changes)

/-- The refreshes of a view: all its members under one rule version, the same with every other
    rule version hidden, or the listed messages. -/
inductive RefreshKind where
  | view
  | currentRule
  | messages (messageIds : List CString)

def refresh (sha : Sha256) (request : Request) (kind : RefreshKind) (memberships : List WirelogMembership)
    (state : ViewState) : Except RefreshError (ViewState × List DerivedViewMembershipChanged) :=
  match kind with
  | .view => refreshMemberships sha request false memberships state
  | .currentRule => refreshMemberships sha request true memberships state
  | .messages messageIds => refreshMessageMemberships sha request messageIds memberships state

end Wyrebox.DerivedViewMaterializer
