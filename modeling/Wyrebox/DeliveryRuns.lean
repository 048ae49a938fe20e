import Wyrebox.FirstApplication

set_option autoImplicit false

/-!
# Runs of deliveries

A run of deliveries in one transaction writes what its deliveries write one after the other, so
where a pass starts a run does not matter.
-/
namespace Wyrebox.DeliveryRuns
open Catalog Materializer Catchup Fallible AccountRows AccountReplay Reapplication FirstApplication
open JournalWriter (Position)

def deliverAll (mailboxId : CString) (progress : AccountTables × ℕ)
    (deliveries : List (Position × MessageRecord)) : Except InvalidData (AccountTables × ℕ) :=
  deliveries.foldlM (fun progress delivery => deliverMembership mailboxId progress.1 progress.2 delivery)
    progress

section
variable {seed : Provisioned} {account mailboxId : CString} {t t' : AccountTables} {uidnext uidnext' : ℕ}
  {delivery : Position × MessageRecord} {deliveries : List (Position × MessageRecord)}

lemma setUidState_setUidState (ns : Namespace) (state state' : UidState) :
    (t.setUidState ns state).setUidState ns state' = t.setUidState ns state' := by
  simp only [AccountTables.setUidState, Function.update_idem]

/-- Deliveries leave the UID state, and a counter that was zero stays zero. -/
lemma deliverMembership_frame (h : deliverMembership mailboxId t uidnext delivery = .ok (t', uidnext')) :
    t'.uidState = t.uidState ∧ t'.mailboxes = t.mailboxes ∧ (1 ≤ uidnext' → 1 ≤ uidnext) ∧
      ∀ ns state, deliverMembership mailboxId (t.setUidState ns state) uidnext delivery =
        .ok (t'.setUidState ns state, uidnext') := by
  obtain ⟨position, record⟩ := delivery
  simp only [deliverMembership, bind_eq_ok] at h ⊢
  obtain ⟨u, hkey, t₁, hmessage, t₂, hheaders, found, hfound, h⟩ := h
  obtain ⟨messages, hmessages, rfl⟩ := ensureMessage_eq_ok hmessage
  obtain ⟨headers, hheaders', rfl⟩ := ensureMessageHeaders_eq_ok hheaders
  have hstart : ∀ ns state,
      ensureMessage (t.setUidState ns state) position record =
        .ok ({ t with messages := messages }.setUidState ns state) ∧
      ensureMessageHeaders ({ t with messages := messages }.setUidState ns state) position record =
        .ok ({ t with messages := messages, headers := headers }.setUidState ns state) := by
    intro ns state
    refine ⟨?_, ?_⟩
    · rw [ensureMessage, show (t.setUidState ns state).messages = t.messages from rfl, hmessages]
      rfl
    · have hkept : (AccountTables.setUidState { t with messages := messages } ns state).headers = t.headers := rfl
      rw [ensureMessageHeaders, hkept, hheaders']
      rfl
  cases found with
  | true =>
    cases h
    exact ⟨rfl, rfl, id, fun ns state => ⟨u, hkey, _, (hstart ns state).1, _, (hstart ns state).2, true,
      hfound, rfl⟩⟩
  | false =>
    simp only [Bool.false_eq_true, if_false, bind_eq_ok] at h
    obtain ⟨t₃, hinsert, heq⟩ := h
    cases heq
    obtain ⟨hone, -, rfl⟩ := insertMembershipRow_eq_ok hinsert
    refine ⟨rfl, rfl, fun _ => hone, fun ns state => ⟨u, hkey, _, (hstart ns state).1, _,
      (hstart ns state).2, false, hfound, ?_⟩⟩
    simp only [Bool.false_eq_true, if_false, bind_eq_ok]
    refine ⟨_, ?_, rfl⟩
    simp only [insertMembership, AccountTables.insertMembershipRow, bind_eq_ok] at hinsert ⊢
    obtain ⟨u', hguard, -⟩ := hinsert
    exact ⟨u', hguard, rfl⟩

lemma deliverAll_frame (h : deliverAll mailboxId (t, uidnext) deliveries = .ok (t', uidnext')) :
    t'.uidState = t.uidState ∧ (1 ≤ uidnext' → 1 ≤ uidnext) ∧
      ∀ ns state, deliverAll mailboxId (t.setUidState ns state, uidnext) deliveries =
        .ok (t'.setUidState ns state, uidnext') := by
  induction deliveries generalizing t uidnext with
  | nil =>
    cases h
    exact ⟨rfl, id, fun _ _ => rfl⟩
  | cons delivery deliveries ih =>
    rw [deliverAll, List.foldlM_cons, bind_eq_ok] at h
    obtain ⟨⟨t₁, uidnext₁⟩, hfirst, hrest⟩ := h
    obtain ⟨hstate, -, hpos, hset⟩ := deliverMembership_frame hfirst
    obtain ⟨hstate', hpos', hset'⟩ := ih hrest
    refine ⟨hstate'.trans hstate, fun hone => hpos (hpos' hone), fun ns state => ?_⟩
    rw [deliverAll, List.foldlM_cons, bind_eq_ok]
    exact ⟨_, hset ns state, hset' ns state⟩

/-- A counter stored between two deliveries is what the second one starts from. -/
lemma deliverAll_stored {state state' : UidState} (hstate : t.uidState (.mailbox mailboxId) = some state)
    (hvalidity : state'.uidvalidity = state.uidvalidity) :
    (∃ p : AccountTables × ℕ, deliverAll mailboxId (t.setUidState (.mailbox mailboxId) state', uidnext)
        deliveries = .ok p ∧ p.1.updateUidnext (.mailbox mailboxId) (fun _ => p.2) = .ok t') ↔
      ∃ p : AccountTables × ℕ, deliverAll mailboxId (t, uidnext) deliveries = .ok p ∧
        p.1.updateUidnext (.mailbox mailboxId) (fun _ => p.2) = .ok t' := by
  have hupdate : ∀ (s : AccountTables) (n : ℕ), s.uidState (.mailbox mailboxId) = some state →
      (s.setUidState (.mailbox mailboxId) state').updateUidnext (.mailbox mailboxId) (fun _ => n) =
        s.updateUidnext (.mailbox mailboxId) fun _ => n := by
    intro s n hs
    have hs' : (s.setUidState (.mailbox mailboxId) state').uidState (.mailbox mailboxId) = some state' :=
      Function.update_self ..
    simp only [AccountTables.updateUidnext, hs, hs', setUidState_setUidState, hvalidity]
  have hback : (t.setUidState (.mailbox mailboxId) state').setUidState (.mailbox mailboxId) state = t := by
    rw [setUidState_setUidState, setUidState_self hstate]
  constructor
  · rintro ⟨⟨s, n⟩, hall, hlast⟩
    obtain ⟨hs, -, hset⟩ := deliverAll_frame hall
    have hall' := hset (.mailbox mailboxId) state
    rw [hback] at hall'
    have hsame : s.uidState (.mailbox mailboxId) = some state' := by
      rw [hs]
      exact Function.update_self ..
    refine ⟨_, hall', ?_⟩
    rw [← hupdate _ n (Function.update_self ..), setUidState_setUidState, setUidState_self hsame]
    exact hlast
  · rintro ⟨⟨s, n⟩, hall, hlast⟩
    obtain ⟨hs, -, hset⟩ := deliverAll_frame hall
    refine ⟨_, hset (.mailbox mailboxId) state', ?_⟩
    rw [hupdate s n (by rw [hs]; exact hstate)]
    exact hlast

/-- The UIDNEXT column holds 64 bits. -/
def UidnextFits (t : AccountTables) : Prop := ∀ ns state, t.uidState ns = some state → state.uidnext ≤ maxGuint64

lemma fits_of_wellFormed (hw : WellFormed t) : UidnextFits t := hw.uidnext_le

/-- A delivery that is new takes the next UID. -/
lemma deliverMembership_memberships (h : deliverMembership mailboxId t uidnext delivery = .ok (t', uidnext')) :
    (t'.memberships = t.memberships ∧ uidnext' = uidnext) ∨
      ∃ row : Membership, row.mailboxId = mailboxId ∧ row.uid = uidnext ∧
        t'.memberships = t.memberships ++ [row] ∧ uidnext' = (uidnext + 1) % 2 ^ 64 := by
  obtain ⟨position, record⟩ := delivery
  simp only [deliverMembership, bind_eq_ok] at h
  obtain ⟨u, hkey, t₁, hmessage, t₂, hheaders, found, hfound, h⟩ := h
  obtain ⟨messages, -, rfl⟩ := ensureMessage_eq_ok hmessage
  obtain ⟨headers, -, rfl⟩ := ensureMessageHeaders_eq_ok hheaders
  cases found with
  | true =>
    cases h
    exact .inl ⟨rfl, rfl⟩
  | false =>
    simp only [Bool.false_eq_true, if_false, bind_eq_ok] at h
    obtain ⟨t₃, hinsert, heq⟩ := h
    cases heq
    obtain ⟨-, -, rfl⟩ := insertMembershipRow_eq_ok hinsert
    exact .inr ⟨_, rfl, rfl, rfl, rfl⟩

/-- The counter stored after a delivery covers the UIDs up to it. -/
lemma deliverMembership_select {state : UidState} (hselect : selectUidnext t mailboxId = .ok uidnext)
    (hle : uidnext ≤ maxGuint64) (hvalidity : state.uidvalidity = mailboxUidvalidity)
    (h : deliverMembership mailboxId t uidnext delivery = .ok (t', uidnext')) (hone : 1 ≤ uidnext') :
    selectUidnext (t'.setUidState (.mailbox mailboxId) { state with uidnext := uidnext' }) mailboxId =
      .ok uidnext' := by
  have hbefore : t.maxUid mailboxId ≠ maxGuint64 ∧ t.maxUid mailboxId + 1 ≤ uidnext := by
    unfold selectUidnext at hselect
    split at hselect
    · simp at hselect
    · simp only [bind_eq_ok, require_eq_ok] at hselect
      obtain ⟨-, -, -, hbound, heq⟩ := hselect
      rwa [Except.ok.inj heq] at hbound
  have hafter : t'.maxUid mailboxId ≠ maxGuint64 ∧ t'.maxUid mailboxId + 1 ≤ uidnext' := by
    rcases deliverMembership_memberships h with ⟨hsame, rfl⟩ | ⟨row, hmailbox, huid, hrow, rfl⟩
    · rwa [AccountTables.maxUid, hsame]
    · have hmax : t'.maxUid mailboxId = max (t.maxUid mailboxId) uidnext := by
        rw [AccountTables.maxUid, hrow, List.filter_append, List.map_append, List.foldl_append]
        simp [hmailbox, huid, AccountTables.maxUid]
      rw [hmax]
      unfold maxGuint64 at *
      omega
  have hstate : (t'.setUidState (.mailbox mailboxId) { state with uidnext := uidnext' }).uidState
      (.mailbox mailboxId) = some { state with uidnext := uidnext' } := Function.update_self ..
  simp only [selectUidnext, hstate, bind_eq_ok, require_eq_ok]
  exact ⟨(), hvalidity, (), hafter, trivial⟩

lemma setUidState_fits {ns : Namespace} {state : UidState} (hfits : UidnextFits t) (hle : state.uidnext ≤ maxGuint64) :
    UidnextFits (t.setUidState ns state) := by
  intro other state' hstate'
  change Function.update t.uidState ns (some state) other = some state' at hstate'
  by_cases hother : other = ns
  · subst hother
    rw [Function.update_self, Option.some.injEq] at hstate'
    rwa [← hstate']
  · rw [Function.update_of_ne hother] at hstate'
    exact hfits other state' hstate'

lemma insertUidState_fits {ns : Namespace} {state : UidState} (hfits : UidnextFits t)
    (hle : state.uidnext ≤ maxGuint64) (h : t.insertUidState ns state = .ok t') : UidnextFits t' := by
  rcases (insertUidState_eq_ok h).2 with ⟨-, rfl⟩ | ⟨-, rfl⟩
  · exact hfits
  · exact setUidState_fits hfits hle

lemma updateUidnext_fits {ns : Namespace} {f : ℕ → ℕ} (hfits : UidnextFits t)
    (hle : ∀ n, n ≤ maxGuint64 → f n ≤ maxGuint64) (h : t.updateUidnext ns f = .ok t') : UidnextFits t' := by
  cases hstate : t.uidState ns with
  | none =>
    rw [AccountTables.updateUidnext, hstate] at h
    rwa [← Except.ok.inj h]
  | some state =>
    obtain ⟨-, rfl⟩ := updateUidnext_eq_ok hstate h
    exact setUidState_fits hfits (hle _ (hfits ns state hstate))

lemma ensureMailbox_uidState {imapName : CString} (h : ensureMailbox seed account t mailboxId imapName = .ok t') :
    t'.uidState = t.uidState := by
  obtain ⟨rfl, -⟩ := ensureMailbox_eq_ok h
  unfold insertMailbox
  split <;> rfl

lemma deliverAll_le (hle : uidnext ≤ maxGuint64)
    (h : deliverAll mailboxId (t, uidnext) deliveries = .ok (t', uidnext')) : uidnext' ≤ maxGuint64 := by
  induction deliveries generalizing t uidnext with
  | nil =>
    cases h
    exact hle
  | cons delivery deliveries ih =>
    rw [deliverAll, List.foldlM_cons, bind_eq_ok] at h
    obtain ⟨⟨t₁, uidnext₁⟩, hfirst, hrest⟩ := h
    refine ih ?_ hrest
    rcases deliverMembership_memberships hfirst with ⟨-, rfl⟩ | ⟨-, -, -, -, rfl⟩
    · exact hle
    · unfold maxGuint64
      omega

lemma deliverRows_fits (hfits : UidnextFits t) (h : deliverRows seed account t deliveries = .ok t') :
    UidnextFits t' := by
  simp only [deliverRows, bind_eq_ok] at h
  obtain ⟨mailboxId, -, t₁, hmailbox, t₂, hinsert, uidnext, hselect, ⟨t₃, uidnext'⟩, hfold, hupdate⟩ := h
  have hfits₁ : UidnextFits t₁ := by
    intro ns state hstate
    rw [ensureMailbox_uidState hmailbox] at hstate
    exact hfits ns state hstate
  have hfits₂ := insertUidState_fits hfits₁ (by simp [maxGuint64]) hinsert
  obtain ⟨state, hstate, -, rfl, -⟩ := selectUidnext_eq_ok hselect
  have hle := deliverAll_le (hfits₂ _ state hstate) hfold
  have hfits₃ : UidnextFits t₃ := by
    intro ns state' hstate'
    rw [(deliverAll_frame hfold).1] at hstate'
    exact hfits₂ ns state' hstate'
  exact updateUidnext_fits hfits₃ (fun _ _ => hle) hupdate

/-- Splitting the first delivery from a run. -/
lemma deliverRows_cons (hfits : UidnextFits t) :
    deliverRows seed account t (delivery :: deliveries) = .ok t' ↔
      ∃ t₁, deliverRows seed account t [delivery] = .ok t₁ ∧ deliverRows seed account t₁ deliveries = .ok t' := by
  have hafter : ∀ mailboxId t₁ t₂ uidnext t₃ uidnext₃ state, resolveInboxId t account = .ok mailboxId →
      ensureMailbox seed account t mailboxId inboxName = .ok t₁ →
      t₁.insertUidState (.mailbox mailboxId) ⟨1, mailboxUidvalidity⟩ = .ok t₂ →
      selectUidnext t₂ mailboxId = .ok uidnext → t₂.uidState (.mailbox mailboxId) = some state →
      deliverMembership mailboxId t₂ uidnext delivery = .ok (t₃, uidnext₃) → 1 ≤ uidnext₃ →
      deliverRows seed account t [delivery] =
        .ok (t₃.setUidState (.mailbox mailboxId) { state with uidnext := uidnext₃ }) ∧
      (deliverRows seed account (t₃.setUidState (.mailbox mailboxId) { state with uidnext := uidnext₃ })
        deliveries = .ok t' ↔ ∃ p : AccountTables × ℕ, deliverAll mailboxId (t₃, uidnext₃) deliveries = .ok p ∧
          p.1.updateUidnext (.mailbox mailboxId) (fun _ => p.2) = .ok t') := by
    intro mailboxId t₁ t₂ uidnext t₃ uidnext₃ state hinbox hmailbox hinsert hselect hstate hdeliver hone
    obtain ⟨hstate₃, hmailboxes₃, -, -⟩ := deliverMembership_frame hdeliver
    have hsome₃ : t₃.uidState (.mailbox mailboxId) = some state := by rw [hstate₃, hstate]
    have hsingle : deliverRows seed account t [delivery] =
        .ok (t₃.setUidState (.mailbox mailboxId) { state with uidnext := uidnext₃ }) := by
      simp only [deliverRows, bind_eq_ok]
      refine ⟨mailboxId, hinbox, t₁, hmailbox, t₂, hinsert, uidnext, hselect, (t₃, uidnext₃), ?_, ?_⟩
      · rw [List.foldlM_cons, bind_eq_ok]
        exact ⟨_, hdeliver, rfl⟩
      · simp only [AccountTables.updateUidnext, hsome₃, bind_eq_ok, require_eq_ok]
        exact ⟨(), hone, trivial⟩
    refine ⟨hsingle, ?_⟩
    obtain ⟨state', hstate', hvalidity, rfl, -⟩ := selectUidnext_eq_ok hselect
    rw [hstate, Option.some.injEq] at hstate'
    subst hstate'
    have hle : state.uidnext ≤ maxGuint64 := by
      refine insertUidState_fits ?_ (by simp [maxGuint64]) hinsert _ state hstate
      intro ns old hold
      rw [ensureMailbox_uidState hmailbox] at hold
      exact hfits ns old hold
    have hmailboxes : (t₃.setUidState (.mailbox mailboxId) { state with uidnext := uidnext₃ }).mailboxes =
        t₁.mailboxes := by
      refine hmailboxes₃.trans ?_
      rcases (insertUidState_eq_ok hinsert).2 with ⟨-, rfl⟩ | ⟨-, rfl⟩ <;> rfl
    have hstate₄ : (t₃.setUidState (.mailbox mailboxId) { state with uidnext := uidnext₃ }).uidState
        (.mailbox mailboxId) = some { state with uidnext := uidnext₃ } := Function.update_self ..
    have hinbox₄ : resolveInboxId (t₃.setUidState (.mailbox mailboxId) { state with uidnext := uidnext₃ })
        account = .ok mailboxId := by
      rw [resolveInboxId, hmailboxes]
      exact resolveInboxId_ensured hinbox hmailbox
    have hmailbox₄ := @ensureMailbox_self
      (t₃.setUidState (.mailbox mailboxId) { state with uidnext := uidnext₃ }) mailboxId inboxName seed account
      (by rw [ensureMailboxExact, hmailboxes]; exact (ensureMailbox_eq_ok hmailbox).2)
    have hinsert₄ := @insertUidState_self
      (t₃.setUidState (.mailbox mailboxId) { state with uidnext := uidnext₃ }) (.mailbox mailboxId)
      ⟨1, mailboxUidvalidity⟩ _ ⟨le_refl 1, le_refl 1⟩ hstate₄
    have hselect₄ := deliverMembership_select hselect hle hvalidity hdeliver hone
    rw [← @deliverAll_stored mailboxId t₃ t' uidnext₃ deliveries state { state with uidnext := uidnext₃ }
      hsome₃ rfl]
    simp only [deliverRows, hinbox₄, hmailbox₄, hinsert₄, hselect₄, bind_eq_ok, Except.ok.injEq,
      exists_eq_left']
    rfl
  constructor
  · intro h
    simp only [deliverRows, bind_eq_ok] at h
    obtain ⟨mailboxId, hinbox, t₁, hmailbox, t₂, hinsert, uidnext, hselect, ⟨t₄, uidnext₄⟩, hfold, hupdate⟩ := h
    rw [List.foldlM_cons, bind_eq_ok] at hfold
    obtain ⟨⟨t₃, uidnext₃⟩, hdeliver, hrest⟩ := hfold
    obtain ⟨state, hstate, -⟩ := selectUidnext_eq_ok hselect
    obtain ⟨hstate₃, -, -, -⟩ := deliverMembership_frame hdeliver
    obtain ⟨hstate₄, hpos, -⟩ := deliverAll_frame hrest
    have hone₄ := (updateUidnext_eq_ok (by rw [hstate₄, hstate₃, hstate]) hupdate).1
    obtain ⟨hsingle, hmore⟩ := hafter mailboxId t₁ t₂ uidnext t₃ uidnext₃ state hinbox hmailbox hinsert
      hselect hstate hdeliver (hpos hone₄)
    exact ⟨_, hsingle, hmore.mpr ⟨_, hrest, hupdate⟩⟩
  · rintro ⟨t₄, hsingle, hmore⟩
    have hsingle' := hsingle
    simp only [deliverRows, bind_eq_ok] at hsingle'
    obtain ⟨mailboxId, hinbox, t₁, hmailbox, t₂, hinsert, uidnext, hselect, ⟨t₃, uidnext₃⟩, hfold, hupdate⟩ :=
      hsingle'
    rw [List.foldlM_cons, bind_eq_ok] at hfold
    obtain ⟨_, hdeliver, hfold⟩ := hfold
    cases hfold
    obtain ⟨state, hstate, -⟩ := selectUidnext_eq_ok hselect
    obtain ⟨hstate₃, -, -, -⟩ := deliverMembership_frame hdeliver
    have hone₃ := (updateUidnext_eq_ok (by rw [hstate₃, hstate]) hupdate).1
    obtain ⟨hsame, hall⟩ := hafter mailboxId t₁ t₂ uidnext t₃ uidnext₃ state hinbox hmailbox hinsert
      hselect hstate hdeliver hone₃
    rw [hsingle] at hsame
    cases hsame
    obtain ⟨⟨t₅, uidnext₅⟩, hrest, hlast⟩ := hall.mp hmore
    simp only [deliverRows, bind_eq_ok]
    refine ⟨mailboxId, hinbox, t₁, hmailbox, t₂, hinsert, uidnext, hselect, (t₅, uidnext₅), ?_, hlast⟩
    rw [List.foldlM_cons, bind_eq_ok]
    exact ⟨_, hdeliver, hrest⟩

/-! ## The records of a run -/

/-- A run holds deliveries only, or one record of another kind. -/
def Sorted (run : Run) : Prop :=
  (∀ r ∈ run.records, isDelivery r = true) ∨ (isDelivery run.first = false ∧ run.rest = [])

lemma runs_sorted {records : List ProjectionRecord} : ∀ run ∈ runs records, Sorted run := by
  induction records with
  | nil => simp [runs]
  | cons record records ih =>
    have single : Sorted ⟨record, []⟩ := by
      cases hkind : isDelivery record with
      | true => exact .inl (by simp [Run.records, hkind])
      | false => exact .inr ⟨hkind, rfl⟩
    intro run hrun
    rw [runs] at hrun
    cases hruns : runs records with
    | nil =>
      rw [hruns] at hrun
      rw [List.mem_singleton.mp hrun]
      exact single
    | cons first more =>
      rw [hruns] at hrun ih
      change run ∈ (if _ then _ else _) at hrun
      split at hrun
      · rename_i hjoin
        rcases List.mem_cons.mp hrun with rfl | hmore
        · refine .inl (List.forall_mem_cons.mpr ⟨hjoin.1, ?_⟩)
          rcases ih first List.mem_cons_self with hall | ⟨habsurd, -⟩
          · exact hall
          · rw [hjoin.2.1] at habsurd
            simp at habsurd
        · exact ih run (List.mem_cons_of_mem _ hmore)
      · rcases List.mem_cons.mp hrun with rfl | hmore
        · exact single
        · exact ih run hmore

lemma replayRows_deliveries {record : ProjectionRecord} {records : List ProjectionRecord} (hfits : UidnextFits t)
    (hall : ∀ r ∈ record :: records, isDelivery r = true) :
    deliverRows seed account t ((record :: records).filterMap deliveryOf) = .ok t' ↔
      replayRows seed account t (record :: records) = .ok t' := by
  induction records generalizing record t with
  | nil =>
    obtain ⟨position, event⟩ := record
    have hrecord := hall _ List.mem_cons_self
    cases event with
    | messageDelivered delivery =>
      rw [replayRows, List.foldlM_cons, bind_eq_ok]
      constructor
      · exact fun h => ⟨t', h, rfl⟩
      · rintro ⟨t₁, hrows, hrest⟩
        cases hrest
        exact hrows
    | _ => simp [isDelivery] at hrecord
  | cons next records ih =>
    rw [List.forall_mem_cons] at hall
    obtain ⟨position, event⟩ := record
    cases event with
    | messageDelivered delivery =>
      rw [@List.filterMap_cons_some _ _ deliveryOf _ _ (position, deliveredRecord delivery) rfl, deliverRows_cons hfits,
        replayRows, List.foldlM_cons, bind_eq_ok]
      constructor
      · rintro ⟨t₁, hrows, hrest⟩
        have hfits₁ := deliverRows_fits hfits hrows
        exact ⟨t₁, hrows, (ih hfits₁ hall.2).mp hrest⟩
      · rintro ⟨t₁, hrows, hrest⟩
        have hfits₁ := deliverRows_fits hfits hrows
        exact ⟨t₁, hrows, (ih hfits₁ hall.2).mpr hrest⟩
    | _ => simp [isDelivery] at hall

section
variable {run : Run} {s s' : Session} {objects : Registry CString ℕ} {owner : Registry CString CString}

lemma deliveries_fit {objects : Registry CString ℕ} {owner : Registry CString CString}
    (hall : ∀ r ∈ run.records, isDelivery r = true) :
    (∀ d ∈ run.records.filterMap deliveryOf, objects d.2.objectKey = some d.2.sizeBytes) ↔
      ∀ r ∈ run.records, Fits objects owner r := by
  constructor
  · intro h r hr
    have hdelivery := hall r hr
    obtain ⟨position, event⟩ := r
    cases event with
    | messageDelivered delivery =>
      refine ⟨?_, by simp, by simp⟩
      rintro _ ⟨⟩
      exact h _ (List.mem_filterMap.mpr ⟨_, hr, rfl⟩)
    | _ => simp [isDelivery] at hdelivery
  · intro h d hd
    obtain ⟨⟨position, event⟩, hr, hd⟩ := List.mem_filterMap.mp hd
    cases event with
    | messageDelivered delivery =>
      cases hd
      exact (h _ hr).delivered delivery rfl
    | _ => simp [deliveryOf] at hd

/-- The transaction of a run writes what its records write in order. -/
theorem applyRecords_rows (hsorted : Sorted run) (hfits : UidnextFits s.tables)
    (h : applyRecords seed run s = .ok s') :
    replayRows seed run.account s.tables run.records = .ok s'.tables ∧ SharedWithin s s' ∧
      ∀ r ∈ run.records, Fits s'.objects s'.derivedOwner r := by
  unfold applyRecords at h
  rcases hsorted with hall | ⟨hother, hrest⟩
  · rw [if_pos (hall _ run.first_mem)] at h
    obtain ⟨hrows, hshared, hkeys⟩ := applyToInbox_rows h
    exact ⟨(replayRows_deliveries hfits hall).mp hrows, hshared, (deliveries_fit hall).mp hkeys⟩
  · rw [if_neg (by simp [hother])] at h
    obtain ⟨hrows, hshared, hfits⟩ := apply_rows h
    have hsingle : run.records = [run.first] := by rw [Run.records, hrest]
    rw [hsingle]
    refine ⟨?_, hshared, List.forall_mem_singleton.mpr hfits⟩
    rw [replayRows, List.foldlM_cons, bind_eq_ok]
    exact ⟨_, hrows, rfl⟩

/-- A run whose records the rows accept is accepted wherever the shared tables hold no conflicting
    row. -/
theorem rows_applyRecords (hsorted : Sorted run) (hfits : UidnextFits s.tables)
    (h : replayRows seed run.account s.tables run.records = .ok t') (hobjects : s.objects.Within objects)
    (howner : s.derivedOwner.Within owner) (hshared : ∀ r ∈ run.records, Fits objects owner r) :
    ∃ s', applyRecords seed run s = .ok s' ∧ s'.tables = t' ∧ s'.objects.Within objects ∧
      s'.derivedOwner.Within owner := by
  unfold applyRecords
  rcases hsorted with hall | ⟨hother, hrest⟩
  · rw [if_pos (hall _ run.first_mem)]
    obtain ⟨objects', happly, hwithin⟩ := rows_applyToInbox ((replayRows_deliveries hfits hall).mpr h) hobjects
      ((deliveries_fit hall).mpr hshared)
    exact ⟨_, happly, rfl, hwithin, howner⟩
  · rw [if_neg (by simp [hother])]
    have hsingle : run.records = [run.first] := by rw [Run.records, hrest]
    rw [hsingle, replayRows, List.foldlM_cons, bind_eq_ok] at h
    obtain ⟨t₁, hrows, hlast⟩ := h
    cases hlast
    exact rows_apply hrows hobjects howner (hshared _ run.first_mem)

end

end
end Wyrebox.DeliveryRuns
