import Wyrebox.CatalogReads

set_option autoImplicit false

/-!
# Account isolation of reads

What a read answers an account comes from the account's rows, but for two joins that leave out the
account column: the flags of the UID map and the headers of SEARCH.
-/
namespace Wyrebox.AccountIsolation
open CatalogReads Joins
open DovecotSync (Kind)
open Catalog (FlagTable)
open UidMapCsv (joinNames)

/-! ## The rows of an account -/

def ofAccount {α : Type} (accountId : CString) (rows : List (Owned α)) : List (Owned α) :=
  rows.filter fun row => row.accountId = accountId

def isOwnMessage (c : CatalogRows) (accountId messageId : CString) : Bool :=
  c.messages.any fun message => message.accountId = accountId ∧ message.row.messageId = messageId

/-- The headers of the account's messages. -/
def ownHeaders (c : CatalogRows) (accountId : CString) : List HeaderRow :=
  c.headers.filter fun header => isOwnMessage c accountId header.messageId

/-- The catalog as if no other account had rows. -/
def own (c : CatalogRows) (accountId : CString) : CatalogRows where
  boxes := fun kind => ofAccount accountId (c.boxes kind)
  members := fun kind => ofAccount accountId (c.members kind)
  uidStates := ofAccount accountId c.uidStates
  messages := ofAccount accountId c.messages
  headers := ownHeaders c accountId
  attributes := fun table => ofAccount accountId (c.attributes table)
  objects := c.objects
  boxIds_nodup := fun kind => (c.boxIds_nodup kind).sublist (List.filter_sublist.map _)
  boxNames_nodup := fun kind => (c.boxNames_nodup kind).sublist (List.filter_sublist.map _)
  mailboxIds_nodup := c.mailboxIds_nodup.sublist (List.filter_sublist.map _)
  memberIds_nodup := fun kind => (c.memberIds_nodup kind).sublist (List.filter_sublist.map _)
  uids_nodup := fun kind => (c.uids_nodup kind).sublist (List.filter_sublist.map _)
  mailboxUids_nodup := c.mailboxUids_nodup.sublist (List.filter_sublist.map _)
  uidStates_nodup := c.uidStates_nodup.sublist (List.filter_sublist.map _)
  messages_nodup := c.messages_nodup.sublist (List.filter_sublist.map _)
  headers_nodup := c.headers_nodup.sublist (List.filter_sublist.map _)
  attributes_nodup := fun table => (c.attributes_nodup table).sublist (List.filter_sublist.map _)
  objects_nodup := c.objects_nodup

/-- The same rows in every table, in whatever order. -/
structure Same (c c' : CatalogRows) : Prop where
  boxes : ∀ kind, (c.boxes kind).Perm (c'.boxes kind)
  members : ∀ kind, (c.members kind).Perm (c'.members kind)
  uidStates : c.uidStates.Perm c'.uidStates
  messages : c.messages.Perm c'.messages
  headers : c.headers.Perm c'.headers
  attributes : ∀ table, (c.attributes table).Perm (c'.attributes table)
  objects : c.objects.Perm c'.objects

/-- The catalogs agree on the account's rows and on the objects. -/
def AgreeOn (accountId : CString) (c c' : CatalogRows) : Prop := Same (own c accountId) (own c' accountId)

/-! ## The order of the rows has no effect -/

lemma any_perm {α : Type} {l l' : List α} (h : l.Perm l') (f : α → Bool) : l.any f = l'.any f := by
  rw [Bool.eq_iff_iff, List.any_eq_true, List.any_eq_true]
  exact exists_congr fun a => and_congr_left fun _ => h.mem_iff

lemma all_perm {α : Type} {l l' : List α} (h : l.Perm l') (f : α → Bool) : l.all f = l'.all f := by
  rw [Bool.eq_iff_iff, List.all_eq_true, List.all_eq_true]
  exact forall_congr' fun a => by rw [h.mem_iff]

/-- Lists whose entries are all the same. -/
lemma eq_of_perm {α : Type} {l l' : List α} (h : l.Perm l') (hone : ∀ a ∈ l, ∀ b ∈ l, a = b) : l = l' := by
  have hleft : l.Pairwise fun _ _ => True := List.pairwise_of_forall fun _ _ => trivial
  have hright : l'.Pairwise fun _ _ => True := List.pairwise_of_forall fun _ _ => trivial
  exact h.eq_of_pairwise (fun a b ha hb _ _ => hone a ha b (h.mem_iff.mpr hb)) hleft hright

lemma oneRow_perm {α : Type} {l l' : List α} (h : l.Perm l') (none several : ReadError) :
    oneRow none several l = oneRow none several l' := by
  match l, l', h.length_eq with
  | [], [], _ => rfl
  | [a], [b], _ =>
    rw [List.perm_singleton.mp h]
  | _ :: _ :: _, _ :: _ :: _, _ => rfl

lemma sortKey_injective : Function.Injective sortKey := fun s t h => by
  have hbytes : s.bytes = t.bytes := List.map_injective_iff.mpr (fun a b hab => UInt8.toNat_inj.mp hab) h
  exact CString.ext hbytes

section
variable {c c' : CatalogRows} {accountId : CString}

lemma isShadowed_same (h : Same c c') : isShadowed c = isShadowed c' := by
  funext account name
  exact any_perm (h.boxes .ordinary) _

lemma isShown_same (h : Same c c') : isShown c = isShown c' := by
  unfold isShown
  rw [isShadowed_same h]

lemma visibleMailboxes_same (h : Same c c') : (visibleMailboxes c accountId).Perm (visibleMailboxes c' accountId) := by
  unfold visibleMailboxes
  rw [isShown_same h]
  exact (((h.boxes .ordinary).filter _).map _).append (((h.boxes .virtual).filter _).map _)

lemma mem_visibleMailboxes {listed : ListedBox} : listed ∈ visibleMailboxes c accountId ↔
    ∃ box ∈ c.boxes listed.kind, isShown c accountId listed.kind box = true ∧ listedBox listed.kind box = listed := by
  simp only [visibleMailboxes, List.mem_append, List.mem_map, List.mem_filter]
  constructor
  · rintro (⟨box, ⟨hbox, hshown⟩, rfl⟩ | ⟨box, ⟨hbox, hshown⟩, rfl⟩)
    · exact ⟨box, hbox, hshown, rfl⟩
    · exact ⟨box, hbox, hshown, rfl⟩
  · rintro ⟨box, hbox, hshown, hlisted⟩
    cases hkind : listed.kind with
    | ordinary =>
      rw [hkind] at hbox hshown hlisted
      exact .inl ⟨box, ⟨hbox, hshown⟩, hlisted⟩
    | virtual =>
      rw [hkind] at hbox hshown hlisted
      exact .inr ⟨box, ⟨hbox, hshown⟩, hlisted⟩

/-- A visible entry is that of its kind and id. -/
lemma listedBox_unique {a b : ListedBox} (ha : a ∈ visibleMailboxes c accountId) (hb : b ∈ visibleMailboxes c accountId)
    (hkind : a.kind = b.kind) (hid : a.stableId = b.stableId) : a = b := by
  obtain ⟨box, hbox, hshown, hlisted⟩ := mem_visibleMailboxes.mp ha
  obtain ⟨box', hbox', hshown', hlisted'⟩ := mem_visibleMailboxes.mp hb
  rw [isShown, decide_eq_true_eq] at hshown hshown'
  rw [← hkind] at hbox' hlisted'
  have hsame : box = box' := by
    refine List.inj_on_of_nodup_map (c.boxIds_nodup a.kind) hbox hbox' (Prod.ext (hshown.1.trans hshown'.1.symm) ?_)
    rw [← hlisted, ← hlisted'] at hid
    exact hid
  rw [← hlisted, ← hlisted', hsame]

lemma listKey_eq {a b : ListedBox} (h : listKey a = listKey b) :
    a.imapName = b.imapName ∧ a.kind = b.kind ∧ a.stableId = b.stableId := by
  have hpair := toLex.injective h
  have hrest := toLex.injective (Prod.ext_iff.mp hpair).2
  refine ⟨sortKey_injective (Prod.ext_iff.mp hpair).1, ?_, sortKey_injective (Prod.ext_iff.mp hrest).2⟩
  have hkind := (Prod.ext_iff.mp hrest).1
  cases ha : a.kind <;> cases hb : b.kind <;> simp_all [sortKind]

lemma list_same (h : Same c c') (namespacePrefix : CString) :
    list c accountId namespacePrefix = list c' accountId namespacePrefix := by
  have hvisible : (visibleMailboxes c accountId).Perm (visibleMailboxes c' accountId) := visibleMailboxes_same h
  have hentry : listEntry (visibleMailboxes c accountId) = listEntry (visibleMailboxes c' accountId) := by
    funext listed
    rw [listEntry, listEntry, any_perm hvisible]
  unfold list
  dsimp only
  rw [hentry]
  refine congrArg _ (orderBy_congr (hvisible.filter _) fun a ha b hb hkey => ?_)
  obtain ⟨-, hkind, hid⟩ := listKey_eq hkey
  exact listedBox_unique (List.mem_filter.mp ha).1 (List.mem_filter.mp hb).1 hkind hid

lemma selectedRows_same (h : Same c c') (selector : Selector) (kind : Kind) :
    (selectedRows c accountId selector kind).Perm (selectedRows c' accountId selector kind) := by
  have hselected : isSelected c accountId kind selector = isSelected c' accountId kind selector := by
    funext p
    unfold isSelected meetsSelector
    rw [isShadowed_same h]
  have hrow : selectRow c kind = selectRow c' kind := by
    funext p
    unfold selectRow messageCount
    rw [(h.members kind).countP_eq]
  unfold selectedRows
  rw [hselected, hrow]
  exact ((join_perm (h.boxes kind) h.uidStates).filter _).map _

lemma select_same (h : Same c c') (selector : Selector) : select c accountId selector = select c' accountId selector := by
  have hrows : (selectRowsBySelector c accountId selector).Perm (selectRowsBySelector c' accountId selector) :=
    (selectedRows_same h selector .ordinary).append (selectedRows_same h selector .virtual)
  unfold select
  dsimp only
  rw [all_perm hrows, oneRow_perm hrows]

/-! ### The UID map -/

lemma mem_uidMapRows {kind : Kind} {boxId : CString} {p : UidMapJoin} : p ∈ uidMapRows c accountId kind boxId ↔
    p.1.1 ∈ c.members kind ∧ p.1.2 ∈ c.uidStates ∧ p.2 ∈ c.messages ∧ memberUidState kind p.1.1 p.1.2 = true ∧
      memberMessage p.1.1 p.2 = true ∧ isShownMember accountId boxId p.1.1 = true := by
  rw [uidMapRows, List.mem_filter, mem_join, mem_join]
  tauto

lemma uidMapRows_unique {kind : Kind} {boxId : CString} {p q : UidMapJoin} (hp : p ∈ uidMapRows c accountId kind boxId)
    (hq : q ∈ uidMapRows c accountId kind boxId) (huid : p.1.1.row.uid = q.1.1.row.uid) : p = q := by
  obtain ⟨hmember, hstate, hmessage, hon, hon', hshown⟩ := mem_uidMapRows.mp hp
  obtain ⟨hmember', hstate', hmessage', hon₁, hon₂, hshown'⟩ := mem_uidMapRows.mp hq
  simp only [memberUidState, memberMessage, isShownMember, decide_eq_true_eq] at hon hon' hshown hon₁ hon₂ hshown'
  have hfirst : p.1.1 = q.1.1 := by
    refine List.inj_on_of_nodup_map (c.uids_nodup kind) hmember hmember' ?_
    rw [hshown.1, hshown'.1, hshown.2.1, hshown'.2.1, huid]
  refine Prod.ext (Prod.ext hfirst ?_) ?_
  · refine List.inj_on_of_nodup_map c.uidStates_nodup hstate hstate' ?_
    rw [hon.1, hon₁.1, hon.2.1, hon₁.2.1, hon.2.2, hon₁.2.2, hfirst]
  · refine List.inj_on_of_nodup_map c.messages_nodup hmessage hmessage' ?_
    rw [hon'.2, hon₂.2, hfirst]

lemma uidMapRows_same (h : Same c c') (kind : Kind) (boxId : CString) :
    orderBy uidMapKey (uidMapRows c accountId kind boxId) = orderBy uidMapKey (uidMapRows c' accountId kind boxId) := by
  refine orderBy_congr ((join_perm (join_perm (h.members kind) h.uidStates) h.messages).filter _) fun p hp q hq hkey => ?_
  exact uidMapRows_unique hp hq (Prod.ext_iff.mp (toLex.injective hkey)).1

/-- Names are sorted, whatever their rows' order. -/
lemma orderBy_names {names names' : List CString} (h : names.Perm names') : orderBy sortKey names = orderBy sortKey names' :=
  orderBy_congr h fun _ _ _ _ hkey => sortKey_injective hkey

lemma rankedNames_same (h : Same c c') (membershipId : CString) : rankedNames c membershipId = rankedNames c' membershipId := by
  unfold rankedNames attributeNames
  rw [orderBy_names (((h.attributes .messageFlags).filter _).map _),
    orderBy_names (((h.attributes .messageKeywords).filter _).map _)]

lemma uidMap_same (h : Same c c') (kind : Kind) (boxId : CString) :
    uidMap c accountId kind boxId = uidMap c' accountId kind boxId := by
  have hfields : uidMapFields c kind = uidMapFields c' kind := by
    funext p
    unfold uidMapFields lastField
    rw [rankedNames_same h]
  unfold uidMap
  rw [hfields, uidMapRows_same h]

/-! ### SEARCH and FETCH -/

lemma namespaceUidvalidities_unique {kind : Kind} {boxId : CString} {a b : ℕ}
    (ha : a ∈ namespaceUidvalidities c accountId kind boxId) (hb : b ∈ namespaceUidvalidities c accountId kind boxId) :
    a = b := by
  obtain ⟨p, hp, rfl⟩ := List.mem_map.mp ha
  obtain ⟨q, hq, rfl⟩ := List.mem_map.mp hb
  obtain ⟨hp, hcondition⟩ := List.mem_filter.mp hp
  obtain ⟨hq, hcondition'⟩ := List.mem_filter.mp hq
  rw [isSearchable, decide_eq_true_eq] at hcondition hcondition'
  have hstate : p.1 = q.1 := by
    refine List.inj_on_of_nodup_map c.uidStates_nodup (mem_join.mp hp).1 (mem_join.mp hq).1 ?_
    rw [hcondition.1, hcondition'.1, hcondition.2.1, hcondition'.2.1, hcondition.2.2.1, hcondition'.2.2.1]
  rw [hstate]

lemma checkNamespace_same (h : Same c c') (kind : Kind) (boxId : CString) (uidvalidity : ℕ) :
    checkNamespace c accountId kind boxId uidvalidity = checkNamespace c' accountId kind boxId uidvalidity := by
  have hrows : namespaceUidvalidities c accountId kind boxId = namespaceUidvalidities c' accountId kind boxId :=
    eq_of_perm (((join_perm h.uidStates (h.boxes kind)).filter _).map _) fun a ha b hb =>
      namespaceUidvalidities_unique ha hb
  unfold checkNamespace
  rw [hrows]

lemma searchMessages_same (h : Same c c') (kind : Kind) (boxId : CString) (uidvalidity : ℕ) (criteria : List Criterion) :
    searchMessages c accountId kind boxId uidvalidity criteria =
      searchMessages c' accountId kind boxId uidvalidity criteria := by
  have hfound : (foundMembers c accountId kind boxId criteria).Perm (foundMembers c' accountId kind boxId criteria) :=
    (leftJoin_perm (h.members kind) h.headers).filter _
  have huids : orderBy id ((foundMembers c accountId kind boxId criteria).map fun p => p.1.row.uid) =
      orderBy id ((foundMembers c' accountId kind boxId criteria).map fun p => p.1.row.uid) :=
    orderBy_congr (hfound.map _) fun _ _ _ _ huid => huid
  unfold searchMessages queryMatchingUids
  rw [checkNamespace_same h, huids]

lemma fetch_same (getBytes : CString → Option (List UInt8)) (h : Same c c') (kind : Kind) (boxId : CString)
    (uidvalidity uid : ℕ) :
    fetch getBytes c accountId kind boxId uidvalidity uid = fetch getBytes c' accountId kind boxId uidvalidity uid := by
  have hrows : (fetchedRows c accountId kind boxId uid).Perm (fetchedRows c' accountId kind boxId uid) :=
    ((join_perm (join_perm (join_perm (h.members kind) (h.boxes kind)) h.messages) h.objects).filter _).map _
  unfold fetch fetcherSelectUidvalidity fetcherSelectMessage
  rw [oneRow_perm hrows, oneRow_perm (h.uidStates.filter _)]

theorem respond_same (getBytes : CString → Option (List UInt8)) (h : Same c c') (request : ReadRequest) :
    respond getBytes c accountId request = respond getBytes c' accountId request := by
  cases request with
  | list namespacePrefix => exact congrArg _ (list_same h namespacePrefix)
  | select selector => exact congrArg _ (select_same h selector)
  | uidMap kind boxId => exact congrArg _ (uidMap_same h kind boxId)
  | search kind boxId uidvalidity criteria => exact congrArg _ (searchMessages_same h kind boxId uidvalidity criteria)
  | fetch kind boxId uidvalidity uid => exact congrArg _ (fetch_same getBytes h kind boxId uidvalidity uid)

end

/-! ## Reads that stay in the account -/

section
variable {α : Type} {accountId : CString}

/-- A condition on the account is all that the other accounts' rows change. -/
lemma filter_ofAccount {f g : Owned α → Bool} {rows : List (Owned α)} (hf : ∀ row, f row = true → row.accountId = accountId)
    (hfg : ∀ row, row.accountId = accountId → g row = f row) : (ofAccount accountId rows).filter g = rows.filter f := by
  rw [ofAccount, List.filter_filter]
  refine List.filter_congr fun row _ => ?_
  by_cases haccount : row.accountId = accountId
  · rw [hfg row haccount, decide_eq_true haccount, Bool.and_true]
  · rw [decide_eq_false haccount, Bool.and_false]
    cases hrow : f row
    · rfl
    · exact absurd (hf row hrow) haccount

lemma any_ofAccount {f : Owned α → Bool} {rows : List (Owned α)} (hf : ∀ row, f row = true → row.accountId = accountId) :
    (ofAccount accountId rows).any f = rows.any f := by
  rw [Bool.eq_iff_iff, List.any_eq_true, List.any_eq_true]
  refine exists_congr fun row => ⟨fun ⟨hrow, htrue⟩ => ⟨(List.mem_filter.mp hrow).1, htrue⟩, fun ⟨hrow, htrue⟩ => ?_⟩
  exact ⟨List.mem_filter.mpr ⟨hrow, decide_eq_true (hf row htrue)⟩, htrue⟩

variable (c : CatalogRows) (accountId)

lemma isShadowed_own (name : CString) : isShadowed (own c accountId) accountId name = isShadowed c accountId name :=
  any_ofAccount fun _ hbox => (of_decide_eq_true hbox).1

lemma visibleMailboxes_own : visibleMailboxes (own c accountId) accountId = visibleMailboxes c accountId := by
  have hkind : ∀ kind, ((own c accountId).boxes kind).filter (isShown (own c accountId) accountId kind) =
      (c.boxes kind).filter (isShown c accountId kind) := by
    intro kind
    refine filter_ofAccount (fun box hbox => (of_decide_eq_true hbox).1) fun box haccount => ?_
    unfold isShown
    rw [haccount, isShadowed_own]
  rw [visibleMailboxes, hkind, hkind, visibleMailboxes]

lemma list_own (namespacePrefix : CString) : list (own c accountId) accountId namespacePrefix = list c accountId namespacePrefix := by
  unfold list
  rw [visibleMailboxes_own]

lemma messageCount_own (kind : Kind) {box : Owned Box} (haccount : box.accountId = accountId) :
    messageCount (own c accountId) kind box = messageCount c kind box := by
  rw [messageCount, messageCount, List.countP_eq_length_filter, List.countP_eq_length_filter]
  refine congrArg _ (filter_ofAccount (fun member hmember => ?_) fun _ _ => rfl)
  exact (of_decide_eq_true hmember).1.trans haccount

/-- The account of the left side of a join. -/
lemma join_own {β : Type} {on : Owned α → Owned β → Bool} (hon : ∀ a b, on a b = true → b.accountId = a.accountId)
    {rows : List (Owned α)} {others : List (Owned β)} :
    join on (ofAccount accountId rows) (ofAccount accountId others) =
      (join on rows others).filter fun p => p.1.accountId = accountId :=
  join_scoped fun a b ha hab => decide_eq_true ((hon a b hab).trans (of_decide_eq_true ha))

/-- A further join on a column of the same account. -/
lemma join_own_of_filter {γ δ : Type} {on : γ → Owned δ → Bool} {account : γ → CString}
    (hon : ∀ p b, on p b = true → b.accountId = account p) {rows : List γ} {others : List (Owned δ)} :
    join on (rows.filter fun p => account p = accountId) (ofAccount accountId others) =
      (join on rows others).filter fun p => account p.1 = accountId :=
  join_scoped fun p b hp hpb => decide_eq_true ((hon p b hpb).trans (of_decide_eq_true hp))

lemma selectedRows_own (selector : Selector) (kind : Kind) :
    selectedRows (own c accountId) accountId selector kind = selectedRows c accountId selector kind := by
  have hjoin : join (hasUidState kind) ((own c accountId).boxes kind) (own c accountId).uidStates =
      (join (hasUidState kind) (c.boxes kind) c.uidStates).filter fun p => p.1.accountId = accountId :=
    join_own accountId fun _ _ hon => (of_decide_eq_true hon).1
  have hselected : ∀ p : Owned Box × Owned UidStateRow,
      isSelected (own c accountId) accountId kind selector p = isSelected c accountId kind selector p := by
    intro p
    by_cases haccount : p.1.accountId = accountId
    · unfold isSelected meetsSelector
      rw [haccount, isShadowed_own]
    · simp [isSelected, haccount]
  unfold selectedRows
  rw [List.filter_congr fun p _ => hselected p, hjoin,
    filter_filter_of_imp fun p hp => decide_eq_true (of_decide_eq_true hp).1]
  refine List.map_congr_left fun p hp => ?_
  have haccount := (of_decide_eq_true (List.mem_filter.mp hp).2).1
  unfold selectRow
  rw [messageCount_own accountId c kind haccount]

lemma select_own (selector : Selector) : select (own c accountId) accountId selector = select c accountId selector := by
  unfold select selectRowsBySelector
  rw [selectedRows_own, selectedRows_own]

lemma uidMapRows_own (kind : Kind) (boxId : CString) :
    uidMapRows (own c accountId) accountId kind boxId = uidMapRows c accountId kind boxId := by
  have hstates : join (memberUidState kind) ((own c accountId).members kind) (own c accountId).uidStates =
      (join (memberUidState kind) (c.members kind) c.uidStates).filter fun p => p.1.accountId = accountId :=
    join_own accountId fun _ _ hon => (of_decide_eq_true hon).1
  have hmessages := @join_own_of_filter accountId _ _ (fun (p : Owned Member × Owned UidStateRow) message =>
    memberMessage p.1 message) (fun p => p.1.accountId) (fun _ _ hon => (of_decide_eq_true hon).1)
    (join (memberUidState kind) (c.members kind) c.uidStates) c.messages
  unfold uidMapRows
  rw [hstates]
  change List.filter _ (join _ _ (ofAccount accountId c.messages)) = _
  rw [hmessages, filter_filter_of_imp fun p hp => decide_eq_true (of_decide_eq_true hp).1]

lemma namespaceUidvalidities_own (kind : Kind) (boxId : CString) :
    namespaceUidvalidities (own c accountId) accountId kind boxId = namespaceUidvalidities c accountId kind boxId := by
  have hboxes : join stateBox (own c accountId).uidStates ((own c accountId).boxes kind) =
      (join stateBox c.uidStates (c.boxes kind)).filter fun p => p.1.accountId = accountId :=
    join_own accountId fun _ _ hon => (of_decide_eq_true hon).1
  unfold namespaceUidvalidities
  rw [hboxes, filter_filter_of_imp fun p hp => decide_eq_true (of_decide_eq_true hp).1]

lemma checkNamespace_own (kind : Kind) (boxId : CString) (uidvalidity : ℕ) :
    checkNamespace (own c accountId) accountId kind boxId uidvalidity = checkNamespace c accountId kind boxId uidvalidity := by
  unfold checkNamespace
  rw [namespaceUidvalidities_own]

lemma fetchedRows_own (kind : Kind) (boxId : CString) (uid : ℕ) :
    fetchedRows (own c accountId) accountId kind boxId uid = fetchedRows c accountId kind boxId uid := by
  have hboxes : join memberBox ((own c accountId).members kind) ((own c accountId).boxes kind) =
      (join memberBox (c.members kind) (c.boxes kind)).filter fun p => p.1.accountId = accountId :=
    join_own accountId fun _ _ hon => (of_decide_eq_true hon).1
  have hmessages := @join_own_of_filter accountId _ _ (fun (p : Owned Member × Owned Box) message =>
    memberMessage p.1 message) (fun p => p.1.accountId) (fun _ _ hon => (of_decide_eq_true hon).1)
    (join memberBox (c.members kind) (c.boxes kind)) c.messages
  unfold fetchedRows
  rw [hboxes]
  change List.map _ (List.filter _ (join _ (join _ _ (ofAccount accountId c.messages)) c.objects)) = _
  rw [hmessages, ← join_filter_left, filter_filter_of_imp fun p hp =>
    decide_eq_true (of_decide_eq_true (of_decide_eq_true hp).1).1]

lemma fetch_own (getBytes : CString → Option (List UInt8)) (kind : Kind) (boxId : CString) (uidvalidity uid : ℕ) :
    fetch getBytes (own c accountId) accountId kind boxId uidvalidity uid =
      fetch getBytes c accountId kind boxId uidvalidity uid := by
  have hstates : (own c accountId).uidStates.filter (fun state =>
      state.accountId = accountId ∧ state.row.kind = kind ∧ state.row.namespaceId = boxId) =
      c.uidStates.filter fun state =>
        state.accountId = accountId ∧ state.row.kind = kind ∧ state.row.namespaceId = boxId :=
    filter_ofAccount (fun state hstate => (of_decide_eq_true hstate).1) fun _ _ => rfl
  unfold fetch fetcherSelectUidvalidity fetcherSelectMessage
  rw [fetchedRows_own, hstates]

end

/-! ## The flags of the UID map -/

section
variable {c : CatalogRows} {accountId membershipId : CString}

def ownNames (c : CatalogRows) (accountId membershipId : CString) : List CString :=
  attributeNames (own c accountId) .messageFlags membershipId ++ attributeNames (own c accountId) .messageKeywords membershipId

/-- The names in rows of other accounts that have the membership id. -/
def foreignNames (c : CatalogRows) (accountId membershipId : CString) : List CString :=
  [FlagTable.messageFlags, .messageKeywords].flatMap fun table =>
    ((c.attributes table).filter fun entry => entry.row.membershipId = membershipId ∧ entry.accountId ≠ accountId).map
      fun entry => entry.row.name

/-- Other accounts add nothing to the text of the names. One empty name alone does not show. -/
def Unflagged (c : CatalogRows) (accountId membershipId : CString) : Prop :=
  foreignNames c accountId membershipId = [] ∨
    (ownNames c accountId membershipId = [] ∧ foreignNames c accountId membershipId = [.empty])

/-- The bytes of the names and of a space for each. -/
def nameWeight (names : List CString) : ℕ := (names.map fun name => name.bytes.length + 1).sum

lemma joinNames_length (names : List CString) : (joinNames names).length = nameWeight names - 1 := by
  induction names with
  | nil => rfl
  | cons name names ih =>
    cases names with
    | nil => simp [joinNames, nameWeight]
    | cons next names =>
      have hcons : joinNames (name :: next :: names) = name.bytes ++ [32] ++ joinNames (next :: names) := by
        simp [joinNames, List.intercalate_cons_cons]
      have hpos : 1 ≤ nameWeight (next :: names) := by
        simp [nameWeight]
        omega
      have hweight : nameWeight (name :: next :: names) = name.bytes.length + 1 + nameWeight (next :: names) := rfl
      rw [hcons, List.length_append, List.length_append, ih, hweight, List.length_singleton]
      omega

lemma nameWeight_perm {names names' : List CString} (h : names.Perm names') : nameWeight names = nameWeight names' :=
  (h.map _).sum_eq

lemma nameWeight_append (names names' : List CString) : nameWeight (names ++ names') = nameWeight names + nameWeight names' := by
  rw [nameWeight, nameWeight, nameWeight, List.map_append, List.sum_append]

lemma nameWeight_eq_zero {names : List CString} : nameWeight names = 0 ↔ names = [] := by
  cases names <;> simp [nameWeight]

lemma rankedNames_perm (c : CatalogRows) (membershipId : CString) : (rankedNames c membershipId).Perm
    (attributeNames c .messageFlags membershipId ++ attributeNames c .messageKeywords membershipId) :=
  (orderBy_perm _ _).append (orderBy_perm _ _)

/-- Every name is in a row of the account or of another. -/
lemma names_perm : (attributeNames c .messageFlags membershipId ++ attributeNames c .messageKeywords membershipId).Perm
    (ownNames c accountId membershipId ++ foreignNames c accountId membershipId) := by
  have htable : ∀ table, (attributeNames c table membershipId).Perm (attributeNames (own c accountId) table membershipId ++
      ((c.attributes table).filter fun entry => entry.row.membershipId = membershipId ∧ entry.accountId ≠ accountId).map
        fun entry => entry.row.name) := by
    intro table
    unfold attributeNames
    rw [← List.map_append]
    refine List.Perm.map _ ?_
    have hown : ((own c accountId).attributes table).filter (fun entry => entry.row.membershipId = membershipId) =
        ((c.attributes table).filter fun entry => entry.row.membershipId = membershipId).filter fun entry =>
          entry.accountId = accountId := by
      rw [List.filter_filter]
      change List.filter _ (List.filter _ _) = _
      rw [List.filter_filter]
      exact List.filter_congr fun _ _ => Bool.and_comm _ _
    have hforeign : ((c.attributes table).filter fun entry => entry.row.membershipId = membershipId ∧ entry.accountId ≠ accountId) =
        ((c.attributes table).filter fun entry => entry.row.membershipId = membershipId).filter fun entry =>
          !decide (entry.accountId = accountId) := by
      rw [List.filter_filter]
      refine List.filter_congr fun entry _ => ?_
      rw [Bool.and_comm, ← decide_not, ← Bool.decide_and]
    rw [hown, hforeign]
    exact (List.filter_append_perm _ _).symm
  have hboth := (htable .messageFlags).append (htable .messageKeywords)
  unfold ownNames foreignNames
  rw [List.flatMap_cons, List.flatMap_cons, List.flatMap_nil, List.append_nil]
  refine hboth.trans ?_
  rw [List.append_assoc, List.append_assoc]
  refine List.Perm.append_left _ ?_
  rw [← List.append_assoc, ← List.append_assoc]
  exact List.Perm.append_right _ List.perm_append_comm

lemma attributeNames_own (h : foreignNames c accountId membershipId = []) (table : FlagTable) :
    attributeNames c table membershipId = attributeNames (own c accountId) table membershipId := by
  have hnone : ∀ entry ∈ c.attributes table, entry.row.membershipId = membershipId → entry.accountId = accountId := by
    intro entry hentry hmembership
    by_contra haccount
    have hmem : entry.row.name ∈ foreignNames c accountId membershipId := by
      refine List.mem_flatMap.mpr ⟨table, by cases table <;> simp, List.mem_map_of_mem (List.mem_filter.mpr ⟨hentry, ?_⟩)⟩
      exact decide_eq_true ⟨hmembership, haccount⟩
    rw [h] at hmem
    exact List.not_mem_nil hmem
  unfold attributeNames
  refine congrArg _ ?_
  change _ = List.filter _ (List.filter _ _)
  rw [List.filter_filter]
  refine List.filter_congr fun entry hentry => ?_
  by_cases hmembership : entry.row.membershipId = membershipId
  · rw [decide_eq_true hmembership, decide_eq_true (hnone entry hentry hmembership), Bool.and_true]
  · rw [decide_eq_false hmembership, Bool.false_and]

lemma joinNames_rankedNames_length (c : CatalogRows) (membershipId : CString) :
    (joinNames (rankedNames c membershipId)).length =
      nameWeight (attributeNames c .messageFlags membershipId ++ attributeNames c .messageKeywords membershipId) - 1 := by
  rw [joinNames_length, nameWeight_perm (rankedNames_perm c membershipId)]

/-- The text of the names is that of the account's rows alone exactly if it has no others. -/
lemma joinNames_own : joinNames (rankedNames c membershipId) = joinNames (rankedNames (own c accountId) membershipId) ↔
    Unflagged c accountId membershipId := by
  have hall := joinNames_rankedNames_length c membershipId
  have hown := joinNames_rankedNames_length (own c accountId) membershipId
  rw [nameWeight_perm (@names_perm c accountId membershipId), nameWeight_append] at hall
  change _ = nameWeight (ownNames c accountId membershipId) - 1 at hown
  constructor
  · intro htext
    rw [htext, hown] at hall
    by_cases hnone : foreignNames c accountId membershipId = []
    · exact .inl hnone
    · have hforeign : nameWeight (foreignNames c accountId membershipId) ≠ 0 := mt nameWeight_eq_zero.mp hnone
      refine .inr ⟨nameWeight_eq_zero.mp (by omega), ?_⟩
      have hone : nameWeight (foreignNames c accountId membershipId) = 1 := by omega
      cases hnames : foreignNames c accountId membershipId with
      | nil => exact absurd hnames hnone
      | cons name names =>
        rw [hnames] at hone
        have hsplit : name.bytes.length + 1 + nameWeight names = 1 := hone
        have hrest : names = [] := nameWeight_eq_zero.mp (by omega)
        have hname : name = .empty := CString.ext (List.eq_nil_of_length_eq_zero (by omega))
        rw [hrest, hname]
  · rintro (hnone | ⟨hnone, hempty⟩)
    · unfold rankedNames
      rw [attributeNames_own hnone .messageFlags, attributeNames_own hnone .messageKeywords]
    · rw [hnone, hempty] at hall
      rw [hnone] at hown
      rw [List.eq_nil_of_length_eq_zero hall, List.eq_nil_of_length_eq_zero hown]

/-- A membership that the UID map shows: it has a UID state and a message of the account. -/
def IsMapped (c : CatalogRows) (accountId : CString) (kind : Kind) (boxId : CString) (member : Owned Member) : Prop :=
  isShownMember accountId boxId member = true ∧ (∃ state ∈ c.uidStates, memberUidState kind member state = true) ∧
    ∃ message ∈ c.messages, memberMessage member message = true

lemma uidMap_own_iff {kind : Kind} {boxId : CString} :
    uidMap c accountId kind boxId = uidMap (own c accountId) accountId kind boxId ↔
      (kind = .ordinary → ∀ member ∈ c.members kind, IsMapped c accountId kind boxId member →
        Unflagged c accountId member.row.membershipId) := by
  have hrows : ∀ p ∈ uidMapRows c accountId kind boxId,
      uidMapFields c kind p = uidMapFields (own c accountId) kind p ↔
        (kind = .ordinary → Unflagged c accountId p.1.1.row.membershipId) := by
    intro p hp
    unfold uidMapFields
    cases kind with
    | ordinary => simp [lastField, joinNames_own]
    | virtual => simp [lastField]
  have hnonempty : ∀ c : CatalogRows, ∀ fields ∈ (orderBy uidMapKey (uidMapRows c accountId kind boxId)).map
      (uidMapFields c kind), fields ≠ [] := by
    intro c fields hfields
    obtain ⟨p, -, rfl⟩ := List.mem_map.mp hfields
    exact List.cons_ne_nil _ _
  have hall : uidMap c accountId kind boxId = uidMap (own c accountId) accountId kind boxId ↔
      ∀ p ∈ uidMapRows c accountId kind boxId, uidMapFields c kind p = uidMapFields (own c accountId) kind p := by
    constructor
    · intro htext
      have hwritten := Csv.write_injective (hnonempty c) (hnonempty (own c accountId)) (List.append_cancel_left htext)
      rw [uidMapRows_own, List.map_inj_left] at hwritten
      exact fun p hp => hwritten p (mem_orderBy.mpr hp)
    · intro hfields
      unfold uidMap
      rw [uidMapRows_own, List.map_congr_left fun p hp => hfields p (mem_orderBy.mp hp)]
  rw [hall]
  constructor
  · rintro hfields hkind member hmember ⟨hshown, ⟨state, hstate, hon⟩, message, hmessage, hon'⟩
    have hp : ((member, state), message) ∈ uidMapRows c accountId kind boxId :=
      mem_uidMapRows.mpr ⟨hmember, hstate, hmessage, hon, hon', hshown⟩
    exact (hrows _ hp).mp (hfields _ hp) hkind
  · intro hunflagged p hp
    obtain ⟨hmember, hstate, hmessage, hon, hon', hshown⟩ := mem_uidMapRows.mp hp
    exact (hrows p hp).mpr fun hkind =>
      hunflagged hkind p.1.1 hmember ⟨hshown, ⟨p.1.2, hstate, hon⟩, p.2, hmessage, hon'⟩

end

/-! ## The headers of SEARCH -/

section
variable {c : CatalogRows} {accountId : CString} {kind : Kind} {boxId : CString} {criteria : List Criterion}

def headerOf (c : CatalogRows) (member : Owned Member) : Option HeaderRow := c.headers.find? (memberHeader member)

def isFoundMember (c : CatalogRows) (accountId boxId : CString) (criteria : List Criterion) (member : Owned Member) : Bool :=
  isShownMember accountId boxId member && isFound criteria (headerOf c member)

lemma foundUids_eq : (foundMembers c accountId kind boxId criteria).map (fun p => p.1.row.uid) =
    ((c.members kind).filter (isFoundMember c accountId boxId criteria)).map fun member => member.row.uid := by
  have hjoin : leftJoin memberHeader (c.members kind) c.headers = (c.members kind).map fun member =>
      (member, headerOf c member) := leftJoin_eq_map c.headers_nodup fun _ _ => rfl
  unfold foundMembers
  rw [hjoin, List.filter_map, List.map_map]
  rfl

lemma headerOf_eq_some {member : Owned Member} {header : HeaderRow} :
    headerOf c member = some header ↔ header ∈ c.headers ∧ header.messageId = member.row.messageId := by
  constructor
  · intro hfound
    have hmatch := List.find?_some hfound
    exact ⟨List.mem_of_find?_eq_some hfound, of_decide_eq_true hmatch⟩
  · rintro ⟨hheader, hmatch⟩
    cases hfound : headerOf c member with
    | none => exact absurd (decide_eq_true hmatch) (List.find?_eq_none.mp hfound header hheader)
    | some header' =>
      have hmatch' := List.find?_some hfound
      rw [List.inj_on_of_nodup_map c.headers_nodup (List.mem_of_find?_eq_some hfound) hheader
        ((of_decide_eq_true hmatch').trans hmatch.symm)]

/-- The headers of a membership in the account's rows alone. -/
lemma headerOf_own (member : Owned Member) : headerOf (own c accountId) member =
    (headerOf c member).filter fun header => isOwnMessage c accountId header.messageId := by
  refine Option.ext fun header => ?_
  change header ∈ headerOf _ _ ↔ header ∈ Option.filter _ _
  rw [Option.mem_filter_iff, Option.mem_def, Option.mem_def, headerOf_eq_some, headerOf_eq_some]
  change header ∈ List.filter _ _ ∧ _ ↔ _
  rw [List.mem_filter]
  tauto

/-- The search would accept the namespace. -/
def IsSearched (c : CatalogRows) (accountId : CString) (kind : Kind) (boxId : CString) (uidvalidity : ℕ) : Prop :=
  ∃ state ∈ c.uidStates, ∃ box ∈ c.boxes kind, stateBox state box = true ∧
    isSearchable accountId kind boxId (state, box) = true ∧ state.row.uidvalidity = uidvalidity

lemma checkNamespace_eq_ok {uidvalidity : ℕ} :
    checkNamespace c accountId kind boxId uidvalidity = .ok () ↔ IsSearched c accountId kind boxId uidvalidity := by
  have hmem : uidvalidity ∈ namespaceUidvalidities c accountId kind boxId ↔
      IsSearched c accountId kind boxId uidvalidity := by
    simp only [namespaceUidvalidities, List.mem_map, List.mem_filter, mem_join, IsSearched]
    constructor
    · rintro ⟨p, ⟨⟨hstate, hbox, hon⟩, hsearchable⟩, huidvalidity⟩
      exact ⟨p.1, hstate, p.2, hbox, hon, hsearchable, huidvalidity⟩
    · rintro ⟨state, hstate, box, hbox, hon, hsearchable, huidvalidity⟩
      exact ⟨(state, box), ⟨⟨hstate, hbox, hon⟩, hsearchable⟩, huidvalidity⟩
  rw [← hmem, checkNamespace]
  cases hrows : namespaceUidvalidities c accountId kind boxId with
  | nil => simp
  | cons stored rest =>
    have hone : ∀ other ∈ rest, stored = other := fun other hother =>
      namespaceUidvalidities_unique (hrows ▸ List.mem_cons_self) (hrows ▸ List.mem_cons_of_mem _ hother)
    by_cases hstored : stored = uidvalidity
    · simp [hstored]
    · simp only [hstored, if_false, reduceCtorEq, List.mem_cons, false_iff, not_or]
      refine ⟨fun heq => hstored heq.symm, fun hrest => hstored (hone _ hrest)⟩

lemma count_uidLine (uid : ℕ) : (uidLine uid).count 10 = 1 := by
  have hdigits : (10 : UInt8) ∉ (CString.decimal uid).bytes := fun h => by
    have hrange := CString.mem_decimalDigits h
    simp at hrange
  rw [uidLine, List.count_append, List.count_eq_zero.mpr hdigits]
  rfl

lemma count_lines (uids : List ℕ) : (uids.flatMap uidLine).count 10 = uids.length := by
  induction uids with
  | nil => rfl
  | cons uid uids ih =>
    rw [List.flatMap_cons, List.count_append, ih, count_uidLine, List.length_cons, Nat.add_comm]

/-- The header rows of other accounts' messages decide no membership of the search. -/
def Unmatched (c : CatalogRows) (accountId : CString) (kind : Kind) (boxId : CString) (criteria : List Criterion) : Prop :=
  ∀ member ∈ c.members kind, isShownMember accountId boxId member = true → ∀ header ∈ c.headers,
    header.messageId = member.row.messageId → isOwnMessage c accountId header.messageId = false →
      criteria = [] ∨ matchesAll criteria header = false

lemma isFoundMember_own_iff : (∀ member ∈ c.members kind,
    isFoundMember (own c accountId) accountId boxId criteria member = isFoundMember c accountId boxId criteria member) ↔
      Unmatched c accountId kind boxId criteria := by
  refine forall₂_congr fun member hmember => ?_
  unfold isFoundMember
  cases hshown : isShownMember accountId boxId member with
  | false => simp
  | true =>
    rw [Bool.true_and, Bool.true_and, headerOf_own, imp_iff_right rfl]
    cases hfound : headerOf c member with
    | none =>
      refine iff_of_true rfl fun header hheader hmatch => ?_
      rw [headerOf_eq_some.mpr ⟨hheader, hmatch⟩] at hfound
      simp at hfound
    | some header =>
      have hone : ∀ header' ∈ c.headers, header'.messageId = member.row.messageId → header' = header :=
        fun header' hheader' hmatch' => Option.some.inj ((headerOf_eq_some.mpr ⟨hheader', hmatch'⟩).symm.trans hfound)
      obtain ⟨hheader, hmatch⟩ := headerOf_eq_some.mp hfound
      cases hown : isOwnMessage c accountId header.messageId with
      | true =>
        rw [Option.filter_some, if_pos hown]
        refine iff_of_true rfl fun header' hheader' hmatch' hforeign => ?_
        rw [hone header' hheader' hmatch', hown] at hforeign
        simp at hforeign
      | false =>
        rw [Option.filter_some, if_neg (by simp [hown])]
        have hdecides : (isFound criteria none = isFound criteria (some header)) ↔
            (criteria = [] ∨ matchesAll criteria header = false) := by
          cases criteria with
          | nil => simp [isFound, matchesAll]
          | cons criterion criteria =>
            rw [eq_comm, or_iff_right (List.cons_ne_nil _ _)]
            rfl
        rw [hdecides]
        constructor
        · intro h header' hheader' hmatch' _
          rwa [hone header' hheader' hmatch']
        · intro h
          exact h header hheader hmatch hown

lemma queryMatchingUids_own_iff : queryMatchingUids c accountId kind boxId criteria =
    queryMatchingUids (own c accountId) accountId kind boxId criteria ↔ Unmatched c accountId kind boxId criteria := by
  have hown : ((own c accountId).members kind).filter (isFoundMember (own c accountId) accountId boxId criteria) =
      (c.members kind).filter (isFoundMember (own c accountId) accountId boxId criteria) := by
    refine filter_ofAccount (fun member hmember => ?_) fun _ _ => rfl
    exact (of_decide_eq_true (Bool.and_eq_true_iff.mp hmember).1).1
  rw [← isFoundMember_own_iff]
  unfold queryMatchingUids
  rw [foundUids_eq, foundUids_eq, hown]
  constructor
  · intro htext
    have hcount := congrArg (List.count 10) htext
    rw [count_lines, count_lines, (orderBy_perm _ _).length_eq, (orderBy_perm _ _).length_eq, List.length_map,
      List.length_map] at hcount
    -- what is found in the account's rows alone is found in the whole catalog
    have hmore : ∀ member, isFoundMember (own c accountId) accountId boxId criteria member = true →
        isFoundMember c accountId boxId criteria member = true := by
      intro member hmember
      obtain ⟨hshown, hfound⟩ := Bool.and_eq_true_iff.mp hmember
      refine Bool.and_eq_true_iff.mpr ⟨hshown, ?_⟩
      rw [headerOf_own] at hfound
      cases hheader : headerOf c member with
      | none => rwa [hheader] at hfound
      | some header =>
        rw [hheader, Option.filter_some] at hfound
        split at hfound
        · exact hfound
        · rw [List.isEmpty_iff.mp hfound]
          rfl
    have hsame := (List.monotone_filter_right (c.members kind) hmore).eq_of_length hcount.symm
    intro member hmember
    have hiff := congrArg (member ∈ ·) hsame
    rw [eq_iff_iff, List.mem_filter, List.mem_filter] at hiff
    rw [Bool.eq_iff_iff]
    tauto
  · intro hsame
    rw [List.filter_congr hsame]

lemma search_own_iff {uidvalidity : ℕ} : searchMessages c accountId kind boxId uidvalidity criteria =
    searchMessages (own c accountId) accountId kind boxId uidvalidity criteria ↔
      (IsSearched c accountId kind boxId uidvalidity → Unmatched c accountId kind boxId criteria) := by
  unfold searchMessages
  rw [checkNamespace_own]
  cases hcheck : checkNamespace c accountId kind boxId uidvalidity with
  | error error =>
    refine iff_of_true rfl fun hsearched => ?_
    rw [checkNamespace_eq_ok.mpr hsearched] at hcheck
    cases hcheck
  | ok u =>
    rw [imp_iff_right (checkNamespace_eq_ok.mp hcheck), ← queryMatchingUids_own_iff]
    exact ⟨fun h => Except.ok.inj h, fun h => congrArg Except.ok h⟩

end

/-! ## Isolation -/

/-- No row of another account takes part in the answer. -/
def Confined (c : CatalogRows) (accountId : CString) : ReadRequest → Prop
  | .uidMap kind boxId => kind = .ordinary → ∀ member ∈ c.members kind, IsMapped c accountId kind boxId member →
      Unflagged c accountId member.row.membershipId
  | .search kind boxId uidvalidity criteria =>
      IsSearched c accountId kind boxId uidvalidity → Unmatched c accountId kind boxId criteria
  | _ => True

section
variable (getBytes : CString → Option (List UInt8)) {c c' : CatalogRows} {accountId : CString} {request : ReadRequest}

lemma respond_own_iff : respond getBytes c accountId request = respond getBytes (own c accountId) accountId request ↔
    Confined c accountId request := by
  cases request with
  | list namespacePrefix => exact iff_of_true (congrArg _ (list_own accountId c namespacePrefix).symm) trivial
  | select selector => exact iff_of_true (congrArg _ (select_own accountId c selector).symm) trivial
  | uidMap kind boxId => exact ⟨fun h => uidMap_own_iff.mp (ReadResponse.uidMap.inj h),
      fun h => congrArg _ (uidMap_own_iff.mpr h)⟩
  | search kind boxId uidvalidity criteria => exact ⟨fun h => search_own_iff.mp (ReadResponse.search.inj h),
      fun h => congrArg _ (search_own_iff.mpr h)⟩
  | fetch kind boxId uidvalidity uid =>
    exact iff_of_true (congrArg _ (fetch_own accountId c getBytes kind boxId uidvalidity uid).symm) trivial

/-- Two catalogs with the same rows of the account answer alike where no other row takes part. -/
lemma respond_agree (hagree : AgreeOn accountId c c') (h : Confined c accountId request)
    (h' : Confined c' accountId request) : respond getBytes c accountId request = respond getBytes c' accountId request := by
  rw [(respond_own_iff getBytes).mpr h, (respond_own_iff getBytes).mpr h']
  exact respond_same getBytes hagree request

end

/-- A read answers as if the account were alone exactly if no other account's row takes part, and
    then it cannot tell catalogs that agree on the account. -/
theorem reads_isolated (getBytes : CString → Option (List UInt8)) (c : CatalogRows) (accountId : CString)
    (request : ReadRequest) :
    (respond getBytes c accountId request = respond getBytes (own c accountId) accountId request ↔
      Confined c accountId request) ∧
    ∀ c', AgreeOn accountId c c' → Confined c accountId request → Confined c' accountId request →
      respond getBytes c accountId request = respond getBytes c' accountId request :=
  ⟨respond_own_iff getBytes, fun _ hagree h h' => respond_agree getBytes hagree h h'⟩

/-! ## Coinciding identifiers -/

def alice : CString := .literal "alice"

def bob : CString := .literal "bob"

def inbox : CString := .literal "inbox"

/-- A membership of alice, and a message of bob with the id that the membership names. -/
def coinciding (messages : List (Owned MessageRow)) (headers : List HeaderRow)
    (messages_nodup : (messages.map fun message => message.row.messageId).Nodup)
    (headers_nodup : (headers.map HeaderRow.messageId).Nodup) : CatalogRows where
  boxes := fun kind => match kind with
    | .ordinary => [⟨alice, inbox, .literal "INBOX", true, true⟩]
    | .virtual => []
  members := fun kind => match kind with
    | .ordinary => [⟨alice, .literal "member-1", inbox, .literal "message-1", 1, true, none⟩]
    | .virtual => []
  uidStates := [⟨alice, .ordinary, inbox, 2, 7⟩]
  messages := messages
  headers := headers
  attributes := fun _ => []
  objects := []
  boxIds_nodup := by rintro (_ | _) <;> decide
  boxNames_nodup := by rintro (_ | _) <;> decide
  mailboxIds_nodup := by decide
  memberIds_nodup := by rintro (_ | _) <;> decide
  uids_nodup := by rintro (_ | _) <;> decide
  mailboxUids_nodup := by decide
  uidStates_nodup := by decide
  messages_nodup := messages_nodup
  headers_nodup := headers_nodup
  attributes_nodup := fun _ => List.nodup_nil
  objects_nodup := List.nodup_nil

def withoutBob : CatalogRows := coinciding [] [] List.nodup_nil List.nodup_nil

def withBob : CatalogRows :=
  coinciding [⟨bob, .literal "message-1", .literal "object-1"⟩]
    [⟨.literal "message-1", some (.literal "secret"), none, none, none⟩] (by decide) (by decide)

lemma bob_agrees : AgreeOn alice withoutBob withBob where
  boxes := fun _ => .refl _
  members := fun _ => .refl _
  uidStates := .refl _
  messages := .refl _
  headers := .refl _
  attributes := fun _ => .refl _
  objects := .refl _

/-- Alice's search finds the subject of bob's message. -/
theorem search_sees_other_account : ¬∀ (getBytes : CString → Option (List UInt8)) (c c' : CatalogRows)
    (accountId : CString) (request : ReadRequest), AgreeOn accountId c c' →
      respond getBytes c accountId request = respond getBytes c' accountId request := by
  intro hclaim
  have hsame := hclaim (fun _ => none) withoutBob withBob alice
    (.search .ordinary inbox 7 [.subjectContains (.literal "secret")]) bob_agrees
  have htexts := Except.ok.inj (ReadResponse.search.inj hsame)
  exact absurd htexts (by decide)

end Wyrebox.AccountIsolation
