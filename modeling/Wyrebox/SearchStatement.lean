import Mathlib.Logic.Function.Basic
import Wyrebox.AccountIsolation
import Wyrebox.LikePattern
import Wyrebox.Relational

set_option autoImplicit false

/-!
# The statement of a SEARCH

The criteria of a request become conditions with one placeholder each and the values that are bound to
the placeholders. The conditions select the members that meet every criterion.
-/
namespace Wyrebox.SearchStatement
open CatalogReads Joins Relational AccountIsolation
open DovecotSync (Kind asciiLower)

/-! ## Text -/

def asciiUpperLetters : List UInt8 := JournalRecord.ascii "ABCDEFGHIJKLMNOPQRSTUVWXYZ"
def asciiLowerLetters : List UInt8 := JournalRecord.ascii "abcdefghijklmnopqrstuvwxyz"

/-- `translate (text, from, to)` of letters that are bytes. -/
def translate (text letters replacements : List UInt8) : List UInt8 :=
  text.map fun c => ((letters.zip replacements).lookup c).getD c

/-- `replace (.. replace (text, 'A', 'a') .., 'Z', 'z')`. -/
def replaceEach (text : List UInt8) (letters : List (UInt8 × UInt8)) : List UInt8 :=
  letters.foldl (fun text letter => text.map fun c => if c = letter.1 then letter.2 else c) text

def escapeMark : UInt8 := 92

/-- The two copies of the function that builds a pattern:
    `duckdb_query_template_make_contains_like_pattern` and `make_ascii_folded_contains_pattern`. -/
def makeContainsLikePattern (term : CString) : List UInt8 :=
  let lower := term.bytes.map asciiLower
  37 :: (lower.flatMap fun c => if c = 92 ∨ c = 37 ∨ c = 95 then [92, c] else [c]) ++ [37]

/-- The condition of `messages.subject_contains.v1` on the subject. -/
def subjectContains (term : CString) (subject : Option CString) : Option Bool :=
  subject.bind fun subject =>
    LikePattern.like escapeMark (replaceEach subject.bytes (asciiUpperLetters.zip asciiLowerLetters))
      (makeContainsLikePattern term)

/-! ## Conditions -/

inductive Column where
  | accountId
  | boxId
  | isVisible
  | subject
  | fromAddr
  | senderDomain
  | dateUnixUs

/-- A row of the membership table with its header. -/
abbrev JoinedRow : Type := Owned Member × Option HeaderRow

def textValue (text : Option CString) : Value CString := text.elim .null .varchar

def columnValue (row : JoinedRow) : Column → Value CString
  | .accountId => .varchar row.1.accountId
  | .boxId => .varchar row.1.row.boxId
  | .isVisible => .boolean row.1.row.isVisible
  | .subject => textValue (row.2.bind HeaderRow.subject)
  | .fromAddr => textValue (row.2.bind HeaderRow.fromAddr)
  | .senderDomain => textValue (row.2.bind HeaderRow.senderDomain)
  | .dateUnixUs => (row.2.bind HeaderRow.dateUnixUs).elim .null .bigint

/-- The conditions of the statement. All but the first two have one placeholder. -/
inductive Condition where
  | isTrue (column : Column)
  | isNotNull (column : Column)
  | equals (column : Column)
  | foldedLike (column : Column)
  | atLeast (column : Column)
  | before (column : Column)

def Condition.placeholders : Condition → ℕ
  | .isTrue _ | .isNotNull _ => 0
  | _ => 1

/-- A comparison with `NULL` has no truth value. -/
def Condition.eval (row : JoinedRow) (bound : Value CString) : Condition → Option Bool
  | .isTrue column =>
    match columnValue row column with
    | .boolean b => some b
    | _ => none
  | .isNotNull column => some (columnValue row column != .null)
  | .equals column =>
    match columnValue row column, bound with
    | .varchar text, .varchar other => some (text = other)
    | _, _ => none
  | .foldedLike column =>
    match columnValue row column, bound with
    | .varchar text, .varchar pattern =>
      LikePattern.like escapeMark (translate text.bytes asciiUpperLetters asciiLowerLetters) pattern.bytes
    | _, _ => none
  | .atLeast column =>
    match columnValue row column, bound with
    | .bigint n, .bigint limit => some (limit ≤ n)
    | _, _ => none
  | .before column =>
    match columnValue row column, bound with
    | .bigint n, .bigint limit => some (n < limit)
    | _, _ => none

/-- `WHERE` with the conditions joined by `AND`. Placeholders are numbered from the left. -/
def selects (row : JoinedRow) (bound : ℕ → Value CString) : ℕ → List Condition → Bool
  | _, [] => true
  | next, condition :: rest =>
    condition.eval row (bound next) == some true && selects row bound (next + condition.placeholders) rest

/-! ## The statement -/

/-- The end of `membership_sql`. -/
def membershipConditions : List Condition := [.equals .accountId, .equals .boxId, .isTrue .isVisible]

/-- `append_ascii_folded_contains`. -/
def appendFoldedContains (column : Column) : List Condition := [.isNotNull column, .foldedLike column]

def criterionConditions : Criterion → List Condition
  | .subjectContains _ => appendFoldedContains .subject
  | .fromContains _ => appendFoldedContains .fromAddr
  | .senderDomain _ => [.equals .senderDomain]
  | .sentSince _ => [.atLeast .dateUnixUs]
  | .sentBefore _ => [.before .dateUnixUs]

/-- `build_search_sql`. -/
def buildSearchSql (criteria : List Criterion) : List Condition :=
  criteria.foldl (fun sql criterion => sql ++ criterionConditions criterion) membershipConditions

/-- The value that `bind_criterion` binds. -/
def bindCriterion : Criterion → Value CString
  | .subjectContains text | .fromContains text => .varchar (.ofBuffer (makeContainsLikePattern text))
  | .senderDomain text => .varchar (.ofBuffer (text.bytes.map asciiLower))
  | .sentSince unixUs | .sentBefore unixUs => .bigint unixUs

/-- `bind_namespace`. -/
def bindNamespace (accountId boxId : CString) : ℕ → Value CString :=
  Function.update (Function.update (fun _ => .null) 1 (.varchar accountId)) 2 (.varchar boxId)

/-- The binds of `query_matching_uids`. -/
def bindAll (accountId boxId : CString) (criteria : List Criterion) : ℕ → Value CString :=
  criteria.zipIdx.foldl (fun bound p => Function.update bound (p.2 + 3) (bindCriterion p.1)) (bindNamespace accountId boxId)

/-- `query_matching_uids`, with `ORDER BY m.uid`. -/
def queryMatchingUids (c : CatalogRows) (accountId : CString) (kind : Kind) (boxId : CString) (criteria : List Criterion) :
    List ℕ :=
  orderBy id (((leftJoin memberHeader (c.members kind) c.headers).filter fun row =>
    selects row (bindAll accountId boxId criteria) 1 (buildSearchSql criteria)).map fun row => row.1.row.uid)

/-- `search_messages`. -/
def searchMessages (c : CatalogRows) (accountId : CString) (kind : Kind) (boxId : CString) (uidvalidity : ℕ)
    (criteria : List Criterion) : Except ReadError (List UInt8) := do
  checkNamespace c accountId kind boxId uidvalidity
  .ok ((queryMatchingUids c accountId kind boxId criteria).flatMap uidLine)

/-! ## Letter case -/

theorem forall_byte {P : UInt8 → Prop} (h : ∀ n : Fin 256, P (UInt8.ofNat n.val)) (c : UInt8) : P c := by
  have hc := h ⟨c.toNat, c.toNat_lt⟩
  rwa [UInt8.ofNat_toNat] at hc

theorem translate_lower (text : List UInt8) : translate text asciiUpperLetters asciiLowerLetters = text.map asciiLower := by
  refine List.map_congr_left fun c _ => ?_
  exact @forall_byte (fun c => ((asciiUpperLetters.zip asciiLowerLetters).lookup c).getD c = asciiLower c)
    (by decide +kernel) c

theorem replaceEach_eq_map (text : List UInt8) (letters : List (UInt8 × UInt8)) : replaceEach text letters =
    text.map fun c => letters.foldl (fun c letter => if c = letter.1 then letter.2 else c) c := by
  induction letters generalizing text with
  | nil => simp [replaceEach]
  | cons letter letters ih =>
    have hrest := ih (text.map fun c => if c = letter.1 then letter.2 else c)
    rw [replaceEach] at hrest
    rw [replaceEach, List.foldl_cons, hrest, List.map_map]
    rfl

theorem replaceEach_lower (text : List UInt8) :
    replaceEach text (asciiUpperLetters.zip asciiLowerLetters) = text.map asciiLower := by
  rw [replaceEach_eq_map]
  refine List.map_congr_left fun c _ => ?_
  exact @forall_byte (fun c => (asciiUpperLetters.zip asciiLowerLetters).foldl
    (fun c letter => if c = letter.1 then letter.2 else c) c = asciiLower c) (by decide +kernel) c

/-! ## Patterns -/

theorem asciiLower_ne_zero {c : UInt8} (h : c ≠ 0) : asciiLower c ≠ 0 := by
  revert h
  exact @forall_byte (fun c => c ≠ 0 → asciiLower c ≠ 0) (by decide +kernel) c

theorem makeContainsLikePattern_eq (term : CString) : makeContainsLikePattern term =
    37 :: (LikePattern.escaped escapeMark (term.bytes.map asciiLower) ++ [37]) := by
  have hmark : (fun c : UInt8 => if c = 92 ∨ c = 37 ∨ c = 95 then [92, c] else [c]) =
      fun c => if LikePattern.isControl escapeMark c then [escapeMark, c] else [c] := by
    funext c
    refine if_congr ?_ rfl rfl
    rw [LikePattern.isControl, decide_eq_true_eq, escapeMark]
    tauto
  rw [makeContainsLikePattern, hmark]
  rfl

theorem no_nul_lower (text : CString) : (0 : UInt8) ∉ text.bytes.map asciiLower := by
  intro hzero
  obtain ⟨c, hc, hlower⟩ := List.mem_map.mp hzero
  exact asciiLower_ne_zero (ne_of_mem_of_not_mem hc text.no_nul) hlower

/-- The pattern is bound whole. -/
theorem no_nul_pattern (term : CString) : (0 : UInt8) ∉ makeContainsLikePattern term := by
  have hlower := no_nul_lower term
  simp only [makeContainsLikePattern, List.cons_append, List.mem_cons, List.mem_append, List.mem_flatMap, not_or,
    not_exists, not_and]
  refine ⟨by decide, fun c hc => ?_, by decide⟩
  have hc0 := ne_of_mem_of_not_mem hc hlower
  split <;> simp [hc0.symm]

theorem ofBuffer_of_no_nul {bytes : List UInt8} (h : (0 : UInt8) ∉ bytes) : (CString.ofBuffer bytes).bytes = bytes :=
  congrArg CString.bytes (CString.ofBuffer_bytes ⟨bytes, h⟩)

theorem like_makeContainsLikePattern (term : CString) (text : List UInt8) :
    LikePattern.like escapeMark text (makeContainsLikePattern term) =
      some (term.bytes.map asciiLower <:+: text : Bool) := by
  rw [makeContainsLikePattern_eq]
  exact LikePattern.like_escaped (by decide) _ _

theorem subjectContains_eq (term : CString) (subject : Option CString) : subjectContains term subject =
    subject.map fun subject => foldedContains subject term := by
  cases subject with
  | none => rfl
  | some subject =>
    rw [subjectContains, Option.bind_some, replaceEach_lower, like_makeContainsLikePattern]
    rfl

/-! ## Binds -/

section
variable (accountId boxId : CString) (criteria : List Criterion)

theorem foldl_update_of_lt {start k : ℕ} (h : k < start + 3) (bound : ℕ → Value CString) :
    (criteria.zipIdx start).foldl (fun bound p => Function.update bound (p.2 + 3) (bindCriterion p.1)) bound k =
      bound k := by
  induction criteria generalizing start bound with
  | nil => rfl
  | cons criterion criteria ih =>
    rw [List.zipIdx_cons, List.foldl_cons, ih (by omega), Function.update_of_ne (by omega)]

theorem foldl_update_of_get {i : ℕ} {criterion : Criterion} (h : criteria[i]? = some criterion) (start : ℕ)
    (bound : ℕ → Value CString) :
    (criteria.zipIdx start).foldl (fun bound p => Function.update bound (p.2 + 3) (bindCriterion p.1)) bound
      (start + i + 3) = bindCriterion criterion := by
  induction criteria generalizing start i bound with
  | nil => simp at h
  | cons first criteria ih =>
    rw [List.zipIdx_cons, List.foldl_cons]
    cases i with
    | zero =>
      rw [List.getElem?_cons_zero, Option.some_inj] at h
      rw [foldl_update_of_lt criteria (by omega), Nat.add_zero, Function.update_self, h]
    | succ i =>
      rw [List.getElem?_cons_succ] at h
      have hindex : start + (i + 1) + 3 = start + 1 + i + 3 := by omega
      rw [hindex]
      exact ih h (start + 1) _

theorem bindAll_account : bindAll accountId boxId criteria 1 = .varchar accountId := by
  rw [bindAll, foldl_update_of_lt criteria (by omega)]
  rfl

theorem bindAll_box : bindAll accountId boxId criteria 2 = .varchar boxId := by
  rw [bindAll, foldl_update_of_lt criteria (by omega)]
  rfl

theorem bindAll_criterion {i : ℕ} {criterion : Criterion} (h : criteria[i]? = some criterion) :
    bindAll accountId boxId criteria (3 + i) = bindCriterion criterion := by
  have hindex : 3 + i = 0 + i + 3 := by omega
  rw [bindAll, hindex]
  exact foldl_update_of_get criteria h 0 _

end

/-! ## Selection -/

def meets (header : Option HeaderRow) (criterion : Criterion) : Bool := header.any criterion.matches

theorem isFound_eq (criteria : List Criterion) (header : Option HeaderRow) :
    isFound criteria header = criteria.all (meets header) := by
  cases header with
  | some header => rfl
  | none => cases criteria <;> rfl

theorem meets_senderDomain (header : Option HeaderRow) (text : CString) : meets header (.senderDomain text) =
    (header.bind HeaderRow.senderDomain).any fun domain => domain.bytes = text.bytes.map asciiLower := by
  cases header <;> rfl

theorem meets_sentSince (header : Option HeaderRow) (unixUs : ℤ) : meets header (.sentSince unixUs) =
    (header.bind HeaderRow.dateUnixUs).any fun date => unixUs ≤ date := by cases header <;> rfl

theorem meets_sentBefore (header : Option HeaderRow) (unixUs : ℤ) : meets header (.sentBefore unixUs) =
    (header.bind HeaderRow.dateUnixUs).any fun date => date < unixUs := by cases header <;> rfl

theorem selects_append_foldedContains (row : JoinedRow) {bound : ℕ → Value CString} {next : ℕ} {column : Column}
    {value : Option CString} {term : CString} (hvalue : columnValue row column = textValue value)
    (hbound : bound next = .varchar (.ofBuffer (makeContainsLikePattern term))) (rest : List Condition) :
    selects row bound next (appendFoldedContains column ++ rest) =
      (value.any (fun text => foldedContains text term) && selects row bound (next + 1) rest) := by
  have hpattern := ofBuffer_of_no_nul (no_nul_pattern term)
  cases value with
  | none =>
    simp [appendFoldedContains, selects, Condition.eval, hvalue, textValue]
  | some text =>
    simp [appendFoldedContains, selects, Condition.eval, hvalue, textValue, hbound, hpattern, translate_lower,
      like_makeContainsLikePattern, foldedContains, Condition.placeholders]

/-- The conditions of a criterion use one placeholder, the one of its bind. -/
theorem selects_criterion (row : JoinedRow) {bound : ℕ → Value CString} {next : ℕ} {criterion : Criterion}
    (hbound : bound next = bindCriterion criterion) (rest : List Condition) :
    selects row bound next (criterionConditions criterion ++ rest) =
      (meets row.2 criterion && selects row bound (next + 1) rest) := by
  obtain ⟨member, header⟩ := row
  cases criterion with
  | subjectContains text =>
    rw [criterionConditions, selects_append_foldedContains _ rfl hbound]
    cases header with
    | none => rfl
    | some header => rfl
  | fromContains text =>
    rw [criterionConditions, selects_append_foldedContains _ rfl hbound]
    cases header with
    | none => rfl
    | some header => rfl
  | senderDomain text =>
    have hlower := ofBuffer_of_no_nul (no_nul_lower text)
    cases hdomain : header.bind HeaderRow.senderDomain with
    | none =>
      simp [criterionConditions, selects, Condition.eval, columnValue, hdomain, textValue, meets_senderDomain]
    | some domain =>
      simp [criterionConditions, selects, Condition.eval, columnValue, hdomain, textValue, meets_senderDomain, hbound,
        bindCriterion, CString.ext_iff, hlower, Condition.placeholders]
  | sentSince unixUs =>
    cases hdate : header.bind HeaderRow.dateUnixUs with
    | none => simp [criterionConditions, selects, Condition.eval, columnValue, hdate, meets_sentSince]
    | some date =>
      simp [criterionConditions, selects, Condition.eval, columnValue, hdate, meets_sentSince, hbound, bindCriterion,
        Condition.placeholders]
  | sentBefore unixUs =>
    cases hdate : header.bind HeaderRow.dateUnixUs with
    | none => simp [criterionConditions, selects, Condition.eval, columnValue, hdate, meets_sentBefore]
    | some date =>
      simp [criterionConditions, selects, Condition.eval, columnValue, hdate, meets_sentBefore, hbound, bindCriterion,
        Condition.placeholders]

theorem selects_criteria (row : JoinedRow) (criteria : List Criterion) {bound : ℕ → Value CString} {next : ℕ}
    (hbound : ∀ i criterion, criteria[i]? = some criterion → bound (next + i) = bindCriterion criterion) :
    selects row bound next (criteria.flatMap criterionConditions) = criteria.all (meets row.2) := by
  induction criteria generalizing next with
  | nil => rfl
  | cons criterion criteria ih =>
    have hfirst : bound next = bindCriterion criterion := hbound 0 criterion rfl
    rw [List.flatMap_cons, selects_criterion row hfirst, List.all_cons]
    refine congrArg _ (ih fun i other hother => ?_)
    rw [Nat.add_assoc, Nat.add_comm 1 i]
    exact hbound (i + 1) other hother

theorem buildSearchSql_eq (criteria : List Criterion) :
    buildSearchSql criteria = membershipConditions ++ criteria.flatMap criterionConditions := by
  rw [buildSearchSql, List.foldl_append_eq_append, List.flatMap_def]

/-- The statement selects the shown members with a header that meets every criterion. -/
theorem selects_buildSearchSql (row : JoinedRow) (accountId boxId : CString) (criteria : List Criterion) :
    selects row (bindAll accountId boxId criteria) 1 (buildSearchSql criteria) =
      (isShownMember accountId boxId row.1 && isFound criteria row.2) := by
  have hcriteria : selects row (bindAll accountId boxId criteria) 3 (criteria.flatMap criterionConditions) =
      isFound criteria row.2 := by
    rw [isFound_eq]
    exact selects_criteria row criteria fun i criterion => bindAll_criterion accountId boxId criteria
  have hshown : isShownMember accountId boxId row.1 =
      (decide (row.1.accountId = accountId) && (decide (row.1.row.boxId = boxId) && row.1.row.isVisible)) := by
    simp [isShownMember]
  rw [buildSearchSql_eq, membershipConditions, hshown, ← hcriteria]
  simp [selects, Condition.eval, columnValue, bindAll_account, bindAll_box, Condition.placeholders, Bool.and_assoc]

theorem queryMatchingUids_eq (c : CatalogRows) (accountId : CString) (kind : Kind) (boxId : CString)
    (criteria : List Criterion) : queryMatchingUids c accountId kind boxId criteria =
      orderBy id ((foundMembers c accountId kind boxId criteria).map fun p => p.1.row.uid) := by
  rw [queryMatchingUids, foundMembers]
  simp only [selects_buildSearchSql]

/-- The catalog's SEARCH answers what the statement selects. -/
theorem searchMessages_eq (c : CatalogRows) (accountId : CString) (kind : Kind) (boxId : CString) (uidvalidity : ℕ)
    (criteria : List Criterion) : searchMessages c accountId kind boxId uidvalidity criteria =
      CatalogReads.searchMessages c accountId kind boxId uidvalidity criteria := by
  rw [searchMessages, CatalogReads.searchMessages, queryMatchingUids_eq]
  rfl

/-! ## What a search returns -/

def Contains (column text : CString) : Prop := text.bytes.map asciiLower <:+: column.bytes.map asciiLower

/-- What a criterion asks of the headers of a message. -/
def Satisfies (header : HeaderRow) : Criterion → Prop
  | .subjectContains text => ∃ subject, header.subject = some subject ∧ Contains subject text
  | .fromContains text => ∃ fromAddr, header.fromAddr = some fromAddr ∧ Contains fromAddr text
  | .senderDomain text => ∃ domain, header.senderDomain = some domain ∧ domain.bytes = text.bytes.map asciiLower
  | .sentSince unixUs => ∃ date, header.dateUnixUs = some date ∧ unixUs ≤ date
  | .sentBefore unixUs => ∃ date, header.dateUnixUs = some date ∧ date < unixUs

theorem matches_iff (header : HeaderRow) (criterion : Criterion) :
    criterion.matches header = true ↔ Satisfies header criterion := by
  cases criterion with
  | subjectContains text => simp [Criterion.matches, Satisfies, Contains, foldedContains, Option.any_eq_true]
  | fromContains text => simp [Criterion.matches, Satisfies, Contains, foldedContains, Option.any_eq_true]
  | senderDomain text => simp [Criterion.matches, Satisfies, Option.any_eq_true]
  | sentSince unixUs => simp [Criterion.matches, Satisfies, Option.any_eq_true]
  | sentBefore unixUs => simp [Criterion.matches, Satisfies, Option.any_eq_true]

theorem isFound_headerOf (c : CatalogRows) (criteria : List Criterion) (member : Owned Member) :
    isFound criteria (headerOf c member) = true ↔
      ∀ criterion ∈ criteria, ∃ header ∈ c.headers, header.messageId = member.row.messageId ∧ Satisfies header criterion := by
  rw [isFound_eq, List.all_eq_true]
  refine forall₂_congr fun criterion _ => ?_
  rw [meets, Option.any_eq_true]
  refine exists_congr fun header => ?_
  rw [headerOf_eq_some, matches_iff, and_assoc]

section
variable (c : CatalogRows) (accountId : CString) (kind : Kind) (boxId : CString) (criteria : List Criterion)

theorem mem_queryMatchingUids {uid : ℕ} : uid ∈ queryMatchingUids c accountId kind boxId criteria ↔
    ∃ member ∈ c.members kind, isShownMember accountId boxId member ∧ isFound criteria (headerOf c member) ∧
      member.row.uid = uid := by
  rw [queryMatchingUids_eq, mem_orderBy, foundUids_eq]
  simp only [List.mem_map, List.mem_filter, isFoundMember, Bool.and_eq_true, and_assoc]

/-- A mailbox gives a UID to one membership. -/
theorem queryMatchingUids_pairwise : (queryMatchingUids c accountId kind boxId criteria).Pairwise (· < ·) := by
  have hnodup : (queryMatchingUids c accountId kind boxId criteria).Nodup := by
    rw [queryMatchingUids_eq, (orderBy_perm _ _).nodup_iff, foundUids_eq]
    refine List.Nodup.map_on (fun member hmember other hother huid => ?_) (((c.uids_nodup kind).of_map _).filter _)
    have hmember' := List.mem_filter.mp hmember
    have hother' := List.mem_filter.mp hother
    simp only [isFoundMember, isShownMember, Bool.and_eq_true, decide_eq_true_eq] at hmember' hother'
    refine List.inj_on_of_nodup_map (c.uids_nodup kind) hmember'.1 hother'.1 ?_
    rw [Prod.mk.injEq, Prod.mk.injEq]
    exact ⟨hmember'.2.1.1.trans hother'.2.1.1.symm, hmember'.2.1.2.1.trans hother'.2.1.2.1.symm, huid⟩
  have hsorted : (queryMatchingUids c accountId kind boxId criteria).Pairwise (· ≤ ·) := by
    rw [queryMatchingUids_eq]
    exact orderBy_pairwise id _
  exact (List.pairwise_and_iff.mpr ⟨hsorted, hnodup⟩).imp fun h => lt_of_le_of_ne h.1 h.2

end

/-- A search returns the UIDs of the shown memberships that meet every criterion, each once and in order.
    The subject template selects the rows that the subject criterion does. -/
theorem search_returns_members (c : CatalogRows) (accountId : CString) (kind : Kind) (boxId : CString)
    (uidvalidity : ℕ) (criteria : List Criterion) :
    (∃ uids : List ℕ, searchMessages c accountId kind boxId uidvalidity criteria =
        (checkNamespace c accountId kind boxId uidvalidity).map (fun _ => uids.flatMap uidLine) ∧
      uids.Pairwise (· < ·) ∧
      ∀ uid, uid ∈ uids ↔ ∃ member ∈ c.members kind, member.accountId = accountId ∧ member.row.boxId = boxId ∧
        member.row.isVisible = true ∧ member.row.uid = uid ∧
        ∀ criterion ∈ criteria, ∃ header ∈ c.headers, header.messageId = member.row.messageId ∧
          Satisfies header criterion) ∧
    ∀ (header : HeaderRow) (term : CString),
      subjectContains term header.subject = some true ↔ Satisfies header (.subjectContains term) := by
  constructor
  · refine ⟨queryMatchingUids c accountId kind boxId criteria, ?_, queryMatchingUids_pairwise .., fun uid => ?_⟩
    · rw [searchMessages]
      cases checkNamespace c accountId kind boxId uidvalidity <;> rfl
    · rw [mem_queryMatchingUids]
      refine exists_congr fun member => and_congr_right fun _ => ?_
      rw [isFound_headerOf, isShownMember, decide_eq_true_eq]
      tauto
  · intro header term
    rw [subjectContains_eq, Option.map_eq_some_iff]
    simp [Satisfies, Contains, foldedContains]

end Wyrebox.SearchStatement
