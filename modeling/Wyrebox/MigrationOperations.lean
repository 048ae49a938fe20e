import Wyrebox.CatalogSchema

set_option autoImplicit false

/-!
# Migration operations applied again

An operation leaves a database in which it finds its work done. Operations of later steps keep it so, but
for the early shapes of `message_headers`.
-/
namespace Wyrebox.Schema
open Relational Fallible

section
variable {db db' : Tables}

theorem query_eq_ok {statement : Tables → Except (StatementError Name) Tables} :
    query statement db = .ok db' ↔ statement db = .ok db' := by
  rw [query]
  cases statement db <;> simp [Except.mapError]

/-! ## Shapes -/

theorem compareColumns_eq_ok {table : Name} {position : ℕ} {expected actual : List (Column ColumnName)}
    (hlength : actual.length = expected.length) :
    compareColumns table position expected actual = .ok () ↔ actual = expected := by
  induction expected generalizing position actual with
  | nil =>
    rw [List.eq_nil_of_length_eq_zero hlength, compareColumns]
    · simp
    · rintro _ _ _ _ _ hnil
      cases hnil
  | cons e expected ih =>
    cases actual with
    | nil => cases hlength
    | cons a actual =>
      rw [List.length_cons, List.length_cons, Nat.add_right_cancel_iff] at hlength
      obtain ⟨name, type, notNull⟩ := e
      obtain ⟨name', type', notNull'⟩ := a
      rw [compareColumns, ite_error_eq_ok, ite_error_eq_ok, ite_error_eq_ok, ih hlength, List.cons.injEq]
      simp only [not_not, Column.mk.injEq]
      constructor
      · rintro ⟨rfl, rfl, rfl, rfl⟩
        exact ⟨⟨rfl, rfl, rfl⟩, rfl⟩
      · rintro ⟨⟨rfl, rfl, rfl⟩, rfl⟩
        exact ⟨rfl, rfl, rfl, rfl⟩

theorem validateTableColumns_eq_ok {table : Name} {columns : List (Column ColumnName)} :
    validateTableColumns db table columns = .ok () ↔ hasColumns db table columns = true := by
  rw [validateTableColumns, hasColumns]
  cases findTable db table with
  | none => simp
  | some found =>
    rw [ite_error_eq_ok, not_not, Option.any_some, beq_iff_eq]
    constructor
    · rintro ⟨hlength, hcompare⟩
      exact (compareColumns_eq_ok hlength).mp hcompare
    · intro heq
      exact ⟨congrArg List.length heq, (compareColumns_eq_ok (congrArg List.length heq)).mpr heq⟩

theorem validateTable_eq_ok {table : Name} {definition : TableDefinition} :
    validateTable db table definition = .ok () ↔
      hasColumns db table definition.columns = true ∧ hasPrimaryKey db table definition.primaryKey = true := by
  rw [validateTable, check_eq_ok, validateTableColumns_eq_ok, validatePrimaryKey, ite_ok_eq_ok]
  simp

theorem validateTable_isTable {table : Name} {definition : TableDefinition}
    (h : validateTable db table definition = .ok ()) : IsTable db table :=
  hasColumns_isTable (validateTable_eq_ok.mp h).1

theorem validateTable_congr {table : Name} (h : db' table = db table) (definition : TableDefinition) :
    validateTable db' table definition = .ok () ↔ validateTable db table definition = .ok () := by
  rw [validateTable_eq_ok, validateTable_eq_ok, hasColumns_congr h, hasPrimaryKey_congr h]

/-- A table has one shape. -/
theorem validateTable_ne {table : Name} {definition other : TableDefinition}
    (h : validateTable db table definition = .ok ()) (hne : definition.columns ≠ other.columns) :
    validateTable db table other ≠ .ok () := fun hother =>
  hne (hasColumns_unique (validateTable_eq_ok.mp h).1 (validateTable_eq_ok.mp hother).1)

/-! ## Work done -/

def bootstrapTables : List Name :=
  [.accounts, .objects, .messages, .messageFacts, .mailboxes, .mailboxMemberships, .derivedViews,
    .derivedViewMemberships, .mailboxUidState]

/-- A table with the definition and with rows that could be inserted into it again. -/
def Rebuilt (db : Tables) (name replacement : Name) (definition : TableDefinition) (columns : List ColumnName) :
    Prop :=
  db replacement = none ∧ ∃ rows, db name = some (.table ⟨definition, rows⟩) ∧
    definition.insertAll replacement [] rows = .ok rows ∧ rows.map (project columns) = rows

structure Scoped (db : Tables) : Prop where
  derivedViews : Rebuilt db .derivedViews .derivedViewsReplacement derivedViews derivedViewsColumns
  derivedViewMemberships : Rebuilt db .derivedViewMemberships .derivedViewMembershipsReplacement
    derivedViewMemberships derivedViewMembershipsColumns

structure HasReachabilityView (db : Tables) : Prop where
  view : db .objectReachability = some (.view objectReachability)
  resolves : objectReachability.resolves db = true

/-- The operation has nothing left to do. -/
def Settled (operation : Operation) (db : Tables) : Prop :=
  match operation with
  | .legacyBootstrap => (∀ name ∈ bootstrapTables, IsTable db name) ∧ validateMessageFactTable db = .ok ()
  | .addMessageAttributeTables => validateMessageAttributeTables db = .ok ()
  | .addMessageHeaderTable => validateMessageHeaderTableV3 db = .ok ()
  | .addDerivedViewMemberships => IsTable db .derivedViewMemberships
  | .scopeDerivedViewsByAccount => Scoped db
  | .addMessageHeaderSenderDomain =>
    validateMessageHeaderTable db = .ok () ∨ validateMessageHeaderTableV6 db = .ok ()
  | .addMessageHeaderDateUnixUs => validateMessageHeaderTable db = .ok ()
  | .addObjectReachabilityView => HasReachabilityView db
  | .addMessageHeaderProvenanceSpans => validateMessageHeaderTableV9 db = .ok ()
  | .addMessageFactExtractions => IsTable db .messageFactExtractions
  | .addDerivedViewRefreshState => IsTable db .derivedViewRefreshState
  | .addMailboxMembershipJournalItemAndTombstones =>
    validateMailboxMembershipsV12 db = .ok () ∧ HasReachabilityView db

/-! ### Tables that are only created -/

theorem createTableIfNotExists_query {name : Name} {definition : TableDefinition}
    (h : query (createTableIfNotExists name definition) db = .ok db') :
    IsTable db' name ∧ Grows db db' ∧ ∀ other, other ≠ name → db' other = db other :=
  createTableIfNotExists_eq_ok (query_eq_ok.mp h)

theorem createTableIfNotExists_query_of_isTable {name : Name} {definition : TableDefinition}
    (h : IsTable db name) : query (createTableIfNotExists name definition) db = .ok db :=
  query_eq_ok.mpr (createTableIfNotExists_of_isTable h)

theorem createBootstrapCatalog_eq_ok (h : createBootstrapCatalog db = .ok db') :
    Settled .legacyBootstrap db' ∧ Grows db db' ∧ ∀ name ∉ bootstrapTables, db' name = db name := by
  simp only [createBootstrapCatalog, createDerivedViewMemberships, bind_eq_ok] at h
  obtain ⟨db₁, h₁, db₂, h₂, db₃, h₃, db₄, h₄, ⟨⟩, hvalid, db₅, h₅, db₆, h₆, db₇, h₇, db₈, h₈, h₉⟩ := h
  obtain ⟨ht₁, hg₁, hf₁⟩ := createTableIfNotExists_query h₁
  obtain ⟨ht₂, hg₂, hf₂⟩ := createTableIfNotExists_query h₂
  obtain ⟨ht₃, hg₃, hf₃⟩ := createTableIfNotExists_query h₃
  obtain ⟨ht₄, hg₄, hf₄⟩ := createTableIfNotExists_query h₄
  obtain ⟨ht₅, hg₅, hf₅⟩ := createTableIfNotExists_query h₅
  obtain ⟨ht₆, hg₆, hf₆⟩ := createTableIfNotExists_query h₆
  obtain ⟨ht₇, hg₇, hf₇⟩ := createTableIfNotExists_query h₇
  obtain ⟨ht₈, hg₈, hf₈⟩ := createTableIfNotExists_query h₈
  obtain ⟨ht₉, hg₉, hf₉⟩ := createTableIfNotExists_query h₉
  -- what follows each table's creation
  have hr₈ : Grows db₈ db' := hg₉
  have hr₇ := hg₈.trans hr₈
  have hr₆ := hg₇.trans hr₇
  have hr₅ := hg₆.trans hr₆
  have hr₄ := hg₅.trans hr₅
  have hr₃ := hg₄.trans hr₄
  have hr₂ := hg₃.trans hr₃
  have hr₁ := hg₂.trans hr₂
  refine ⟨⟨?_, ?_⟩, hg₁.trans hr₁, ?_⟩
  · simp only [bootstrapTables, List.mem_cons, List.not_mem_nil, or_false, forall_eq_or_imp, forall_eq]
    exact ⟨hr₁.isTable ht₁, hr₂.isTable ht₂, hr₃.isTable ht₃, hr₄.isTable ht₄, hr₅.isTable ht₅, hr₆.isTable ht₆,
      hr₇.isTable ht₇, hr₈.isTable ht₈, ht₉⟩
  · exact (validateTable_congr (hr₄.keeps ht₄) messageFacts).mpr hvalid
  · intro name hname
    simp only [bootstrapTables, List.mem_cons, List.not_mem_nil, or_false, not_or] at hname
    obtain ⟨n₁, n₂, n₃, n₄, n₅, n₆, n₇, n₈, n₉⟩ := hname
    rw [hf₉ name n₉, hf₈ name n₈, hf₇ name n₇, hf₆ name n₆, hf₅ name n₅, hf₄ name n₄, hf₃ name n₃, hf₂ name n₂,
      hf₁ name n₁]

/-- The operation finds its work done. -/
theorem createBootstrapCatalog_of_settled (h : Settled .legacyBootstrap db) : createBootstrapCatalog db = .ok db := by
  obtain ⟨htables, hvalid⟩ := h
  simp only [bootstrapTables, List.mem_cons, List.not_mem_nil, or_false, forall_eq_or_imp, forall_eq] at htables
  obtain ⟨h₁, h₂, h₃, h₄, h₅, h₆, h₇, h₈, h₉⟩ := htables
  simp only [createBootstrapCatalog, createDerivedViewMemberships, createTableIfNotExists_query_of_isTable, h₁, h₂,
    h₃, h₄, h₅, h₆, h₇, h₈, h₉, hvalid, bind, Except.bind]

theorem createMessageAttributeTables_eq_ok (h : createMessageAttributeTables db = .ok db') :
    Settled .addMessageAttributeTables db' ∧ Grows db db' ∧
      ∀ name, name ≠ .messageFlags → name ≠ .messageKeywords → db' name = db name := by
  simp only [createMessageAttributeTables, bind_eq_ok] at h
  obtain ⟨db₁, h₁, db₂, h₂, ⟨⟩, hvalid, h₃⟩ := h
  rw [Except.ok.injEq] at h₃
  subst h₃
  obtain ⟨-, hg₁, hf₁⟩ := createTableIfNotExists_query h₁
  obtain ⟨-, hg₂, hf₂⟩ := createTableIfNotExists_query h₂
  exact ⟨hvalid, hg₁.trans hg₂, fun name n₁ n₂ => (hf₂ name n₂).trans (hf₁ name n₁)⟩

theorem validateMessageAttributeTables_eq_ok : validateMessageAttributeTables db = .ok () ↔
    validateTable db .messageFlags messageFlags = .ok () ∧
      validateTable db .messageKeywords messageKeywords = .ok () := by
  rw [validateMessageAttributeTables, check_eq_ok]

theorem createMessageAttributeTables_of_settled (h : Settled .addMessageAttributeTables db) :
    createMessageAttributeTables db = .ok db := by
  obtain ⟨hflags, hkeywords⟩ := validateMessageAttributeTables_eq_ok.mp h
  have hvalid : validateMessageAttributeTables db = .ok () := h
  simp only [createMessageAttributeTables, createTableIfNotExists_query_of_isTable, validateTable_isTable hflags,
    validateTable_isTable hkeywords, hvalid, bind, Except.bind]

theorem createMessageHeaderTableV3_eq_ok (h : createMessageHeaderTableV3 db = .ok db') :
    Settled .addMessageHeaderTable db' ∧ Grows db db' ∧ ∀ name, name ≠ .messageHeaders → db' name = db name := by
  simp only [createMessageHeaderTableV3, bind_eq_ok] at h
  obtain ⟨db₁, h₁, ⟨⟩, hvalid, h₂⟩ := h
  rw [Except.ok.injEq] at h₂
  subst h₂
  exact ⟨hvalid, (createTableIfNotExists_query h₁).2⟩

theorem createMessageHeaderTableV3_of_settled (h : Settled .addMessageHeaderTable db) :
    createMessageHeaderTableV3 db = .ok db := by
  have hvalid : validateMessageHeaderTableV3 db = .ok () := h
  simp only [createMessageHeaderTableV3, createTableIfNotExists_query_of_isTable, validateTable_isTable hvalid,
    hvalid, bind, Except.bind]

/-- A later shape is refused. -/
theorem createMessageHeaderTableV3_of_other {definition : TableDefinition}
    (h : validateTable db .messageHeaders definition = .ok ())
    (hne : definition.columns ≠ (headerTable messageHeadersColumnsV3).columns) :
    ∃ error, createMessageHeaderTableV3 db = .error error := by
  have hother := validateTable_ne h hne
  simp only [createMessageHeaderTableV3, createTableIfNotExists_query_of_isTable, validateTable_isTable h, bind,
    Except.bind, validateMessageHeaderTableV3]
  cases hvalid : validateTable db .messageHeaders (headerTable messageHeadersColumnsV3) with
  | ok u => exact (hother hvalid).elim
  | error error => exact ⟨error, rfl⟩

/-! ### The object reachability view -/

/-- What the view reads. -/
theorem resolves_of_keeps (h : ∀ name, name = .objects ∨ name = .messages ∨ name = .mailboxMemberships ∨
    name = .derivedViewMemberships → db' name = db name) :
    objectReachability.resolves db' = objectReachability.resolves db := by
  refine resolves_congr fun entry hentry => h entry.1 ?_
  simp only [objectReachability, List.mem_cons, List.not_mem_nil, or_false] at hentry
  rcases hentry with rfl | rfl | rfl | rfl | rfl | rfl | rfl | rfl <;> simp

theorem update_of_reads {name : Name} (h : name = .objects ∨ name = .messages ∨ name = .mailboxMemberships ∨
    name = .derivedViewMemberships) (relation : Option (Relation Name ColumnName CString)) :
    Function.update db .objectReachability relation name = db name := by
  rcases h with rfl | rfl | rfl | rfl <;> rfl

theorem createObjectReachabilityView_eq_ok (h : createObjectReachabilityView db = .ok db') :
    HasReachabilityView db' ∧ ∀ name, name ≠ .objectReachability → db' name = db name := by
  simp only [createObjectReachabilityView, bind_eq_ok, query_eq_ok, createView_eq_ok] at h
  obtain ⟨db₁, h₁, -, hresolves, rfl⟩ := h
  obtain ⟨-, rfl⟩ := dropViewIfExists_eq_ok h₁
  refine ⟨⟨Function.update_self .., ?_⟩, fun name hname => ?_⟩
  · exact (resolves_of_keeps fun name hname => update_of_reads hname _).trans hresolves
  · rw [Function.update_of_ne hname, Function.update_of_ne hname]

theorem createObjectReachabilityView_of_settled (h : HasReachabilityView db) :
    createObjectReachabilityView db = .ok db := by
  have hresolves : objectReachability.resolves (Function.update db .objectReachability none) = true :=
    (resolves_of_keeps fun name hname => update_of_reads hname _).trans h.resolves
  simp only [createObjectReachabilityView, bind_eq_ok, query_eq_ok, createView_eq_ok]
  refine ⟨Function.update db .objectReachability none, ?_, Function.update_self .., hresolves, ?_⟩
  · rw [dropViewIfExists, h.view]
  · rw [Function.update_idem, ← h.view, Function.update_eq_self]

/-! ### Message headers -/

def isHeaderTable (name : Name) : Prop := name = .messageHeaders ∨ name = .messageHeadersReplacement

theorem copyRows_keeps {f : Rows → Rows} {rows : List Rows} (h : copyRows f rows db = .ok db') {name : Name}
    (hname : name ≠ .messageHeadersReplacement) : db' name = db name := by
  induction rows generalizing db with
  | nil =>
    rw [copyRows, Except.ok.injEq] at h
    rw [h]
  | cons row rows ih =>
    simp only [copyRows, bind_eq_ok, query_eq_ok, insert_eq_ok] at h
    obtain ⟨⟨⟩, -, db₁, ⟨found, inserted, -, -, rfl⟩, hrest⟩ := h
    rw [ih hrest, Function.update_of_ne hname]

theorem replaceTable_keeps {replacement table : Name} (h : replaceTable replacement table db = .ok db')
    {name : Name} (hreplacement : name ≠ replacement) (htable : name ≠ table) : db' name = db name := by
  simp only [replaceTable, bind_eq_ok, query_eq_ok, dropTable_eq_ok, renameTable_eq_ok] at h
  obtain ⟨db₁, ⟨-, rfl⟩, found, -, -, rfl⟩ := h
  rw [Function.update_of_ne htable, Function.update_of_ne hreplacement, Function.update_of_ne htable]

/-- The header table is written again in a new shape. -/
theorem headerRebuild_keeps {definition : TableDefinition} {f : Rows → Rows} {columns : List ColumnName}
    {db₁ db₂ : Tables} (hcreate : query (createTable .messageHeadersReplacement definition) db = .ok db₁)
    (hcopy : ((select .messageHeaders columns db₁).mapError .statement >>= fun rows => copyRows f rows db₁) =
      .ok db₂)
    (hreplace : replaceTable .messageHeadersReplacement .messageHeaders db₂ = .ok db') {name : Name}
    (hname : ¬isHeaderTable name) : db' name = db name := by
  rw [isHeaderTable, not_or] at hname
  obtain ⟨-, rfl⟩ := createTable_eq_ok.mp (query_eq_ok.mp hcreate)
  obtain ⟨rows, -, hrows⟩ := bind_eq_ok.mp hcopy
  rw [replaceTable_keeps hreplace hname.2 hname.1, copyRows_keeps hrows hname.2, Function.update_of_ne hname.2]

theorem addMessageHeaderSenderDomain_eq_ok (h : addMessageHeaderSenderDomain db = .ok db') :
    Settled .addMessageHeaderSenderDomain db' ∧ ∀ name, ¬isHeaderTable name → db' name = db name := by
  rw [addMessageHeaderSenderDomain] at h
  split at h
  · rename_i hvalid
    rw [Except.ok.injEq] at h
    subst h
    exact ⟨.inl hvalid, fun name _ => rfl⟩
  · rename_i hvalid _
    rw [Except.ok.injEq] at h
    subst h
    exact ⟨.inr hvalid, fun name _ => rfl⟩
  · simp only [bind_eq_ok] at h
    obtain ⟨⟨⟩, -, db₁, hcreate, db₂, hcopy, db₃, hreplace, ⟨⟩, hvalid, h⟩ := h
    rw [Except.ok.injEq] at h
    subst h
    exact ⟨.inr hvalid, fun name hname => headerRebuild_keeps hcreate hcopy hreplace hname⟩

theorem addMessageHeaderSenderDomain_of_settled (h : Settled .addMessageHeaderSenderDomain db) :
    addMessageHeaderSenderDomain db = .ok db := by
  rw [addMessageHeaderSenderDomain]
  rcases h with hvalid | hvalid
  · rw [hvalid]
  · rw [hvalid]
    cases validateMessageHeaderTable db <;> rfl

theorem addMessageHeaderDateUnixUs_eq_ok {parseUnixUs : CString → Option ℤ}
    (h : addMessageHeaderDateUnixUs parseUnixUs db = .ok db') :
    Settled .addMessageHeaderDateUnixUs db' ∧ ∀ name, ¬isHeaderTable name → db' name = db name := by
  rw [addMessageHeaderDateUnixUs] at h
  split at h
  · rename_i hvalid
    rw [Except.ok.injEq] at h
    subst h
    exact ⟨hvalid, fun name _ => rfl⟩
  · simp only [bind_eq_ok] at h
    obtain ⟨⟨⟩, -, db₁, hcreate, db₂, hcopy, db₃, hreplace, ⟨⟩, hvalid, h⟩ := h
    rw [Except.ok.injEq] at h
    subst h
    exact ⟨hvalid, fun name hname => headerRebuild_keeps hcreate hcopy hreplace hname⟩

theorem addMessageHeaderDateUnixUs_of_settled (parseUnixUs : CString → Option ℤ)
    (h : Settled .addMessageHeaderDateUnixUs db) : addMessageHeaderDateUnixUs parseUnixUs db = .ok db := by
  have hvalid : validateMessageHeaderTable db = .ok () := h
  rw [addMessageHeaderDateUnixUs, hvalid]

theorem addMessageHeaderProvenanceSpans_eq_ok (h : addMessageHeaderProvenanceSpans db = .ok db') :
    Settled .addMessageHeaderProvenanceSpans db' ∧ ∀ name, name ≠ .messageHeaders → db' name = db name := by
  rw [addMessageHeaderProvenanceSpans] at h
  split at h
  · rename_i hvalid
    rw [Except.ok.injEq] at h
    subst h
    exact ⟨hvalid, fun name _ => rfl⟩
  · simp only [bind_eq_ok, query_eq_ok] at h
    obtain ⟨⟨⟩, -, db₁, h₁, db₂, h₂, db₃, h₃, db₄, h₄, ⟨⟩, hvalid, h⟩ := h
    rw [Except.ok.injEq] at h
    subst h
    refine ⟨hvalid, fun name hname => ?_⟩
    rw [addColumn_keeps h₄ hname, addColumn_keeps h₃ hname, addColumn_keeps h₂ hname, addColumn_keeps h₁ hname]

theorem addMessageHeaderProvenanceSpans_of_settled (h : Settled .addMessageHeaderProvenanceSpans db) :
    addMessageHeaderProvenanceSpans db = .ok db := by
  have hvalid : validateMessageHeaderTableV9 db = .ok () := h
  rw [addMessageHeaderProvenanceSpans, hvalid]

/-- The last shape of the headers is refused by the two steps that rebuild the table. -/
theorem header_steps_of_spans (parseUnixUs : CString → Option ℤ)
    (h : Settled .addMessageHeaderProvenanceSpans db) :
    (∃ error, addMessageHeaderSenderDomain db = .error error) ∧
      ∃ error, addMessageHeaderDateUnixUs parseUnixUs db = .error error := by
  have hcurrent : validateMessageHeaderTable db ≠ .ok () := validateTable_ne h (by decide)
  have hv6 : validateMessageHeaderTableV6 db ≠ .ok () := validateTable_ne h (by decide)
  have hv3 : validateMessageHeaderTableV3 db ≠ .ok () := validateTable_ne h (by decide)
  rw [addMessageHeaderSenderDomain, addMessageHeaderDateUnixUs]
  cases hcurrent' : validateMessageHeaderTable db with
  | ok u => exact (hcurrent hcurrent').elim
  | error error =>
    cases hv6' : validateMessageHeaderTableV6 db with
    | ok u => exact (hv6 hv6').elim
    | error error' =>
      cases hv3' : validateMessageHeaderTableV3 db with
      | ok u => exact (hv3 hv3').elim
      | error error'' => exact ⟨⟨error'', rfl⟩, ⟨error', rfl⟩⟩

/-! ### Derived views -/

theorem insertSelect_into_new {target source : Name} {columns : List ColumnName} {f : Rows → Rows}
    {definition : TableDefinition} (htarget : db target = some (.table ⟨definition, []⟩))
    (h : query (insertSelect target source columns f) db = .ok db') :
    ∃ found, db source = some (.table found) ∧
      definition.insertAll target [] (found.rows.map f) = .ok (found.rows.map f) ∧
      db' = Function.update db target (some (.table ⟨definition, found.rows.map f⟩)) := by
  simp only [query_eq_ok, insertSelect, bind_eq_ok, select_eq_ok, insert_eq_ok] at h
  obtain ⟨rows, ⟨found, hfound, -, rfl⟩, into, inserted, hinto, hinsert, rfl⟩ := h
  rw [htarget, Option.some.injEq, Relation.table.injEq] at hinto
  subst hinto
  obtain rfl := Definition.insertAll_eq hinsert
  exact ⟨found, hfound, hinsert, rfl⟩

theorem rebuilt_of_project {name replacement : Name} {definition : TableDefinition} {columns : List ColumnName}
    {rows : List Rows} (hreplacement : db replacement = none)
    (hname : db name = some (.table ⟨definition, rows.map (project columns)⟩))
    (hinsert : definition.insertAll replacement [] (rows.map (project columns)) =
      .ok (rows.map (project columns))) : Rebuilt db name replacement definition columns := by
  refine ⟨hreplacement, _, hname, hinsert, ?_⟩
  rw [List.map_map]
  exact List.map_congr_left fun row _ => project_project columns row

theorem scopeDerivedViewsByAccount_eq_ok (h : scopeDerivedViewsByAccount db = .ok db') :
    Scoped db' ∧ ∀ name, name ≠ .derivedViews → name ≠ .derivedViewMemberships →
      name ≠ .derivedViewsReplacement → name ≠ .derivedViewMembershipsReplacement → db' name = db name := by
  simp only [scopeDerivedViewsByAccount, bind_eq_ok] at h
  obtain ⟨db₁, h₁, db₂, h₂, db₃, h₃, db₄, h₄, db₅, h₅, db₆, h₆, db₇, h₇, h₈⟩ := h
  obtain ⟨hnone₁, rfl⟩ := createTable_eq_ok.mp (query_eq_ok.mp h₁)
  obtain ⟨views, hviews, hinsert₂, rfl⟩ := insertSelect_into_new (Function.update_self ..) h₂
  obtain ⟨hnone₃, rfl⟩ := createTable_eq_ok.mp (query_eq_ok.mp h₃)
  obtain ⟨memberships, hmemberships, hinsert₄, rfl⟩ := insertSelect_into_new (Function.update_self ..) h₄
  obtain ⟨-, rfl⟩ := dropTable_eq_ok.mp (query_eq_ok.mp h₅)
  obtain ⟨-, rfl⟩ := dropTable_eq_ok.mp (query_eq_ok.mp h₆)
  obtain ⟨found₇, hfound₇, -, rfl⟩ := renameTable_eq_ok.mp (query_eq_ok.mp h₇)
  obtain ⟨found₈, hfound₈, -, rfl⟩ := renameTable_eq_ok.mp (query_eq_ok.mp h₈)
  have hviewsTable : found₇ = ⟨derivedViews, views.rows.map (project derivedViewsColumns)⟩ := by
    simpa [Function.update_apply] using hfound₇.symm
  have hmembershipsTable : found₈ =
      ⟨derivedViewMemberships, memberships.rows.map (project derivedViewMembershipsColumns)⟩ := by
    simpa [Function.update_apply] using hfound₈.symm
  subst hviewsTable
  subst hmembershipsTable
  refine ⟨⟨rebuilt_of_project ?_ ?_ hinsert₂, rebuilt_of_project ?_ ?_ hinsert₄⟩, ?_⟩
  · simp
  · simp
  · simp
  · simp
  · intro name n₁ n₂ n₃ n₄
    simp [n₁, n₂, n₃, n₄]

theorem insertSelect_of_rebuilt {target source : Name} {definition : TableDefinition} {columns : List ColumnName}
    {rows : List Rows} (htarget : db target = some (.table ⟨definition, []⟩))
    (hsource : db source = some (.table ⟨definition, rows⟩))
    (hcolumns : (columns.all fun c => c ∈ definition.columns.map Column.name) = true)
    (hinsert : definition.insertAll target [] rows = .ok rows) (hproject : rows.map (project columns) = rows) :
    query (insertSelect target source columns (project columns)) db =
      .ok (Function.update db target (some (.table ⟨definition, rows⟩))) := by
  rw [query_eq_ok, insertSelect, bind_eq_ok]
  refine ⟨rows, select_eq_ok.mpr ⟨_, hsource, hcolumns, rfl⟩, ?_⟩
  rw [hproject]
  exact insert_eq_ok.mpr ⟨_, rows, htarget, hinsert, rfl⟩

theorem scopeDerivedViewsByAccount_of_settled (h : Scoped db) : scopeDerivedViewsByAccount db = .ok db := by
  obtain ⟨⟨hnone, views, hviews, hinsert, hproject⟩, ⟨hnone', memberships, hmemberships, hinsert', hproject'⟩⟩ := h
  simp only [scopeDerivedViewsByAccount, bind_eq_ok]
  refine ⟨_, query_eq_ok.mpr (createTable_eq_ok.mpr ⟨hnone, rfl⟩), _,
    insertSelect_of_rebuilt (Function.update_self ..) ?_ (by decide) hinsert hproject, _,
    query_eq_ok.mpr (createTable_eq_ok.mpr ⟨?_, rfl⟩), _,
    insertSelect_of_rebuilt (Function.update_self ..) ?_ (by decide) hinsert' hproject', _,
    query_eq_ok.mpr (dropTable_eq_ok.mpr ⟨isTable_iff.mpr ⟨⟨derivedViewMemberships, memberships⟩, ?_⟩, rfl⟩), _,
    query_eq_ok.mpr (dropTable_eq_ok.mpr ⟨isTable_iff.mpr ⟨⟨derivedViews, views⟩, ?_⟩, rfl⟩), _,
    query_eq_ok.mpr (renameTable_eq_ok.mpr ⟨⟨derivedViews, views⟩, ?_, ?_, rfl⟩),
    query_eq_ok.mpr (renameTable_eq_ok.mpr ⟨⟨derivedViewMemberships, memberships⟩, ?_, ?_, ?_⟩)⟩
  · simpa using hviews
  · simpa using hnone'
  · simpa using hmemberships
  · simpa using hmemberships
  · simpa using hviews
  · simp
  · simp
  · simp
  · simp
  · funext name
    simp only [Function.update_apply]
    split
    · rename_i heq
      rw [heq, hmemberships]
    · split
      · rename_i heq
        rw [heq, hnone']
      · split
        · rename_i heq
          rw [heq, hviews]
        · split
          · rename_i heq
            rw [heq, hnone]
          · simp [*]

/-! ### Mailbox memberships -/

theorem addMailboxMembershipJournalItemAndTombstones_eq_ok
    (h : addMailboxMembershipJournalItemAndTombstones db = .ok db') :
    Settled .addMailboxMembershipJournalItemAndTombstones db' ∧
      ∀ name, name ≠ .objectReachability → name ≠ .mailboxMemberships → name ≠ .mailboxMembershipsReplacement →
        db' name = db name := by
  rw [addMailboxMembershipJournalItemAndTombstones] at h
  split at h
  · rename_i hvalid
    obtain ⟨hview, hkeeps⟩ := createObjectReachabilityView_eq_ok h
    refine ⟨⟨?_, hview⟩, fun name hname _ _ => hkeeps name hname⟩
    rw [validateMailboxMembershipsV12, validateTableColumns_eq_ok, hasColumns_congr (hkeeps _ (by decide)),
      ← validateTableColumns_eq_ok]
    exact hvalid
  · simp only [bind_eq_ok] at h
    obtain ⟨db₁, h₁, db₂, h₂, db₃, h₃, db₄, h₄, db₅, h₅, ⟨⟩, hvalid, h₆⟩ := h
    rw [Except.ok.injEq] at h₆
    subst h₆
    obtain ⟨-, rfl⟩ := dropViewIfExists_eq_ok (query_eq_ok.mp h₁)
    obtain ⟨-, rfl⟩ := createTable_eq_ok.mp (query_eq_ok.mp h₂)
    obtain ⟨found, -, -, rfl⟩ := insertSelect_into_new (Function.update_self ..) h₃
    obtain ⟨hview, hkeeps⟩ := createObjectReachabilityView_eq_ok h₅
    refine ⟨⟨hvalid, hview⟩, fun name n₁ n₂ n₃ => ?_⟩
    rw [hkeeps name n₁, replaceTable_keeps h₄ n₃ n₂]
    simp [n₁, n₃]

theorem addMailboxMembershipJournalItemAndTombstones_of_settled
    (h : Settled .addMailboxMembershipJournalItemAndTombstones db) :
    addMailboxMembershipJournalItemAndTombstones db = .ok db := by
  rw [addMailboxMembershipJournalItemAndTombstones, h.1]
  exact createObjectReachabilityView_of_settled h.2

/-! ## All operations -/

/-- The place of the operation's step in the migration. -/
def Operation.index : Operation → ℕ
  | .legacyBootstrap => 0
  | .addMessageAttributeTables => 1
  | .addMessageHeaderTable => 2
  | .addDerivedViewMemberships => 3
  | .scopeDerivedViewsByAccount => 4
  | .addMessageHeaderSenderDomain => 5
  | .addMessageHeaderDateUnixUs => 6
  | .addObjectReachabilityView => 7
  | .addMessageHeaderProvenanceSpans => 8
  | .addMessageFactExtractions => 9
  | .addDerivedViewRefreshState => 10
  | .addMailboxMembershipJournalItemAndTombstones => 11

/-- The relations that the operation may change. -/
def Operation.writes : Operation → List Name
  | .legacyBootstrap => bootstrapTables
  | .addMessageAttributeTables => [.messageFlags, .messageKeywords]
  | .addMessageHeaderTable => [.messageHeaders]
  | .addDerivedViewMemberships => [.derivedViewMemberships]
  | .scopeDerivedViewsByAccount =>
    [.derivedViews, .derivedViewMemberships, .derivedViewsReplacement, .derivedViewMembershipsReplacement]
  | .addMessageHeaderSenderDomain => [.messageHeaders, .messageHeadersReplacement]
  | .addMessageHeaderDateUnixUs => [.messageHeaders, .messageHeadersReplacement]
  | .addObjectReachabilityView => [.objectReachability]
  | .addMessageHeaderProvenanceSpans => [.messageHeaders]
  | .addMessageFactExtractions => [.messageFactExtractions]
  | .addDerivedViewRefreshState => [.derivedViewRefreshState]
  | .addMailboxMembershipJournalItemAndTombstones =>
    [.objectReachability, .mailboxMemberships, .mailboxMembershipsReplacement]

variable {parseUnixUs : CString → Option ℤ}

/-- An operation does its work, and changes nothing else. -/
theorem apply_eq_ok {operation : Operation} (h : applyMigrationOperation parseUnixUs operation db = .ok db') :
    Settled operation db' ∧ ∀ name ∉ operation.writes, db' name = db name := by
  cases operation with
  | legacyBootstrap =>
    obtain ⟨hsettled, -, hkeeps⟩ := createBootstrapCatalog_eq_ok h
    exact ⟨hsettled, hkeeps⟩
  | addMessageAttributeTables =>
    obtain ⟨hsettled, -, hkeeps⟩ := createMessageAttributeTables_eq_ok h
    refine ⟨hsettled, fun name hname => ?_⟩
    simp only [Operation.writes, List.mem_cons, List.not_mem_nil, or_false, not_or] at hname
    exact hkeeps name hname.1 hname.2
  | addMessageHeaderTable =>
    obtain ⟨hsettled, -, hkeeps⟩ := createMessageHeaderTableV3_eq_ok h
    exact ⟨hsettled, fun name hname => hkeeps name (List.ne_of_not_mem_cons hname)⟩
  | addDerivedViewMemberships =>
    obtain ⟨hsettled, -, hkeeps⟩ := createTableIfNotExists_query h
    exact ⟨hsettled, fun name hname => hkeeps name (List.ne_of_not_mem_cons hname)⟩
  | scopeDerivedViewsByAccount =>
    obtain ⟨hsettled, hkeeps⟩ := scopeDerivedViewsByAccount_eq_ok h
    refine ⟨hsettled, fun name hname => ?_⟩
    simp only [Operation.writes, List.mem_cons, List.not_mem_nil, or_false, not_or] at hname
    exact hkeeps name hname.1 hname.2.1 hname.2.2.1 hname.2.2.2
  | addMessageHeaderSenderDomain =>
    obtain ⟨hsettled, hkeeps⟩ := addMessageHeaderSenderDomain_eq_ok h
    refine ⟨hsettled, fun name hname => hkeeps name ?_⟩
    simpa [isHeaderTable, Operation.writes] using hname
  | addMessageHeaderDateUnixUs =>
    obtain ⟨hsettled, hkeeps⟩ := addMessageHeaderDateUnixUs_eq_ok h
    refine ⟨hsettled, fun name hname => hkeeps name ?_⟩
    simpa [isHeaderTable, Operation.writes] using hname
  | addObjectReachabilityView =>
    obtain ⟨hsettled, hkeeps⟩ := createObjectReachabilityView_eq_ok h
    exact ⟨hsettled, fun name hname => hkeeps name (List.ne_of_not_mem_cons hname)⟩
  | addMessageHeaderProvenanceSpans =>
    obtain ⟨hsettled, hkeeps⟩ := addMessageHeaderProvenanceSpans_eq_ok h
    exact ⟨hsettled, fun name hname => hkeeps name (List.ne_of_not_mem_cons hname)⟩
  | addMessageFactExtractions =>
    obtain ⟨hsettled, -, hkeeps⟩ := createTableIfNotExists_query h
    exact ⟨hsettled, fun name hname => hkeeps name (List.ne_of_not_mem_cons hname)⟩
  | addDerivedViewRefreshState =>
    obtain ⟨hsettled, -, hkeeps⟩ := createTableIfNotExists_query h
    exact ⟨hsettled, fun name hname => hkeeps name (List.ne_of_not_mem_cons hname)⟩
  | addMailboxMembershipJournalItemAndTombstones =>
    obtain ⟨hsettled, hkeeps⟩ := addMailboxMembershipJournalItemAndTombstones_eq_ok h
    refine ⟨hsettled, fun name hname => ?_⟩
    simp only [Operation.writes, List.mem_cons, List.not_mem_nil, or_false, not_or] at hname
    exact hkeeps name hname.1 hname.2.1 hname.2.2

theorem apply_of_settled {operation : Operation} (h : Settled operation db) :
    applyMigrationOperation parseUnixUs operation db = .ok db := by
  cases operation with
  | legacyBootstrap => exact createBootstrapCatalog_of_settled h
  | addMessageAttributeTables => exact createMessageAttributeTables_of_settled h
  | addMessageHeaderTable => exact createMessageHeaderTableV3_of_settled h
  | addDerivedViewMemberships => exact createTableIfNotExists_query_of_isTable h
  | scopeDerivedViewsByAccount => exact scopeDerivedViewsByAccount_of_settled h
  | addMessageHeaderSenderDomain => exact addMessageHeaderSenderDomain_of_settled h
  | addMessageHeaderDateUnixUs => exact addMessageHeaderDateUnixUs_of_settled parseUnixUs h
  | addObjectReachabilityView => exact createObjectReachabilityView_of_settled h
  | addMessageHeaderProvenanceSpans => exact addMessageHeaderProvenanceSpans_of_settled h
  | addMessageFactExtractions => exact createTableIfNotExists_query_of_isTable h
  | addDerivedViewRefreshState => exact createTableIfNotExists_query_of_isTable h
  | addMailboxMembershipJournalItemAndTombstones =>
    exact addMailboxMembershipJournalItemAndTombstones_of_settled h

/-- Tables of the bootstrap and tables of rows of their own stay. -/
theorem apply_isTable {operation : Operation} (h : applyMigrationOperation parseUnixUs operation db = .ok db')
    {name : Name} (hname : name ∈ bootstrapTables ∨ name = .messageFactExtractions ∨ name = .derivedViewRefreshState)
    (htable : IsTable db name) : IsTable db' name := by
  obtain ⟨hsettled, hkeeps⟩ := apply_eq_ok h
  by_cases hwrites : name ∈ operation.writes
  · cases operation with
    | legacyBootstrap => exact hsettled.1 name hwrites
    | addMessageAttributeTables =>
      simp only [Operation.writes, List.mem_cons, List.not_mem_nil, or_false] at hwrites
      rcases hwrites with rfl | rfl
      · simp [bootstrapTables] at hname
      · simp [bootstrapTables] at hname
    | addDerivedViewMemberships =>
      rw [List.mem_singleton.mp hwrites]
      exact hsettled
    | scopeDerivedViewsByAccount =>
      simp only [Operation.writes, List.mem_cons, List.not_mem_nil, or_false] at hwrites
      obtain ⟨⟨-, views, hviews, -⟩, -, memberships, hmemberships, -⟩ := hsettled
      rcases hwrites with rfl | rfl | rfl | rfl
      · exact isTable_iff.mpr ⟨_, hviews⟩
      · exact isTable_iff.mpr ⟨_, hmemberships⟩
      · simp [bootstrapTables] at hname
      · simp [bootstrapTables] at hname
    | addMessageFactExtractions =>
      rw [List.mem_singleton.mp hwrites]
      exact hsettled
    | addDerivedViewRefreshState =>
      rw [List.mem_singleton.mp hwrites]
      exact hsettled
    | addMailboxMembershipJournalItemAndTombstones =>
      simp only [Operation.writes, List.mem_cons, List.not_mem_nil, or_false] at hwrites
      rcases hwrites with rfl | rfl | rfl
      · simp [bootstrapTables] at hname
      · exact hasColumns_isTable (validateTableColumns_eq_ok.mp hsettled.1)
      · simp [bootstrapTables] at hname
    | addMessageHeaderTable =>
      rw [List.mem_singleton.mp hwrites] at hname
      simp [bootstrapTables] at hname
    | addMessageHeaderSenderDomain =>
      simp only [Operation.writes, List.mem_cons, List.not_mem_nil, or_false] at hwrites
      rcases hwrites with rfl | rfl <;> simp [bootstrapTables] at hname
    | addMessageHeaderDateUnixUs =>
      simp only [Operation.writes, List.mem_cons, List.not_mem_nil, or_false] at hwrites
      rcases hwrites with rfl | rfl <;> simp [bootstrapTables] at hname
    | addObjectReachabilityView =>
      rw [List.mem_singleton.mp hwrites] at hname
      simp [bootstrapTables] at hname
    | addMessageHeaderProvenanceSpans =>
      rw [List.mem_singleton.mp hwrites] at hname
      simp [bootstrapTables] at hname
  · exact (isTable_congr (hkeeps name hwrites)).mpr htable

/-- The steps that undo what an earlier step looks for. -/
def Operation.spoils (later earlier : Operation) : Bool :=
  match earlier with
  | .addMessageHeaderTable => later == .addMessageHeaderSenderDomain || later == .addMessageHeaderDateUnixUs ||
      later == .addMessageHeaderProvenanceSpans
  | .addMessageHeaderSenderDomain => later == .addMessageHeaderProvenanceSpans
  | .addMessageHeaderDateUnixUs => later == .addMessageHeaderProvenanceSpans
  | _ => false

/-- The relations that a step's work rests on, besides tables that only have to be there. -/
def Operation.restsOn : Operation → List Name
  | .legacyBootstrap => [.messageFacts]
  | .addMessageAttributeTables => [.messageFlags, .messageKeywords]
  | .addMessageHeaderTable | .addMessageHeaderSenderDomain | .addMessageHeaderDateUnixUs
  | .addMessageHeaderProvenanceSpans => [.messageHeaders]
  | .scopeDerivedViewsByAccount =>
    [.derivedViews, .derivedViewMemberships, .derivedViewsReplacement, .derivedViewMembershipsReplacement]
  | .addObjectReachabilityView =>
    [.objectReachability, .objects, .messages, .mailboxMemberships, .derivedViewMemberships]
  | _ => []

/-- The step does the work of an earlier one again. -/
def Operation.redoes (later earlier : Operation) : Bool :=
  (earlier == .addMessageHeaderSenderDomain && later == .addMessageHeaderDateUnixUs) ||
    (earlier == .addObjectReachabilityView && later == .addMailboxMembershipJournalItemAndTombstones)

theorem restsOn_not_written (earlier later : Operation) : earlier.index < later.index →
    later.spoils earlier = false → later.redoes earlier = false →
      ∀ name ∈ earlier.restsOn, name ∉ later.writes := by
  cases earlier <;> cases later <;> decide

/-- The work of a step stays done when a later one is applied. -/
theorem settled_apply {earlier later : Operation} (hsettled : Settled earlier db)
    (h : applyMigrationOperation parseUnixUs later db = .ok db') (horder : earlier.index < later.index)
    (hspoils : later.spoils earlier = false) : Settled earlier db' := by
  obtain ⟨hlater, hwrites⟩ := apply_eq_ok h
  cases hredoes : later.redoes earlier with
  | true =>
    simp only [Operation.redoes, Bool.or_eq_true, Bool.and_eq_true, beq_iff_eq] at hredoes
    rcases hredoes with ⟨rfl, rfl⟩ | ⟨rfl, rfl⟩
    · exact .inl hlater
    · exact hlater.2
  | false =>
    have hkeeps : ∀ name ∈ earlier.restsOn, db' name = db name := fun name hname =>
      hwrites name (restsOn_not_written earlier later horder hspoils hredoes name hname)
    cases earlier with
    | legacyBootstrap =>
      refine ⟨fun name hname => apply_isTable h (.inl hname) (hsettled.1 name hname), ?_⟩
      exact (validateTable_congr (hkeeps _ (by decide)) messageFacts).mpr hsettled.2
    | addMessageAttributeTables =>
      obtain ⟨hflags, hkeywords⟩ := validateMessageAttributeTables_eq_ok.mp hsettled
      exact validateMessageAttributeTables_eq_ok.mpr ⟨(validateTable_congr (hkeeps _ (by decide)) _).mpr hflags,
        (validateTable_congr (hkeeps _ (by decide)) _).mpr hkeywords⟩
    | addMessageHeaderTable => exact (validateTable_congr (hkeeps _ (by decide)) _).mpr hsettled
    | addDerivedViewMemberships => exact apply_isTable h (.inl (by decide)) hsettled
    | scopeDerivedViewsByAccount =>
      obtain ⟨⟨hnone, views, hviews, hinsert⟩, hnone', memberships, hmemberships, hinsert'⟩ := hsettled
      exact ⟨⟨(hkeeps _ (by decide)).trans hnone, views, (hkeeps _ (by decide)).trans hviews, hinsert⟩,
        (hkeeps _ (by decide)).trans hnone', memberships, (hkeeps _ (by decide)).trans hmemberships, hinsert'⟩
    | addMessageHeaderSenderDomain =>
      rcases hsettled with hcurrent | hv6
      · exact .inl ((validateTable_congr (hkeeps _ (by decide)) _).mpr hcurrent)
      · exact .inr ((validateTable_congr (hkeeps _ (by decide)) _).mpr hv6)
    | addMessageHeaderDateUnixUs => exact (validateTable_congr (hkeeps _ (by decide)) _).mpr hsettled
    | addObjectReachabilityView =>
      refine ⟨(hkeeps _ (by decide)).trans hsettled.view, (resolves_of_keeps fun name hname => ?_).trans
        hsettled.resolves⟩
      refine hkeeps name ?_
      rcases hname with rfl | rfl | rfl | rfl <;> decide
    | addMessageHeaderProvenanceSpans => exact (validateTable_congr (hkeeps _ (by decide)) _).mpr hsettled
    | addMessageFactExtractions => exact apply_isTable h (.inr (.inl rfl)) hsettled
    | addDerivedViewRefreshState => exact apply_isTable h (.inr (.inr rfl)) hsettled
    | addMailboxMembershipJournalItemAndTombstones => cases later <;> simp [Operation.index] at horder

/-- The first step that creates the headers refuses every shape that a later step leaves. -/
theorem header_table_of_later (h : Settled .addMessageHeaderSenderDomain db ∨
    Settled .addMessageHeaderProvenanceSpans db) : ∃ error, createMessageHeaderTableV3 db = .error error := by
  rcases h with (hcurrent | hv6) | hspans
  · exact createMessageHeaderTableV3_of_other hcurrent (by decide)
  · exact createMessageHeaderTableV3_of_other hv6 (by decide)
  · exact createMessageHeaderTableV3_of_other hspans (by decide)

end
end Wyrebox.Schema
