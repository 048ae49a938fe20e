import Wyrebox.Csv

set_option autoImplicit false

/-!
# What the reader accepts

A field is written as it is or between quotes, fields are separated by commas, and records by the ends of
lines. The reader accepts such texts and no others, and reads the records that they spell.
-/
namespace Wyrebox.Csv

/-- A field as it is, or between quotes with its own quotes doubled. -/
inductive FieldText : Field → List UInt8 → Prop
  | plain {value} : needsQuote value = false → FieldText value value
  | quoted {value} : FieldText value (34 :: (escape value ++ [34]))

inductive RecordText : List Field → List UInt8 → Prop
  | last {value text} : FieldText value text → RecordText [value] text
  | cons {value text values rest} : FieldText value text → RecordText values rest →
      RecordText (value :: values) (text ++ 44 :: rest)

/-- Records with an `End` after each of them but, if the text goes no further, the last. -/
inductive Spells (End : List UInt8 → Prop) : List (List Field) → List UInt8 → Prop
  | nil : Spells End [] []
  | last {values text} : RecordText values text → Spells End [values] text
  | cons {values text lineEnd records rest} : RecordText values text → End lineEnd → Spells End records rest →
      Spells End (values :: records) (text ++ (lineEnd ++ rest))

/-- The ends of lines that the reader knows. -/
inductive LineEnd : List UInt8 → Prop
  | lf : LineEnd [10]
  | crlf : LineEnd [13, 10]
  | cr : LineEnd [13]

/-- Both ends that RFC 4180 has for a record. -/
def Crlf (text : List UInt8) : Prop := text = [13, 10]

section
variable {End End' : List UInt8 → Prop} {value : Field} {values : List Field} {records : List (List Field)}
  {text rest : List UInt8}

lemma Spells.mono (hmono : ∀ t, End t → End' t) (h : Spells End records text) : Spells End' records text := by
  induction h with
  | nil => exact .nil
  | last hrecord => exact .last hrecord
  | cons hrecord hend _ ih => exact .cons hrecord (hmono _ hend) ih

/-- One more field before the first record. -/
lemma Spells.field (hfield : FieldText value text) (h : Spells End (values :: records) rest) :
    Spells End ((value :: values) :: records) (text ++ 44 :: rest) := by
  cases h with
  | last hrecord => exact .last (.cons hfield hrecord)
  | cons hrecord hend hrest =>
    have hcons := Spells.cons (RecordText.cons hfield hrecord) hend hrest
    rwa [List.append_assoc, List.cons_append] at hcons

lemma RecordText.ne_nil (h : RecordText values text) : values ≠ [] := by
  cases h <;> exact List.cons_ne_nil _ _

/-- Without quotes a record has no end of line in it. -/
lemma RecordText.lf_notMem (h : RecordText values text) (hquote : 34 ∉ text) : 10 ∉ text := by
  induction h with
  | last hfield =>
    cases hfield with
    | plain hplain =>
      intro hmem
      rw [needsQuote, List.any_eq_false] at hplain
      simpa using hplain 10 hmem
    | quoted => simp at hquote
  | cons hfield _ ih =>
    simp only [List.mem_append, List.mem_cons, not_or] at hquote ⊢
    refine ⟨?_, by decide, ih hquote.2.2⟩
    cases hfield with
    | plain hplain =>
      intro hmem
      rw [needsQuote, List.any_eq_false] at hplain
      simpa using hplain 10 hmem
    | quoted => exact absurd (List.mem_cons_self ..) hquote.1

/-- A record's text begins with the end of a line only where the record is one field without text. -/
lemma RecordText.head (h : RecordText values text) (hne : values ≠ [[]]) : ∃ c rest, text = c :: rest ∧ c ≠ 10 := by
  have hplain : ∀ {value : Field} {c : UInt8} {rest : List UInt8}, needsQuote value = false → value = c :: rest →
      c ≠ 10 := by
    rintro value c rest hneeds rfl rfl
    simp [needsQuote] at hneeds
  cases h with
  | last hfield =>
    cases hfield with
    | plain hneeds =>
      cases text with
      | nil => exact absurd rfl hne
      | cons c rest => exact ⟨c, rest, rfl, hplain hneeds rfl⟩
    | quoted => exact ⟨34, _, rfl, by decide⟩
  | @cons value _ _ _ hfield _ =>
    cases hfield with
    | plain hneeds =>
      cases value with
      | nil => exact ⟨44, _, rfl, by decide⟩
      | cons c rest => exact ⟨c, _, rfl, hplain hneeds rfl⟩
    | quoted => exact ⟨34, _, rfl, by decide⟩

end

/-! ## What is accepted is spelled -/

section
variable {σ ε : Type} {record : σ → List Field → Except ε σ} {r r' : Reader σ} {fields values : List Field}
  {value : Field} {acc result : σ} {text rest raw : List UInt8} {records : List (List Field)}

/-- The end of `read`. -/
def Reader.finish (record : σ → List Field → Except ε σ) (r : Reader σ) : Except (ReadError ε) σ :=
  if r.inQuotes then .error .unterminated
  else if r.afterQuote || r.haveField || r.quotedField || !r.fields.isEmpty then do
    let r ← r.endRecord record
    .ok r.acc
  else .ok r.acc

lemma read_eq (record : σ → List Field → Except ε σ) (acc : σ) (text : List UInt8) :
    read record acc text = (Reader.loop record false (.clean [] acc) text).bind (Reader.finish record) := by
  rw [read]
  cases Reader.loop record false (.clean [] acc) text <;> rfl

/-- The states of the reader, each with the text of the current field that has been read. -/
inductive Reader.Reads : Reader σ → List UInt8 → Prop
  | plain {fields : List Field} {value : Field} {acc : σ} : needsQuote value = false →
      Reads ⟨false, false, false, !value.isEmpty, fields, value, acc⟩ value
  | inside {fields : List Field} {value : Field} {acc : σ} :
      Reads ⟨true, true, false, false, fields, value, acc⟩ (34 :: escape value)
  | closed {fields : List Field} {value : Field} {acc : σ} :
      Reads ⟨false, true, true, false, fields, value, acc⟩ (34 :: (escape value ++ [34]))

lemma Reader.Reads.clean (fields : List Field) (acc : σ) : (Reader.clean fields acc).Reads [] :=
  @Reader.Reads.plain _ fields [] acc rfl

lemma Reader.Reads.fieldText (h : r.Reads raw) (hquotes : r.inQuotes = false) : FieldText r.field raw := by
  cases h with
  | plain hplain => exact .plain hplain
  | inside => cases hquotes
  | closed => exact .quoted

lemma escape_append (s t : Field) : escape (s ++ t) = escape s ++ escape t := List.flatMap_append

lemma needsQuote_append (s t : Field) : needsQuote (s ++ t) = (needsQuote s || needsQuote t) := List.any_append

/-- What one turn of the loop takes. -/
def taken (c : UInt8) (next : Option UInt8) (advance : Bool) : List UInt8 := c :: if advance then next.toList else []

lemma taken_append (c : UInt8) (rest : List UInt8) (advance : Bool) :
    taken c rest.head? advance ++ (if advance then rest.tail else rest) = c :: rest := by
  cases advance with
  | false => rfl
  | true => cases rest <;> rfl

/-- The field goes on with what was taken. -/
structure Reader.Continues (r r' : Reader σ) (raw : List UInt8) : Prop where
  reads : r'.Reads raw
  fields : r'.fields = r.fields
  acc : r'.acc = r.acc

lemma newline_none {c : UInt8} {next : Option UInt8} (h : newline c next = none) : c ≠ 10 ∧ c ≠ 13 := by
  rw [newline] at h
  split_ifs at h with hlf hcr
  exact ⟨hlf, hcr⟩

lemma newline_spec {c : UInt8} {next : Option UInt8} {advance : Bool} (h : newline c next = some advance) :
    LineEnd (taken c next advance) := by
  rw [newline] at h
  split_ifs at h with hlf hcr
  · cases h
    exact hlf ▸ .lf
  · subst hcr
    simp only [Option.some.injEq] at h
    subst h
    by_cases hnext : next = some 10
    · subst hnext
      exact .crlf
    · simpa [taken, hnext] using LineEnd.cr

lemma endRecord_cases {advance advance' : Bool} (h : (r.endRecord record).map (·, advance') = .ok (r', advance)) :
    advance' = advance ∧ ∃ acc, record r.acc (r.fields ++ [r.field]) = .ok acc ∧ r' = .clean [] acc := by
  rw [Reader.endRecord] at h
  cases hrecord : record r.acc (r.fields ++ [r.field]) with
  | error error => simp [hrecord, Except.map] at h
  | ok acc =>
    simp only [hrecord, Except.map, Except.ok.injEq, Prod.mk.injEq] at h
    exact ⟨h.2, acc, rfl, h.1.symm⟩

/-- A turn goes on with the field, or ends the field at a comma, or ends the record with the line. -/
lemma Reader.Reads.step_cases {c : UInt8} {next : Option UInt8} {advance : Bool} (h : r.Reads raw)
    (hstep : r.step record c next = .ok (r', advance)) :
    r.Continues r' (raw ++ taken c next advance) ∨
    (FieldText r.field raw ∧ c = 44 ∧ advance = false ∧ r' = .clean (r.fields ++ [r.field]) r.acc) ∨
    FieldText r.field raw ∧ LineEnd (taken c next advance) ∧
      ∃ acc, record r.acc (r.fields ++ [r.field]) = .ok acc ∧ r' = .clean [] acc := by
  rw [Reader.step] at hstep
  by_cases hquotes : r.inQuotes = true
  · rw [if_pos hquotes] at hstep
    refine Or.inl ?_
    cases h with
    | plain _ => cases hquotes
    | closed => cases hquotes
    | @inside fields value acc =>
      split_ifs at hstep with hmark hdouble
      · cases hstep
        subst hmark hdouble
        refine ⟨?_, rfl, rfl⟩
        have hinside := @Reader.Reads.inside _ fields (value ++ [34]) acc
        rwa [escape_append] at hinside
      · cases hstep
        subst hmark
        exact ⟨.closed, rfl, rfl⟩
      · cases hstep
        refine ⟨?_, rfl, rfl⟩
        have hinside := @Reader.Reads.inside _ fields (value ++ [c]) acc
        rw [escape_append] at hinside
        simpa [escape, hmark, taken] using hinside
  · rw [if_neg hquotes] at hstep
    have hfield := h.fieldText (Bool.not_eq_true _ ▸ hquotes)
    by_cases hcomma : c = 44
    · rw [if_pos hcomma] at hstep
      cases hstep
      exact Or.inr (Or.inl ⟨hfield, hcomma, rfl, rfl⟩)
    · rw [if_neg hcomma] at hstep
      cases hnewline : newline c next with
      | some advance' =>
        rw [hnewline] at hstep
        obtain ⟨rfl, hrecord⟩ := endRecord_cases hstep
        exact Or.inr (Or.inr ⟨hfield, newline_spec hnewline, hrecord⟩)
      | none =>
        rw [hnewline] at hstep
        refine Or.inl ?_
        cases h with
        | inside => exact absurd rfl hquotes
        | closed => cases hstep
        | @plain fields _ acc hplain =>
          simp only [Bool.false_eq_true, if_false, Bool.or_false] at hstep
          split_ifs at hstep with hmark hempty
          · cases hstep
            have hraw : raw = [] := by simpa using hempty
            subst hmark hraw
            exact ⟨.inside, rfl, rfl⟩
          · cases hstep
            have hneeds : needsQuote (raw ++ [c]) = false := by
              rw [needsQuote_append, hplain]
              simp [needsQuote, hmark, hcomma, newline_none hnewline]
            have hreads := @Reader.Reads.plain _ fields (raw ++ [c]) acc hneeds
            rw [show (!(raw ++ [c]).isEmpty) = true by simp] at hreads
            exact ⟨hreads, rfl, rfl⟩

/-- What completes the text of a field from its current state on. -/
def Reader.Completes (record : σ → List Field → Except ε σ) (r : Reader σ) (text : List UInt8) (result : σ) : Prop :=
  (∃ values records, Spells LineEnd (values :: records) text ∧
    ((r.fields ++ values) :: records).foldlM record r.acc = .ok result) ∨
  (text = [] ∧ r.fields = [] ∧ result = r.acc)

lemma Reader.Reads.finish (h : r.Reads raw) (hfinish : r.finish record = .ok result) : r.Completes record raw result := by
  rw [Reader.finish] at hfinish
  by_cases hquotes : r.inQuotes = true
  · simp [hquotes] at hfinish
  · rw [if_neg hquotes] at hfinish
    have hfield := h.fieldText (Bool.not_eq_true _ ▸ hquotes)
    split at hfinish
    · refine Or.inl ⟨[r.field], [], .last (.last hfield), ?_⟩
      rw [Reader.endRecord] at hfinish
      cases hrecord : record r.acc (r.fields ++ [r.field]) with
      | error error => simp [hrecord, bind, Except.bind] at hfinish
      | ok acc =>
        simp only [hrecord, bind, Except.bind, Except.ok.injEq, Reader.clean] at hfinish
        simp [hrecord, hfinish, pure, Except.pure, bind, Except.bind]
    · rename_i hempty
      simp only [Bool.or_eq_true, Bool.not_eq_true', not_or, Bool.not_eq_true] at hempty
      cases hfinish
      refine Or.inr ⟨?_, by simpa using hempty.2, rfl⟩
      cases h with
      | plain _ => simpa using hempty.1.1.2
      | inside => exact absurd rfl hquotes
      | closed => simp at hempty

lemma loop_completes {advance : Bool} (h : r.Reads raw)
    (hloop : (Reader.loop record advance r text).bind (Reader.finish record) = .ok result) :
    r.Completes record (raw ++ if advance then text.tail else text) result := by
  fun_induction Reader.loop record advance r text generalizing raw with
  | case1 advance r =>
    have hnil : (if advance then ([] : List UInt8).tail else []) = [] := by cases advance <;> rfl
    rw [hnil, List.append_nil]
    exact h.finish hloop
  | case2 r c rest ih => exact ih h hloop
  | case3 r c rest error hstep => cases hloop
  | case4 r c rest r' advance hstep ih =>
    have htaken := taken_append c rest advance
    simp only [Bool.false_eq_true, if_false]
    rcases h.step_cases hstep with hcontinues | ⟨hfield, rfl, rfl, rfl⟩ | ⟨hfield, hend, acc, hrecord, rfl⟩
    · have hrest := ih hcontinues.reads hloop
      rw [List.append_assoc, htaken] at hrest
      simpa only [Reader.Completes, hcontinues.fields, hcontinues.acc] using hrest
    · rcases ih (Reader.Reads.clean _ _) hloop with ⟨values, records, hspells, hrecords⟩ | ⟨-, hfields, -⟩
      · refine Or.inl ⟨r.field :: values, records, Spells.field hfield hspells, ?_⟩
        simpa [Reader.clean] using hrecords
      · simp [Reader.clean] at hfields
    · refine Or.inl ?_
      rw [← htaken]
      rcases ih (Reader.Reads.clean _ _) hloop with ⟨values, records, hspells, hrecords⟩ | ⟨htext, -, hresult⟩
      · refine ⟨[r.field], values :: records, .cons (.last hfield) hend hspells, ?_⟩
        rw [List.foldlM_cons, hrecord]
        exact hrecords
      · rw [List.nil_append] at htext
        rw [htext]
        refine ⟨[r.field], [], .cons (.last hfield) hend .nil, ?_⟩
        rw [List.foldlM_cons, hrecord, hresult]
        rfl

/-- The records of an accepted text are those that it spells. -/
theorem spells_of_read (hread : read record acc text = .ok result) :
    ∃ records, Spells LineEnd records text ∧ records.foldlM record acc = .ok result := by
  rw [read_eq] at hread
  rcases loop_completes (Reader.Reads.clean [] acc) hread with ⟨values, records, hspells, hrecords⟩ | ⟨htext, -, hresult⟩
  · exact ⟨values :: records, hspells, hrecords⟩
  · refine ⟨[], ?_, ?_⟩
    · rw [List.nil_append] at htext
      simp only [Bool.false_eq_true, if_false] at htext
      exact htext ▸ .nil
    · exact congrArg Except.ok hresult.symm

/-! ## What is spelled is accepted -/

/-- The text of a field is read, and tells that there is one. -/
lemma loop_fieldText {fieldText : List UInt8} (h : FieldText value fieldText) (hrest : rest.head? ≠ some 34) :
    ∃ r : Reader σ, r.Reads fieldText ∧ r.inQuotes = false ∧ r.fields = fields ∧ r.field = value ∧ r.acc = acc ∧
      Reader.loop record false (.clean fields acc) (fieldText ++ rest) = Reader.loop record false r rest := by
  cases h with
  | plain hplain => exact ⟨_, .plain hplain, rfl, rfl, rfl, rfl, loop_plain rfl rfl hplain⟩
  | quoted =>
    have hstep : (Reader.clean fields acc).step record 34 (escape value ++ 34 :: rest).head? =
        .ok ({ Reader.clean fields acc with quotedField := true, inQuotes := true }, false) := rfl
    refine ⟨⟨false, true, true, false, fields, value, acc⟩, .closed, rfl, rfl, rfl, rfl, ?_⟩
    rw [List.cons_append, List.append_assoc, List.singleton_append, loop_cons hstep, loop_escaped rfl hrest]
    rfl

lemma loop_lineEnd {lineEnd : List UInt8} (hend : LineEnd lineEnd) (hquotes : r.inQuotes = false)
    (hrest : rest.head? ≠ some 10) : Reader.loop record false r (lineEnd ++ rest) =
      (lift (record r.acc (r.fields ++ [r.field]))).bind fun acc => Reader.loop record false (.clean [] acc) rest := by
  cases hend with
  | lf =>
    rw [List.singleton_append, Reader.loop, Reader.step, hquotes]
    simp only [Bool.false_eq_true, if_false, show (10 : UInt8) ≠ 44 by decide, newline, if_true, Reader.endRecord]
    cases record r.acc (r.fields ++ [r.field]) <;> rfl
  | crlf =>
    rw [List.cons_append, List.singleton_append, Reader.loop, Reader.step, hquotes]
    simp only [Bool.false_eq_true, if_false, show (13 : UInt8) ≠ 44 by decide, newline,
      show (13 : UInt8) ≠ 10 by decide, if_true, Reader.endRecord]
    cases record r.acc (r.fields ++ [r.field]) <;> rfl
  | cr =>
    rw [List.singleton_append, Reader.loop, Reader.step, hquotes]
    simp only [Bool.false_eq_true, if_false, show (13 : UInt8) ≠ 44 by decide, newline,
      show (13 : UInt8) ≠ 10 by decide, if_true, Reader.endRecord, hrest, decide_false]
    cases record r.acc (r.fields ++ [r.field]) <;> rfl

lemma LineEnd.head {lineEnd : List UInt8} (hend : LineEnd lineEnd) : (lineEnd ++ rest).head? ≠ some 34 := by
  cases hend <;> simp

/-- The fields of a record up to the last one. -/
lemma loop_recordText (h : RecordText values text) (hrest : rest.head? ≠ some 34) :
    ∃ r : Reader σ, r.inQuotes = false ∧ r.fields ++ [r.field] = fields ++ values ∧ r.acc = acc ∧
      (fields ≠ [] ∨ text ≠ [] → (r.afterQuote || r.haveField || r.quotedField || !r.fields.isEmpty) = true) ∧
      Reader.loop record false (.clean fields acc) (text ++ rest) = Reader.loop record false r rest := by
  induction h generalizing fields with
  | last hfield =>
    obtain ⟨r, hreads, hquotes, hfields, hvalue, hacc, hloop⟩ :=
      @loop_fieldText _ _ record fields _ acc rest _ hfield hrest
    refine ⟨r, hquotes, by rw [hfields, hvalue], hacc, ?_, hloop⟩
    rintro (hne | hne)
    · simp [hfields, hne]
    · cases hreads with
      | plain _ => simp [hne]
      | inside => simp
      | closed => simp
  | @cons value text values textRest hfield hvalues ih =>
    obtain ⟨r, -, hquotes, rfl, rfl, rfl, hloop⟩ :=
      @loop_fieldText _ _ record fields _ acc (44 :: (textRest ++ rest)) _ hfield (by simp)
    obtain ⟨r', hquotes', hfields', hacc', hsome, hloop'⟩ := @ih (r.fields ++ [r.field])
    have hstep : r.step record 44 (textRest ++ rest).head? = .ok (r.appendField, false) := by
      simp [Reader.step, hquotes]
    refine ⟨r', hquotes', by simpa using hfields', hacc', fun _ => hsome (Or.inl (by simp)), ?_⟩
    rw [List.append_assoc, List.cons_append, hloop, loop_cons hstep, Reader.appendField, hloop']

/-- The text spells the records, none of which is one empty field, so they are read. -/
theorem read_of_spells (acc : σ) (h : Spells LineEnd records text) (hne : ∀ values ∈ records, values ≠ [[]]) :
    read record acc text = lift (records.foldlM record acc) := by
  have hhead : ∀ {records text}, Spells LineEnd records text → (∀ values ∈ records, values ≠ [[]]) →
      text.head? ≠ some 10 := by
    intro records text h hne
    cases h with
    | nil => simp
    | last hrecord =>
      obtain ⟨c, rest, rfl, hc⟩ := hrecord.head (hne _ (List.mem_singleton.mpr rfl))
      simpa using hc
    | cons hrecord _ _ =>
      obtain ⟨c, rest, rfl, hc⟩ := hrecord.head (hne _ (List.mem_cons_self ..))
      simpa using hc
  induction h generalizing acc with
  | nil => rfl
  | last hrecord =>
    obtain ⟨c, rest, htext, -⟩ := hrecord.head (hne _ (List.mem_singleton.mpr rfl))
    obtain ⟨r, hquotes, hfields, hacc, hsome, hloop⟩ :=
      @loop_recordText _ _ record [] _ acc _ [] hrecord (by simp)
    rw [List.append_nil] at hloop
    rw [read_eq, hloop, Reader.loop, Except.bind, Reader.finish, if_neg (by simp [hquotes]),
      if_pos (hsome (Or.inr (htext ▸ List.cons_ne_nil _ _))), Reader.endRecord, hfields, hacc, List.nil_append,
      List.foldlM_cons]
    cases record acc _ <;> rfl
  | cons hrecord hend hrest ih =>
    have hlater := fun values hmem => hne values (List.mem_cons_of_mem _ hmem)
    obtain ⟨r, hquotes, hfields, hacc, -, hloop⟩ :=
      @loop_recordText _ _ record [] _ acc _ _ hrecord hend.head
    rw [read_eq, hloop, loop_lineEnd hend hquotes (hhead hrest hlater), hfields, hacc, List.nil_append,
      List.foldlM_cons]
    cases hvalues : record acc _ with
    | error error => rfl
    | ok acc' => exact (read_eq record acc' _).symm.trans (ih acc' hlater)

end

end Wyrebox.Csv
