import Mathlib.Data.List.Basic
import Wyrebox.Fallible

set_option autoImplicit false

/-!
# Comma-separated values

A writer that quotes a field where it must, and a reader that hands over each record as it ends. What the
reader makes of the records that the writer wrote is the fold of them.
-/
namespace Wyrebox.Csv

abbrev Field := List UInt8

/-! ## Writing -/

def needsQuote (value : Field) : Bool := value.any fun b => b == 34 || b == 44 || b == 10 || b == 13

/-- Each quote is doubled. -/
def escape (value : Field) : Field := value.flatMap fun b => if b = 34 then [34, 34] else [b]

def appendValue (value : Field) : List UInt8 := if needsQuote value then 34 :: (escape value ++ [34]) else value

def writeRecord : List Field → List UInt8
  | [] => [10]
  | [value] => appendValue value ++ [10]
  | value :: values => appendValue value ++ 44 :: writeRecord values

def write (records : List (List Field)) : List UInt8 := records.flatMap writeRecord

/-! ## Reading -/

inductive ReadError (ε : Type) where
  | malformedQuotedField
  | malformedQuote
  | unterminated
  | record (error : ε)
  deriving DecidableEq

structure Reader (σ : Type) where
  inQuotes : Bool
  quotedField : Bool
  afterQuote : Bool
  haveField : Bool
  fields : List Field
  field : Field
  acc : σ

section
variable {σ ε : Type} (record : σ → List Field → Except ε σ)

/-- Where a field begins. -/
def Reader.clean (fields : List Field) (acc : σ) : Reader σ := ⟨false, false, false, false, fields, [], acc⟩

def Reader.appendField (r : Reader σ) : Reader σ := .clean (r.fields ++ [r.field]) r.acc

/-- The field and the record end. -/
def Reader.endRecord (r : Reader σ) : Except (ReadError ε) (Reader σ) :=
  match record r.acc (r.fields ++ [r.field]) with
  | .error error => .error (.record error)
  | .ok acc => .ok (.clean [] acc)

/-- A line ends here, and whether it takes the next byte with it. -/
def newline (c : UInt8) (next : Option UInt8) : Option Bool :=
  if c = 10 then some false else if c = 13 then some (next = some 10) else none

/-- One turn of the loop, and whether it takes the next byte too. -/
def Reader.step (r : Reader σ) (c : UInt8) (next : Option UInt8) : Except (ReadError ε) (Reader σ × Bool) :=
  if r.inQuotes then
    if c = 34 then
      if next = some 34 then .ok ({ r with field := r.field ++ [34] }, true)
      else .ok ({ r with inQuotes := false, afterQuote := true }, false)
    else .ok ({ r with field := r.field ++ [c] }, false)
  else if c = 44 then .ok (r.appendField, false)
  else match newline c next with
    | some advance => (r.endRecord record).map (·, advance)
    | none =>
      if r.afterQuote then .error .malformedQuotedField
      else if c = 34 then
        if r.haveField || r.quotedField then .error .malformedQuote
        else .ok ({ r with quotedField := true, inQuotes := true }, false)
      else .ok ({ r with haveField := true, field := r.field ++ [c] }, false)

def Reader.loop : Bool → Reader σ → List UInt8 → Except (ReadError ε) (Reader σ)
  | _, r, [] => .ok r
  | true, r, _ :: rest => loop false r rest
  | false, r, c :: rest =>
    match r.step record c rest.head? with
    | .error error => .error error
    | .ok (r, advance) => loop advance r rest

def read (acc : σ) (input : List UInt8) : Except (ReadError ε) σ := do
  let r ← Reader.loop record false (.clean [] acc) input
  if r.inQuotes then .error .unterminated
  else if r.afterQuote || r.haveField || r.quotedField || !r.fields.isEmpty then do
    let r ← r.endRecord record
    .ok r.acc
  else .ok r.acc

/-! ## Reading what was written -/

variable {record} {r : Reader σ} {fields : List Field} {acc : σ} {value : Field} {rest : List UInt8}

lemma loop_cons {c : UInt8} {r' : Reader σ} (h : r.step record c rest.head? = .ok (r', false)) :
    Reader.loop record false r (c :: rest) = Reader.loop record false r' rest := by
  rw [Reader.loop, h]

lemma loop_plain (hquotes : r.inQuotes = false) (hafter : r.afterQuote = false) (hvalue : needsQuote value = false) :
    Reader.loop record false r (value ++ rest) =
      Reader.loop record false { r with haveField := r.haveField || !value.isEmpty, field := r.field ++ value } rest := by
  induction value generalizing r with
  | nil => simp
  | cons c value ih =>
    simp only [needsQuote, List.any_cons, Bool.or_eq_false_iff, beq_eq_false_iff_ne] at hvalue
    obtain ⟨⟨⟨⟨hquote, hcomma⟩, hlf⟩, hcr⟩, hrest⟩ := hvalue
    have hstep : r.step record c (value ++ rest).head? =
        .ok ({ r with haveField := true, field := r.field ++ [c] }, false) := by
      simp [Reader.step, newline, hquotes, hafter, hquote, hcomma, hlf, hcr]
    rw [List.cons_append, loop_cons hstep]
    refine (ih ?_ ?_ hrest).trans ?_
    · exact hquotes
    · exact hafter
    · simp

lemma loop_escaped (hquotes : r.inQuotes = true) (hrest : rest.head? ≠ some 34) :
    Reader.loop record false r (escape value ++ 34 :: rest) =
      Reader.loop record false { r with inQuotes := false, afterQuote := true, field := r.field ++ value } rest := by
  induction value generalizing r with
  | nil =>
    have hstep : r.step record 34 rest.head? = .ok ({ r with inQuotes := false, afterQuote := true }, false) := by
      simp [Reader.step, hquotes, hrest]
    rw [escape, List.flatMap_nil, List.nil_append, loop_cons hstep, List.append_nil]
  | cons c value ih =>
    have hescape : escape (c :: value) = (if c = 34 then [34, 34] else [c]) ++ escape value := rfl
    rw [hescape]
    by_cases hc : c = 34
    · subst hc
      rw [if_pos rfl]
      have hstep : r.step record 34 (34 :: (escape value ++ 34 :: rest)).head? =
          .ok ({ r with field := r.field ++ [34] }, true) := by
        simp [Reader.step, hquotes]
      simp only [List.cons_append, List.nil_append]
      rw [Reader.loop, hstep]
      simp only [Reader.loop]
      refine (ih ?_).trans ?_
      · exact hquotes
      · simp
    · rw [if_neg hc, List.singleton_append, List.cons_append]
      have hstep : r.step record c (escape value ++ 34 :: rest).head? =
          .ok ({ r with field := r.field ++ [c] }, false) := by
        simp [Reader.step, hquotes, hc]
      rw [loop_cons hstep]
      refine (ih ?_).trans ?_
      · exact hquotes
      · simp

/-- Before the separator stands the value, whether it was quoted or not. -/
lemma loop_value (hrest : rest.head? ≠ some 34) : ∃ r : Reader σ, r.inQuotes = false ∧ r.fields = fields ∧
    r.field = value ∧ r.acc = acc ∧
      Reader.loop record false (.clean fields acc) (appendValue value ++ rest) = Reader.loop record false r rest := by
  rw [appendValue]
  split
  case isFalse hplain =>
    rw [Bool.not_eq_true] at hplain
    exact ⟨_, rfl, rfl, rfl, rfl, loop_plain rfl rfl hplain⟩
  case isTrue hquoted =>
    have hstep : (Reader.clean fields acc).step record 34 (escape value ++ 34 :: rest).head? =
        .ok ({ Reader.clean fields acc with quotedField := true, inQuotes := true }, false) := rfl
    refine ⟨{ Reader.clean fields acc with quotedField := true, afterQuote := true, field := value },
      rfl, rfl, rfl, rfl, ?_⟩
    rw [List.cons_append, List.append_assoc, List.singleton_append, loop_cons hstep, loop_escaped rfl hrest]
    rfl

lemma loop_comma : Reader.loop record false (.clean fields acc) (appendValue value ++ 44 :: rest) =
    Reader.loop record false (.clean (fields ++ [value]) acc) rest := by
  have hrest : (44 :: rest).head? ≠ some 34 := by simp
  obtain ⟨r, hquotes, rfl, rfl, rfl, hloop⟩ := @loop_value _ _ record fields acc value _ hrest
  have hstep : r.step record 44 rest.head? = .ok (r.appendField, false) := by simp [Reader.step, hquotes]
  rw [hloop, loop_cons hstep, Reader.appendField]

/-- What a record does. -/
def lift (result : Except ε σ) : Except (ReadError ε) σ := result.mapError .record

lemma loop_newline : Reader.loop record false (.clean fields acc) (appendValue value ++ 10 :: rest) =
    (lift (record acc (fields ++ [value]))).bind fun acc => Reader.loop record false (.clean [] acc) rest := by
  have hrest : (10 :: rest).head? ≠ some 34 := by simp
  obtain ⟨r, hquotes, rfl, rfl, rfl, hloop⟩ := @loop_value _ _ record fields acc value _ hrest
  rw [hloop, Reader.loop, Reader.step, hquotes]
  simp only [Bool.false_eq_true, if_false, show (10 : UInt8) ≠ 44 by decide, newline, if_true, Reader.endRecord]
  cases record r.acc (r.fields ++ [r.field]) <;> rfl

lemma loop_record (values : List Field) (hne : values ≠ []) :
    Reader.loop record false (.clean fields acc) (writeRecord values ++ rest) =
      (lift (record acc (fields ++ values))).bind fun acc => Reader.loop record false (.clean [] acc) rest := by
  induction values generalizing fields with
  | nil => exact absurd rfl hne
  | cons value values ih =>
    cases values with
    | nil => rw [writeRecord, List.append_assoc, List.singleton_append, loop_newline]
    | cons next values =>
      rw [writeRecord, List.append_assoc, List.cons_append, loop_comma, ih (List.cons_ne_nil _ _), List.append_assoc,
        List.singleton_append]
      simp

/-- Whatever bytes the fields hold, the records come back. -/
theorem read_write (acc : σ) (records : List (List Field)) (hne : ∀ values ∈ records, values ≠ []) :
    read record acc (write records) = lift (records.foldlM record acc) := by
  have hloop : Reader.loop record false (.clean [] acc) (write records) =
      (lift (records.foldlM record acc)).map (Reader.clean []) := by
    induction records generalizing acc with
    | nil => rfl
    | cons values records ih =>
      rw [write, List.flatMap_cons, loop_record values (hne values (List.mem_cons_self ..)), List.nil_append,
        List.foldlM_cons]
      cases record acc values with
      | error error => rfl
      | ok acc' => exact ih acc' fun values' h => hne values' (List.mem_cons_of_mem _ h)
  rw [read, hloop]
  cases records.foldlM record acc <;> rfl

end

/-- A reader that keeps the records. -/
def collect (records : List (List Field)) (values : List Field) : Except Empty (List (List Field)) :=
  .ok (records ++ [values])

lemma foldlM_collect (acc records : List (List Field)) : records.foldlM collect acc = .ok (acc ++ records) := by
  induction records generalizing acc with
  | nil =>
    rw [List.foldlM_nil, List.append_nil]
    rfl
  | cons values records ih =>
    rw [List.append_cons]
    exact ih (acc ++ [values])

/-- Different records are never written alike. -/
theorem write_injective {records records' : List (List Field)} (hne : ∀ values ∈ records, values ≠ [])
    (hne' : ∀ values ∈ records', values ≠ []) (h : write records = write records') : records = records' := by
  have hread := @read_write _ _ collect [] records hne
  rw [h, @read_write _ _ collect [] records' hne', foldlM_collect, foldlM_collect] at hread
  exact (Except.ok.inj (show Except.ok _ = Except.ok _ from hread)).symm

end Wyrebox.Csv
