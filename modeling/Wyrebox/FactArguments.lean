import Wyrebox.CString

set_option autoImplicit false

/-!
# Fact arguments as text

The catalog keeps the arguments of a fact as a JSON array of strings, and a Wirelog program has each of
them as an escaped string.
-/
namespace Wyrebox.FactArguments
open CString

/-! ## Writing JSON -/

/-- A digit of `%x`. -/
def hexDigit (n : ℕ) : UInt8 := UInt8.ofNat (if n < 10 then 48 + n else 87 + n)

def jsonEscape (c : UInt8) : List UInt8 :=
  if c = 34 then [92, 34]
  else if c = 92 then [92, 92]
  else if c = 8 then [92, 98]
  else if c = 12 then [92, 102]
  else if c = 10 then [92, 110]
  else if c = 13 then [92, 114]
  else if c = 9 then [92, 116]
  else if c < 0x20 then [92, 117, 48, 48, hexDigit (c.toNat / 16), hexDigit (c.toNat % 16)]
  else [c]

/-- `append_json_string`. -/
def appendJsonString (value : CString) : List UInt8 := 34 :: (value.bytes.flatMap jsonEscape ++ [34])

lemma hexDigit_ne_zero : ∀ n < 16, hexDigit n ≠ 0 := by decide

lemma jsonEscape_no_nul {c : UInt8} (hc : c ≠ 0) : 0 ∉ jsonEscape c := by
  have hlt := c.toNat_lt
  have hhigh := hexDigit_ne_zero (c.toNat / 16) (by omega)
  have hlow := hexDigit_ne_zero (c.toNat % 16) (by omega)
  rw [jsonEscape]
  split_ifs <;> simp [hc.symm, hhigh.symm, hlow.symm]

lemma appendJsonString_no_nul (value : CString) : 0 ∉ appendJsonString value := by
  have hbody : 0 ∉ value.bytes.flatMap jsonEscape := by
    rw [List.mem_flatMap]
    rintro ⟨c, hc, hmem⟩
    exact jsonEscape_no_nul (ne_of_mem_of_not_mem hc value.no_nul) hmem
  simp [appendJsonString, hbody]

def jsonList (arguments : List CString) : List UInt8 := List.intercalate [44] (arguments.map appendJsonString)

@[simp] lemma jsonList_nil : jsonList [] = [] := rfl

@[simp] lemma jsonList_singleton (value : CString) : jsonList [value] = appendJsonString value := by
  simp [jsonList, List.intercalate]

@[simp] lemma jsonList_cons_cons (value next : CString) (values : List CString) :
    jsonList (value :: next :: values) = appendJsonString value ++ 44 :: jsonList (next :: values) := by
  simp [jsonList, List.intercalate]

lemma jsonList_no_nul (arguments : List CString) : 0 ∉ jsonList arguments := by
  induction arguments with
  | nil => simp
  | cons value values ih =>
    cases values with
    | nil => simpa using appendJsonString_no_nul value
    | cons next values => simp [ih, appendJsonString_no_nul]

lemma length_le_jsonList (arguments : List CString) : arguments.length ≤ (jsonList arguments).length := by
  induction arguments with
  | nil => simp
  | cons value values ih =>
    cases values with
    | nil => simp [appendJsonString]
    | cons next values =>
      simp only [jsonList_cons_cons, List.length_append, List.length_cons] at ih ⊢
      omega

/-- `fact_arguments_to_json`. -/
def factArgumentsToJson (arguments : List CString) : CString :=
  ⟨91 :: (jsonList arguments ++ [93]), by simp [jsonList_no_nul]⟩

/-! ## Reading JSON -/

/-- `g_ascii_xdigit_value`. -/
def xdigitValue (c : UInt8) : Option ℕ :=
  if 48 ≤ c ∧ c ≤ 57 then some (c.toNat - 48)
  else if 65 ≤ c ∧ c ≤ 70 then some (c.toNat - 55)
  else if 97 ≤ c ∧ c ≤ 102 then some (c.toNat - 87)
  else none

/-- `parse_json_hex`. -/
def parseJsonHex (a b c d : UInt8) : Option ℕ := do
  let a ← xdigitValue a
  let b ← xdigitValue b
  let c ← xdigitValue c
  let d ← xdigitValue d
  return ((a * 16 + b) * 16 + c) * 16 + d

/-- `g_string_append_unichar` of a code point below 2^16. -/
def unicharBytes (code : ℕ) : List UInt8 :=
  if code < 0x80 then [UInt8.ofNat code]
  else if code < 0x800 then [UInt8.ofNat (0xC0 + code / 64), UInt8.ofNat (0x80 + code % 64)]
  else [UInt8.ofNat (0xE0 + code / 4096), UInt8.ofNat (0x80 + code / 64 % 64), UInt8.ofNat (0x80 + code % 64)]

def unescape (c : UInt8) : Option UInt8 :=
  if c = 34 ∨ c = 92 ∨ c = 47 then some c
  else if c = 98 then some 8
  else if c = 102 then some 12
  else if c = 110 then some 10
  else if c = 114 then some 13
  else if c = 116 then some 9
  else none

/-- The value up to the closing quote, and the text after it. -/
def readString : List UInt8 → Option (List UInt8 × List UInt8)
  | [] => none
  | 92 :: 117 :: a :: b :: c :: d :: rest =>
    match parseJsonHex a b c d with
    | none => none
    | some code =>
      if 0xD800 ≤ code ∧ code ≤ 0xDFFF then none
      else (readString rest).map fun read => (unicharBytes code ++ read.1, read.2)
  | 92 :: c :: rest =>
    match unescape c with
    | none => none
    | some b => (readString rest).map fun read => (b :: read.1, read.2)
  | c :: rest =>
    if c = 34 then some ([], rest)
    else if c < 0x20 ∨ c = 92 then none
    else (readString rest).map fun read => (c :: read.1, read.2)

/-- The strings from the cursor to the closing bracket. -/
def readStrings : ℕ → List UInt8 → Option (List CString)
  | 0, _ => none
  | fuel + 1, text =>
    match text with
    | 34 :: text =>
      match readString text with
      | none => none
      | some (value, 44 :: rest) => (readStrings fuel rest).map (ofBuffer value :: ·)
      | some (value, rest) => if rest = [93] then some [ofBuffer value] else none
    | _ => none

inductive ArgsError where
  | malformed (json : CString)
  deriving DecidableEq

def ArgsError.message : ArgsError → CString
  | .malformed json => literal "message_facts args_json is not a JSON array of strings: " ++ json

/-- `parse_args_json`. -/
def parseArgsJson (json : CString) : Except ArgsError (List CString) :=
  let parsed :=
    match json.bytes with
    | 91 :: rest =>
      if rest.head? = some 93 then if rest.tail = [] then some [] else none
      else readStrings (rest.length + 1) rest
    | _ => none
  parsed.elim (.error (.malformed json)) .ok

/-! ## Reading what was written -/

section
variable {c : UInt8} {value text rest : List UInt8}

lemma xdigitValue_hexDigit : ∀ n < 16, xdigitValue (hexDigit n) = some n := by decide

/-- A control character comes back from its code. -/
lemma parseJsonHex_control (hc : c < 0x20) :
    parseJsonHex 48 48 (hexDigit (c.toNat / 16)) (hexDigit (c.toNat % 16)) = some c.toNat := by
  have hlt : c.toNat < 32 := hc
  rw [parseJsonHex, xdigitValue_hexDigit _ (by omega), xdigitValue_hexDigit _ (Nat.mod_lt _ (by decide))]
  simp only [show xdigitValue 48 = some 0 by decide, bind, Option.bind, pure, Option.some.injEq]
  omega

lemma readString_plain (hquote : c ≠ 34) (hslash : c ≠ 92) (hcontrol : ¬c < 0x20) :
    readString (c :: rest) = (readString rest).map fun read => (c :: read.1, read.2) := by
  rw [readString.eq_4]
  · simp [hquote, hslash, hcontrol]
  · rintro _ _ _ _ _ rfl
    exact absurd rfl hslash
  · rintro _ _ rfl
    exact absurd rfl hslash

lemma readString_escape (c : UInt8) (rest : List UInt8) :
    readString (jsonEscape c ++ rest) = (readString rest).map fun read => (c :: read.1, read.2) := by
  rw [jsonEscape]
  split_ifs with h34 h92 h8 h12 h10 h13 h9 hcontrol
  · subst h34
    rfl
  · subst h92
    rfl
  · subst h8
    rfl
  · subst h12
    rfl
  · subst h10
    rfl
  · subst h13
    rfl
  · subst h9
    rfl
  · have hlt : c.toNat < 32 := hcontrol
    have hbytes : unicharBytes c.toNat = [c] := by
      rw [unicharBytes, if_pos (by omega), UInt8.ofNat_toNat]
    simp only [List.cons_append, List.nil_append]
    rw [readString, parseJsonHex_control hcontrol]
    simp only [if_neg (show ¬(0xD800 ≤ c.toNat ∧ c.toNat ≤ 0xDFFF) by omega), hbytes]
    rfl
  · exact readString_plain h34 h92 hcontrol

lemma readString_string (value rest : List UInt8) :
    readString (value.flatMap jsonEscape ++ 34 :: rest) = some (value, rest) := by
  induction value with
  | nil => rfl
  | cons c value ih => rw [List.flatMap_cons, List.append_assoc, readString_escape, ih, Option.map_some]

lemma readStrings_jsonList (fuel : ℕ) (value : CString) (values : List CString) (hfuel : values.length < fuel) :
    readStrings fuel (jsonList (value :: values) ++ [93]) = some (value :: values) := by
  induction values generalizing fuel value with
  | nil =>
    obtain ⟨fuel, rfl⟩ := Nat.exists_eq_add_of_lt hfuel
    simp [appendJsonString, readStrings, readString_string, ofBuffer_bytes]
  | cons next values ih =>
    cases fuel with
    | zero => simp at hfuel
    | succ fuel =>
      have hnext := ih fuel next (by simpa using hfuel)
      have htext : jsonList (value :: next :: values) ++ [93] =
          34 :: (value.bytes.flatMap jsonEscape ++ 34 :: 44 :: (jsonList (next :: values) ++ [93])) := by
        simp [appendJsonString]
      rw [htext, readStrings, readString_string]
      simp only [hnext, ofBuffer_bytes, Option.map_some]

/-- Whatever bytes the arguments hold, they come back. -/
theorem parseArgsJson_factArgumentsToJson (arguments : List CString) :
    parseArgsJson (factArgumentsToJson arguments) = .ok arguments := by
  cases arguments with
  | nil => rfl
  | cons value values =>
    have hfuel : values.length < (jsonList (value :: values) ++ [93]).length + 1 := by
      have hlength := length_le_jsonList (value :: values)
      simp only [List.length_append, List.length_cons] at hlength ⊢
      omega
    have hhead : (jsonList (value :: values) ++ [93]).head? ≠ some 93 := by
      cases values <;> simp [appendJsonString]
    simp only [parseArgsJson, factArgumentsToJson]
    rw [if_neg hhead, readStrings_jsonList _ _ _ hfuel]
    rfl

end

/-! ## The Wirelog escape -/

def wirelogEscape (c : UInt8) : List UInt8 :=
  if c = 92 then [92, 92]
  else if c = 34 then [92, 34]
  else if c = 10 then [92, 110]
  else if c = 13 then [92, 114]
  else if c = 9 then [92, 116]
  else [c]

/-- `append_wirelog_escaped_string`. -/
def wirelogEscapedString (value : CString) : List UInt8 := 34 :: (value.bytes.flatMap wirelogEscape ++ [34])

/-- Text between delimiters: a backslash takes the next byte with it, and no delimiter stands alone. -/
inductive Escaped : List UInt8 → Prop
  | nil : Escaped []
  | plain {c rest} : c ≠ 34 → c ≠ 92 → c ≠ 10 → c ≠ 13 → c ≠ 9 → Escaped rest → Escaped (c :: rest)
  | pair {c rest} : Escaped rest → Escaped (92 :: c :: rest)

/-- The byte that stands for another after a backslash. -/
def escapeLetter (c : UInt8) : Option UInt8 :=
  if c = 92 then some 92
  else if c = 34 then some 34
  else if c = 10 then some 110
  else if c = 13 then some 114
  else if c = 9 then some 116
  else none

section
variable {c d : UInt8} {value value' rest rest' : List UInt8}

lemma wirelogEscape_eq (c : UInt8) : wirelogEscape c = (escapeLetter c).elim [c] fun letter => [92, letter] := by
  rw [wirelogEscape, escapeLetter]
  split_ifs <;> rfl

lemma escapeLetter_some {letter : UInt8} (h : escapeLetter c = some letter) :
    (c, letter) ∈ [((92 : UInt8), (92 : UInt8)), (34, 34), (10, 110), (13, 114), (9, 116)] := by
  rw [escapeLetter] at h
  split_ifs at h with h92 h34 h10 h13 h9 <;> cases h <;> simp [*]

lemma escapeLetter_inj {letter : UInt8} (hc : escapeLetter c = some letter) (hd : escapeLetter d = some letter) :
    c = d := by
  have hmemc := escapeLetter_some hc
  have hmemd := escapeLetter_some hd
  simp only [List.mem_cons, Prod.mk.injEq, List.not_mem_nil, or_false] at hmemc hmemd
  rcases hmemc with ⟨rfl, rfl⟩ | ⟨rfl, rfl⟩ | ⟨rfl, rfl⟩ | ⟨rfl, rfl⟩ | ⟨rfl, rfl⟩ <;>
    (simp at hmemd; exact hmemd.symm)

lemma escapeLetter_none (h : escapeLetter c = none) : c ≠ 34 ∧ c ≠ 92 ∧ c ≠ 10 ∧ c ≠ 13 ∧ c ≠ 9 := by
  rw [escapeLetter] at h
  split_ifs at h with h92 h34 h10 h13 h9
  exact ⟨h34, h92, h10, h13, h9⟩

lemma escaped_wirelogEscape (value : List UInt8) : Escaped (value.flatMap wirelogEscape) := by
  induction value with
  | nil => exact .nil
  | cons c value ih =>
    rw [List.flatMap_cons, wirelogEscape_eq]
    cases hc : escapeLetter c with
    | none =>
      obtain ⟨h34, h92, h10, h13, h9⟩ := escapeLetter_none hc
      exact .plain h34 h92 h10 h13 h9 ih
    | some letter => exact .pair ih

/-- What one byte becomes ends where it does, whatever follows. -/
lemma wirelogEscape_append_inj (h : wirelogEscape c ++ rest = wirelogEscape d ++ rest') : c = d ∧ rest = rest' := by
  rw [wirelogEscape_eq, wirelogEscape_eq] at h
  cases hc : escapeLetter c with
  | none =>
    cases hd : escapeLetter d with
    | none =>
      simp only [hc, hd, Option.elim_none, List.cons_append, List.nil_append, List.cons.injEq] at h
      exact h
    | some letter =>
      simp only [hc, hd, Option.elim_none, Option.elim_some, List.cons_append, List.cons.injEq] at h
      exact absurd h.1 (escapeLetter_none hc).2.1
  | some letter =>
    cases hd : escapeLetter d with
    | none =>
      simp only [hc, hd, Option.elim_none, Option.elim_some, List.cons_append, List.cons.injEq] at h
      exact absurd h.1.symm (escapeLetter_none hd).2.1
    | some letter' =>
      simp only [hc, hd, Option.elim_some, List.cons_append, List.nil_append, List.cons.injEq, true_and] at h
      exact ⟨escapeLetter_inj hc (h.1 ▸ hd), h.2⟩

lemma quote_ne_wirelogEscape (h : 34 :: rest = wirelogEscape d ++ rest') : False := by
  rw [wirelogEscape_eq] at h
  cases hd : escapeLetter d with
  | none =>
    simp only [hd, Option.elim_none, List.cons_append, List.cons.injEq] at h
    exact (escapeLetter_none hd).1 h.1.symm
  | some letter => simp [hd] at h

/-- The closing delimiter is the first one that no backslash escapes. -/
lemma escape_append_inj
    (h : value.flatMap wirelogEscape ++ 34 :: rest = value'.flatMap wirelogEscape ++ 34 :: rest') :
    value = value' ∧ rest = rest' := by
  induction value generalizing value' with
  | nil =>
    cases value' with
    | nil => exact ⟨rfl, (List.cons.inj h).2⟩
    | cons d value' =>
      rw [List.flatMap_cons, List.append_assoc] at h
      exact (quote_ne_wirelogEscape h).elim
  | cons c value ih =>
    cases value' with
    | nil =>
      rw [List.flatMap_cons, List.append_assoc] at h
      exact (quote_ne_wirelogEscape h.symm).elim
    | cons d value' =>
      rw [List.flatMap_cons, List.flatMap_cons, List.append_assoc, List.append_assoc] at h
      obtain ⟨rfl, hvalue⟩ := wirelogEscape_append_inj h
      obtain ⟨rfl, hrest⟩ := ih hvalue
      exact ⟨rfl, hrest⟩

end

lemma wirelogEscapedString_append_inj {s t : CString} {rest rest' : List UInt8}
    (h : wirelogEscapedString s ++ rest = wirelogEscapedString t ++ rest') : s = t ∧ rest = rest' := by
  simp only [wirelogEscapedString, List.cons_append, List.append_assoc, List.nil_append, List.cons.injEq,
    true_and] at h
  obtain ⟨hbytes, hrest⟩ := escape_append_inj h
  exact ⟨CString.ext hbytes, hrest⟩

/-- Arguments survive the catalog, and their escaped forms differ and hold no delimiter of their own. -/
theorem fact_arguments_survive :
    (∀ arguments : List CString, parseArgsJson (factArgumentsToJson arguments) = .ok arguments) ∧
    Function.Injective wirelogEscapedString ∧
    ∀ value : CString, ∃ body, wirelogEscapedString value = 34 :: (body ++ [34]) ∧ Escaped body := by
  refine ⟨parseArgsJson_factArgumentsToJson, ?_, fun value => ⟨_, rfl, escaped_wirelogEscape value.bytes⟩⟩
  intro s t h
  exact (wirelogEscapedString_append_inj (congrArg (· ++ []) h)).1

end Wyrebox.FactArguments
