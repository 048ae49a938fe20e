import Wyrebox.LittleEndian

set_option autoImplicit false

/-!
# Decoders of byte strings

A decoder takes a value off the front of a byte string, or refuses it. `Reads` relates a decoder to
the bytes it consumes; its rules follow the way decoders are put together. `Spells` goes the other way:
what a decoder accepts begins with the one spelling of the value it returns.
-/
namespace Wyrebox.Codec
open LittleEndian

abbrev Decoder (ε α : Type) : Type := StateT (List UInt8) (Except ε) α

section
variable {ε α β : Type}

def unsigned (width : ℕ) (truncated : ε) : Decoder ε ℕ := fun rest =>
  if rest.length < width then .error truncated else .ok (decode (rest.take width), rest.drop width)

def octets (n : ℕ) (truncated : ε) : Decoder ε (List UInt8) := fun rest =>
  if rest.length < n then .error truncated else .ok (rest.take n, rest.drop n)

/-- The same decoder `n` times over. -/
def times (d : Decoder ε α) : ℕ → Decoder ε (List α)
  | 0 => pure []
  | n + 1 => do
    let value ← d
    let values ← times d n
    pure (value :: values)

/-- Goes on only if `c` holds of what is left. -/
def ensure (c : List UInt8 → Bool) (error : ε) : Decoder ε Unit := fun rest =>
  if c rest then .ok ((), rest) else .error error

/-- `d` gets `value` from exactly `bytes`, whatever follows them. -/
def Reads (d : Decoder ε α) (bytes : List UInt8) (value : α) : Prop :=
  ∀ tail, d (bytes ++ tail) = .ok (value, tail)

theorem Reads.pure (value : α) : Reads (Pure.pure value : Decoder ε α) [] value := fun _ => rfl

theorem Reads.bind {d : Decoder ε α} {next : α → Decoder ε β} {bytes bytes' : List UInt8} {value : α}
    {value' : β} (h : Reads d bytes value) (h' : Reads (next value) bytes' value') :
    Reads (d >>= next) (bytes ++ bytes') value' := by
  intro tail
  have hd := h (bytes' ++ tail)
  rw [← List.append_assoc] at hd
  change (d ((bytes ++ bytes') ++ tail) >>= fun p => next p.1 p.2) = _
  rw [hd]
  exact h' tail

/-- A step that consumes nothing. -/
theorem Reads.bind_nil {d : Decoder ε α} {next : α → Decoder ε β} {bytes : List UInt8} {value : α}
    {value' : β} (h : Reads d [] value) (h' : Reads (next value) bytes value') :
    Reads (d >>= next) bytes value' := h.bind h'

/-- A last step that consumes nothing. -/
theorem Reads.bind_last {d : Decoder ε α} {next : α → Decoder ε β} {bytes : List UInt8} {value : α}
    {value' : β} (h : Reads d bytes value) (h' : Reads (next value) [] value') :
    Reads (d >>= next) bytes value' := by
  have hall := h.bind h'
  rwa [List.append_nil] at hall

/-- A last step that computes the result. -/
theorem Reads.bind_pure {d : Decoder ε α} {f : α → β} {bytes : List UInt8} {value : α} (h : Reads d bytes value) :
    Reads (d >>= fun a => Pure.pure (f a)) bytes (f value) := h.bind_last (Reads.pure (f value))

theorem Reads.run {d : Decoder ε α} {bytes : List UInt8} {value : α} (h : Reads d bytes value) :
    d bytes = .ok (value, []) := by
  have hall := h []
  rwa [List.append_nil] at hall

theorem reads_unsigned {width n : ℕ} (truncated : ε) (h : n < 256 ^ width) :
    Reads (unsigned width truncated) (encode width n) n := by
  intro tail
  have hlen : ¬(encode width n ++ tail).length < width := by
    rw [List.length_append, encode_length]
    omega
  have htake : (encode width n ++ tail).take width = encode width n := by
    rw [List.take_append_of_le_length (by simp), List.take_of_length_le (by simp)]
  have hdrop : (encode width n ++ tail).drop width = tail := by
    rw [List.drop_append_of_le_length (by simp), List.drop_of_length_le (by simp), List.nil_append]
  rw [unsigned, if_neg hlen, htake, hdrop, decode_encode h]

theorem reads_octets {n : ℕ} (truncated : ε) {bytes : List UInt8} (h : bytes.length = n) :
    Reads (octets n truncated) bytes bytes := by
  intro tail
  subst h
  rw [octets, if_neg (by simp), List.take_left, List.drop_left]

theorem reads_times {d : Decoder ε α} {encodeOne : α → List UInt8} {values : List α}
    (h : ∀ value ∈ values, Reads d (encodeOne value) value) :
    Reads (times d values.length) (values.flatMap encodeOne) values := by
  induction values with
  | nil => exact Reads.pure []
  | cons value values ih =>
    have htail := ih fun value' hmem => h value' (List.mem_cons_of_mem _ hmem)
    have hhead := h value List.mem_cons_self
    rw [List.length_cons, List.flatMap_cons, times]
    exact hhead.bind htail.bind_pure

/-- A check of what is left may depend on the bytes still to be decoded. -/
theorem Reads.ensure {c : List UInt8 → Bool} {error : ε} {next : Decoder ε β} {bytes : List UInt8} {value : β}
    (h : Reads next bytes value) (hc : ∀ tail, c (bytes ++ tail) = true) :
    Reads (Codec.ensure c error >>= fun _ => next) bytes value := by
  intro tail
  change (Codec.ensure c error (bytes ++ tail) >>= fun p => next p.2) = _
  rw [Codec.ensure, if_pos (hc tail)]
  exact h tail

/-! ## What a decoder accepts -/

theorem bind_run {d : Decoder ε α} {next : α → Decoder ε β} {bytes rest : List UInt8} {value : β} :
    (d >>= next) bytes = .ok (value, rest) ↔
      ∃ first mid, d bytes = .ok (first, mid) ∧ next first mid = .ok (value, rest) := by
  change (d bytes >>= fun p => next p.1 p.2) = _ ↔ _
  cases h : d bytes with
  | error error => simp [bind, Except.bind]
  | ok result =>
    obtain ⟨first, mid⟩ := result
    simp [bind, Except.bind]

theorem pure_run {first value : α} {bytes rest : List UInt8} :
    (Pure.pure first : Decoder ε α) bytes = .ok (value, rest) ↔ first = value ∧ bytes = rest := by
  change Except.ok (first, bytes) = _ ↔ _
  rw [Except.ok.injEq, Prod.mk.injEq]

/-- A decoder that went on has passed the check before. -/
theorem guard_run {c : Prop} [Decidable c] {error : ε} {d : Decoder ε α} {bytes : List UInt8} {result : α × List UInt8} :
    (if c then throw error else d : Decoder ε α) bytes = .ok result ↔ ¬c ∧ d bytes = .ok result := by
  split
  · rename_i hc
    change Except.error error = _ ↔ _
    simp [hc]
  · rename_i hc
    simp [hc]

theorem ensure_run {c : List UInt8 → Bool} {error : ε} {bytes rest : List UInt8} {value : Unit} :
    ensure c error bytes = .ok (value, rest) ↔ c bytes = true ∧ bytes = rest := by
  rw [Codec.ensure]
  split <;> simp [*]

/-- What `d` accepts begins with the spelling of a value with the property `P`. -/
def Spells (d : Decoder ε α) (P : α → Prop) (spell : α → List UInt8) : Prop :=
  ∀ {bytes value rest}, d bytes = .ok (value, rest) → P value ∧ bytes = spell value ++ rest

/-- A decoder that reads its spellings does not look beyond them. -/
theorem Spells.append {d : Decoder ε α} {P : α → Prop} {spell : α → List UInt8} (h : Spells d P spell)
    (hreads : ∀ value, P value → Reads d (spell value) value) {bytes rest : List UInt8} {value : α}
    (hok : d bytes = .ok (value, rest)) (tail : List UInt8) : d (bytes ++ tail) = .ok (value, rest ++ tail) := by
  obtain ⟨hvalue, rfl⟩ := h hok
  rw [List.append_assoc]
  exact hreads value hvalue (rest ++ tail)

theorem spells_unsigned (width : ℕ) (truncated : ε) :
    Spells (unsigned width truncated) (· < 256 ^ width) (encode width) := by
  intro bytes value rest h
  rw [unsigned] at h
  split at h
  · cases h
  · rename_i hlen
    cases h
    have htake : (bytes.take width).length = width := List.length_take_of_le (Nat.not_lt.mp hlen)
    have hlt := decode_lt (bytes.take width)
    rw [htake] at hlt
    refine ⟨hlt, ?_⟩
    rw [← eq_encode_of_decode htake rfl, List.take_append_drop]

theorem spells_octets (n : ℕ) (truncated : ε) : Spells (octets n truncated) (·.length = n) id := by
  intro bytes value rest h
  rw [octets] at h
  split at h
  · cases h
  · rename_i hlen
    cases h
    exact ⟨List.length_take_of_le (Nat.not_lt.mp hlen), (List.take_append_drop n bytes).symm⟩

theorem spells_times {d : Decoder ε α} {P : α → Prop} {spell : α → List UInt8} (h : Spells d P spell) (n : ℕ) :
    Spells (times d n) (fun values => values.length = n ∧ ∀ value ∈ values, P value)
      (fun values => values.flatMap spell) := by
  intro bytes values rest hok
  induction n generalizing bytes values with
  | zero =>
    obtain ⟨rfl, rfl⟩ := pure_run.mp hok
    exact ⟨⟨rfl, fun _ hmem => absurd hmem List.not_mem_nil⟩, rfl⟩
  | succ n ih =>
    simp only [times, bind_run, pure_run] at hok
    obtain ⟨value, mid, hvalue, later, mid', hlater, rfl, rfl⟩ := hok
    obtain ⟨hfirst, rfl⟩ := h hvalue
    obtain ⟨⟨hlength, hall⟩, rfl⟩ := ih hlater
    simp only [List.length_cons, hlength, List.forall_mem_cons, List.flatMap_cons, List.append_assoc]
    exact ⟨⟨trivial, hfirst, hall⟩, trivial⟩

/-- What follows the bytes that `d` takes does not matter. -/
def Local (d : Decoder ε α) : Prop :=
  ∀ bytes value rest tail, d bytes = .ok (value, rest) → d (bytes ++ tail) = .ok (value, rest ++ tail)

theorem Local.pure (value : α) : Local (Pure.pure value : Decoder ε α) := by
  intro bytes value' rest tail h
  obtain ⟨rfl, rfl⟩ := pure_run.mp h
  rfl

theorem Local.bind {d : Decoder ε α} {next : α → Decoder ε β} (h : Local d) (h' : ∀ value, Local (next value)) :
    Local (d >>= next) := by
  intro bytes value rest tail hok
  obtain ⟨first, mid, hfirst, hnext⟩ := bind_run.mp hok
  exact bind_run.mpr ⟨first, mid ++ tail, h _ _ _ tail hfirst, h' first _ _ _ tail hnext⟩

theorem Local.guard {c : Prop} [Decidable c] {error : ε} {d : Decoder ε α} (h : Local d) :
    Local (if c then throw error else d) := by
  intro bytes value rest tail hok
  obtain ⟨hc, hd⟩ := guard_run.mp hok
  exact guard_run.mpr ⟨hc, h _ _ _ tail hd⟩

theorem Local.ensure {c : List UInt8 → Bool} {error : ε} (h : ∀ bytes tail, c bytes = true → c (bytes ++ tail) = true) :
    Local (Codec.ensure c error) := by
  intro bytes value rest tail hok
  obtain ⟨hc, rfl⟩ := ensure_run.mp hok
  exact ensure_run.mpr ⟨h bytes tail hc, rfl⟩

/-- `d` accepts the spellings of the values with the property `P`, and nothing else. -/
structure Codes (d : Decoder ε α) (P : α → Prop) (spell : α → List UInt8) : Prop where
  spells : Spells d P spell
  reads : ∀ {value}, P value → Reads d (spell value) value

theorem Codes.isLocal {d : Decoder ε α} {P : α → Prop} {spell : α → List UInt8} (h : Codes d P spell) : Local d :=
  fun _ _ _ tail hok => Spells.append h.spells (fun _ hvalue => h.reads hvalue) hok tail

theorem local_unsigned (width : ℕ) (truncated : ε) : Local (unsigned width truncated) := by
  intro bytes value rest tail h
  obtain ⟨hlt, rfl⟩ := spells_unsigned width truncated h
  rw [List.append_assoc]
  exact reads_unsigned truncated hlt _

theorem local_octets (n : ℕ) (truncated : ε) : Local (octets n truncated) := by
  intro bytes value rest tail h
  obtain ⟨hlen, rfl⟩ := spells_octets n truncated h
  rw [List.append_assoc]
  exact reads_octets truncated hlen _

/-! ## Whole byte strings -/

/-- A decoder of everything there is, and a last check of the value. -/
def whole (d : Decoder ε α) (trailing : ε) (check : α → Except ε β) (data : List UInt8) : Except ε β := do
  let (value, rest) ← d data
  if !rest.isEmpty then .error trailing else check value

section
variable {d : Decoder ε α} {P : α → Prop} {spell : α → List UInt8} {trailing : ε} {check : α → Except ε β}
  {data : List UInt8} {result : β}

theorem whole_eq_ok (h : Codes d P spell) :
    whole d trailing check data = .ok result ↔ ∃ value, P value ∧ check value = .ok result ∧ data = spell value := by
  rw [whole]
  constructor
  · intro hok
    cases hd : d data with
    | error error => simp [hd, bind, Except.bind] at hok
    | ok found =>
      obtain ⟨value, rest⟩ := found
      obtain ⟨hvalue, rfl⟩ := h.spells hd
      rw [hd] at hok
      change (if (!rest.isEmpty) = true then _ else _) = _ at hok
      split at hok
      · cases hok
      · rename_i hrest
        rw [Bool.not_eq_true', Bool.not_eq_false, List.isEmpty_iff] at hrest
        rw [hrest, List.append_nil]
        exact ⟨value, hvalue, hok, rfl⟩
  · rintro ⟨value, hvalue, hcheck, rfl⟩
    rw [(h.reads hvalue).run]
    exact hcheck

/-- Bytes behind a whole payload are refused. -/
theorem whole_append (h : Codes d P spell) (hok : whole d trailing check data = .ok result) {tail : List UInt8}
    (hne : tail ≠ []) : whole d trailing check (data ++ tail) = .error trailing := by
  obtain ⟨value, hvalue, -, rfl⟩ := (whole_eq_ok h).mp hok
  rw [whole, h.reads hvalue]
  change (if (!tail.isEmpty) = true then _ else _) = _
  rw [List.isEmpty_eq_false_iff.mpr hne]
  rfl

/-- No part of a whole payload is one. -/
theorem whole_take (h : Codes d P spell) (hok : whole d trailing check data = .ok result) {n : ℕ}
    (hn : n < data.length) : ∃ error, whole d trailing check (data.take n) = .error error := by
  cases hcut : whole d trailing check (data.take n) with
  | error error => exact ⟨error, rfl⟩
  | ok result' =>
    have hne : data.drop n ≠ [] := by
      rw [ne_eq, List.drop_eq_nil_iff]
      omega
    have htrailing := whole_append h hcut hne
    rw [List.take_append_drop, hok] at htrailing
    cases htrailing

end

end
end Wyrebox.Codec
