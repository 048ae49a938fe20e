import Wyrebox.LmtpSession

set_option autoImplicit false

/-!
# The message in DATA

A client sends each line of its message with CR LF after it, one more dot before a line that begins with a
dot, and a line with a dot alone at the end. The listener and the session parser take the message out of
that, and nothing but that line ends it.
-/
namespace Wyrebox.Lmtp

/-- The text has no CR LF in it. -/
def OneLine (raw : List UInt8) : Prop := ¬[13, 10] <:+: raw

instance (raw : List UInt8) : Decidable (OneLine raw) := inferInstanceAs (Decidable (¬_))

/-- A line as the client sends it. -/
def stuff : List UInt8 → List UInt8
  | 46 :: line => 46 :: 46 :: line
  | line => line

/-- The lines of a message, and the end of DATA. -/
def stuffed (lines : List (List UInt8)) : List UInt8 := lines.flatMap (fun line => wire (stuff line)) ++ wire [46]

/-- The message itself. -/
def textOf (lines : List (List UInt8)) : List UInt8 := lines.flatMap wire

@[simp] lemma unstuff_stuff (line : List UInt8) : unstuff (stuff line) = line := by
  unfold stuff
  split
  · rfl
  · rename_i hdot
    unfold unstuff
    split
    · exact absurd rfl (hdot _)
    · rfl

lemma stuff_ne_end (line : List UInt8) : stuff line ≠ [46] := by
  unfold stuff
  split
  · simp
  · rename_i hdot
    exact fun heq => hdot [] heq

section
variable {limit : ℕ} {raw raw' line rest input : List UInt8}

lemma oneLine_cons {b : UInt8} : OneLine (b :: raw) ↔ ¬(b = 13 ∧ raw.head? = some 10) ∧ OneLine raw := by
  unfold OneLine
  rw [List.infix_cons_iff, not_or]
  refine and_congr_left' (not_congr ?_)
  cases raw with
  | nil => simp
  | cons c raw => simp [List.cons_prefix_cons, eq_comm]

lemma OneLine.stuff (h : OneLine line) : OneLine (stuff line) := by
  unfold Lmtp.stuff
  split
  · exact oneLine_cons.mpr ⟨by simp, h⟩
  · exact h

/-! ## Lines -/

/-- A line without CR LF in it is read whole, though it may hold or end with a CR. -/
lemma readLoop_of_oneLine {pendingCr : Bool} (hraw : OneLine ((if pendingCr then [13] else []) ++ raw))
    (hlimit : line.length + ((if pendingCr then [13] else []) ++ raw).length ≤ limit) :
    readLoop limit pendingCr line (wire raw ++ rest) =
      .line (line ++ ((if pendingCr then [13] else []) ++ raw)) rest := by
  induction raw generalizing pendingCr line with
  | nil =>
    cases pendingCr with
    | false => simp [wire, readLoop]
    | true =>
      have hlt : line.length < limit := Nat.lt_of_succ_le (by simpa using hlimit)
      simp [wire, readLoop, hlt]
  | cons b raw ih =>
    cases pendingCr with
    | false =>
      simp only [Bool.false_eq_true, if_false, List.nil_append, List.length_cons] at hraw hlimit ⊢
      change readLoop limit false line (b :: (wire raw ++ rest)) = _
      rw [readLoop]
      split
      · rename_i hcr
        subst hcr
        exact ih hraw (by simpa [Nat.add_comm] using hlimit)
      · rw [if_neg (by omega)]
        refine (@ih _ false (oneLine_cons.mp hraw).2 ?_).trans (by simp)
        simp only [Bool.false_eq_true, if_false, List.nil_append, List.length_append, List.length_singleton]
        omega
    | true =>
      simp only [if_true, List.singleton_append, List.length_cons] at hraw hlimit ⊢
      have hlf : b ≠ 10 := fun h => (oneLine_cons.mp hraw).1 ⟨rfl, by simp [h]⟩
      have hrest := (oneLine_cons.mp hraw).2
      change readLoop limit true line (b :: (wire raw ++ rest)) = _
      rw [readLoop, if_neg hlf, if_neg (by omega)]
      split
      · rename_i hcr
        subst hcr
        refine (@ih _ true hrest ?_).trans (by simp)
        simp only [if_true, List.singleton_append, List.length_append, List.length_cons, List.length_nil]
        omega
      · rw [if_neg (by omega)]
        refine (@ih _ false (oneLine_cons.mp hrest).2 ?_).trans (by simp)
        simp only [Bool.false_eq_true, if_false, List.nil_append, List.length_append, List.length_cons,
          List.length_nil]
        omega

lemma readCrlfLine_of_oneLine (hraw : OneLine raw) (hlimit : raw.length ≤ limit) :
    readCrlfLine limit (wire raw ++ rest) = .line raw rest :=
  @readLoop_of_oneLine limit raw [] rest false hraw (by simpa using hlimit)

lemma readLoop_length {pendingCr : Bool} (h : readLoop limit pendingCr line input = .line raw rest)
    (hline : line.length ≤ limit) : raw.length ≤ limit := by
  induction input generalizing pendingCr line with
  | nil => cases pendingCr <;> simp [readLoop] at h
  | cons byte input ih =>
    cases pendingCr with
    | true =>
      rw [readLoop] at h
      split_ifs at h with hlf hlong hcr hlonger
      · obtain ⟨rfl, -⟩ := LineRead.line.inj h
        exact hline
      · exact ih h (by rw [List.length_append, List.length_singleton]; omega)
      · exact ih h (by rw [List.length_append, List.length_cons, List.length_singleton]; omega)
    | false =>
      rw [readLoop] at h
      split_ifs at h with hcr hlong
      · exact ih h hline
      · exact ih h (by rw [List.length_append, List.length_singleton]; omega)

/-- The text up to the first CR LF. -/
lemma exists_first_crlf (h : ¬OneLine raw) : ∃ before after, OneLine before ∧ raw = wire before ++ after := by
  induction raw with
  | nil => simp [OneLine] at h
  | cons b raw ih =>
    by_cases hfirst : b = 13 ∧ raw.head? = some 10
    · obtain ⟨rfl, hhead⟩ := hfirst
      obtain ⟨after, rfl⟩ := List.head?_eq_some_iff.mp hhead
      exact ⟨[], after, by simp [OneLine], rfl⟩
    · obtain ⟨before, after, hbefore, rfl⟩ := ih fun hraw => h (oneLine_cons.mpr ⟨hfirst, hraw⟩)
      refine ⟨b :: before, after, oneLine_cons.mpr ⟨?_, hbefore⟩, rfl⟩
      rintro ⟨rfl, hhead⟩
      obtain ⟨tail, rfl⟩ := List.head?_eq_some_iff.mp hhead
      exact hfirst ⟨rfl, rfl⟩

/-- A line that was read has no CR LF in it: the reader stops at the first one. -/
lemma readCrlfLine_oneLine (h : readCrlfLine limit input = .line raw rest) : OneLine raw ∧ raw.length ≤ limit := by
  have hlength : raw.length ≤ limit := readLoop_length h (Nat.zero_le _)
  refine ⟨by_contra fun hbroken => ?_, hlength⟩
  obtain ⟨before, after, hbefore, hraw⟩ := exists_first_crlf hbroken
  have hfits : before.length ≤ limit := by
    have hle := congrArg List.length hraw
    simp only [List.length_append, wire] at hle
    omega
  have hinput := readCrlfLine_wire h
  rw [hinput, show wire raw ++ rest = wire before ++ (after ++ [13, 10] ++ rest) by simp [wire, hraw],
    readCrlfLine_of_oneLine hbefore hfits] at h
  have hsame := congrArg List.length (LineRead.line.inj h).1
  have hlen := congrArg List.length hraw
  simp only [List.length_append, wire, List.length_cons, List.length_nil] at hlen
  omega

end

/-! ## The listener -/

/-- What a message may measure: the maximum, and what a `GByteArray` holds. -/
def messageLimit (maxMessageBytes : ℕ) : ℕ := min maxMessageBytes maxGuint

section
variable {maxMessageBytes fuel : ℕ} {message message' line raw rest input : List UInt8} {lines : List (List UInt8)}

lemma textOf_cons (line : List UInt8) (lines : List (List UInt8)) : textOf (line :: lines) = wire line ++ textOf lines :=
  rfl

lemma stuffed_cons (line : List UInt8) (lines : List (List UInt8)) :
    stuffed (line :: lines) ++ rest = wire (stuff line) ++ (stuffed lines ++ rest) := by
  simp [stuffed]

@[simp] lemma wire_length (raw : List UInt8) : (wire raw).length = raw.length + 2 := by simp [wire]

lemma stuff_length (line : List UInt8) : (stuff line).length ≤ line.length + 1 := by
  unfold stuff
  split <;> simp

lemma length_le_stuffed (lines : List (List UInt8)) : lines.length ≤ (stuffed lines).length := by
  induction lines with
  | nil => simp
  | cons line lines ih =>
    have hcons := @stuffed_cons [] line lines
    rw [List.append_nil, List.append_nil] at hcons
    rw [hcons, List.length_append, wire_length, List.length_cons]
    omega

lemma oneLine_end : OneLine [46] := by
  rintro ⟨before, after, h⟩
  have hlength := congrArg List.length h
  simp only [List.length_append, List.length_cons, List.length_nil] at hlength
  omega

lemma appendDataLine_stuff (maxMessageBytes : ℕ) (message line : List UInt8) :
    appendDataLine maxMessageBytes message (stuff line) =
      if message.length + (wire line).length ≤ messageLimit maxMessageBytes then some (message ++ wire line) else none := by
  simp only [appendDataLine, unstuff_stuff, wire_length, messageLimit]
  by_cases hfits : message.length + (line.length + 2) ≤ min maxMessageBytes maxGuint
  · rw [if_neg (by omega), if_pos hfits]
  · rw [if_pos (by omega), if_neg hfits]

/-- The listener takes the message out of its stuffed form if it is not too large. -/
lemma readData_stuffed (hlines : ∀ line ∈ lines, OneLine line ∧ (stuff line).length ≤ maxLineBytes)
    (hmessage : message.length ≤ messageLimit maxMessageBytes) (hfuel : lines.length < fuel) :
    readData maxMessageBytes fuel message (stuffed lines ++ rest) =
      if message.length + (textOf lines).length ≤ messageLimit maxMessageBytes then .complete (message ++ textOf lines) rest
      else .exceeded := by
  induction lines generalizing message fuel with
  | nil =>
    obtain ⟨fuel, rfl⟩ := Nat.exists_eq_add_of_lt hfuel
    have hend : readCrlfLine maxLineBytes (stuffed [] ++ rest) = .line [46] rest :=
      readCrlfLine_of_oneLine oneLine_end (by decide)
    simp [readData, hend, textOf, hmessage]
  | cons line lines ih =>
    cases fuel with
    | zero => simp at hfuel
    | succ fuel =>
      obtain ⟨hone, hlimit⟩ := hlines line (List.mem_cons_self ..)
      rw [stuffed_cons, readData, readCrlfLine_of_oneLine hone.stuff hlimit]
      simp only [if_neg (stuff_ne_end line), appendDataLine_stuff]
      by_cases hfits : message.length + (wire line).length ≤ messageLimit maxMessageBytes
      · rw [if_pos hfits]
        simp only
        rw [ih (fun l hl => hlines l (List.mem_cons_of_mem _ hl)) (by simpa using hfits) (by simpa using hfuel),
          textOf_cons, List.length_append, List.length_append, List.append_assoc, Nat.add_assoc]
      · rw [if_neg hfits, if_neg]
        rw [textOf_cons, List.length_append]
        omega

/-- Only the line with a dot alone ends the DATA of the listener. -/
lemma readData_complete (h : readData maxMessageBytes fuel message input = .complete message' rest) :
    ∃ raws : List (List UInt8), (∀ raw ∈ raws, OneLine raw ∧ raw ≠ [46]) ∧
      input = raws.flatMap wire ++ wire [46] ++ rest ∧ message' = message ++ messageOf raws := by
  induction fuel generalizing message input with
  | zero => cases h
  | succ fuel ih =>
    rw [readData] at h
    cases hread : readCrlfLine maxLineBytes input with
    | closed clean => simp [hread] at h
    | tooLong => simp [hread] at h
    | line raw tail =>
      have hinput := readCrlfLine_wire hread
      have hone := (readCrlfLine_oneLine hread).1
      simp only [hread] at h
      split at h
      · rename_i hend
        cases h
        exact ⟨[], by simp, by simp [hinput, hend], by simp [messageOf]⟩
      · rename_i hend
        split at h
        · cases h
        · rename_i message'' happend
          obtain ⟨raws, hraws, htail, hmessage⟩ := ih h
          rw [appendDataLine] at happend
          split_ifs at happend
          cases happend
          refine ⟨raw :: raws, by simpa using ⟨⟨hone, hend⟩, hraws⟩, ?_, ?_⟩
          · simp [hinput, htail]
          · simp [hmessage, messageOf]

/-! ## The session parser -/

lemma addDataLine_stuff (maxMessageBytes : ℕ) (message line : List UInt8) :
    addDataLine maxMessageBytes message (stuff line) =
      if message.length + (wire line).length ≤ messageLimit maxMessageBytes then some (message ++ wire line) else none := by
  simp only [addDataLine, unstuff_stuff, wire_length, messageLimit]
  by_cases hfits : message.length + (line.length + 2) ≤ min maxMessageBytes maxGuint
  · rw [if_neg (by omega), if_neg (by omega), if_pos hfits]
  · rw [if_neg hfits]
    by_cases hmaximum : maxMessageBytes < message.length + (line.length + 2)
    · rw [if_pos (by omega)]
    · rw [if_neg (by omega), if_pos (by omega)]

lemma readCrlfLine_tooLong {limit : ℕ} (hone : OneLine raw) (hlimit : limit < raw.length) :
    readCrlfLine limit (wire raw ++ rest) = .tooLong :=
  readLoop_beyond (readCrlfLine_of_oneLine hone le_rfl) hlimit (Nat.zero_le _)

lemma sessionLineLimit_inData (maxMessageBytes : ℕ) {s : Session} (hdata : s.inData = true) :
    sessionLineLimit maxMessageBytes s =
      if maxMessageBytes - s.message.length < 2 then 1 else maxMessageBytes - s.message.length - 1 := by
  rw [sessionLineLimit, if_pos hdata]

/-- The session parser takes the message out of its stuffed form if it is not too large. -/
lemma sessionLoop_stuffed {allocated : Bool} {s : Session} (hdata : s.inData = true) (hlines : ∀ line ∈ lines, OneLine line)
    (hmessage : s.message.length ≤ messageLimit maxMessageBytes) :
    sessionLoop maxMessageBytes (lines.length + 1 + fuel) allocated s (stuffed lines ++ rest) =
      if s.message.length + (textOf lines).length ≤ messageLimit maxMessageBytes then
        sessionLoop maxMessageBytes fuel true { s with inData := false, message := s.message ++ textOf lines } rest
      else none := by
  have hmaximum : ¬maxMessageBytes < s.message.length := by
    rw [messageLimit] at hmessage
    omega
  induction lines generalizing s allocated with
  | nil =>
    have hlimit : 1 ≤ sessionLineLimit maxMessageBytes s := by
      rw [sessionLineLimit_inData _ hdata]
      split <;> omega
    have hend : readCrlfLine (sessionLineLimit maxMessageBytes s) (stuffed [] ++ rest) = .line [46] rest :=
      readCrlfLine_of_oneLine oneLine_end hlimit
    rw [List.length_nil, Nat.zero_add, Nat.add_comm, sessionLoop, hend]
    simp [hdata, hmaximum, textOf, hmessage]
  | cons line lines ih =>
    have hone := hlines line (List.mem_cons_self ..)
    rw [List.length_cons, show lines.length + 1 + 1 + fuel = (lines.length + 1 + fuel) + 1 by omega, sessionLoop,
      stuffed_cons, hdata]
    simp only [Bool.true_and, decide_eq_true_eq, if_neg hmaximum, if_true]
    by_cases hfits : s.message.length + (wire line).length ≤ messageLimit maxMessageBytes
    · have hlimit : (stuff line).length ≤ sessionLineLimit maxMessageBytes s := by
        have hstuff := stuff_length line
        rw [wire_length, messageLimit] at hfits
        rw [sessionLineLimit_inData _ hdata]
        split <;> omega
      rw [readCrlfLine_of_oneLine hone.stuff hlimit]
      simp only [if_neg (stuff_ne_end line), addDataLine_stuff, if_pos hfits]
      have hlonger : (s.message ++ wire line).length ≤ messageLimit maxMessageBytes := by simpa using hfits
      refine (@ih _ { s with inData := true, message := s.message ++ wire line } rfl
        (fun l hl => hlines l (List.mem_cons_of_mem _ hl)) hlonger ?_).trans ?_
      · rw [messageLimit] at hlonger
        exact not_lt.mpr (hlonger.trans (min_le_left ..))
      · rw [textOf_cons, List.length_append, List.length_append, List.append_assoc, Nat.add_assoc]
    · have hexceeds : ¬s.message.length + (textOf (line :: lines)).length ≤ messageLimit maxMessageBytes := by
        rw [textOf_cons, List.length_append]
        omega
      rw [if_neg hexceeds]
      by_cases hlimit : (stuff line).length ≤ sessionLineLimit maxMessageBytes s
      · rw [readCrlfLine_of_oneLine hone.stuff hlimit]
        simp only [if_neg (stuff_ne_end line), addDataLine_stuff, if_neg hfits]
      · rw [readCrlfLine_tooLong hone.stuff (not_le.mp hlimit)]

/-- Only the line with a dot alone ends a DATA of the session parser. -/
lemma sessionLoop_complete {allocated : Bool} {s s' : Session} (hdata : s.inData = true)
    (h : sessionLoop maxMessageBytes fuel allocated s input = some s') :
    ∃ raws rest later, (∀ raw ∈ raws, OneLine raw ∧ raw ≠ [46]) ∧ input = raws.flatMap wire ++ wire [46] ++ rest ∧
      sessionLoop maxMessageBytes later true { s with inData := false, message := s.message ++ messageOf raws } rest =
        some s' := by
  induction fuel generalizing allocated s input with
  | zero => cases h
  | succ fuel ih =>
    rw [sessionLoop] at h
    split at h
    · cases h
    cases hread : readCrlfLine (sessionLineLimit maxMessageBytes s) input with
    | closed clean =>
      simp only [hread] at h
      split at h
      · simp [Session.finish, hdata] at h
      · cases h
    | tooLong => simp [hread] at h
    | line raw tail =>
      have hinput := readCrlfLine_wire hread
      have hone := (readCrlfLine_oneLine hread).1
      simp only [hread, hdata] at h
      split at h
      · rename_i hend
        subst hend
        refine ⟨[], tail, fuel, by simp, by simp [hinput], ?_⟩
        simpa [messageOf] using h
      · rename_i hend
        split at h
        · cases h
        · rename_i message'' happend
          obtain ⟨raws, rest, later, hraws, htail, hrest⟩ := ih rfl h
          rw [addDataLine] at happend
          split_ifs at happend
          cases happend
          refine ⟨raw :: raws, rest, later, by simpa using ⟨⟨hone, hend⟩, hraws⟩, by simp [hinput, htail], ?_⟩
          simpa [messageOf] using hrest

end

/-- Both readers take a message out of its stuffed form exactly when it is not larger than the maximum and
    than a byte array may be, and only CR LF, a dot and CR LF end DATA. -/
theorem data_unstuffed (maxMessageBytes : ℕ) :
    (∀ (lines : List (List UInt8)) (rest : List UInt8),
      (∀ line ∈ lines, OneLine line ∧ (stuff line).length ≤ maxLineBytes) →
      readData maxMessageBytes ((stuffed lines ++ rest).length + 1) [] (stuffed lines ++ rest) =
        if (textOf lines).length ≤ messageLimit maxMessageBytes then .complete (textOf lines) rest else .exceeded) ∧
    (∀ (fuel : ℕ) (input message rest : List UInt8), readData maxMessageBytes fuel [] input = .complete message rest →
      ∃ raws : List (List UInt8), (∀ raw ∈ raws, OneLine raw ∧ raw ≠ [46]) ∧
        input = raws.flatMap wire ++ wire [46] ++ rest ∧ message = messageOf raws) ∧
    (∀ (lines : List (List UInt8)) (rest : List UInt8) (fuel : ℕ) (allocated : Bool) (s : Session),
      s.inData = true → s.message = [] → (∀ line ∈ lines, OneLine line) →
      sessionLoop maxMessageBytes (lines.length + 1 + fuel) allocated s (stuffed lines ++ rest) =
        if (textOf lines).length ≤ messageLimit maxMessageBytes then
          sessionLoop maxMessageBytes fuel true { s with inData := false, message := textOf lines } rest
        else none) ∧
    ∀ (fuel : ℕ) (allocated : Bool) (s s' : Session) (input : List UInt8),
      s.inData = true → sessionLoop maxMessageBytes fuel allocated s input = some s' →
      ∃ raws rest later, (∀ raw ∈ raws, OneLine raw ∧ raw ≠ [46]) ∧ input = raws.flatMap wire ++ wire [46] ++ rest ∧
        sessionLoop maxMessageBytes later true { s with inData := false, message := s.message ++ messageOf raws } rest =
          some s' := by
  refine ⟨fun lines rest hlines => ?_, fun fuel input message rest h => ?_,
    fun lines rest fuel allocated s hdata hempty hlines => ?_, fun _ _ _ _ _ hdata h => sessionLoop_complete hdata h⟩
  · have hfuel : lines.length < (stuffed lines ++ rest).length + 1 := by
      have hle := length_le_stuffed lines
      rw [List.length_append]
      omega
    simpa using readData_stuffed hlines (show ([] : List UInt8).length ≤ _ from Nat.zero_le _) hfuel
  · simpa using readData_complete h
  · simpa [hempty] using @sessionLoop_stuffed maxMessageBytes fuel rest lines allocated s hdata hlines (by simp [hempty])

/-! ## Larger than a byte array -/

def longLine : List UInt8 := List.replicate 8190 97

lemma textOf_replicate (n : ℕ) (line : List UInt8) : (textOf (List.replicate n line)).length = n * (line.length + 2) := by
  induction n with
  | zero => simp [textOf]
  | succ n ih => rw [List.replicate_succ, textOf_cons, List.length_append, wire_length, ih, Nat.succ_mul, Nat.add_comm]

lemma longLine_length : longLine.length = 8190 := List.length_replicate

lemma longLine_oneLine : OneLine longLine ∧ (stuff longLine).length ≤ maxLineBytes := by
  constructor
  · intro hinfix
    have hmem : (13 : UInt8) ∈ longLine := hinfix.subset (List.mem_cons_self ..)
    exact absurd (List.eq_of_mem_replicate hmem) (by decide)
  · have hstuff := stuff_length longLine
    rw [longLine_length] at hstuff
    exact hstuff.trans (by decide)

/-- A message of 2^33 bytes is refused although the maximum is 2^40. -/
theorem large_message_refused :
    ¬∀ (maxMessageBytes : ℕ) (lines : List (List UInt8)) (rest : List UInt8),
      (∀ line ∈ lines, OneLine line ∧ (stuff line).length ≤ maxLineBytes) →
      (readData maxMessageBytes ((stuffed lines ++ rest).length + 1) [] (stuffed lines ++ rest) =
        .complete (textOf lines) rest ↔ (textOf lines).length ≤ maxMessageBytes) := by
  intro h
  have hlines : ∀ line ∈ List.replicate (2 ^ 20) longLine, OneLine line ∧ (stuff line).length ≤ maxLineBytes :=
    fun line hline => List.eq_of_mem_replicate hline ▸ longLine_oneLine
  have hfuel : (List.replicate (2 ^ 20) longLine).length < (stuffed (List.replicate (2 ^ 20) longLine) ++ []).length + 1 := by
    have hle := length_le_stuffed (List.replicate (2 ^ 20) longLine)
    rw [List.length_append]
    omega
  have hlarge : ¬([] : List UInt8).length + (textOf (List.replicate (2 ^ 20) longLine)).length ≤ messageLimit (2 ^ 40) := by
    rw [textOf_replicate, longLine_length]
    decide
  have haccepted := (h (2 ^ 40) _ [] hlines).mpr (by rw [textOf_replicate, longLine_length]; decide)
  rw [readData_stuffed hlines (show ([] : List UInt8).length ≤ _ from Nat.zero_le _) hfuel, if_neg hlarge] at haccepted
  cases haccepted

/-- A line with a dot, a bare LF and a bare CR comes back. -/
theorem data_unstuffed_lines :
    readData 9 ((stuffed [[46, 10], [97, 13]] ++ [81]).length + 1) [] (stuffed [[46, 10], [97, 13]] ++ [81]) =
      .complete [46, 10, 13, 10, 97, 13, 13, 10] [81] :=
  ((data_unstuffed 9).1 [[46, 10], [97, 13]] [81] (by decide)).trans (if_pos (by decide))

end Wyrebox.Lmtp
