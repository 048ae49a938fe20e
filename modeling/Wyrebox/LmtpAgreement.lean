import Wyrebox.LmtpProtocol
import Wyrebox.LmtpSession

set_option autoImplicit false

/-!
# Two readings of one transcript

The session parser reads a transcript to its end, the listener to the end of its first DATA. Up to there
they keep the same transaction; what the parser then makes of the rest is what can set them apart.
-/
namespace Wyrebox.Lmtp
open CString
open PayloadText (strndup)

section
variable {limit limit' : ℕ} {input raw rest : List UInt8}

lemma readCrlfLine_within (h : readCrlfLine limit input = .line raw rest) (hlimit : raw.length ≤ limit') :
    readCrlfLine limit' input = .line raw rest :=
  readLoop_within h hlimit

lemma readCrlfLine_beyond (h : readCrlfLine limit input = .line raw rest) (hlimit : limit' < raw.length) :
    readCrlfLine limit' input = .tooLong :=
  readLoop_beyond h hlimit (Nat.zero_le _)

lemma readLine_of_read (h : readCrlfLine limit input = .line raw rest) : readLine input = .line raw rest := by
  refine readCrlfLine_within h ?_
  have hinput := congrArg List.length (readCrlfLine_wire h)
  rw [wire, List.append_assoc, List.length_append] at hinput
  omega

/-- What a reader with a limit reads is the line that stands there. -/
lemma read_eq {raw' rest' : List UInt8} (h : readCrlfLine limit input = .line raw rest)
    (hline : readLine input = .line raw' rest') : raw = raw' ∧ rest = rest' :=
  LineRead.line.inj ((readLine_of_read h).symm.trans hline)

lemma readLine_nil : readLine [] = .closed true := rfl

end

/-! ## The session over elements -/

def sessionElement (s : Session) : Element → Option Session
  | .command line =>
    match sessionDispatch s line with
    | .next s => some s
    | _ => none
  | .data lines => if s.recipients.length ≠ 1 then none else some { s with message := s.message ++ messageOf lines }

def Element.IsData : Element → Prop
  | .command _ => False
  | .data _ => True

lemma messageOf_cons (line : List UInt8) (lines : List (List UInt8)) :
    messageOf (line :: lines) = wire (unstuff line) ++ messageOf lines := rfl

lemma addDataLine_eq {maxMessageBytes : ℕ} {message line message' : List UInt8}
    (h : addDataLine maxMessageBytes message line = some message') : message' = message ++ wire (unstuff line) := by
  rw [addDataLine] at h
  split at h
  · cases h
  split at h
  · cases h
  · exact (Option.some.inj h).symm

/-- A line of text is no DATA if it is another command. -/
lemma hasPrefixCi_of_equalCi {line command expected : CString} (h : equalCi line command = true) :
    hasPrefixCi line expected = hasPrefixCi command expected := by
  rw [equalCi, beq_iff_eq] at h
  rw [hasPrefixCi, hasPrefixCi, h]

lemma hasPrefixCi_disjoint {line a b : CString} (ha : hasPrefixCi line a = true) (hb : hasPrefixCi line b = true) :
    hasPrefixCi a b = true ∨ hasPrefixCi b a = true := by
  simp only [hasPrefixCi, List.isPrefixOf_iff_prefix] at ha hb ⊢
  exact (List.prefix_or_prefix_of_prefix hb ha)

lemma equalCi_ne {line a b : CString} (ha : equalCi line a = true) (hb : equalCi line b = true) : equalCi a b = true := by
  simp only [equalCi, beq_iff_eq] at ha hb ⊢
  exact ha.symm.trans hb

lemma path_eq_none {line command : CString} (h : hasPrefixCi line command = false) :
    extractPathArgument line command = none := by
  simp [extractPathArgument, h]

/-- A session between two commands. -/
structure Session.Consistent (s : Session) : Prop where
  outside : s.inData = false
  mail : s.seenMail = s.sender.isSome
  opened : s.recipients ≠ [] → s.seenMail = true

lemma consistent_initial : Session.initial.Consistent := ⟨rfl, rfl, fun h => absurd rfl h⟩

/-- The kinds of command lines that a session goes on after. -/
inductive SessionStep (s : Session) (line : Option CString) : Session → Prop where
  | lhlo (hmail : Element.path mailCommand (.command line) = none) (hrcpt : Element.path rcptCommand (.command line) = none)
      (hrset : isCommand line rsetCommand = false) (hline : ∀ text, line = some text → hasPrefixCi text lhloCommand = true) :
      SessionStep s line { s with seenLhlo := true }
  | mail (text sender : CString) (htext : line = some text) (hlhlo : s.seenLhlo = true) (hseen : s.seenMail = false)
      (hfirst : hasPrefixCi text lhloCommand = false) (hmail : hasPrefixCi text mailCommand = true)
      (hpath : extractPathArgument text mailCommand = some sender)
      (hrcpt : Element.path rcptCommand (.command line) = none) (hrset : isCommand line rsetCommand = false) :
      SessionStep s line { s with sender := some sender, seenMail := true }
  | rcpt (text recipient : CString) (htext : line = some text) (hseen : s.seenMail = true) (hempty : s.recipients = [])
      (hfirst : hasPrefixCi text lhloCommand = false) (hnot : hasPrefixCi text mailCommand = false)
      (hrcpt : hasPrefixCi text rcptCommand = true) (hpath : extractPathArgument text rcptCommand = some recipient)
      (hmail : Element.path mailCommand (.command line) = none) (hrset : isCommand line rsetCommand = false) :
      SessionStep s line { s with recipients := s.recipients ++ [recipient] }
  | rset (text : CString) (htext : line = some text) (hrset : equalCi text rsetCommand = true) :
      SessionStep s line s.reset

lemma isCommand_false_of_starts {text expected command : CString} (h : hasPrefixCi text expected = true)
    (hnot : hasPrefixCi command expected = false) : isCommand (some text) command = false := by
  by_contra hcommand
  rw [Bool.not_eq_false] at hcommand
  have heq : equalCi text command = true := hcommand
  rw [hasPrefixCi_of_equalCi heq, hnot] at h
  cases h

lemma path_none_of_starts {text expected command : CString} (h : hasPrefixCi text expected = true)
    (hleft : hasPrefixCi command expected = false) (hright : hasPrefixCi expected command = false) :
    extractPathArgument text command = none := by
  refine path_eq_none ?_
  by_contra hcommand
  rw [Bool.not_eq_false] at hcommand
  rcases hasPrefixCi_disjoint h hcommand with hp | hp
  · rw [hright] at hp
    cases hp
  · rw [hleft] at hp
    cases hp

theorem sessionDispatch_step {s s' : Session} {line : Option CString} (h : sessionDispatch s line = .next s')
    (hdata : isCommand line dataCommand = false) : SessionStep s line s' := by
  cases line with
  | none =>
    obtain rfl := SessionNext.next.inj h
    exact .lhlo rfl rfl rfl nofun
  | some text =>
    rw [sessionDispatch] at h
    split at h
    case isTrue hlhlo =>
      obtain rfl := SessionNext.next.inj h
      exact .lhlo (path_none_of_starts hlhlo (by decide) (by decide)) (path_none_of_starts hlhlo (by decide) (by decide))
        (isCommand_false_of_starts hlhlo (by decide)) (fun text' ht => Option.some.inj ht ▸ hlhlo)
    case isFalse hlhlo =>
      rw [Bool.not_eq_true] at hlhlo
      split at h
      case isTrue hmail =>
        split at h
        · cases h
        case isFalse hstate =>
          simp only [Bool.or_eq_true, Bool.not_eq_true', not_or, Bool.not_eq_false, Bool.not_eq_true] at hstate
          split at h
          · cases h
          case h_2 sender hpath =>
            obtain rfl := SessionNext.next.inj h
            exact .mail text sender rfl hstate.1 hstate.2 hlhlo hmail hpath
              (path_none_of_starts hmail (by decide) (by decide)) (isCommand_false_of_starts hmail (by decide))
      case isFalse hmail =>
        rw [Bool.not_eq_true] at hmail
        split at h
        case isTrue hrcpt =>
          split at h
          · cases h
          case isFalse hseen =>
            rw [Bool.not_eq_true', Bool.not_eq_false] at hseen
            split at h
            · cases h
            case isFalse hempty =>
              simp only [Bool.not_eq_true', Bool.not_eq_false, List.isEmpty_iff] at hempty
              split at h
              · cases h
              case h_2 recipient hpath =>
                obtain rfl := SessionNext.next.inj h
                exact .rcpt text recipient rfl hseen hempty hlhlo hmail hrcpt hpath (path_eq_none hmail)
                  (isCommand_false_of_starts hrcpt (by decide))
        split at h
        case isTrue heq =>
          have hcommand : equalCi text dataCommand = false := hdata
          rw [hcommand] at heq
          cases heq
        split at h
        case isTrue hrset =>
          obtain rfl := SessionNext.next.inj h
          exact .rset text rfl hrset
        split at h <;> cases h

/-! ## The open transaction -/

/-- The elements after the last RSET. -/
def current (elements : List Element) : List Element := (elements.reverse.takeWhile fun e => !e.isRset).reverse

lemma current_append (elements : List Element) (e : Element) :
    current (elements ++ [e]) = if e.isRset then [] else current elements ++ [e] := by
  rw [current, List.reverse_append, List.reverse_singleton, List.singleton_append, List.takeWhile_cons]
  cases e.isRset <;> simp [current]

/-- A transcript's elements are command lines other than DATA, and DATA with its lines. -/
def Element.Proper : Element → Prop
  | .command line => isCommand line dataCommand = false
  | .data _ => True

/-- What a session has read since the last RSET. -/
structure Session.Holds (s : Session) (elements : List Element) : Prop where
  sender : s.sender.toList = (current elements).filterMap (Element.path mailCommand)
  recipients : s.recipients = (current elements).filterMap (Element.path rcptCommand)
  message : s.message = (current elements).flatMap Element.message

lemma holds_initial : Session.initial.Holds [] := ⟨rfl, rfl, rfl⟩

section
variable {s s' : Session} {e : Element} {elements : List Element}

lemma Session.Holds.extend (h : s.Holds elements) (hrset : e.isRset = false)
    (hsender : s'.sender.toList = s.sender.toList ++ (e.path mailCommand).toList)
    (hrecipients : s'.recipients = s.recipients ++ (e.path rcptCommand).toList)
    (hmessage : s'.message = s.message ++ e.message) : s'.Holds (elements ++ [e]) := by
  refine ⟨?_, ?_, ?_⟩ <;>
    rw [current_append, hrset, if_neg (by decide)]
  · rw [hsender, h.sender, List.filterMap_append]
    cases hpath : e.path mailCommand <;> simp [hpath]
  · rw [hrecipients, h.recipients, List.filterMap_append]
    cases hpath : e.path rcptCommand <;> simp [hpath]
  · rw [hmessage, h.message, List.flatMap_append, List.flatMap_singleton]

theorem sessionElement_step (hs : s.Consistent) (hproper : e.Proper) (hstep : sessionElement s e = some s') :
    s'.Consistent ∧ ∀ elements, s.Holds elements → s'.Holds (elements ++ [e]) := by
  cases e with
  | data lines =>
    rw [sessionElement] at hstep
    split at hstep
    · cases hstep
    · obtain rfl := Option.some.inj hstep
      exact ⟨⟨hs.outside, hs.mail, hs.opened⟩,
        fun elements h => h.extend rfl (by simp [Element.path]) (by simp [Element.path]) rfl⟩
  | command line =>
    rw [sessionElement] at hstep
    split at hstep
    case h_2 => cases hstep
    case h_1 s₁ hdispatch =>
      obtain rfl := Option.some.inj hstep
      cases sessionDispatch_step hdispatch hproper with
      | lhlo hmail hrcpt hrset =>
        exact ⟨⟨hs.outside, hs.mail, hs.opened⟩,
          fun elements h => h.extend hrset (by simp [hmail]) (by simp [hrcpt]) (by simp [Element.message])⟩
      | mail text sender htext hlhlo hseen hfirst hmail hpath hrcpt hrset =>
        have hnone : s.sender = none := by simpa [hseen] using hs.mail
        have hmailPath : Element.path mailCommand (.command line) = some sender := htext ▸ hpath
        exact ⟨⟨hs.outside, rfl, fun _ => rfl⟩,
          fun elements h => h.extend hrset (by simp [hnone, hmailPath]) (by simp [hrcpt]) (by simp [Element.message])⟩
      | rcpt text recipient htext hseen hempty hfirst hnot hrcpt hpath hmail hrset =>
        have hrcptPath : Element.path rcptCommand (.command line) = some recipient := htext ▸ hpath
        exact ⟨⟨hs.outside, hs.mail, fun _ => hseen⟩,
          fun elements h => h.extend hrset (by simp [hmail]) (by simp [hrcptPath]) (by simp [Element.message])⟩
      | rset text htext hrset =>
        have hisRset : Element.isRset (.command line) = true := htext ▸ hrset
        refine ⟨⟨rfl, rfl, fun hne => absurd rfl hne⟩, fun elements h => ⟨?_, ?_, ?_⟩⟩ <;>
          rw [current_append, hisRset, if_pos rfl] <;> rfl

theorem sessionElement_run {es : List Element} (hs : s.Consistent) (h : s.Holds elements)
    (hproper : ∀ e ∈ es, e.Proper) (hrun : es.foldlM sessionElement s = some s') :
    s'.Consistent ∧ s'.Holds (elements ++ es) := by
  induction es generalizing s elements with
  | nil =>
    obtain rfl := Option.some.inj hrun
    rw [List.append_nil]
    exact ⟨hs, h⟩
  | cons e es ih =>
    rw [List.foldlM_cons] at hrun
    obtain ⟨s₁, hstep, hrest⟩ := Option.bind_eq_some_iff.mp hrun
    obtain ⟨hs₁, h₁⟩ := sessionElement_step hs (hproper e (List.mem_cons_self ..)) hstep
    have hlater := ih hs₁ (h₁ elements h) (fun e' he' => hproper e' (List.mem_cons_of_mem e he')) hrest
    rwa [List.append_assoc, List.singleton_append] at hlater

end

lemma Transcript.proper {allocated : Bool} {input : List UInt8} {elements : List Element}
    (h : Transcript allocated input elements) : ∀ e ∈ elements, e.Proper := by
  induction h with
  | closed | quit => simp
  | command h hdata hquit hrest ih => simpa [Element.Proper, hdata] using ih
  | data h hdata hlines hrest ih => simpa [Element.Proper] using ih

/-! ## The session over a stream -/

section
variable {maxMessageBytes fuel : ℕ} {allocated : Bool} {s s' : Session} {input rest raw : List UInt8}
  {lines : List (List UInt8)} {elements : List Element}

lemma Session.finish_eq (h : s.finish = some s') : s' = s ∧ s.inData = false ∧ s.seenMail = true ∧
    s.recipients.length = 1 ∧ s.message ≠ [] := by
  rw [Session.finish] at h
  split at h
  · cases h
  case isFalse hdata =>
    split at h
    · cases h
    case isFalse hcomplete =>
      simp only [Bool.or_eq_true, Bool.not_eq_true', decide_eq_true_eq, List.isEmpty_iff, not_or, Bool.not_eq_false,
        ne_eq, Decidable.not_not] at hcomplete
      exact ⟨(Option.some.inj h).symm, by simpa using hdata, hcomplete.1.1, hcomplete.1.2, hcomplete.2⟩

/-- A turn of the loop inside DATA. -/
lemma sessionLoop_line (hin : s.inData = true) (hline : readLine input = .line raw rest)
    (h : sessionLoop maxMessageBytes fuel true s input = some s') :
    ∃ fuel', (raw = [46] ∧ sessionLoop maxMessageBytes fuel' true { s with inData := false } rest = some s') ∨
      (raw ≠ [46] ∧ sessionLoop maxMessageBytes fuel' true { s with message := s.message ++ wire (unstuff raw) } rest =
        some s') := by
  cases fuel with
  | zero => cases h
  | succ fuel =>
    rw [sessionLoop] at h
    split at h
    · cases h
    cases hread : readCrlfLine (sessionLineLimit maxMessageBytes s) input with
    | closed clean =>
      rw [hread] at h
      cases clean with
      | false => cases h
      | true =>
        obtain ⟨-, -, hempty⟩ := readLoop_clean hread
        rw [hempty, readLine_nil] at hline
        cases hline
    | tooLong => rw [hread] at h; cases h
    | line raw' rest' =>
      obtain ⟨rfl, rfl⟩ := read_eq hread hline
      rw [hread] at h
      simp only [Bool.true_or] at h
      refine ⟨fuel, ?_⟩
      split at h
      case isTrue hraw => exact .inl ⟨hraw, h⟩
      case isFalse hraw =>
        split at h
        · cases h
        case h_2 message' hadd =>
          rw [addDataLine_eq hadd] at h
          exact .inr ⟨hraw, h⟩

/-- Inside DATA, the session reads the lines up to their end. -/
lemma sessionLoop_data (hlines : DataLines input lines rest)
    (h : sessionLoop maxMessageBytes fuel true s input = some s') (hin : s.inData = true) :
    ∃ fuel', sessionLoop maxMessageBytes fuel' true
      { s with inData := false, message := s.message ++ messageOf lines } rest = some s' := by
  induction hlines generalizing fuel s with
  | stop hline =>
    obtain ⟨fuel', ⟨-, hnext⟩ | ⟨hraw, -⟩⟩ := sessionLoop_line hin hline h
    · exact ⟨fuel', by simpa [messageOf] using hnext⟩
    · exact absurd rfl hraw
  | line hline hraw hrest ih =>
    obtain ⟨fuel', ⟨hstop, -⟩ | ⟨-, hnext⟩⟩ := sessionLoop_line hin hline h
    · exact absurd hstop hraw
    · obtain ⟨fuel'', hlater⟩ := ih hnext hin
      exact ⟨fuel'', by simpa [messageOf_cons] using hlater⟩

/-- A turn of the loop between commands. -/
lemma sessionLoop_command (hout : s.inData = false) (h : sessionLoop maxMessageBytes fuel allocated s input = some s') :
    (input = [] ∧ s.finish = some s') ∨ ∃ fuel' raw rest, fuel = fuel' + 1 ∧
      readCrlfLine maxLineBytes input = .line raw rest ∧
      ((sessionDispatch s (lineText allocated raw) = .quit ∧ s.finish = some s') ∨
        ∃ s₁, sessionDispatch s (lineText allocated raw) = .next s₁ ∧
          sessionLoop maxMessageBytes fuel' (allocated || !raw.isEmpty) s₁ rest = some s') := by
  cases fuel with
  | zero => cases h
  | succ fuel =>
    rw [sessionLoop] at h
    split at h
    · cases h
    have hlimit : sessionLineLimit maxMessageBytes s = maxLineBytes := by
      rw [sessionLineLimit, hout, if_neg (by decide)]
      rfl
    rw [hlimit] at h
    cases hread : readCrlfLine maxLineBytes input with
    | closed clean =>
      rw [hread] at h
      cases clean with
      | false => cases h
      | true => exact .inl ⟨(readLoop_clean hread).2.2, h⟩
    | tooLong => rw [hread] at h; cases h
    | line raw rest =>
      rw [hread] at h
      simp only [hout, Bool.false_eq_true, if_false] at h
      refine .inr ⟨fuel, raw, rest, rfl, rfl, ?_⟩
      split at h
      case h_1 s₁ hnext => exact .inr ⟨s₁, hnext, h⟩
      case h_2 hquit => exact .inl ⟨hquit, h⟩
      case h_3 => cases h

lemma sessionDispatch_data {line : Option CString} (hdata : isCommand line dataCommand = true) :
    sessionDispatch s line = if s.recipients.length ≠ 1 then .failed else .next { s with inData := true } := by
  cases line with
  | none => cases hdata
  | some text =>
    have heq : equalCi text dataCommand = true := hdata
    simp only [sessionDispatch, hasPrefixCi_of_equalCi heq, heq]
    rfl

lemma sessionDispatch_quit {line : Option CString} : sessionDispatch s line = .quit ↔
    isCommand line quitCommand = true := by
  cases line with
  | none => simp [sessionDispatch, isCommand]
  | some text =>
    constructor
    · intro h
      rw [sessionDispatch] at h
      split at h
      · cases h
      split at h
      · split at h
        · cases h
        · split at h <;> cases h
      split at h
      · split at h
        · cases h
        split at h
        · cases h
        · split at h <;> cases h
      split at h
      · split at h <;> cases h
      split at h
      · cases h
      split at h
      case isTrue hquit => exact hquit
      · cases h
    · intro h
      have heq : equalCi text quitCommand = true := h
      have hother : equalCi text dataCommand = false ∧ equalCi text rsetCommand = false := by
        rw [equalCi, beq_iff_eq] at heq
        simp only [equalCi, heq]
        decide
      simp only [sessionDispatch, hasPrefixCi_of_equalCi heq, heq, hother]
      rfl

lemma allocated_of_data (hdata : isCommand (lineText allocated raw) dataCommand = true) :
    (allocated || !raw.isEmpty) = true := by
  cases raw with
  | cons b raw => simp
  | nil =>
    cases allocated with
    | true => rfl
    | false => cases hdata

/-- The session's transaction is what the elements of the transcript make it. -/
theorem sessionLoop_elements (hs : s.Consistent) (htranscript : Transcript allocated input elements)
    (h : sessionLoop maxMessageBytes fuel allocated s input = some s') :
    elements.foldlM sessionElement s = some s' ∧ s'.finish = some s' := by
  have hfinish : ∀ {s : Session}, s.finish = some s' → s = s' ∧ s'.finish = some s' := by
    intro s h
    have heq := (Session.finish_eq h).1
    exact ⟨heq.symm, by rw [← heq] at h; exact h⟩
  induction htranscript generalizing fuel s with
  | closed hclosed =>
    rcases sessionLoop_command hs.outside h with ⟨-, hend⟩ | ⟨fuel', raw, rest, -, hread, -⟩
    · obtain ⟨rfl, hend⟩ := hfinish hend
      exact ⟨rfl, hend⟩
    · rw [readLine_of_read hread] at hclosed
      cases hclosed
  | quit hline hquit =>
    rcases sessionLoop_command hs.outside h with ⟨hempty, -⟩ | ⟨fuel', raw', tail, -, hread, hnext⟩
    · rw [hempty, readLine_nil] at hline
      cases hline
    · obtain ⟨rfl, rfl⟩ := read_eq hread hline
      rcases hnext with ⟨-, hend⟩ | ⟨s₁, hnext, -⟩
      · obtain ⟨rfl, hend⟩ := hfinish hend
        exact ⟨rfl, hend⟩
      · rw [sessionDispatch_quit.mpr hquit] at hnext
        cases hnext
  | @command allocated input raw rest elements hline hdata hquit hrest ih =>
    rcases sessionLoop_command hs.outside h with ⟨hempty, -⟩ | ⟨fuel', raw', tail, -, hread, hnext⟩
    · rw [hempty, readLine_nil] at hline
      cases hline
    · obtain ⟨rfl, rfl⟩ := read_eq hread hline
      rcases hnext with ⟨hend, -⟩ | ⟨s₁, hnext, hloop⟩
      · rw [sessionDispatch_quit.mp hend] at hquit
        cases hquit
      · have hstep : sessionElement s (.command (lineText allocated raw')) = some s₁ := by rw [sessionElement, hnext]
        rw [List.foldlM_cons, hstep]
        exact ih (sessionElement_step (e := .command _) hs hdata hstep).1 hloop
  | @data allocated input raw rest rest' lines elements hline hdata hlines hrest ih =>
    rcases sessionLoop_command hs.outside h with ⟨hempty, -⟩ | ⟨fuel', raw', tail, -, hread, hnext⟩
    · rw [hempty, readLine_nil] at hline
      cases hline
    · obtain ⟨rfl, rfl⟩ := read_eq hread hline
      rw [sessionDispatch_data hdata] at hnext
      split at hnext
      · rcases hnext with ⟨hend, -⟩ | ⟨s₁, hnext, -⟩
        · cases hend
        · cases hnext
      case isFalse hone =>
        rcases hnext with ⟨hend, -⟩ | ⟨s₁, hnext, hloop⟩
        · cases hend
        · obtain rfl := SessionNext.next.inj hnext
          rw [allocated_of_data hdata] at hloop
          obtain ⟨fuel'', hlater⟩ := sessionLoop_data hlines hloop rfl
          have hstep : sessionElement s (.data lines) = some { s with message := s.message ++ messageOf lines } := by
            rw [sessionElement, if_neg hone]
          rw [List.foldlM_cons, hstep]
          rw [← hs.outside] at hlater
          exact ih (sessionElement_step (e := .data _) hs trivial hstep).1 hlater

/-- An accepted transcript has elements. -/
theorem sessionLoop_transcript (h : sessionLoop maxMessageBytes fuel allocated s input = some s') :
    (s.inData = false → ∃ elements, Transcript allocated input elements) ∧
      (s.inData = true → allocated = true → ∃ lines rest elements, DataLines input lines rest ∧
        Transcript true rest elements) := by
  induction fuel generalizing allocated s input with
  | zero => cases h
  | succ fuel ih =>
    refine ⟨fun hout => ?_, fun hin hallocated => ?_⟩
    · rcases sessionLoop_command hout h with ⟨rfl, -⟩ | ⟨fuel', raw, rest, hfuel, hread, hnext⟩
      · exact ⟨[], .closed readLine_nil⟩
      obtain rfl := Nat.succ.inj hfuel
      have hline := readLine_of_read hread
      rcases hnext with ⟨hquit, -⟩ | ⟨s₁, hnext, hloop⟩
      · exact ⟨[], .quit hline (sessionDispatch_quit.mp hquit)⟩
      have hquit : isCommand (lineText allocated raw) quitCommand = false := by
        by_contra hquit
        rw [Bool.not_eq_false, ← sessionDispatch_quit (s := s), hnext] at hquit
        cases hquit
      cases hdata : isCommand (lineText allocated raw) dataCommand with
      | false =>
        have hout₁ : s₁.inData = false := by
          cases sessionDispatch_step hnext hdata with
          | rset => rfl
          | lhlo | mail | rcpt => exact hout
        obtain ⟨elements, htranscript⟩ := (ih hloop).1 hout₁
        exact ⟨_, .command hline hdata hquit htranscript⟩
      | true =>
        rw [allocated_of_data hdata] at hloop
        rw [sessionDispatch_data hdata] at hnext
        split at hnext
        · cases hnext
        · obtain rfl := SessionNext.next.inj hnext
          obtain ⟨lines, rest', elements, hlines, htranscript⟩ := (ih hloop).2 rfl rfl
          exact ⟨_, .data hline hdata hlines htranscript⟩
    · rw [sessionLoop] at h
      split at h
      · cases h
      cases hread : readCrlfLine (sessionLineLimit maxMessageBytes s) input with
      | closed clean =>
        rw [hread] at h
        cases clean with
        | false => cases h
        | true =>
          have hend := (Session.finish_eq h).2.1
          rw [hin] at hend
          cases hend
      | tooLong => rw [hread] at h; cases h
      | line raw rest =>
        have hline := readLine_of_read hread
        rw [hread] at h
        simp only [hallocated, Bool.true_or] at h
        split at h
        case isTrue hraw =>
          obtain ⟨elements, htranscript⟩ := (ih h).1 rfl
          exact ⟨[], rest, elements, .stop (hraw ▸ hline), htranscript⟩
        case isFalse hraw =>
          split at h
          · cases h
          · obtain ⟨lines, rest', elements, hlines, htranscript⟩ := (ih h).2 hin rfl
            exact ⟨raw :: lines, rest', elements, .line hline hraw hlines, htranscript⟩

end

/-! ## The listener over a stream -/

/-- The listener and the session keep one transaction, but that the listener has refused the recipients that
    the session has not checked yet. -/
structure Matches (t : Transaction) (s : Session) : Prop where
  lhlo : t.seenLhlo = s.seenLhlo
  mail : t.seenMail = s.seenMail
  sender : t.sender = s.sender
  recipients : t.recipients = s.recipients.filter fun r => isValidDeliveryRecipient (some r)

section
variable {t : Transaction} {s s' : Session}

lemma Matches.step {line : Option CString} (h : Matches t s) (hstep : SessionStep s line s') :
    ∃ reply t', dispatch t line = .reply reply t' ∧ Matches t' s' := by
  cases hstep with
  | lhlo hmail hrcpt hrset hline =>
    refine ⟨.lhlo, { t with seenLhlo := true }, ?_, ⟨rfl, h.mail, h.sender, h.recipients⟩⟩
    cases line with
    | none => rfl
    | some text => rw [dispatch, if_pos (hline text rfl)]
  | mail text sender htext hlhlo hseen hfirst hmail hpath hrcpt hrset =>
    refine ⟨.senderAccepted, { t with sender := some sender, seenMail := true }, ?_, ⟨h.lhlo, rfl, rfl, h.recipients⟩⟩
    rw [← h.lhlo] at hlhlo
    rw [← h.mail] at hseen
    simp [htext, dispatch, hfirst, hmail, hpath, hlhlo, hseen]
  | rcpt text recipient htext hseen hempty hfirst hnot hrcpt hpath hmail hrset =>
    rw [← h.mail] at hseen
    by_cases hvalid : isValidDeliveryRecipient (some recipient) = true
    · refine ⟨.recipientAccepted, { t with recipients := t.recipients ++ [recipient] }, ?_,
        ⟨h.lhlo, h.mail, h.sender, ?_⟩⟩
      · simp [htext, dispatch, hfirst, hnot, hrcpt, hpath, hseen, hvalid]
      · simp [h.recipients, hempty, hvalid]
    · refine ⟨.badRecipient, t, ?_, ⟨h.lhlo, h.mail, h.sender, ?_⟩⟩
      · simp [htext, dispatch, hfirst, hnot, hrcpt, hpath, hseen, hvalid]
      · simp [h.recipients, hempty, hvalid]
  | rset text htext hrset =>
    refine ⟨.reset, t.reset, ?_, ⟨h.lhlo, rfl, rfl, rfl⟩⟩
    have hother : equalCi text dataCommand = false := by
      rw [equalCi, beq_iff_eq] at hrset
      simp only [equalCi, hrset]
      decide
    simp only [htext, dispatch, hasPrefixCi_of_equalCi hrset, hrset, hother]
    rfl

lemma dispatch_data {line : Option CString} (hdata : isCommand line dataCommand = true) (hne : t.recipients ≠ []) :
    dispatch t line = .startData := by
  cases line with
  | none => cases hdata
  | some text =>
    have heq : equalCi text dataCommand = true := hdata
    have hlist : t.recipients.isEmpty = false := by simpa using hne
    simp only [dispatch, hasPrefixCi_of_equalCi heq, heq, hlist]
    rfl

/-- Up to the first DATA, the listener answers the commands that the session reads. -/
theorem lockstep (options : ListenerOptions) (daemon : Daemon) {maxMessageBytes fuel fuel' : ℕ} {allocated : Bool} {input : List UInt8} {before after : List Element}
    {lines : List (List UInt8)} (hs : s.Consistent) (h : Matches t s)
    (hsession : sessionLoop maxMessageBytes fuel allocated s input = some s')
    (htranscript : Transcript allocated input (before ++ .data lines :: after)) (hbefore : ∀ e ∈ before, ¬e.IsData)
    (hfuel : input.length < fuel') :
    ∃ s₁ t₁ line rest rest', before.foldlM sessionElement s = some s₁ ∧ s₁.recipients.length = 1 ∧ Matches t₁ s₁ ∧
      DataLines rest lines rest' ∧ (t₁.recipients ≠ [] →
        (commandLoop options daemon fuel' allocated t input).submissions =
          (handleData options daemon t₁ line rest).submissions) := by
  induction before generalizing fuel fuel' allocated s t input with
  | nil =>
    cases htranscript with
    | @data _ _ raw rest rest' _ _ hline hdata hlines hrest =>
      rcases sessionLoop_command hs.outside hsession with ⟨hempty, -⟩ | ⟨fuel₁, raw', tail, -, hread, hnext⟩
      · rw [hempty, readLine_nil] at hline
        cases hline
      obtain ⟨rfl, rfl⟩ := read_eq hread hline
      have hone : s.recipients.length = 1 := by
        rw [sessionDispatch_data hdata] at hnext
        by_contra hone
        rw [if_pos hone] at hnext
        rcases hnext with ⟨hend, -⟩ | ⟨s₁, hend, -⟩ <;> cases hend
      refine ⟨s, t, lineText allocated raw', tail, rest', rfl, hone, h, hlines, fun hne => ?_⟩
      cases fuel' with
      | zero => omega
      | succ fuel' =>
        rw [commandLoop, hread]
        simp only [dispatch_data hdata hne]
  | cons e before ih =>
    cases htranscript with
    | data => exact absurd trivial (hbefore _ (List.mem_cons_self ..))
    | @command _ _ raw rest _ hline hdata hquit hrest =>
      rcases sessionLoop_command hs.outside hsession with ⟨hempty, -⟩ | ⟨fuel₁, raw', tail, -, hread, hnext⟩
      · rw [hempty, readLine_nil] at hline
        cases hline
      obtain ⟨rfl, rfl⟩ := read_eq hread hline
      rcases hnext with ⟨hend, -⟩ | ⟨s₁, hnext, hloop⟩
      · rw [sessionDispatch_quit.mp hend] at hquit
        cases hquit
      have hstep : sessionElement s (.command (lineText allocated raw')) = some s₁ := by rw [sessionElement, hnext]
      obtain ⟨reply, t', hdispatch, hmatches⟩ := h.step (sessionDispatch_step hnext hdata)
      cases fuel' with
      | zero => omega
      | succ fuel' =>
        have hlt := readCrlfLine_rest hread
        obtain ⟨s₂, t₂, line, rest, rest', hrun, hone, hfinal, hlines, hsubmissions⟩ :=
          ih (sessionElement_step (e := .command _) hs hdata hstep).1 hmatches hloop hrest
            (fun e' he' => hbefore e' (List.mem_cons_of_mem _ he')) (show tail.length < fuel' by omega)
        refine ⟨s₂, t₂, line, rest, rest', ?_, hone, hfinal, hlines, fun hne => ?_⟩
        · rw [List.foldlM_cons, hstep]
          exact hrun
        · rw [commandLoop, hread]
          simp only [hdispatch]
          exact hsubmissions hne

end

/-! ## The first DATA -/

/-- The listener can read these lines of a DATA and keep their message. -/
structure Readable (options : ListenerOptions) (lines : List (List UInt8)) : Prop where
  short : ∀ line ∈ lines, line.length ≤ maxLineBytes
  fits : (messageOf lines).length ≤ options.maxMessageBytes
  fitsArray : (messageOf lines).length ≤ maxGuint

section
variable {maxMessageBytes fuel : ℕ} {message input rest : List UInt8} {lines : List (List UInt8)}

lemma appendDataLine_eq (raw : List UInt8) : appendDataLine maxMessageBytes message raw =
    if (message ++ wire (unstuff raw)).length ≤ maxMessageBytes ∧ (message ++ wire (unstuff raw)).length ≤ maxGuint then
      some (message ++ wire (unstuff raw))
    else none := by
  simp only [appendDataLine, wire, List.length_append, List.length_cons, List.length_nil]
  split
  case isTrue h => rw [if_neg (by omega)]
  case isFalse h => rw [if_pos (by omega)]

theorem readData_complete_iff (h : DataLines input lines rest) (hfuel : input.length < fuel)
    (hmax : message.length ≤ maxMessageBytes) (hguint : message.length ≤ maxGuint) (message' rest' : List UInt8) :
    readData maxMessageBytes fuel message input = .complete message' rest' ↔
      (message' = message ++ messageOf lines ∧ rest' = rest) ∧ (∀ line ∈ lines, line.length ≤ maxLineBytes) ∧
        (message ++ messageOf lines).length ≤ maxMessageBytes ∧ (message ++ messageOf lines).length ≤ maxGuint := by
  induction h generalizing fuel message with
  | stop hline =>
    cases fuel with
    | zero => omega
    | succ fuel =>
      rw [readData, readCrlfLine_within hline (by decide)]
      simp only [if_true, DataRead.complete.injEq, messageOf, List.flatMap_nil, List.append_nil, List.not_mem_nil,
        false_implies, implies_true, true_and]
      constructor
      · intro hread
        exact ⟨⟨hread.1.symm, hread.2.symm⟩, hmax, hguint⟩
      · intro hread
        exact ⟨hread.1.1.symm, hread.1.2.symm⟩
  | @line input raw rest₁ rest lines hline hraw hrest ih =>
    cases fuel with
    | zero => omega
    | succ fuel =>
      rw [readData]
      by_cases hshort : raw.length ≤ maxLineBytes
      · have hlt := readCrlfLine_rest hline
        rw [readCrlfLine_within hline hshort]
        simp only [if_neg hraw, appendDataLine_eq]
        by_cases hfits : (message ++ wire (unstuff raw)).length ≤ maxMessageBytes ∧
            (message ++ wire (unstuff raw)).length ≤ maxGuint
        · rw [if_pos hfits]
          simp only
          rw [ih (by omega) hfits.1 hfits.2]
          simp [messageOf_cons, hshort]
        · rw [if_neg hfits]
          simp only [reduceCtorEq, false_iff]
          rintro ⟨-, -, hmax', hguint'⟩
          simp only [messageOf_cons, List.length_append] at hmax' hguint' hfits
          omega
      · rw [readCrlfLine_beyond hline (by omega)]
        simp only [reduceCtorEq, false_iff]
        rintro ⟨-, hall, -⟩
        exact hshort (hall raw (List.mem_cons_self ..))

lemma messageOf_eq_nil : messageOf lines = [] ↔ lines = [] := by
  cases lines with
  | nil => simp [messageOf]
  | cons line lines => simp [messageOf_cons, wire]

/-- What the listener submits for one recipient. -/
lemma deliverTransaction_single (options : ListenerOptions) (daemon : Daemon) {t : Transaction} {sender recipient : CString}
    (hsender : t.sender = some sender) (hrecipients : t.recipients = [recipient])
    (hvalid : isValidDeliveryRecipient (some recipient) = true) (message : List UInt8) :
    ∃ identity, (deliverTransaction options daemon t message).submissions =
      if message ≠ [] ∧ validOptionalText options.deliveryId = true ∧ validOptionalText sender = true then
        [⟨identity, ⟨buildRecipientDeliveryId options.deliveryId 0, sender, [recipient], message⟩⟩]
      else [] := by
  by_cases hmessage : message = []
  · refine ⟨⟨.empty, none, none, none, none⟩, ?_⟩
    rw [if_neg (fun h => h.1 hmessage), deliverTransaction, hsender, hrecipients, hmessage]
    rfl
  obtain ⟨identity, heq⟩ := buildDeliveryRequest_eq options sender 0 hmessage hvalid
  refine ⟨identity, ?_⟩
  have hlist : message.isEmpty = false := by simpa using hmessage
  rw [deliverTransaction, hsender, hrecipients]
  simp only [List.isEmpty_cons, hlist, Bool.or_self, Bool.false_eq_true, if_false, deliverFrom, heq]
  by_cases hbuild : (validOptionalText options.deliveryId && validOptionalText sender) = true
  · rw [if_pos hbuild, if_pos ⟨hmessage, by simpa using hbuild⟩]
  · rw [if_neg hbuild, if_neg fun h => hbuild (by simpa using h.2)]
    rfl

/-- What the listener submits once the first DATA has begun. -/
theorem handleData_submissions (options : ListenerOptions) (daemon : Daemon) {t : Transaction}
    {sender recipient : CString} (hsender : t.sender = some sender) (hrecipients : t.recipients = [recipient])
    (hvalid : isValidDeliveryRecipient (some recipient) = true) (h : DataLines input lines rest)
    (line : Option CString) : ∃ identity, (handleData options daemon t line input).submissions =
      open scoped Classical in
      if Readable options lines ∧ lines ≠ [] ∧ validOptionalText options.deliveryId = true ∧
          validOptionalText sender = true then
        [⟨identity, ⟨buildRecipientDeliveryId options.deliveryId 0, sender, [recipient], messageOf lines⟩⟩]
      else [] := by
  have hcomplete := readData_complete_iff h (Nat.lt_succ_self input.length)
    (show ([] : List UInt8).length ≤ options.maxMessageBytes from Nat.zero_le _)
    (show ([] : List UInt8).length ≤ maxGuint from Nat.zero_le _)
  obtain ⟨identity, heq⟩ := deliverTransaction_single options daemon hsender hrecipients hvalid (messageOf lines)
  refine ⟨identity, ?_⟩
  by_cases hreadable : Readable options lines
  · rw [handleData, (hcomplete _ _).mpr ⟨⟨rfl, rfl⟩, hreadable.short, hreadable.fits, hreadable.fitsArray⟩]
    simp only [List.nil_append, heq, hreadable, true_and, ne_eq, messageOf_eq_nil]
  · rw [if_neg fun h => hreadable h.1, handleData]
    split
    case h_5 message' rest' hread =>
      obtain ⟨-, hshort, hfits, harray⟩ := (hcomplete message' rest').mp hread
      exact absurd ⟨hshort, hfits, harray⟩ hreadable
    all_goals rfl

end

/-! ## Agreement -/

/-- The listener submits what the session's request holds. -/
def Agree (submission : Submission) (trace : Trace) : Prop :=
  ∃ s, trace.submissions = [s] ∧ s.request.envelopeSender = submission.request.envelopeSender ∧
    s.request.recipients = submission.request.recipients ∧ s.request.messageBytes = submission.request.messageBytes

/-- What follows the first DATA adds nothing to its message, or is, after its last RSET, the same again. -/
def Repeats (sender recipient : CString) (message : List UInt8) (after : List Element) : Prop :=
  if ∃ e ∈ after, e.isRset = true then
    (current after).filterMap (Element.path mailCommand) = [sender] ∧
      (current after).filterMap (Element.path rcptCommand) = [recipient] ∧
        (current after).flatMap Element.message = message
  else after.flatMap Element.message = []

/-- The listener reads and submits the first DATA of the transcript, and the rest of the transcript does not
    change what has been read. -/
def Settled (options : ListenerOptions) (input : List UInt8) : Prop :=
  ∃ before lines after sender recipient, Transcript false input (before ++ .data lines :: after) ∧
    (∀ e ∈ before, ¬e.IsData) ∧ (current before).filterMap (Element.path mailCommand) = [sender] ∧
    (current before).filterMap (Element.path rcptCommand) = [recipient] ∧
    isValidDeliveryRecipient (some recipient) = true ∧ validOptionalText sender = true ∧
    lines ≠ [] ∧ Readable options lines ∧ Repeats sender recipient (messageOf lines) after

/-- The listener accepts the recipient of the first DATA. -/
def FirstRecipientValid (input : List UInt8) : Prop :=
  ∀ before lines after, Transcript false input (before ++ .data lines :: after) → (∀ e ∈ before, ¬e.IsData) →
    ∀ recipient ∈ (current before).filterMap (Element.path rcptCommand), isValidDeliveryRecipient (some recipient) = true

lemma current_append_list (elements after : List Element) : current (elements ++ after) =
    if ∃ e ∈ after, e.isRset = true then current after else current elements ++ after := by
  induction after using List.reverseRecOn with
  | nil => simp
  | append_singleton after e ih =>
    rw [← List.append_assoc, current_append, ih, current_append]
    cases hrset : e.isRset with
    | true => simp [hrset]
    | false =>
      have hiff : (∃ e' ∈ after ++ [e], e'.isRset = true) ↔ ∃ e' ∈ after, e'.isRset = true := by simp [hrset]
      simp only [hiff, Bool.false_eq_true, if_false]
      split <;> simp

lemma flatMap_message_of_commands {elements : List Element} (h : ∀ e ∈ elements, ¬e.IsData) :
    (current elements).flatMap Element.message = [] := by
  refine List.flatMap_eq_nil_iff.mpr fun e he => ?_
  have hmem : e ∈ elements := by
    have := List.takeWhile_subset _ (List.mem_reverse.mp he)
    simpa using this
  cases e with
  | command line => rfl
  | data lines => exact absurd trivial (h _ hmem)

lemma exists_first_data {elements : List Element} (h : ∃ e ∈ elements, e.IsData) :
    ∃ before lines after, elements = before ++ .data lines :: after ∧ ∀ e ∈ before, ¬e.IsData := by
  induction elements with
  | nil => simp at h
  | cons e elements ih =>
    cases e with
    | data lines => exact ⟨[], lines, elements, rfl, by simp⟩
    | command line =>
      have hlater : ∃ e ∈ elements, e.IsData := by simpa [Element.IsData] using h
      obtain ⟨before, lines, after, rfl, hbefore⟩ := ih hlater
      exact ⟨.command line :: before, lines, after, rfl, by simpa [Element.IsData] using hbefore⟩

/-! ## The claim's two directions -/

section
variable {arguments : ParsedArguments} {options : ListenerOptions} {daemon : Daemon} {maxMessageBytes : ℕ}
  {input : List UInt8} {submission : Submission}

/-- What an accepted transcript tells. -/
lemma sessionBuild_eq (h : sessionBuild arguments maxMessageBytes input = some submission) :
    ∃ s, sessionLoop maxMessageBytes (input.length + 1) false .initial input = some s ∧
      validOptionalText arguments.deliveryId = true ∧ submission.request.envelopeSender = s.sender.getD .empty ∧
      submission.request.recipients = s.recipients.take 1 ∧ submission.request.messageBytes = s.message := by
  simp only [sessionBuild, Option.bind_eq_bind, Option.bind_eq_some_iff] at h
  obtain ⟨s, hloop, identity, -, request, hrequest, hsubmission⟩ := h
  rw [ingestionRequestInit] at hrequest
  split at hrequest
  case isFalse => cases hrequest
  case isTrue hvalid =>
    simp only [Bool.and_eq_true] at hvalid
    obtain rfl := Option.some.inj hrequest
    obtain rfl := Option.some.inj hsubmission
    have hid := hvalid.1.1.1.1
    rw [validText, Bool.and_eq_true] at hid
    exact ⟨s, hloop, hid.2, rfl, rfl, rfl⟩

/-- The transaction that the session has open at the first DATA, and what the listener makes of it. -/
theorem first_transaction (options : ListenerOptions) (daemon : Daemon) {before after : List Element} {lines : List (List UInt8)} {s : Session}
    (hloop : sessionLoop maxMessageBytes (input.length + 1) false .initial input = some s)
    (htranscript : Transcript false input (before ++ .data lines :: after)) (hbefore : ∀ e ∈ before, ¬e.IsData) :
    ∃ sender recipient, (current before).filterMap (Element.path mailCommand) = [sender] ∧
      (current before).filterMap (Element.path rcptCommand) = [recipient] ∧
      (isValidDeliveryRecipient (some recipient) = true → ∃ identity,
        (handleConnection options daemon input).submissions = open scoped Classical in
          if Readable options lines ∧ lines ≠ [] ∧ validOptionalText options.deliveryId = true ∧
              validOptionalText sender = true then
            [⟨identity, ⟨buildRecipientDeliveryId options.deliveryId 0, sender, [recipient], messageOf lines⟩⟩]
          else []) := by
  have hinitial : Matches .initial .initial := ⟨rfl, rfl, rfl, rfl⟩
  obtain ⟨s₁, t₁, line, rest, rest', hrun, hone, hmatches, hlines, hsubmissions⟩ :=
    lockstep options daemon consistent_initial hinitial hloop htranscript hbefore
      (Nat.lt_succ_self input.length)
  have hproper : ∀ e ∈ before, e.Proper := fun e he => htranscript.proper e (List.mem_append_left _ he)
  obtain ⟨hs₁, hholds⟩ := sessionElement_run consistent_initial holds_initial hproper hrun
  rw [List.nil_append] at hholds
  obtain ⟨recipient, hrecipient⟩ := List.length_eq_one_iff.mp hone
  have hseen : s₁.sender.isSome = true := by
    rw [← hs₁.mail]
    exact hs₁.opened (by simp [hrecipient])
  obtain ⟨sender, hsender⟩ := Option.isSome_iff_exists.mp hseen
  refine ⟨sender, recipient, by rw [← hholds.sender, hsender]; rfl, hholds.recipients ▸ hrecipient, fun hvalid => ?_⟩
  have hrecipients : t₁.recipients = [recipient] := by simp [hmatches.recipients, hrecipient, hvalid]
  obtain ⟨identity, heq⟩ := handleData_submissions options daemon (hmatches.sender.trans hsender) hrecipients hvalid
    hlines line
  exact ⟨identity, (hsubmissions (by simp [hrecipients])).trans heq⟩

/-- What the session has at its end. -/
theorem session_end {elements : List Element} {s : Session}
    (hloop : sessionLoop maxMessageBytes (input.length + 1) false .initial input = some s)
    (htranscript : Transcript false input elements) : s.Consistent ∧ s.Holds elements := by
  obtain ⟨hrun, -⟩ := sessionLoop_elements consistent_initial htranscript hloop
  exact sessionElement_run consistent_initial holds_initial htranscript.proper hrun

/-- Where the rest of the transcript only repeats, the session ends with the first transaction. -/
lemma repeats_iff {before after : List Element} {lines : List (List UInt8)} {s : Session} {sender recipient : CString}
    (hholds : s.Holds (before ++ .data lines :: after)) (hbefore : ∀ e ∈ before, ¬e.IsData)
    (hsender : (current before).filterMap (Element.path mailCommand) = [sender])
    (hrecipient : (current before).filterMap (Element.path rcptCommand) = [recipient])
    (hone : s.recipients.length = 1) :
    Repeats sender recipient (messageOf lines) after ↔
      s.sender = some sender ∧ s.recipients = [recipient] ∧ s.message = messageOf lines := by
  have hcurrent := current_append_list before (.data lines :: after)
  by_cases hrset : ∃ e ∈ after, e.isRset = true
  · have hrset' : ∃ e ∈ Element.data lines :: after, e.isRset = true := by
      obtain ⟨e, he, h⟩ := hrset
      exact ⟨e, List.mem_cons_of_mem _ he, h⟩
    have hsame : current (.data lines :: after) = current after := by
      have := current_append_list [.data lines] after
      rwa [if_pos hrset] at this
    rw [if_pos hrset', hsame] at hcurrent
    rw [Repeats, if_pos hrset, ← hcurrent, ← hholds.sender, ← hholds.recipients, ← hholds.message]
    cases s.sender <;> simp
  · have hrset' : ¬∃ e ∈ Element.data lines :: after, e.isRset = true := by
      rintro ⟨e, he, h⟩
      rcases List.mem_cons.mp he with rfl | he
      · cases h
      · exact hrset ⟨e, he, h⟩
    rw [if_neg hrset'] at hcurrent
    -- a second MAIL or RCPT is refused without RSET
    have hsame : s.sender = some sender := by
      have htoList := hholds.sender
      rw [hcurrent, List.filterMap_append, hsender] at htoList
      cases hs : s.sender with
      | none => simp [hs] at htoList
      | some sender' => simpa [hs] using (List.cons.inj (hs ▸ htoList)).1
    have hsame' : s.recipients = [recipient] := by
      have hlist := hholds.recipients
      rw [hcurrent, List.filterMap_append, hrecipient] at hlist
      obtain ⟨recipient', hrecipient'⟩ := List.length_eq_one_iff.mp hone
      rw [hrecipient'] at hlist ⊢
      rw [(List.cons.inj hlist).1]
    have hmessage : s.message = messageOf lines ++ after.flatMap Element.message := by
      rw [hholds.message, hcurrent, List.flatMap_append, flatMap_message_of_commands hbefore]
      rfl
    rw [Repeats, if_neg hrset, hmessage]
    simp [hsame, hsame']

/-- A transcript that the session accepts, read by the listener under the same delivery id. -/
theorem session_listener_agree (daemon : Daemon) (hid : options.deliveryId = arguments.deliveryId)
    (haccepted : sessionBuild arguments maxMessageBytes input = some submission) :
    (Settled options input → Agree submission (handleConnection options daemon input)) ∧
      (FirstRecipientValid input → (Agree submission (handleConnection options daemon input) ↔ Settled options input)) := by
  obtain ⟨s, hloop, hvalidId, hsender, hrecipients, hmessage⟩ := sessionBuild_eq haccepted
  obtain ⟨elements, htranscript⟩ := (sessionLoop_transcript hloop).1 rfl
  obtain ⟨-, hfinish⟩ := sessionLoop_elements consistent_initial htranscript hloop
  obtain ⟨-, -, hseen, hone, hne⟩ := Session.finish_eq hfinish
  have htake : s.recipients.take 1 = s.recipients := List.take_of_length_le (by omega)
  rw [htake] at hrecipients
  have hsettled : Settled options input → Agree submission (handleConnection options daemon input) := by
    rintro ⟨before, lines, after, sender, recipient, htranscript, hbefore, hmail, hrcpt, hvalid, hvalidSender, hlines,
      hreadable, hrepeats⟩
    obtain ⟨sender', recipient', hmail', hrcpt', hlistener⟩ := first_transaction options daemon hloop htranscript hbefore
    obtain rfl : sender = sender' := by simpa [hmail] using hmail'
    obtain rfl : recipient = recipient' := by simpa [hrcpt] using hrcpt'
    obtain ⟨identity, heq⟩ := hlistener hvalid
    rw [if_pos ⟨hreadable, hlines, hid ▸ hvalidId, hvalidSender⟩] at heq
    obtain ⟨hs, hr, hm⟩ := (repeats_iff (session_end hloop htranscript).2 hbefore hmail hrcpt hone).mp hrepeats
    refine ⟨_, heq, ?_, ?_, ?_⟩
    · rw [hsender, hs]
      rfl
    · rw [hrecipients, hr]
    · rw [hmessage, hm]
  refine ⟨hsettled, fun hfirst => ⟨fun hagree => ?_, hsettled⟩⟩
  obtain ⟨hconsistent, hholds⟩ := session_end hloop htranscript
  have hdata : ∃ e ∈ elements, e.IsData := by
    by_contra hnone
    have hmessages := hholds.message
    rw [flatMap_message_of_commands fun e he hd => hnone ⟨e, he, hd⟩] at hmessages
    exact hne hmessages
  obtain ⟨before, lines, after, rfl, hbefore⟩ := exists_first_data hdata
  obtain ⟨sender, recipient, hmail, hrcpt, hlistener⟩ := first_transaction options daemon hloop htranscript hbefore
  have hvalid := hfirst before lines after htranscript hbefore recipient (by rw [hrcpt]; exact List.mem_singleton_self _)
  obtain ⟨identity, heq⟩ := hlistener hvalid
  obtain ⟨x, hx, hxsender, hxrecipients, hxmessage⟩ := hagree
  rw [heq] at hx
  split at hx
  case isFalse => cases hx
  case isTrue hready =>
    obtain rfl := List.singleton_inj.mp hx
    refine ⟨before, lines, after, sender, recipient, htranscript, hbefore, hmail, hrcpt, hvalid, hready.2.2.2, hready.2.1,
      hready.1, (repeats_iff hholds hbefore hmail hrcpt hone).mpr ?_⟩
    have hs : s.sender = some sender := by
      have hsome : s.sender.isSome = true := hconsistent.mail ▸ hseen
      obtain ⟨sender', hs⟩ := Option.isSome_iff_exists.mp hsome
      rw [hsender, hs] at hxsender
      rw [hs]
      exact congrArg some hxsender.symm
    exact ⟨hs, by rw [← hrecipients, ← hxrecipients], by rw [← hmessage, ← hxmessage]⟩

end

def sampleArguments : ParsedArguments := ⟨literal "a", literal "d", literal "s", sampleAccount_ne, sampleDelivery_ne⟩

/-- A transaction with a one-line message. -/
def singleMessageInput : List UInt8 :=
  wire (JournalRecord.ascii "LHLO a") ++ (wire (JournalRecord.ascii "MAIL FROM:<>") ++
    (wire (JournalRecord.ascii "RCPT TO:<a>") ++ (wire (JournalRecord.ascii "DATA") ++ (wire [120] ++ wire [46]))))

/-- What the session makes of a message from nobody to one recipient. -/
def sampleSubmission (messageBytes : List UInt8) : Submission :=
  ⟨⟨buildRequestId sampleArguments.deliveryId, some callerIdentity, some sampleArguments.accountId,
    some sessionToolIdentity, some (buildRequestId sampleArguments.deliveryId)⟩,
    ⟨sampleArguments.deliveryId, .empty, [literal "a"], messageBytes⟩⟩

lemma readLine_wire {raw : List UInt8} (rest : List UInt8) (hcr : 13 ∉ raw) :
    readLine (wire raw ++ rest) = .line raw rest :=
  readCrlfLine_of_wire hcr (by simp [wire])

lemma singleMessage_settled : Settled sampleOptions singleMessageInput := by
  have hlines : DataLines (wire [120] ++ wire [46]) [[120]] [] :=
    .line (readLine_wire (wire [46]) (by decide)) (by decide) (.stop rfl)
  have htranscript : Transcript false singleMessageInput
      ([.command (some (literal "LHLO a")), .command (some (literal "MAIL FROM:<>")),
        .command (some (literal "RCPT TO:<a>"))] ++ .data [[120]] :: []) :=
    .command (readLine_wire _ (by decide)) rfl rfl <| .command (readLine_wire _ (by decide)) rfl rfl <|
      .command (readLine_wire _ (by decide)) rfl rfl <|
        .data (readLine_wire _ (by decide)) rfl hlines (.closed readLine_nil)
  exact ⟨_, _, _, .empty, literal "a", htranscript, by simp [Element.IsData], rfl, rfl, rfl, rfl, by decide,
    ⟨by decide, by decide, by decide⟩, rfl⟩

theorem session_listener_agree_single :
    Agree (sampleSubmission (wire [120])) (handleConnection sampleOptions (fun _ _ => none) singleMessageInput) :=
  (session_listener_agree _ rfl (show sessionBuild sampleArguments 100 singleMessageInput = _ from rfl)).1
    singleMessage_settled

/-- The same with a second DATA, which the session adds to the message of the first. -/
def secondDataInput : List UInt8 := singleMessageInput ++ (wire (JournalRecord.ascii "DATA") ++ (wire [121] ++ wire [46]))

/-- The session's message is longer than the one that the listener submits. -/
theorem second_data_disagrees : ¬∀ (arguments : ParsedArguments) (options : ListenerOptions) (daemon : Daemon)
    (maxMessageBytes : ℕ) (input : List UInt8) (submission : Submission), options.deliveryId = arguments.deliveryId →
    sessionBuild arguments maxMessageBytes input = some submission →
      Agree submission (handleConnection options daemon input) := by
  intro h
  have haccepted : sessionBuild sampleArguments 100 secondDataInput =
      some (sampleSubmission (wire [120] ++ wire [121])) := rfl
  have hsubmissions : (handleConnection sampleOptions (fun _ _ => none) secondDataInput).submissions.map
      (fun s => s.request.messageBytes) = [wire [120]] := rfl
  obtain ⟨s, hs, -, -, hmessage⟩ := h _ sampleOptions (fun _ _ => none) _ _ _ rfl haccepted
  rw [hs, List.map_singleton, hmessage] at hsubmissions
  exact absurd hsubmissions (by decide)

end Wyrebox.Lmtp
