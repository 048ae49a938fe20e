import Wyrebox.LmtpListener

set_option autoImplicit false

/-!
# What a client sees of the listener

The answers of a connection, read as a log: which commands may be accepted after which, how the answers
after DATA belong to the recipients, and when a message is submitted at all.
-/
namespace Wyrebox.Lmtp
open CString
open PayloadText (strndup)

/-! ## The log -/

/-- A MAIL opens a transaction and a RSET ends it. -/
def openedBy (sender : Option CString) (e : Exchange) : Option CString :=
  match e.line, e.replies with
  | some line, [.senderAccepted] => extractPathArgument line mailCommand
  | _, [.reset] => none
  | _, _ => sender

/-- The sender of the transaction that a log leaves open. -/
def openSender (log : List Exchange) : Option CString := log.foldl openedBy none

def acceptedBy (recipients : List CString) (e : Exchange) : List CString :=
  match e.line, e.replies with
  | some line, [.recipientAccepted] => recipients ++ (extractPathArgument line rcptCommand).toList
  | _, [.reset] => []
  | _, _ => recipients

/-- The recipients of the transaction that a log leaves open, in the order of their RCPT commands. -/
def acceptedRecipients (log : List Exchange) : List CString := log.foldl acceptedBy []

def IsLhlo (line : Option CString) : Prop := ∃ text, line = some text ∧ hasPrefixCi text lhloCommand = true

def greeted (log : List Exchange) : Bool := log.any fun e => e.replies = [.lhlo]

/-- The answers after the 354 of a DATA whose transaction is answered. -/
inductive Answers (daemon : Daemon) (sender : CString) (recipients : List CString) :
    List Reply → List Submission → Prop where
  | exceeded : Answers daemon sender recipients (recipients.map fun _ => .sizeExceeded) []
  | failed : Answers daemon sender recipients (recipients.map fun _ => .temporaryLocal) []
  | submitted (replies : List DeliveryReply) (submissions : List Submission)
      (hreplies : replies.length = recipients.length)
      (hsubmissions : submissions.map (fun s => s.request.recipients) = recipients.map fun r => [r])
      (hsender : ∀ s ∈ submissions, s.request.envelopeSender = sender)
      (hconfirmed : ∀ (i : ℕ) (reply : DeliveryReply) (s : Submission), replies[i]? = some reply →
        submissions[i]? = some s → reply.replyCode = 250 → Confirmed daemon i s) :
      Answers daemon sender recipients (replies.map .delivery) submissions

/-- What a command may be answered after the commands of `log`. -/
structure Answered (daemon : Daemon) (log : List Exchange) (e : Exchange) (after : List Exchange)
    (submissions : List Submission) (ending : Ending) : Prop where
  one : (∃ reply, e.replies = [reply] ∧ reply ≠ .startData) ∨
    (after = [] ∧ e.replies = [.startData] ∧ (ending = .closed ∨ ending = .tooLong)) ∨
    (after = [] ∧ ending = .finished ∧ ∃ sender answers, openSender log = some sender ∧
      e.replies = .startData :: answers ++ [.bye] ∧
      Answers daemon sender (acceptedRecipients log) answers submissions)
  mail : e.replies = [.senderAccepted] → greeted log = true ∧ openSender log = none
  rcpt : e.replies = [.recipientAccepted] → (openSender log).isSome = true
  data : .startData ∈ e.replies → acceptedRecipients log ≠ []

/-- The lines as the listener takes them. -/
def lineTexts : Bool → List (List UInt8) → List (Option CString)
  | _, [] => []
  | allocated, raw :: raws => lineText allocated raw :: lineTexts (allocated || !raw.isEmpty) raws

/-- A connection, seen from its client. -/
structure Protocol (daemon : Daemon) (input : List UInt8) (trace : Trace) : Prop where
  /-- The answers are those to the lines of the stream, in order. -/
  reads : ∃ raws rest, input = raws.flatMap wire ++ rest ∧
    trace.exchanges.map Exchange.line = lineTexts false raws
  answered : ∀ log e after, trace.exchanges = log ++ e :: after →
    Answered daemon log e after trace.submissions trace.ending
  /-- LHLO is LHLO, but for the listener's treatment of a stream that begins with an empty line. -/
  lhlo : ¬wire [] <+: input → ∀ e ∈ trace.exchanges, e.replies = [.lhlo] → IsLhlo e.line
  ends : trace.ending = .closed ∨ trace.ending = .tooLong ∨ trace.ending = .quit ∨ trace.ending = .finished
  closed : trace.ending = .closed → ∃ rest clean, rest <:+ input ∧
    readCrlfLine maxLineBytes rest = .closed clean
  tooLong : trace.ending = .tooLong → ∃ rest, rest <:+ input ∧ readCrlfLine maxLineBytes rest = .tooLong
  /-- Only a transaction that has been answered submits anything. -/
  silent : trace.ending ≠ .finished → trace.submissions = []

/-! ## The listener's state and the log -/

structure Follows (log : List Exchange) (t : Transaction) : Prop where
  lhlo : t.seenLhlo = greeted log
  mail : t.seenMail = (openSender log).isSome
  sender : t.sender = openSender log
  recipients : t.recipients = acceptedRecipients log
  opened : t.recipients ≠ [] → t.seenMail = true
  valid : ∀ r ∈ t.recipients, isValidDeliveryRecipient (some r) = true

lemma follows_initial : Follows [] .initial := ⟨rfl, rfl, rfl, rfl, fun h => absurd rfl h, by simp [Transaction.initial]⟩

section
variable {log : List Exchange} {t t' : Transaction} {line : Option CString} {reply : Reply}

lemma openSender_append (e : Exchange) : openSender (log ++ [e]) = openedBy (openSender log) e := by
  simp [openSender]

lemma acceptedRecipients_append (e : Exchange) :
    acceptedRecipients (log ++ [e]) = acceptedBy (acceptedRecipients log) e := by
  simp [acceptedRecipients]

lemma greeted_append (e : Exchange) : greeted (log ++ [e]) = (greeted log || e.replies = [.lhlo]) := by
  simp [greeted]

/-- A reply that neither opens nor ends anything. -/
lemma Follows.same (h : Follows log t) (hsender : reply ≠ .senderAccepted) (hrecipient : reply ≠ .recipientAccepted)
    (hreset : reply ≠ .reset) (hlhlo : reply ≠ .lhlo) : Follows (log ++ [⟨line, [reply]⟩]) t := by
  have hopen : openSender (log ++ [⟨line, [reply]⟩]) = openSender log := by
    rw [openSender_append, openedBy]
    split <;> simp_all
  have haccepted : acceptedRecipients (log ++ [⟨line, [reply]⟩]) = acceptedRecipients log := by
    rw [acceptedRecipients_append, acceptedBy]
    split <;> simp_all
  have hgreeted : greeted (log ++ [⟨line, [reply]⟩]) = greeted log := by
    rw [greeted_append]
    simp [hlhlo]
  exact ⟨hgreeted ▸ h.lhlo, hopen ▸ h.mail, hopen ▸ h.sender, haccepted ▸ h.recipients, h.opened, h.valid⟩

lemma Follows.greet (h : Follows log t) : Follows (log ++ [⟨line, [.lhlo]⟩]) { t with seenLhlo := true } where
  lhlo := by simp [greeted_append]
  mail := by rw [openSender_append]; cases line <;> exact h.mail
  sender := by rw [openSender_append]; cases line <;> exact h.sender
  recipients := by rw [acceptedRecipients_append]; cases line <;> exact h.recipients
  opened := h.opened
  valid := h.valid

lemma Follows.reset (h : Follows log t) : Follows (log ++ [⟨line, [.reset]⟩]) t.reset where
  lhlo := by rw [greeted_append]; simpa [Transaction.reset] using h.lhlo
  mail := by rw [openSender_append]; cases line <;> rfl
  sender := by rw [openSender_append]; cases line <;> rfl
  recipients := by rw [acceptedRecipients_append]; cases line <;> rfl
  opened := fun hne => absurd rfl hne
  valid := fun r hr => absurd hr List.not_mem_nil

lemma Follows.openMail (h : Follows log t) {text sender : CString} (hmail : t.seenMail = false)
    (hsender : extractPathArgument text mailCommand = some sender) :
    Follows (log ++ [⟨some text, [.senderAccepted]⟩]) { t with sender := some sender, seenMail := true } where
  lhlo := by rw [greeted_append]; simpa using h.lhlo
  mail := by rw [openSender_append]; change true = (extractPathArgument text mailCommand).isSome; simp [hsender]
  sender := by rw [openSender_append]; exact hsender.symm
  recipients := by rw [acceptedRecipients_append]; exact h.recipients
  opened := fun hne => absurd ((h.opened hne).symm.trans hmail) (by decide)
  valid := h.valid

lemma Follows.accept (h : Follows log t) {text recipient : CString} (hmail : t.seenMail = true)
    (hrecipient : extractPathArgument text rcptCommand = some recipient)
    (hvalid : isValidDeliveryRecipient (some recipient) = true) :
    Follows (log ++ [⟨some text, [.recipientAccepted]⟩]) { t with recipients := t.recipients ++ [recipient] } where
  lhlo := by rw [greeted_append]; simpa using h.lhlo
  mail := by rw [openSender_append]; exact h.mail
  sender := by rw [openSender_append]; exact h.sender
  recipients := by
    rw [acceptedRecipients_append, ← h.recipients]
    change _ = t.recipients ++ (extractPathArgument text rcptCommand).toList
    simp [hrecipient]
  opened := fun _ => hmail
  valid := fun r hr => by
    rcases List.mem_append.mp hr with hr | hr
    · exact h.valid r hr
    · rwa [List.mem_singleton.mp hr]

/-- What the listener's answer to a command tells of its state before and after. -/
structure Dispatched (log : List Exchange) (line : Option CString) (t : Transaction) (reply : Reply) (t' : Transaction) :
    Prop where
  follows : Follows (log ++ [⟨line, [reply]⟩]) t'
  mail : reply = .senderAccepted → t.seenLhlo = true ∧ t.seenMail = false
  rcpt : reply = .recipientAccepted → t.seenMail = true
  data : reply ≠ .startData
  lhlo : reply = .lhlo → line = none ∨ IsLhlo line

lemma Follows.unchanged (h : Follows log t) (hsender : reply ≠ .senderAccepted) (hrecipient : reply ≠ .recipientAccepted)
    (hreset : reply ≠ .reset) (hlhlo : reply ≠ .lhlo) (hdata : reply ≠ .startData) :
    Dispatched log line t reply t :=
  ⟨h.same hsender hrecipient hreset hlhlo, fun he => absurd he hsender, fun he => absurd he hrecipient, hdata,
    fun he => absurd he hlhlo⟩

theorem Follows.dispatch (h : Follows log t) (hdispatch : dispatch t line = .reply reply t') :
    Dispatched log line t reply t' := by
  cases line with
  | none =>
    obtain ⟨rfl, rfl⟩ := Next.reply.inj hdispatch
    exact ⟨h.greet, nofun, nofun, nofun, fun _ => .inl rfl⟩
  | some text =>
    rw [Lmtp.dispatch] at hdispatch
    split at hdispatch
    case isTrue hlhlo =>
      obtain ⟨rfl, rfl⟩ := Next.reply.inj hdispatch
      exact ⟨h.greet, nofun, nofun, nofun, fun _ => .inr ⟨text, rfl, hlhlo⟩⟩
    split at hdispatch
    · split at hdispatch
      · obtain ⟨rfl, rfl⟩ := Next.reply.inj hdispatch
        exact h.unchanged nofun nofun nofun nofun nofun
      case isFalse hstate =>
        simp only [Bool.or_eq_true, Bool.not_eq_true', not_or, Bool.not_eq_false, Bool.not_eq_true] at hstate
        split at hdispatch
        · obtain ⟨rfl, rfl⟩ := Next.reply.inj hdispatch
          exact h.unchanged nofun nofun nofun nofun nofun
        case h_2 sender hsender =>
          obtain ⟨rfl, rfl⟩ := Next.reply.inj hdispatch
          exact ⟨h.openMail hstate.2 hsender, fun _ => hstate, nofun, nofun, nofun⟩
    split at hdispatch
    · split at hdispatch
      · obtain ⟨rfl, rfl⟩ := Next.reply.inj hdispatch
        exact h.unchanged nofun nofun nofun nofun nofun
      case isFalse hmail =>
        rw [Bool.not_eq_true', Bool.not_eq_false] at hmail
        split at hdispatch
        · obtain ⟨rfl, rfl⟩ := Next.reply.inj hdispatch
          exact h.unchanged nofun nofun nofun nofun nofun
        case h_2 recipient hrecipient =>
          split at hdispatch
          case isTrue hvalid =>
            obtain ⟨rfl, rfl⟩ := Next.reply.inj hdispatch
            exact ⟨h.accept hmail hrecipient hvalid, nofun, fun _ => hmail, nofun, nofun⟩
          · obtain ⟨rfl, rfl⟩ := Next.reply.inj hdispatch
            exact h.unchanged nofun nofun nofun nofun nofun
    split at hdispatch
    · split at hdispatch
      · obtain ⟨rfl, rfl⟩ := Next.reply.inj hdispatch
        exact h.unchanged nofun nofun nofun nofun nofun
      · cases hdispatch
    split at hdispatch
    · obtain ⟨rfl, rfl⟩ := Next.reply.inj hdispatch
      exact ⟨h.reset, nofun, nofun, nofun, nofun⟩
    split at hdispatch
    · cases hdispatch
    · obtain ⟨rfl, rfl⟩ := Next.reply.inj hdispatch
      exact h.unchanged nofun nofun nofun nofun nofun

lemma dispatch_startData (h : dispatch t line = .startData) : t.recipients ≠ [] := by
  cases line with
  | none => cases h
  | some text =>
    rw [Lmtp.dispatch] at h
    split at h
    · cases h
    split at h
    · split at h
      · cases h
      · split at h <;> cases h
    split at h
    · split at h
      · cases h
      split at h
      · cases h
      · split at h <;> cases h
    split at h
    · split at h
      · cases h
      case isFalse hrecipients => simpa using hrecipients
    split at h
    · cases h
    · split at h <;> cases h

end

/-! ## Delivery -/

lemma validOptionalText_iff {s : CString} : validOptionalText s = true ↔ ∀ b ∈ s.bytes, isControl b = false := by
  simp [validOptionalText]

lemma validText_recipient {s : CString} (h : isValidDeliveryRecipient (some s) = true) : validText s = true := h

lemma decimal_no_control (n : ℕ) : ∀ b ∈ (decimal n).bytes, isControl b = false := by
  intro b hb
  obtain ⟨hlow, hhigh⟩ := mem_decimalDigits hb
  rw [isControl, Bool.or_eq_false_iff, decide_eq_false_iff_not, UInt8.lt_iff_toNat_lt, beq_eq_false_iff_ne]
  refine ⟨fun h => ?_, fun h => ?_⟩
  · have : (32 : UInt8).toNat = 32 := rfl
    omega
  · rw [h] at hhigh
    exact absurd hhigh (by decide)

section
variable {options : ListenerOptions} {daemon : Daemon} {sender : CString} {recipients : List CString}
  {message : List UInt8}

lemma validText_deliveryId (i : ℕ) : validText (buildRecipientDeliveryId options.deliveryId i) =
    validOptionalText options.deliveryId := by
  have hne : (buildRecipientDeliveryId options.deliveryId i).bytes.isEmpty = false := by
    simp [buildRecipientDeliveryId, literal, JournalRecord.ascii]
  rw [validText, hne, Bool.not_false, Bool.true_and, Bool.eq_iff_iff, validOptionalText_iff, validOptionalText_iff]
  have hprintable : ((literal "/rcpt/").bytes.all fun b => !isControl b) = true := by decide
  have hliteral : ∀ b ∈ (literal "/rcpt/").bytes, isControl b = false := by
    intro b hb
    simpa using List.all_eq_true.mp hprintable b hb
  constructor
  · intro h b hb
    exact h b (List.mem_append_left _ (List.mem_append_left _ hb))
  · intro h b hb
    rcases List.mem_append.mp hb with hb | hb
    · rcases List.mem_append.mp hb with hb | hb
      · exact h b hb
      · exact hliteral b hb
    · exact decimal_no_control _ b hb

lemma buildRequestId_ne (deliveryId : CString) : buildRequestId deliveryId ≠ .empty := by
  intro h
  have hbytes := congrArg CString.bytes h
  simp [buildRequestId, literal, JournalRecord.ascii, CString.empty] at hbytes

/-- Whether a request can be built does not depend on which valid recipient it is for. -/
lemma buildDeliveryRequest_eq (options : ListenerOptions) (sender : CString) (i : ℕ) {recipient : CString} (hmessage : message ≠ [])
    (hvalid : isValidDeliveryRecipient (some recipient) = true) :
    ∃ identity, buildDeliveryRequest options sender i recipient message =
      if validOptionalText options.deliveryId && validOptionalText sender then
        some ⟨identity, ⟨buildRecipientDeliveryId options.deliveryId i, sender, [recipient], message⟩⟩
      else none := by
  refine ⟨⟨buildRequestId (buildRecipientDeliveryId options.deliveryId i), copyOptionalIdentity callerIdentity,
    copyOptionalIdentity options.accountId, copyOptionalIdentity toolIdentity,
    copyOptionalIdentity (buildRequestId (buildRecipientDeliveryId options.deliveryId i))⟩, ?_⟩
  have hrecipient := validText_recipient hvalid
  have hlist : List.isEmpty message = false := by simpa using hmessage
  simp only [buildDeliveryRequest, requestIdentityInit, if_neg (buildRequestId_ne _), ingestionRequestInit,
    validText_deliveryId, List.isEmpty_cons, List.all_cons, List.all_nil, hrecipient, hlist, Bool.not_false,
    Bool.and_true, Option.bind_eq_bind, Option.bind_some]
  split <;> rfl

/-- The loop from a recipient on, where the requests can be built. -/
lemma deliverFrom_submitted (daemon : Daemon) (recipients : List CString) (hbuild : (validOptionalText options.deliveryId && validOptionalText sender) = true)
    (hmessage : message ≠ []) (i : ℕ) {rest : List CString}
    (hvalid : ∀ r ∈ rest, isValidDeliveryRecipient (some r) = true) :
    ∃ replies : List DeliveryReply, ∃ submissions : List Submission,
      deliverFrom options daemon sender recipients message i rest = ⟨replies.map .delivery, submissions⟩ ∧
      replies.length = rest.length ∧ submissions.map (fun s => s.request.recipients) = rest.map (fun r => [r]) ∧
      (∀ s ∈ submissions, s.request.envelopeSender = sender) ∧
      ∀ (k : ℕ) (reply : DeliveryReply) (s : Submission), replies[k]? = some reply → submissions[k]? = some s →
        reply.replyCode = 250 → Confirmed daemon (i + k) s := by
  induction rest generalizing i with
  | nil => exact ⟨[], [], rfl, rfl, rfl, by simp, by simp⟩
  | cons recipient rest ih =>
    obtain ⟨identity, heq⟩ := buildDeliveryRequest_eq options sender i hmessage
      (hvalid recipient (List.mem_cons_self ..))
    rw [if_pos hbuild] at heq
    obtain ⟨replies, submissions, hrest, hlen, hrecipients, hsenders, hconfirmed⟩ :=
      ih (i + 1) fun r hr => hvalid r (List.mem_cons_of_mem recipient hr)
    refine ⟨bridgeDeliver daemon options.daemonSocketPath i
      ⟨identity, ⟨buildRecipientDeliveryId options.deliveryId i, sender, [recipient], message⟩⟩ :: replies,
      ⟨identity, ⟨buildRecipientDeliveryId options.deliveryId i, sender, [recipient], message⟩⟩ :: submissions,
      ?_, by simp [hlen], by simp [hrecipients], ?_, ?_⟩
    · rw [deliverFrom, heq]
      simp only [hrest, List.map_cons]
    · intro s hs
      rcases List.mem_cons.mp hs with rfl | hs
      · rfl
      · exact hsenders s hs
    · intro k reply s hreply hs h250
      cases k with
      | zero =>
        obtain rfl := Option.some.inj hreply
        obtain rfl := Option.some.inj hs
        exact bridgeDeliver_250 h250
      | succ k =>
        have hlater := hconfirmed k reply s hreply hs h250
        rwa [Nat.add_assoc, Nat.add_comm 1 k] at hlater

lemma deliverFrom_failed (daemon : Daemon) (recipients : List CString) (hbuild : (validOptionalText options.deliveryId && validOptionalText sender) = false)
    (hmessage : message ≠ []) (i : ℕ) {recipient : CString} (rest : List CString)
    (hvalid : isValidDeliveryRecipient (some recipient) = true) :
    deliverFrom options daemon sender recipients message i (recipient :: rest) =
      localTemporaryFailure recipients := by
  obtain ⟨identity, heq⟩ := buildDeliveryRequest_eq options sender i hmessage hvalid
  rw [hbuild, if_neg (by decide)] at heq
  rw [deliverFrom, heq]

lemma localTemporaryFailure_eq (h : recipients ≠ []) :
    localTemporaryFailure recipients = ⟨recipients.map fun _ => .temporaryLocal, []⟩ := by
  have hlist : recipients.isEmpty = false := by simpa using h
  simp [localTemporaryFailure, hlist]

theorem deliverTransaction_answers (options : ListenerOptions) (daemon : Daemon) (message : List UInt8)
    {t : Transaction} (hsender : t.sender = some sender) (hne : t.recipients ≠ [])
    (hvalid : ∀ r ∈ t.recipients, isValidDeliveryRecipient (some r) = true) :
    Answers daemon sender t.recipients (deliverTransaction options daemon t message).replies
      (deliverTransaction options daemon t message).submissions := by
  have hfailed : Answers daemon sender t.recipients (localTemporaryFailure t.recipients).replies
      (localTemporaryFailure t.recipients).submissions := by
    rw [localTemporaryFailure_eq hne]
    exact .failed
  rw [deliverTransaction, hsender]
  simp only
  split
  · exact hfailed
  case isFalse hcomplete =>
    simp only [Bool.or_eq_true, List.isEmpty_iff, not_or] at hcomplete
    by_cases hbuild : (validOptionalText options.deliveryId && validOptionalText sender) = true
    · obtain ⟨replies, submissions, heq, hlen, hrecipients, hsenders, hconfirmed⟩ :=
        deliverFrom_submitted daemon t.recipients hbuild hcomplete.2 0 hvalid
      rw [heq]
      refine .submitted replies submissions hlen hrecipients hsenders fun k reply s hreply hs h250 => ?_
      simpa using hconfirmed k reply s hreply hs h250
    · obtain ⟨recipient, rest, hlist⟩ := List.exists_cons_of_ne_nil hne
      have hfirst := hvalid recipient (hlist ▸ List.mem_cons_self ..)
      have heq := deliverFrom_failed daemon t.recipients (by simpa using hbuild) hcomplete.2 0 rest hfirst
      rw [← hlist] at heq
      rw [heq]
      exact hfailed

end

/-! ## The stream -/

section
variable {options : ListenerOptions} {daemon : Daemon}

lemma readData_fuel (maxMessageBytes : ℕ) {fuel : ℕ} (message : List UInt8) {input : List UInt8} (h : input.length < fuel) :
    (∃ clean rest, readData maxMessageBytes fuel message input = .closed ∧ rest <:+ input ∧
        readCrlfLine maxLineBytes rest = .closed clean) ∨
      (∃ rest, readData maxMessageBytes fuel message input = .tooLong ∧ rest <:+ input ∧
        readCrlfLine maxLineBytes rest = .tooLong) ∨
      readData maxMessageBytes fuel message input = .exceeded ∨
      ∃ message' rest, readData maxMessageBytes fuel message input = .complete message' rest := by
  induction fuel generalizing message input with
  | zero => omega
  | succ fuel ih =>
    rw [readData]
    cases hread : readCrlfLine maxLineBytes input with
    | closed clean => exact .inl ⟨clean, input, rfl, List.suffix_refl input, hread⟩
    | tooLong => exact .inr (.inl ⟨input, rfl, List.suffix_refl input, hread⟩)
    | line raw rest =>
      simp only
      split
      · exact .inr (.inr (.inr ⟨message, rest, rfl⟩))
      split
      · exact .inr (.inr (.inl rfl))
      case h_2 message' hline =>
        have hlt := readCrlfLine_rest hread
        have hsuffix : rest <:+ input := ⟨wire raw, (readCrlfLine_wire hread).symm⟩
        rcases ih message' (show rest.length < fuel by omega) with
          ⟨clean, tail, heq, htail, hclosed⟩ | ⟨tail, heq, htail, hlong⟩ | heq | ⟨message'', tail, heq⟩
        · exact .inl ⟨clean, tail, heq, htail.trans hsuffix, hclosed⟩
        · exact .inr (.inl ⟨tail, heq, htail.trans hsuffix, hlong⟩)
        · exact .inr (.inr (.inl heq))
        · exact .inr (.inr (.inr ⟨message'', tail, heq⟩))

/-- `Protocol` for the part of a connection that begins after the exchanges of `log`. -/
structure Continues (daemon : Daemon) (log : List Exchange) (allocated : Bool) (input : List UInt8) (trace : Trace) :
    Prop where
  reads : ∃ raws rest, input = raws.flatMap wire ++ rest ∧
    trace.exchanges.map Exchange.line = lineTexts allocated raws
  answered : ∀ before e after, trace.exchanges = before ++ e :: after →
    Answered daemon (log ++ before) e after trace.submissions trace.ending
  lhlo : (allocated = true ∨ ¬wire [] <+: input) → ∀ e ∈ trace.exchanges, e.replies = [.lhlo] → IsLhlo e.line
  ends : trace.ending = .closed ∨ trace.ending = .tooLong ∨ trace.ending = .quit ∨ trace.ending = .finished
  closed : trace.ending = .closed → ∃ rest clean, rest <:+ input ∧
    readCrlfLine maxLineBytes rest = .closed clean
  tooLong : trace.ending = .tooLong → ∃ rest, rest <:+ input ∧ readCrlfLine maxLineBytes rest = .tooLong
  silent : trace.ending ≠ .finished → trace.submissions = []

lemma singleton_split {α : Type} {x e : α} {before after : List α} (h : [x] = before ++ e :: after) :
    before = [] ∧ x = e ∧ after = [] := by
  cases before with
  | nil => simpa using h
  | cons y before => simp at h

/-- The last exchange of a connection. -/
lemma Continues.last {log : List Exchange} {allocated : Bool} {raw rest input : List UInt8} {e : Exchange}
    {submissions : List Submission} {ending : Ending} (hinput : input = wire raw ++ rest)
    (hline : e.line = lineText allocated raw) (hnot : e.replies ≠ [.lhlo])
    (hanswered : Answered daemon log e [] submissions ending)
    (hends : ending = .closed ∨ ending = .tooLong ∨ ending = .quit ∨ ending = .finished)
    (hclosed : ending = .closed → ∃ tail clean, tail <:+ rest ∧ readCrlfLine maxLineBytes tail = .closed clean)
    (hlong : ending = .tooLong → ∃ tail, tail <:+ rest ∧ readCrlfLine maxLineBytes tail = .tooLong)
    (hsilent : ending ≠ .finished → submissions = []) :
    Continues daemon log allocated input ⟨[e], submissions, ending⟩ where
  reads := ⟨[raw], rest, by simpa using hinput, by simp [lineTexts, hline]⟩
  answered := fun before e' after hsplit => by
    obtain ⟨rfl, rfl, rfl⟩ := singleton_split hsplit
    simpa using hanswered
  lhlo := fun _ e' he' hreplies => by
    rw [List.mem_singleton.mp he'] at hreplies
    exact absurd hreplies hnot
  ends := hends
  closed := fun he => by
    obtain ⟨tail, clean, htail, hread⟩ := hclosed he
    exact ⟨tail, clean, htail.trans ⟨wire raw, hinput.symm⟩, hread⟩
  tooLong := fun he => by
    obtain ⟨tail, htail, hread⟩ := hlong he
    exact ⟨tail, htail.trans ⟨wire raw, hinput.symm⟩, hread⟩
  silent := hsilent

theorem handleData_continues {log : List Exchange} {t : Transaction} {allocated : Bool} {raw rest input : List UInt8}
    (h : Follows log t) (hdispatch : dispatch t (lineText allocated raw) = .startData)
    (hinput : input = wire raw ++ rest) :
    Continues daemon log allocated input (handleData options daemon t (lineText allocated raw) rest) := by
  have hne := dispatch_startData hdispatch
  have haccepted : acceptedRecipients log ≠ [] := h.recipients ▸ hne
  obtain ⟨sender, hsender⟩ : ∃ sender, openSender log = some sender :=
    Option.isSome_iff_exists.mp (h.mail ▸ h.opened hne)
  have hdata : ∀ {answers submissions}, Answers daemon sender (acceptedRecipients log) answers submissions →
      Answered daemon log ⟨lineText allocated raw, .startData :: answers ++ [.bye]⟩ [] submissions .finished :=
    fun hanswers => ⟨.inr (.inr ⟨rfl, rfl, sender, _, hsender, rfl, hanswers⟩), by simp, by simp,
      fun _ => haccepted⟩
  have hopen : ∀ ending, ending = .closed ∨ ending = .tooLong →
      Answered daemon log ⟨lineText allocated raw, [.startData]⟩ [] [] ending :=
    fun ending hending => ⟨.inr (.inl ⟨rfl, rfl, hending⟩), by simp, by simp, fun _ => haccepted⟩
  rcases readData_fuel options.maxMessageBytes []
      (Nat.lt_succ_self rest.length) with
    ⟨clean, tail, heq, htail, hread⟩ | ⟨tail, heq, htail, hread⟩ | heq | ⟨message, tail, heq⟩
  · rw [handleData, heq]
    exact .last hinput rfl (by simp) (hopen .closed (.inl rfl)) (.inl rfl) (fun _ => ⟨tail, clean, htail, hread⟩)
      nofun (fun _ => rfl)
  · rw [handleData, heq]
    exact .last hinput rfl (by simp) (hopen .tooLong (.inr rfl)) (.inr (.inl rfl)) nofun
      (fun _ => ⟨tail, htail, hread⟩) (fun _ => rfl)
  · rw [handleData, heq, h.recipients]
    exact .last hinput rfl (by simp) (hdata .exceeded) (.inr (.inr (.inr rfl))) nofun nofun (fun hn => absurd rfl hn)
  · rw [handleData, heq]
    have hanswers := deliverTransaction_answers options daemon message
      (h.sender.trans hsender) hne h.valid
    rw [h.recipients] at hanswers
    exact .last hinput rfl (by simp) (hdata hanswers) (.inr (.inr (.inr rfl))) nofun nofun
      (fun hn => absurd rfl hn)

/-- A turn of the loop that goes on. -/
lemma Continues.cons {log : List Exchange} {t t' : Transaction} {allocated : Bool} {raw rest input : List UInt8}
    {reply : Reply} {trace : Trace} (h : Follows log t) (hinput : input = wire raw ++ rest)
    (hstep : Dispatched log (lineText allocated raw) t reply t')
    (hrest : Continues daemon (log ++ [⟨lineText allocated raw, [reply]⟩]) (allocated || !raw.isEmpty) rest trace) :
    Continues daemon log allocated input (trace.after ⟨lineText allocated raw, [reply]⟩) where
  reads := by
    obtain ⟨raws, tail, hraws, hlines⟩ := hrest.reads
    exact ⟨raw :: raws, tail, by rw [hinput, hraws]; simp, by simp [Trace.after, lineTexts, hlines]⟩
  answered := fun before e after hsplit => by
    cases before with
    | nil =>
      obtain ⟨rfl, rfl⟩ := List.cons.inj hsplit
      refine ⟨.inl ⟨reply, rfl, hstep.data⟩, fun hreply => ?_, fun hreply => ?_, fun hmem => ?_⟩
      · obtain ⟨hseen, hmail⟩ := hstep.mail (List.singleton_inj.mp hreply)
        rw [h.mail] at hmail
        rw [List.append_nil]
        exact ⟨h.lhlo ▸ hseen, by simpa using hmail⟩
      · rw [List.append_nil]
        exact h.mail ▸ hstep.rcpt (List.singleton_inj.mp hreply)
      · exact absurd (List.mem_singleton.mp hmem).symm hstep.data
    | cons first before =>
      obtain ⟨rfl, htail⟩ := List.cons.inj hsplit
      have hanswered := hrest.answered before e after htail
      rwa [List.append_assoc] at hanswered
  lhlo := fun hstart e he hreplies => by
    rcases List.mem_cons.mp he with rfl | he
    · rcases hstep.lhlo (List.singleton_inj.mp hreplies) with hnone | hlhlo
      · -- only an empty line before any other has no text
        have hempty : allocated = false ∧ raw = [] := by
          simpa [lineText] using hnone
        rcases hstart with hstart | hstart
        · exact absurd (hempty.1.symm.trans hstart) (by decide)
        · rw [hempty.2] at hinput
          exact absurd ⟨rest, hinput.symm⟩ hstart
      · exact hlhlo
    · refine hrest.lhlo ?_ e he hreplies
      by_cases hraw : raw = []
      · rcases hstart with hstart | hstart
        · exact .inl (by rw [hstart]; rfl)
        · rw [hraw] at hinput
          exact absurd ⟨rest, hinput.symm⟩ hstart
      · exact .inl (by simp [hraw])
  ends := hrest.ends
  closed := fun he => by
    obtain ⟨tail, clean, htail, hread⟩ := hrest.closed he
    exact ⟨tail, clean, htail.trans ⟨wire raw, hinput.symm⟩, hread⟩
  tooLong := fun he => by
    obtain ⟨tail, htail, hread⟩ := hrest.tooLong he
    exact ⟨tail, htail.trans ⟨wire raw, hinput.symm⟩, hread⟩
  silent := hrest.silent

/-- A connection that ends before a line is read. -/
lemma Continues.ended {log : List Exchange} {allocated : Bool} {input : List UInt8} {ending : Ending}
    (hends : (∃ clean, ending = .closed ∧ readCrlfLine maxLineBytes input = .closed clean) ∨
      (ending = .tooLong ∧ readCrlfLine maxLineBytes input = .tooLong)) :
    Continues daemon log allocated input ⟨[], [], ending⟩ where
  reads := ⟨[], input, rfl, rfl⟩
  answered := fun before e after hsplit => absurd hsplit (by simp)
  lhlo := fun _ e he => absurd he List.not_mem_nil
  ends := by
    rcases hends with ⟨-, hclosed, -⟩ | ⟨hlong, -⟩
    · exact .inl hclosed
    · exact .inr (.inl hlong)
  closed := fun he => by
    rcases hends with ⟨clean, -, hread⟩ | ⟨hlong, -⟩
    · exact ⟨input, clean, List.suffix_refl input, hread⟩
    · exact absurd (he.symm.trans hlong) (by decide)
  tooLong := fun he => by
    rcases hends with ⟨-, hclosed, -⟩ | ⟨-, hread⟩
    · exact absurd (he.symm.trans hclosed) (by decide)
    · exact ⟨input, List.suffix_refl input, hread⟩
  silent := fun _ => rfl

theorem commandLoop_continues {fuel : ℕ} {log : List Exchange} {allocated : Bool} {t : Transaction}
    {input : List UInt8} (h : Follows log t) (hfuel : input.length < fuel) :
    Continues daemon log allocated input (commandLoop options daemon fuel allocated t input) := by
  induction fuel generalizing log allocated t input with
  | zero => omega
  | succ fuel ih =>
    rw [commandLoop]
    cases hread : readCrlfLine maxLineBytes input with
    | closed clean => exact .ended (.inl ⟨clean, rfl, hread⟩)
    | tooLong => exact .ended (.inr ⟨rfl, hread⟩)
    | line raw rest =>
      have hinput := readCrlfLine_wire hread
      have hlt := readCrlfLine_rest hread
      simp only
      cases hdispatch : dispatch t (lineText allocated raw) with
      | reply reply t' =>
        have hstep := h.dispatch hdispatch
        exact .cons h hinput hstep (ih hstep.follows (by omega))
      | startData => exact handleData_continues h hdispatch hinput
      | quit =>
        have hanswered : Answered daemon log ⟨lineText allocated raw, [.bye]⟩ [] [] .quit :=
          ⟨.inl ⟨.bye, rfl, nofun⟩, by simp, by simp, by simp⟩
        exact .last hinput rfl (by simp) hanswered (.inr (.inr (.inl rfl))) nofun nofun (fun _ => rfl)

end

/-- The answers after DATA are as many as the recipients, in a stream that ends with the end of data. -/
def AnswersEachRecipient (input : List UInt8) (trace : Trace) : Prop :=
  wire [] ++ wire [46] <:+ input → ∀ log e after, trace.exchanges = log ++ e :: after → .startData ∈ e.replies →
    e.replies.length = 1 + (acceptedRecipients log).length

lemma sampleAccount_ne : literal "a" ≠ .empty := by decide

lemma sampleDelivery_ne : literal "d" ≠ .empty := by decide

def sampleOptions : ListenerOptions :=
  ⟨literal "a", literal "d", literal "s", 100, sampleAccount_ne, sampleDelivery_ne, by decide, by decide⟩

/-- A message whose only line the listener cannot read. -/
def longLineInput : List UInt8 :=
  wire (JournalRecord.ascii "LHLO a") ++ (wire (JournalRecord.ascii "MAIL FROM:<>") ++
    (wire (JournalRecord.ascii "RCPT TO:<a>") ++ (wire (JournalRecord.ascii "DATA") ++
      (wire (List.replicate (maxLineBytes + 1) 120) ++ wire [46]))))

section
variable {options : ListenerOptions} {daemon : Daemon} {fuel : ℕ} {allocated : Bool} {t t' : Transaction}
  {raw rest : List UInt8} {reply : Reply}

lemma commandLoop_reply (hcr : 13 ∉ raw) (hlen : raw.length ≤ maxLineBytes)
    (h : dispatch t (lineText allocated raw) = .reply reply t') :
    commandLoop options daemon (fuel + 1) allocated t (wire raw ++ rest) =
      (commandLoop options daemon fuel (allocated || !raw.isEmpty) t' rest).after
        ⟨lineText allocated raw, [reply]⟩ := by
  rw [commandLoop, readCrlfLine_of_wire hcr hlen]
  simp only [h]

lemma commandLoop_data (hcr : 13 ∉ raw) (hlen : raw.length ≤ maxLineBytes)
    (h : dispatch t (lineText allocated raw) = .startData) :
    commandLoop options daemon (fuel + 1) allocated t (wire raw ++ rest) =
      handleData options daemon t (lineText allocated raw) rest := by
  rw [commandLoop, readCrlfLine_of_wire hcr hlen]
  simp only [h]

end

/-- Where the stream stops, the transaction is open. -/
lemma longLine_trace (options : ListenerOptions) (daemon : Daemon) (fuel : ℕ) :
    commandLoop options daemon (fuel + 4) false .initial longLineInput =
      ⟨[⟨some (literal "LHLO a"), [.lhlo]⟩, ⟨some (literal "MAIL FROM:<>"), [.senderAccepted]⟩,
        ⟨some (literal "RCPT TO:<a>"), [.recipientAccepted]⟩, ⟨some (literal "DATA"), [.startData]⟩], [], .tooLong⟩ := by
  have hlhlo : dispatch .initial (lineText false (JournalRecord.ascii "LHLO a")) =
      .reply .lhlo ⟨true, false, none, []⟩ := rfl
  have hmail : dispatch ⟨true, false, none, []⟩ (lineText true (JournalRecord.ascii "MAIL FROM:<>")) =
      .reply .senderAccepted ⟨true, true, some .empty, []⟩ := rfl
  have hrcpt : dispatch ⟨true, true, some .empty, []⟩ (lineText true (JournalRecord.ascii "RCPT TO:<a>")) =
      .reply .recipientAccepted ⟨true, true, some .empty, [literal "a"]⟩ := rfl
  have hdata : dispatch ⟨true, true, some .empty, [literal "a"]⟩ (lineText true (JournalRecord.ascii "DATA")) =
      .startData := rfl
  have hread : ∀ n, readData options.maxMessageBytes (n + 1) []
      (wire (List.replicate (maxLineBytes + 1) 120) ++ wire [46]) = .tooLong := by
    intro n
    rw [readData, wire, List.append_assoc, readCrlfLine, readLoop_replicate (by decide) (Nat.zero_le _)
      (by rw [List.length_nil]; omega)]
  rw [longLineInput, commandLoop_reply (by decide) (by decide) hlhlo]
  rw [show (false || !(JournalRecord.ascii "LHLO a").isEmpty) = true from rfl,
    commandLoop_reply (by decide) (by decide) hmail, Bool.true_or, commandLoop_reply (by decide) (by decide) hrcpt,
    Bool.true_or, commandLoop_data (by decide) (by decide) hdata, handleData, hread]
  rfl

end Wyrebox.Lmtp
