import Wyrebox.LmtpReply

set_option autoImplicit false

/-!
# The LMTP delivery listener

One connection of `wyrebox-postfix-lmtp-delivery`. The listener reads a line, answers it and goes on; the
first DATA that gets past its check is the last command it answers.
-/
namespace Wyrebox.Lmtp
open CString
open PayloadText (strndup)

/-- `WYREBOX_POSTFIX_LMTP_DELIVERY_MAX_LINE_BYTES`. -/
def maxLineBytes : ℕ := 8192

def maxGuint : ℕ := 2 ^ 32 - 1

/-- The options after `parse_options`. -/
structure ListenerOptions where
  accountId : CString
  deliveryId : CString
  daemonSocketPath : CString
  maxMessageBytes : ℕ
  accountId_ne : accountId ≠ .empty
  deliveryId_ne : deliveryId ≠ .empty
  maxMessageBytes_pos : 0 < maxMessageBytes
  maxMessageBytes_lt : maxMessageBytes < 2 ^ 63

/-! ## Replies -/

inductive Reply where
  | lhlo
  | badSequence
  | badSender
  | senderAccepted
  | badRecipient
  | recipientAccepted
  | startData
  | sizeExceeded
  | temporaryLocal
  | delivery (reply : DeliveryReply)
  | reset
  | bye
  | unrecognized
  deriving DecidableEq, Repr

/-- The lines of a reply, each of which `write_line` ends with CR LF. -/
def Reply.lines : Reply → List String
  | .lhlo => ["250-wyrebox", "250 PIPELINING"]
  | .badSequence => ["503 5.5.1 Bad command sequence"]
  | .badSender => ["501 5.5.4 Bad sender address"]
  | .senderAccepted => ["250 2.1.0 Sender accepted"]
  | .badRecipient => ["501 5.5.4 Bad recipient address"]
  | .recipientAccepted => ["250 2.1.5 Recipient accepted"]
  | .startData => ["354 End data with <CR><LF>.<CR><LF>"]
  | .sizeExceeded => ["552 5.3.4 Message size exceeds limit"]
  | .temporaryLocal => ["451 4.3.0 Temporary local delivery failure"]
  | .delivery reply => [toString reply.replyCode ++ " " ++ reply.enhancedStatus ++ " " ++ reply.replyText]
  | .reset => ["250 2.0.0 Reset state"]
  | .bye => ["221 2.0.0 Bye"]
  | .unrecognized => ["500 5.5.2 Command not recognized"]

def greeting : String := "220 wyrebox LMTP ready"

/-- Whether a recipient is told that its message was delivered. -/
def Reply.delivers : Reply → Prop
  | .delivery reply => reply.replyCode = 250
  | _ => False

/-! ## Commands -/

/-- `ListenerTransaction` without its message, which exists inside DATA only. -/
structure Transaction where
  seenLhlo : Bool
  seenMail : Bool
  sender : Option CString
  recipients : List CString

def Transaction.initial : Transaction := ⟨false, false, none, []⟩

/-- `is_valid_delivery_recipient`. -/
def isValidDeliveryRecipient : Option CString → Bool
  | none => false
  | some recipient => !recipient.bytes.isEmpty && recipient.bytes.all fun b => !isControl b

/-- `reset_transaction`. -/
def Transaction.reset (t : Transaction) : Transaction :=
  { t with sender := none, recipients := [], seenMail := false }

inductive Next where
  | reply (reply : Reply) (t : Transaction)
  | startData
  | quit

/-- One turn of the loop of `handle_connection`, up to the body of DATA. -/
def dispatch (t : Transaction) : Option CString → Next
  | none =>
    -- `g_ascii_strncasecmp` answers 0 for a `NULL` line, after a warning: it is taken for LHLO
    .reply .lhlo { t with seenLhlo := true }
  | some line =>
    if hasPrefixCi line lhloCommand then .reply .lhlo { t with seenLhlo := true }
    else if hasPrefixCi line mailCommand then
      if !t.seenLhlo || t.seenMail then .reply .badSequence t
      else match extractPathArgument line mailCommand with
        | none => .reply .badSender t
        | some sender => .reply .senderAccepted { t with sender := some sender, seenMail := true }
    else if hasPrefixCi line rcptCommand then
      if !t.seenMail then .reply .badSequence t
      else match extractPathArgument line rcptCommand with
        | none => .reply .badRecipient t
        | some recipient =>
          if isValidDeliveryRecipient (some recipient) then
            .reply .recipientAccepted { t with recipients := t.recipients ++ [recipient] }
          else .reply .badRecipient t
    else if equalCi line dataCommand then
      if t.recipients.isEmpty then .reply .badSequence t else .startData
    else if equalCi line rsetCommand then .reply .reset t.reset
    else if equalCi line quitCommand then .quit
    else .reply .unrecognized t

/-! ## The message -/

inductive DataRead where
  | complete (message rest : List UInt8)
  | exceeded
  | closed
  | tooLong
  | outOfFuel

/-- `append_data_line`. -/
def appendDataLine (maxMessageBytes : ℕ) (message line : List UInt8) : Option (List UInt8) :=
  let payload := unstuff line
  if maxGuint < payload.length ∨ maxGuint < message.length + payload.length + 2 ∨
      maxMessageBytes < message.length + payload.length + 2 then none
  else some (message ++ wire payload)

/-- The inner loop of `handle_connection`. -/
def readData (maxMessageBytes : ℕ) : ℕ → List UInt8 → List UInt8 → DataRead
  | 0, _, _ => .outOfFuel
  | fuel + 1, message, input =>
    match readCrlfLine maxLineBytes input with
    | .closed _ => .closed
    | .tooLong => .tooLong
    | .line raw rest =>
      if raw = [46] then .complete message rest
      else match appendDataLine maxMessageBytes message raw with
        | none => .exceeded
        | some message => readData maxMessageBytes fuel message rest

/-! ## Delivery -/

def buildRecipientDeliveryId (deliveryId : CString) (recipientIndex : ℕ) : CString :=
  deliveryId ++ literal "/rcpt/" ++ decimal (recipientIndex + 1)

def buildRequestId (deliveryId : CString) : CString := literal "postfix-lmtp:" ++ deliveryId

def callerIdentity : CString := literal "postfix"
def toolIdentity : CString := literal "wyrebox-postfix-lmtp-delivery"

/-- `build_delivery_request`. -/
def buildDeliveryRequest (options : ListenerOptions) (sender : CString) (recipientIndex : ℕ) (recipient : CString)
    (message : List UInt8) : Option Submission := do
  let deliveryId := buildRecipientDeliveryId options.deliveryId recipientIndex
  let requestId := buildRequestId deliveryId
  let identity ← requestIdentityInit requestId callerIdentity options.accountId toolIdentity requestId
  let request ← ingestionRequestInit deliveryId sender [recipient] message
  some ⟨identity, request⟩

structure Deliveries where
  replies : List Reply
  submissions : List Submission

/-- `write_local_temporary_failure`. -/
def localTemporaryFailure (recipients : List CString) : Deliveries :=
  ⟨if recipients.isEmpty then [.temporaryLocal] else recipients.map fun _ => .temporaryLocal, []⟩

/-- The loop of `deliver_transaction` from a recipient on. -/
def deliverFrom (options : ListenerOptions) (daemon : Daemon) (sender : CString) (recipients : List CString)
    (message : List UInt8) : ℕ → List CString → Deliveries
  | _, [] => ⟨[], []⟩
  | i, recipient :: rest =>
    match buildDeliveryRequest options sender i recipient message with
    | none => localTemporaryFailure recipients
    | some submission =>
      let later := deliverFrom options daemon sender recipients message (i + 1) rest
      ⟨.delivery (bridgeDeliver daemon options.daemonSocketPath i submission) :: later.replies,
        submission :: later.submissions⟩

/-- `deliver_transaction`. -/
def deliverTransaction (options : ListenerOptions) (daemon : Daemon) (t : Transaction) (message : List UInt8) :
    Deliveries :=
  match t.sender with
  | none => localTemporaryFailure t.recipients
  | some sender =>
    if t.recipients.isEmpty || message.isEmpty then localTemporaryFailure t.recipients
    else deliverFrom options daemon sender t.recipients message 0 t.recipients

/-! ## A connection -/

/-- A line that the listener read, and its answer. -/
structure Exchange where
  line : Option CString
  replies : List Reply

inductive Ending where
  /-- The stream ended or failed. -/
  | closed
  | tooLong
  | quit
  /-- A transaction has been answered. -/
  | finished
  | outOfFuel
  deriving DecidableEq, Repr

structure Trace where
  exchanges : List Exchange
  submissions : List Submission
  ending : Ending

def Trace.after (exchange : Exchange) (trace : Trace) : Trace :=
  { trace with exchanges := exchange :: trace.exchanges }

/-- DATA, after its 354. -/
def handleData (options : ListenerOptions) (daemon : Daemon) (t : Transaction) (line : Option CString)
    (input : List UInt8) : Trace :=
  match readData options.maxMessageBytes (input.length + 1) [] input with
  | .closed => ⟨[⟨line, [.startData]⟩], [], .closed⟩
  | .tooLong => ⟨[⟨line, [.startData]⟩], [], .tooLong⟩
  | .outOfFuel => ⟨[⟨line, [.startData]⟩], [], .outOfFuel⟩
  | .exceeded => ⟨[⟨line, .startData :: t.recipients.map (fun _ => .sizeExceeded) ++ [.bye]⟩], [], .finished⟩
  | .complete message _ =>
    let deliveries := deliverTransaction options daemon t message
    ⟨[⟨line, .startData :: deliveries.replies ++ [.bye]⟩], deliveries.submissions, .finished⟩

/-- The loop of `handle_connection`. A line takes at least CR LF from the stream, so its length suffices
    as fuel. `allocated` tells that the line buffer has storage. -/
def commandLoop (options : ListenerOptions) (daemon : Daemon) : ℕ → Bool → Transaction → List UInt8 → Trace
  | 0, _, _, _ => ⟨[], [], .outOfFuel⟩
  | fuel + 1, allocated, t, input =>
    match readCrlfLine maxLineBytes input with
    | .closed _ => ⟨[], [], .closed⟩
    | .tooLong => ⟨[], [], .tooLong⟩
    | .line raw rest =>
      let line := lineText allocated raw
      match dispatch t line with
      | .reply reply t =>
        (commandLoop options daemon fuel (allocated || !raw.isEmpty) t rest).after ⟨line, [reply]⟩
      | .startData => handleData options daemon t line rest
      | .quit => ⟨[⟨line, [.bye]⟩], [], .quit⟩

/-- `handle_connection`, after its greeting. -/
def handleConnection (options : ListenerOptions) (daemon : Daemon) (input : List UInt8) : Trace :=
  commandLoop options daemon (input.length + 1) false .initial input

end Wyrebox.Lmtp
