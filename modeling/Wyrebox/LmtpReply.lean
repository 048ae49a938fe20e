import Wyrebox.LmtpText

set_option autoImplicit false

/-!
# Replies to a delivery

A delivery becomes a request to the daemon. What comes back becomes one LMTP reply, and only a success
receipt with all its parts becomes a 250.
-/
namespace Wyrebox.Lmtp
open CString

/-! ## Requests -/

/-- `WyreboxDaemonRequestIdentity`. -/
structure RequestIdentity where
  requestId : CString
  callerIdentity : Option CString
  accountIdentity : Option CString
  toolIdentity : Option CString
  correlationId : Option CString
  deriving DecidableEq

/-- `copy_optional_identity`. -/
def copyOptionalIdentity (value : CString) : Option CString := if value = .empty then none else some value

/-- `wyrebox_daemon_request_identity_init`. -/
def requestIdentityInit (requestId callerIdentity accountIdentity toolIdentity correlationId : CString) :
    Option RequestIdentity :=
  if requestId = .empty then none
  else some ⟨requestId, copyOptionalIdentity callerIdentity, copyOptionalIdentity accountIdentity,
    copyOptionalIdentity toolIdentity, copyOptionalIdentity correlationId⟩

/-- `WyreboxDaemonDeliveryIngestionRequest`. Both clients leave its queue id `NULL`. -/
structure IngestionRequest where
  deliveryId : CString
  envelopeSender : CString
  recipients : List CString
  messageBytes : List UInt8
  deriving DecidableEq

/-- `validate_optional_text`. -/
def validOptionalText (value : CString) : Bool := value.bytes.all fun b => !isControl b

/-- `validate_non_empty_text`. -/
def validText (value : CString) : Bool := !value.bytes.isEmpty && validOptionalText value

/-- `wyrebox_daemon_delivery_ingestion_request_init`. -/
def ingestionRequestInit (deliveryId envelopeSender : CString) (recipients : List CString)
    (messageBytes : List UInt8) : Option IngestionRequest :=
  if validText deliveryId && validOptionalText envelopeSender && !recipients.isEmpty &&
      recipients.all validText && !messageBytes.isEmpty then
    some ⟨deliveryId, envelopeSender, recipients, messageBytes⟩
  else none

structure Submission where
  identity : RequestIdentity
  request : IngestionRequest
  deriving DecidableEq

/-! ## Responses -/

/-- `WyreboxDaemonErrorClass`. -/
inductive ErrorClass where
  | temporaryFailure
  | permanentFailure
  | permissionDenied
  | notFound
  | conflict
  | internalError
  deriving DecidableEq, Repr

/-- `WyreboxDaemonSuccessReceipt`. Its summary takes no part in a reply. -/
structure SuccessReceipt where
  requestId : Option CString
  durableMarker : Option CString
  journalOffset : UInt64
  journalSequence : UInt64

/-- The payload of a response frame. A class outside the enumeration has no name. -/
inductive Payload where
  | none
  | success (receipt : SuccessReceipt)
  | error (requestId : Option CString) (errorClass : Option ErrorClass)
  | streamChunk
  | mailboxList
  | mailboxSelect

/-- `WyreboxDaemonResponseFrame`. -/
structure ResponseFrame where
  requestId : Option CString
  correlationId : Option CString
  payload : Payload

/-- What comes back for the n-th request of a connection: nothing where the request cannot be encoded or
    sent, or where no frame can be read back. -/
abbrev Daemon := ℕ → Submission → Option ResponseFrame

/-! ## Replies -/

/-- `WyreboxPostfixLmtpReplyOutcome`. -/
inductive Outcome where
  | delivered
  | temporaryFailure
  | permanentFailure
  deriving DecidableEq, Repr

/-- `WyreboxPostfixLmtpReply` without its log message. -/
structure DeliveryReply where
  outcome : Outcome
  replyCode : ℕ
  enhancedStatus : String
  replyText : String
  deriving DecidableEq, Repr

/-- `reply_init_temporary_failure`. -/
def temporaryFailure : DeliveryReply := ⟨.temporaryFailure, 451, "4.3.0", "Temporary local delivery failure"⟩

def present (value : Option CString) : Bool := value.any fun s => !s.bytes.isEmpty

/-- What `reply_init_from_success` asks of a receipt. -/
def SuccessReceipt.WellFormed (receipt : SuccessReceipt) : Prop :=
  present receipt.requestId ∧ present receipt.durableMarker ∧ receipt.journalSequence ≠ 0

instance (receipt : SuccessReceipt) : Decidable receipt.WellFormed :=
  inferInstanceAs (Decidable (_ ∧ _ ∧ _))

/-- `reply_init_from_success`. -/
def replyInitFromSuccess (receipt : SuccessReceipt) : DeliveryReply :=
  if receipt.WellFormed then ⟨.delivered, 250, "2.0.0", "Delivery accepted"⟩ else temporaryFailure

/-- `reply_codes_for_daemon_error_class`. -/
def replyForErrorClass : ErrorClass → DeliveryReply
  | .temporaryFailure | .conflict | .internalError => temporaryFailure
  | .permanentFailure => ⟨.permanentFailure, 554, "5.6.0", "Message rejected"⟩
  | .permissionDenied => ⟨.permanentFailure, 550, "5.7.1", "Delivery not authorized"⟩
  | .notFound => ⟨.permanentFailure, 550, "5.1.1", "Recipient unavailable"⟩

/-- `reply_init_from_daemon_error`. -/
def replyInitFromDaemonError (requestId : Option CString) (errorClass : Option ErrorClass) : DeliveryReply :=
  match errorClass with
  | some errorClass => if present requestId then replyForErrorClass errorClass else temporaryFailure
  | none => temporaryFailure

/-- `wyrebox_postfix_lmtp_reply_init_from_response`. -/
def replyInitFromResponse (response : ResponseFrame) : DeliveryReply :=
  match response.payload with
  | .success receipt => replyInitFromSuccess receipt
  | .error requestId errorClass => replyInitFromDaemonError requestId errorClass
  | .none | .streamChunk | .mailboxList | .mailboxSelect => temporaryFailure

/-- `validate_input`. The clients always pass an identity and a request. -/
def validInput (socketPath : CString) (identity : RequestIdentity) : Bool :=
  !socketPath.bytes.isEmpty && !identity.requestId.bytes.isEmpty && present identity.correlationId

/-- `response_matches_identity`. -/
def responseMatches (response : ResponseFrame) (identity : RequestIdentity) : Bool :=
  response.requestId == some identity.requestId && response.correlationId == identity.correlationId

/-- `wyrebox_postfix_lmtp_delivery_bridge_deliver`, for the n-th request. -/
def bridgeDeliver (daemon : Daemon) (socketPath : CString) (n : ℕ) (submission : Submission) : DeliveryReply :=
  if !validInput socketPath submission.identity then temporaryFailure
  else match daemon n submission with
    | none => temporaryFailure
    | some response =>
      if !responseMatches response submission.identity then temporaryFailure
      else replyInitFromResponse response

/-- The daemon returned a success receipt with all its parts for the request. -/
def Confirmed (daemon : Daemon) (n : ℕ) (submission : Submission) : Prop :=
  ∃ response receipt, daemon n submission = some response ∧
    response.requestId = some submission.identity.requestId ∧
    response.correlationId = submission.identity.correlationId ∧
    response.payload = .success receipt ∧ receipt.WellFormed

theorem replyForErrorClass_ne_250 (errorClass : ErrorClass) : (replyForErrorClass errorClass).replyCode ≠ 250 := by
  cases errorClass <;> decide

theorem replyInitFromResponse_250 {response : ResponseFrame} (h : (replyInitFromResponse response).replyCode = 250) :
    ∃ receipt, response.payload = .success receipt ∧ receipt.WellFormed := by
  rw [replyInitFromResponse] at h
  split at h
  case h_1 receipt hpayload =>
    refine ⟨receipt, hpayload, ?_⟩
    by_contra hmalformed
    rw [replyInitFromSuccess, if_neg hmalformed] at h
    cases h
  case h_2 requestId errorClass hpayload =>
    unfold replyInitFromDaemonError at h
    split at h
    · split at h
      · exact absurd h (replyForErrorClass_ne_250 _)
      · cases h
    · cases h
  all_goals cases h

theorem bridgeDeliver_250 {daemon : Daemon} {socketPath : CString} {n : ℕ} {submission : Submission}
    (h : (bridgeDeliver daemon socketPath n submission).replyCode = 250) : Confirmed daemon n submission := by
  rw [bridgeDeliver] at h
  split at h
  · cases h
  split at h
  · cases h
  case h_2 response hresponse =>
    split at h
    · cases h
    case isFalse hmatches =>
      obtain ⟨receipt, hpayload, hreceipt⟩ := replyInitFromResponse_250 h
      rw [Bool.not_eq_true', Bool.not_eq_false, responseMatches, Bool.and_eq_true, beq_iff_eq, beq_iff_eq] at hmatches
      exact ⟨response, receipt, hresponse, hmatches.1, hmatches.2, hpayload, hreceipt⟩

/-- A delivery is confirmed where the request can be sent. -/
theorem bridgeDeliver_of_confirmed {daemon : Daemon} {socketPath : CString} {n : ℕ} {submission : Submission}
    (hinput : validInput socketPath submission.identity = true) (h : Confirmed daemon n submission) :
    (bridgeDeliver daemon socketPath n submission).replyCode = 250 := by
  obtain ⟨response, receipt, hresponse, hrequest, hcorrelation, hpayload, hreceipt⟩ := h
  have hmatches : responseMatches response submission.identity = true := by
    rw [responseMatches, hrequest, hcorrelation]
    simp
  rw [bridgeDeliver, hinput, hresponse]
  simp only [Bool.not_true, Bool.false_eq_true, if_false, hmatches, replyInitFromResponse, hpayload,
    replyInitFromSuccess, if_pos hreceipt]

end Wyrebox.Lmtp
