import Wyrebox.Event
import Wyrebox.PayloadText

set_option autoImplicit false

/-!
# The fact mutation payload

The payload of FactInserted and FactRetracted records. Its decoder ends with the checks that a
request passes when it is made.
-/
namespace Wyrebox.FactMutationPayload
open LittleEndian Codec JournalRecord PayloadText Event Fallible

def magic : List UInt8 := ascii "WYREFMP1"
def magicLength : ℕ := 8
def headerSize : ℕ := 9

/-- A `G_IO_ERROR_INVALID_ARGUMENT` of the checks or a `G_IO_ERROR_INVALID_DATA` of the decoder. -/
inductive RequestError where
  | predicateRequired
  | predicateStart
  | predicateCharacter
  | required (field : String)
  | controlCharacters (field : String)
  | emptyArgument
  | argumentControlCharacters
  | stringTooLarge
  | lengthOverflow
  | truncated
  | unsupportedPayload
  | unsupportedKind
  | embeddedNul
  | trailingBytes
  deriving DecidableEq, Repr

def RequestError.message : RequestError → String
  | .predicateRequired => "fact mutation predicate_id is required"
  | .predicateStart => "fact mutation predicate_id must start with lowercase ASCII or underscore"
  | .predicateCharacter => "fact mutation predicate_id contains an unsupported character"
  | .required field => "fact mutation " ++ field ++ " is required"
  | .controlCharacters field => "fact mutation " ++ field ++ " must not contain control characters"
  | .emptyArgument => "fact mutation arguments must not contain empty values"
  | .argumentControlCharacters => "fact mutation arguments must not contain control characters"
  | .stringTooLarge => "FactMutation string is too large"
  | .lengthOverflow => "FactMutation payload length overflows addressable memory"
  | .truncated => "FactMutation payload is truncated"
  | .unsupportedPayload => "unsupported FactMutation payload"
  | .unsupportedKind => "unsupported FactMutation mutation kind"
  | .embeddedNul => "FactMutation string contains embedded NUL"
  | .trailingBytes => "FactMutation payload contains trailing bytes"

/-! ## Checks -/

/-- `g_ascii_islower` or an underscore. -/
def isPredicateStart (b : UInt8) : Bool := (97 ≤ b && b ≤ 122) || b == 95

/-- `g_ascii_isalnum` or an underscore. -/
def isPredicateChar (b : UInt8) : Bool :=
  (48 ≤ b && b ≤ 57) || (65 ≤ b && b ≤ 90) || (97 ≤ b && b ≤ 122) || b == 95

/-- `g_ascii_iscntrl`. -/
def isCntrl (b : UInt8) : Bool := b < 32 || b == 127

def validatePredicateId (predicateId : CString) : Except RequestError Unit :=
  match predicateId.bytes with
  | [] => .error .predicateRequired
  | b :: bs =>
    if !isPredicateStart b then .error .predicateStart
    else if !bs.all isPredicateChar then .error .predicateCharacter
    else .ok ()

def validateRequiredText (field : String) (value : CString) : Except RequestError Unit :=
  if value.bytes.isEmpty then .error (.required field)
  else if value.bytes.any isCntrl then .error (.controlCharacters field)
  else .ok ()

def validateArguments : List CString → Except RequestError Unit
  | [] => .ok ()
  | argument :: arguments =>
    if argument.bytes.isEmpty then .error .emptyArgument
    else if argument.bytes.any isCntrl then .error .argumentControlCharacters
    else validateArguments arguments

/-- `wyrebox_daemon_fact_mutation_request_init`. -/
def requestInit (request : FactMutation) : Except RequestError FactMutation := do
  validatePredicateId request.predicateId
  validateRequiredText "scope_id" request.scopeId
  validateArguments request.arguments
  .ok request

/-! ## Encoding -/

def kindByte : FactMutationKind → UInt8
  | .insert => 0
  | .retract => 1

/-- `count_arguments` counts in a `guint`. -/
def countArguments (arguments : List CString) : ℕ := arguments.length % 2 ^ 32

def layout (request : FactMutation) : List UInt8 :=
  let counted := countArguments request.arguments
  magic ++ (kindByte request.kind :: (encodeText request.predicateId ++ (encodeText request.scopeId ++
    (encode 4 counted ++ (request.arguments.take counted).flatMap encodeText))))

def checkStringLengths : List CString → Except RequestError Unit
  | [] => .ok ()
  | value :: values =>
    if 2 ^ 32 ≤ value.bytes.length then .error .stringTooLarge else checkStringLengths values

/-- `wyrebox_daemon_fact_mutation_request_encode`. No allocation is larger than `PTRDIFF_MAX`. -/
def encodeRequest (request : FactMutation) : Except RequestError GBytes := do
  let _ ← requestInit request
  checkStringLengths (request.predicateId :: request.scopeId ::
    request.arguments.take (countArguments request.arguments))
  if h : (layout request).length ≤ 2 ^ 63 - 1 then .ok ⟨layout request, h⟩ else .error .lengthOverflow

/-! ## Decoding -/

def kindOfByte : UInt8 → Except RequestError FactMutationKind
  | 0 => .ok .insert
  | 1 => .ok .retract
  | _ => .error .unsupportedKind

def decodeFields : Decoder RequestError FactMutation := do
  ensure (fun rest => headerSize ≤ rest.length) .truncated
  let found ← octets magicLength .truncated
  if found ≠ magic then throw .unsupportedPayload
  else do
    let byte ← octets 1 .truncated
    let kind ← kindOfByte (byte.headD 0)
    let predicateId ← text .truncated .embeddedNul
    let scopeId ← text .truncated .embeddedNul
    let argumentCount ← unsigned 4 .truncated
    let arguments ← times (text .truncated .embeddedNul) argumentCount
    pure { kind, predicateId, scopeId, arguments }

/-- `wyrebox_daemon_fact_mutation_request_decode`. -/
def decodeRequest (data : List UInt8) : Except RequestError FactMutation := do
  let (request, rest) ← decodeFields data
  if !rest.isEmpty then .error .trailingBytes else requestInit request

/-! ## What a decoded request has passed -/

/-- The conditions of the checks, on the request as a whole. -/
structure Valid (request : FactMutation) : Prop where
  predicateId : ∃ b bs, request.predicateId.bytes = b :: bs ∧ isPredicateStart b = true ∧
    bs.all isPredicateChar = true
  scopeId : request.scopeId ≠ .empty
  arguments : ∀ argument ∈ request.arguments, argument ≠ .empty

lemma isEmpty_iff (s : CString) : s.bytes.isEmpty = true ↔ s = .empty := by
  rw [List.isEmpty_iff, CString.ext_iff]
  rfl

lemma validateArguments_ok {arguments : List CString} (h : validateArguments arguments = .ok ()) :
    ∀ argument ∈ arguments, argument ≠ .empty := by
  induction arguments with
  | nil => simp
  | cons argument arguments ih =>
    simp only [validateArguments, ite_error_eq_ok, isEmpty_iff] at h
    exact List.forall_mem_cons.mpr ⟨h.1, ih h.2.2⟩

theorem requestInit_ok {request request' : FactMutation} (h : requestInit request = .ok request') :
    request' = request ∧ Valid request := by
  simp only [requestInit, bind_eq_ok, Except.ok.injEq] at h
  obtain ⟨_, hpredicate, _, hscope, _, harguments, heq⟩ := h
  refine ⟨heq.symm, ?_, ?_, validateArguments_ok harguments⟩
  · unfold validatePredicateId at hpredicate
    split at hpredicate
    · simp at hpredicate
    · rename_i b bs hbytes
      simp only [ite_error_eq_ok, Bool.not_eq_true', Bool.not_eq_false] at hpredicate
      exact ⟨b, bs, hbytes, hpredicate.1, hpredicate.2.1⟩
  · simp only [validateRequiredText, ite_error_eq_ok, isEmpty_iff] at hscope
    exact hscope.1

theorem decodeRequest_valid {data : List UInt8} {request : FactMutation}
    (h : decodeRequest data = .ok request) : Valid request := by
  simp only [decodeRequest, bind_eq_ok, ite_error_eq_ok] at h
  obtain ⟨⟨fields, rest⟩, -, -, hinit⟩ := h
  obtain ⟨rfl, hvalid⟩ := requestInit_ok hinit
  exact hvalid

/-! ## The round trip -/

lemma checkStringLengths_ok {values : List CString} (h : checkStringLengths values = .ok ()) :
    ∀ s ∈ values, s.bytes.length < 2 ^ 32 := by
  induction values with
  | nil => simp
  | cons value values ih =>
    simp only [checkStringLengths, ite_error_eq_ok, not_le] at h
    exact List.forall_mem_cons.mpr ⟨h.1, ih h.2⟩

lemma kindOfByte_kindByte (kind : FactMutationKind) : kindOfByte (kindByte kind) = .ok kind := by
  cases kind <;> rfl

theorem reads_decodeFields {request : FactMutation} (hcount : request.arguments.length < 2 ^ 32)
    (hpredicate : request.predicateId.bytes.length < 2 ^ 32) (hscope : request.scopeId.bytes.length < 2 ^ 32)
    (harguments : ∀ s ∈ request.arguments, s.bytes.length < 2 ^ 32) :
    Reads decodeFields (layout request) request := by
  have hcounted : countArguments request.arguments = request.arguments.length := Nat.mod_eq_of_lt hcount
  have hbytes : layout request = magic ++ ([kindByte request.kind] ++ (encodeText request.predicateId ++
      (encodeText request.scopeId ++ (encode 4 request.arguments.length ++
        request.arguments.flatMap encodeText)))) := by
    rw [layout, hcounted, List.take_length]
    rfl
  rw [hbytes]
  refine Reads.ensure ?_ ?_
  · refine (reads_octets _ (by decide)).bind ?_
    rw [if_neg (not_not.mpr rfl)]
    refine (reads_octets _ (List.length_singleton)).bind ?_
    have hkind : Reads (liftM (kindOfByte ([kindByte request.kind].headD 0)) : Decoder RequestError _) []
        request.kind := by
      intro tail
      rw [List.headD_cons, kindOfByte_kindByte]
      rfl
    refine hkind.bind_nil ?_
    refine (reads_text hpredicate).bind ?_
    refine (reads_text hscope).bind ?_
    refine (reads_unsigned _ (by omega)).bind ?_
    exact (reads_times fun s hs => reads_text (harguments s hs)).bind_pure
  · intro tail
    have hmagic : magic.length = 8 := by decide
    simp only [List.length_append, hmagic, headerSize, List.length_singleton, decide_eq_true_eq]
    omega

/-- What the encoder makes of a request decodes to that request. -/
theorem decode_encode {request : FactMutation} {bytes : GBytes} (h : encodeRequest request = .ok bytes)
    (hcount : request.arguments.length < 2 ^ 32) : decodeRequest bytes.data = .ok request := by
  simp only [encodeRequest, bind_eq_ok] at h
  obtain ⟨request', hinit, _, hlengths, hdata⟩ := h
  have hcounted : countArguments request.arguments = request.arguments.length := Nat.mod_eq_of_lt hcount
  have hstrings := checkStringLengths_ok hlengths
  rw [hcounted, List.take_length, List.forall_mem_cons, List.forall_mem_cons] at hstrings
  split at hdata
  · rw [Except.ok.injEq] at hdata
    obtain ⟨rfl, -⟩ := requestInit_ok hinit
    rw [← hdata]
    change (decodeFields (layout _) >>= _) = _
    rw [(reads_decodeFields hcount hstrings.1 hstrings.2.1 hstrings.2.2).run]
    exact hinit
  · simp at hdata

end Wyrebox.FactMutationPayload
