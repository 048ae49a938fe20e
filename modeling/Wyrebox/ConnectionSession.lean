import Mathlib.Algebra.Group.Nat.Defs
import Wyrebox.Framing

set_option autoImplicit false

/-!
# Daemon connections

The frames of the daemon socket, the session that answers one connection, and the client that sends
one request over a connection of its own.
-/
namespace Wyrebox.ConnectionSession
open Framing

/-! ## Frames -/

def frameLengthBytes : ℕ := 4

def maxFrameSize : ℕ := 4 * 1024 * 1024

/-- `write_u32_be`. -/
def writeU32Be (value : ℕ) : List UInt8 :=
  [UInt8.ofNat (value / 2 ^ 24), UInt8.ofNat (value / 2 ^ 16), UInt8.ofNat (value / 2 ^ 8), UInt8.ofNat value]

/-- `read_u32_be` of the four bytes there are. -/
def readU32Be (data : List UInt8) : ℕ := data.foldl (fun value byte => value * 2 ^ 8 + byte.toNat) 0

theorem readU32Be_writeU32Be {value : ℕ} (h : value < 2 ^ 32) : readU32Be (writeU32Be value) = value := by
  simp only [readU32Be, writeU32Be, List.foldl_cons, List.foldl_nil, UInt8.toNat_ofNat']
  omega

theorem writeU32Be_readU32Be (bytes : List UInt8) (h : bytes.length = 4) : writeU32Be (readU32Be bytes) = bytes := by
  obtain ⟨a, b, c, d, rfl⟩ := List.length_eq_four.mp h
  have ha := a.toNat_lt
  have hb := b.toNat_lt
  have hc := c.toNat_lt
  have hd := d.toNat_lt
  simp only [readU32Be, writeU32Be, List.foldl_cons, List.foldl_nil, List.cons.injEq, and_true]
  refine ⟨?_, ?_, ?_, ?_⟩
  all_goals
    apply UInt8.toNat.inj
    rw [UInt8.toNat_ofNat']
    omega

def header : Header where
  width := frameLengthBytes
  limit := maxFrameSize
  spell := writeU32Be
  value := readU32Be
  width_pos := by decide
  spell_length := fun _ => rfl
  value_spell := fun n hn => readU32Be_writeU32Be (hn.trans_lt (by decide))
  spell_value := writeU32Be_readU32Be

/-- `stream` is an error of the stream below. -/
inductive FrameError where
  | payloadRequired
  | payloadEmpty
  | exceedsMaximum
  | sizeExceedsMaximum (size : ℕ)
  | streamEnded
  | lengthTruncated
  | payloadTruncated
  | stream
  deriving DecidableEq

def FrameError.message : FrameError → String
  | .payloadRequired => "daemon frame payload is required"
  | .payloadEmpty => "daemon frame payload must be non-empty"
  | .exceedsMaximum => "daemon frame payload exceeds maximum size of " ++ toString maxFrameSize ++ " bytes"
  | .sizeExceedsMaximum size =>
    "daemon frame payload size " ++ toString size ++ " exceeds maximum of " ++ toString maxFrameSize ++ " bytes"
  | .streamEnded => "daemon frame stream ended before a frame"
  | .lengthTruncated => "daemon frame length prefix is truncated"
  | .payloadTruncated => "daemon frame payload is truncated"
  | .stream => "failed"

/-- The bytes that `wyrebox_daemon_frame_io_write_payload` writes. -/
def writePayload : Option (List UInt8) → Except FrameError (List UInt8)
  | none => .error .payloadRequired
  | some payload =>
    if payload = [] then .error .payloadEmpty
    else if maxFrameSize < payload.length then .error .exceedsMaximum
    else .ok (writeU32Be payload.length ++ payload)

/-- What a peer sends, and whether reading fails behind it or finds the end of the stream. -/
structure Input where
  bytes : List UInt8
  fails : Bool

/-- `g_input_stream_read_all`. -/
def readAll (count : ℕ) (input : Input) : Option (List UInt8 × Input) :=
  if input.bytes.length < count ∧ input.fails = true then none
  else some (input.bytes.take count, ⟨input.bytes.drop count, input.fails⟩)

/-- `wyrebox_daemon_frame_io_read_payload_or_eof`. At the end of the stream there is no payload. -/
def readPayloadOrEof (input : Input) : Except FrameError (Option (List UInt8) × Input) :=
  match readAll frameLengthBytes input with
  | none => .error .stream
  | some (found, input) =>
    if found = [] then .ok (none, input)
    else if found.length ≠ frameLengthBytes then .error .lengthTruncated
    else if readU32Be found = 0 then .error .payloadEmpty
    else if maxFrameSize < readU32Be found then .error (.sizeExceedsMaximum (readU32Be found))
    else
      match readAll (readU32Be found) input with
      | none => .error .stream
      | some (payload, input) =>
        if payload.length ≠ readU32Be found then .error .payloadTruncated else .ok (some payload, input)

/-- `wyrebox_daemon_frame_io_read_payload`. -/
def readPayload (input : Input) : Except FrameError (List UInt8) :=
  match readPayloadOrEof input with
  | .error error => .error error
  | .ok (none, _) => .error .streamEnded
  | .ok (some payload, _) => .ok payload

/-- What reading finds where no frame begins. -/
def endError (fails : Bool) : Stuck → Option FrameError
  | .ended => if fails then some .stream else none
  | .shortHeader => some (if fails then .stream else .lengthTruncated)
  | .noPayload => some .payloadEmpty
  | .tooLong size => some (.sizeExceedsMaximum size)
  | .shortPayload => some (if fails then .stream else .payloadTruncated)

section
variable {input : Input} {payload rest : List UInt8} {stuck : Stuck}

theorem writePayload_eq_ok {frame : List UInt8} :
    writePayload (some payload) = .ok frame ↔ header.Fits payload ∧ frame = header.frame payload := by
  rw [writePayload, Header.Fits]
  split_ifs with hempty hlong
  · simp [hempty]
  · have hnot : ¬payload.length ≤ header.limit := Nat.not_le.mpr hlong
    simp [hnot]
  · have hfits : payload.length ≤ header.limit := Nat.not_lt.mp hlong
    simp only [Except.ok.injEq, hempty, not_false_eq_true, hfits, and_self, true_and, ne_eq]
    exact eq_comm

theorem readAll_of_le {count : ℕ} (h : count ≤ input.bytes.length) :
    readAll count input = some (input.bytes.take count, ⟨input.bytes.drop count, input.fails⟩) := by
  rw [readAll, if_neg]
  omega

theorem readPayloadOrEof_frame (h : header.first input.bytes = .ok (payload, rest)) :
    readPayloadOrEof input = .ok (some payload, ⟨rest, input.fails⟩) := by
  obtain ⟨hfits, hspelled⟩ := Header.first_eq_ok h
  have hlength : input.bytes.length = 4 + payload.length + rest.length := by
    rw [hspelled, List.length_append, Header.frame_length]
    rfl
  have htake : input.bytes.take frameLengthBytes = writeU32Be payload.length := by
    rw [hspelled]
    rfl
  have hdrop : input.bytes.drop frameLengthBytes = payload ++ rest := by
    rw [hspelled]
    rfl
  have hpos := List.length_pos_iff.mpr hfits.1
  have hlimit : payload.length ≤ maxFrameSize := hfits.2
  have hvalue : readU32Be (writeU32Be payload.length) = payload.length :=
    readU32Be_writeU32Be (hlimit.trans_lt (by decide))
  have hfour : (writeU32Be payload.length).length = frameLengthBytes := rfl
  have hread : readAll payload.length ⟨payload ++ rest, input.fails⟩ = some (payload, ⟨rest, input.fails⟩) := by
    rw [readAll_of_le (by simp), List.take_left, List.drop_left]
  rw [readPayloadOrEof, readAll_of_le (by rw [frameLengthBytes]; omega), htake, hdrop]
  simp only [hvalue, hread]
  rw [if_neg (List.ne_nil_of_length_pos (by rw [hfour]; decide)), if_neg (not_not.mpr hfour), if_neg (by omega),
    if_neg (by omega), if_neg (not_not.mpr rfl)]

theorem readPayloadOrEof_stuck (h : header.first input.bytes = .error stuck) :
    match endError input.fails stuck with
    | none => ∃ input', readPayloadOrEof input = .ok (none, input')
    | some error => readPayloadOrEof input = .error error := by
  obtain ⟨bytes, fails⟩ := input
  have hwidth : header.width = frameLengthBytes := rfl
  have hvalue : header.value = readU32Be := rfl
  have hlimit : header.limit = maxFrameSize := rfl
  simp only [Header.first, hwidth, hvalue, hlimit] at h
  split_ifs at h with hnil hshort hzero hlong hcut
  · cases h
    cases fails with
    | false => exact ⟨_, by rw [readPayloadOrEof, readAll, hnil]; rfl⟩
    | true => simp [endError, readPayloadOrEof, readAll, hnil, frameLengthBytes]
  · cases h
    have htake : bytes.take frameLengthBytes = bytes := List.take_of_length_le hshort.le
    cases fails with
    | false => simp [endError, readPayloadOrEof, readAll, htake, hnil, hshort.ne]
    | true => simp [endError, readPayloadOrEof, readAll, hshort]
  all_goals
    have hle : frameLengthBytes ≤ bytes.length := Nat.not_lt.mp hshort
    have hlength : (bytes.take frameLengthBytes).length = frameLengthBytes := List.length_take_of_le hle
    have hne : bytes.take frameLengthBytes ≠ [] := List.ne_nil_of_length_pos (by rw [hlength]; decide)
    cases h
    simp only [readPayloadOrEof, @readAll_of_le ⟨bytes, fails⟩ _ hle, if_neg hne, hlength, ne_eq, not_true, if_false,
      endError]
  · rw [if_pos hzero]
  · rw [if_neg hzero, if_pos hlong]
  · rw [if_neg hzero, if_neg hlong]
    cases fails with
    | false =>
      simp only [readAll, Bool.false_eq_true, and_false, if_false]
      rw [if_pos]
      rw [List.length_take]
      omega
    | true => simp only [readAll, and_true, if_pos hcut, if_true]

end

/-! ## The session -/

/-- The response to a request, or the error of the callback, if it gives one. -/
abbrev PayloadHandler (σ ε : Type) : Type := σ → List UInt8 → σ × Except (Option ε) (List UInt8)

inductive SessionError (ε : Type) where
  | read (error : FrameError)
  | handler (error : Option ε)
  | write (error : FrameError)

/-- What a session leaves behind. -/
structure Outcome (σ ε : Type) where
  state : σ
  sent : List UInt8
  result : Except (SessionError ε) Unit

/-- `g_output_stream_write_all` to a peer that takes `room` bytes more, or all. -/
def writeAll (room : Option ℕ) (bytes : List UInt8) : List UInt8 × Option (Option ℕ) :=
  match room with
  | none => (bytes, some none)
  | some room => if bytes.length ≤ room then (bytes, some (some (room - bytes.length))) else (bytes.take room, none)

section
variable {σ ε : Type} (handler : PayloadHandler σ ε)

/-- The answer to one request: the state, the bytes that get out, and the room left, unless the session ends. -/
def answer (state : σ) (room : Option ℕ) (request : List UInt8) : σ × List UInt8 × Except (SessionError ε) (Option ℕ) :=
  match handler state request with
  | (state, .error error) => (state, [], .error (.handler error))
  | (state, .ok response) =>
    match writePayload (some response) with
    | .error error => (state, [], .error (.write error))
    | .ok frame =>
      match writeAll room frame with
      | (sent, none) => (state, sent, .error (.write .stream))
      | (sent, some room) => (state, sent, .ok room)

def processLoop : ℕ → σ → Option ℕ → Input → Outcome σ ε
  | 0, state, _, _ => ⟨state, [], .ok ()⟩
  | fuel + 1, state, room, input =>
    match readPayloadOrEof input with
    | .error error => ⟨state, [], .error (.read error)⟩
    | .ok (none, _) => ⟨state, [], .ok ()⟩
    | .ok (some request, input) =>
      match answer handler state room request with
      | (state, sent, .error error) => ⟨state, sent, .error error⟩
      | (state, sent, .ok room) =>
        let outcome := processLoop fuel state room input
        { outcome with sent := sent ++ outcome.sent }

/-- `wyrebox_daemon_connection_session_process_payloads`. Each turn takes a frame. -/
def processPayloads (state : σ) (room : Option ℕ) (input : Input) : Outcome σ ε :=
  processLoop handler (input.bytes.length + 1) state room input

/-- The requests one after the other, whatever frames they come in. -/
def serve (final : Option FrameError) : σ → Option ℕ → List (List UInt8) → Outcome σ ε
  | state, _, [] =>
    ⟨state, [], match final with | none => .ok () | some error => .error (.read error)⟩
  | state, room, request :: requests =>
    match answer handler state room request with
    | (state, sent, .error error) => ⟨state, sent, .error error⟩
    | (state, sent, .ok room) =>
      let outcome := serve final state room requests
      { outcome with sent := sent ++ outcome.sent }

variable {handler}
variable {state : σ} {room : Option ℕ} {input : Input} {requests : List (List UInt8)} {rest : List UInt8} {stuck : Stuck}

theorem processLoop_eq_serve (hsplits : header.Splits input.bytes requests rest stuck) {fuel : ℕ}
    (hfuel : input.bytes.length < fuel) :
    processLoop handler fuel state room input = serve handler (endError input.fails stuck) state room requests := by
  induction requests generalizing fuel state room input with
  | nil =>
    have hstuck : header.first input.bytes = .error stuck := by
      have hspelled := hsplits.spelled
      rw [List.flatMap_nil, List.nil_append] at hspelled
      rw [hspelled, hsplits.stuck]
    have hread := readPayloadOrEof_stuck hstuck
    cases fuel with
    | zero => omega
    | succ fuel =>
      rw [processLoop, serve.eq_def]
      dsimp only
      cases hfinal : endError input.fails stuck with
      | none =>
        rw [hfinal] at hread
        obtain ⟨input', hread⟩ := hread
        rw [hread]
      | some error =>
        rw [hfinal] at hread
        simp only at hread
        rw [hread]
  | cons request requests ih =>
    have hfirst := Header.first_frame (hsplits.fits request List.mem_cons_self) (requests.flatMap header.frame ++ rest)
    rw [← List.append_assoc, ← List.flatMap_cons, ← hsplits.spelled] at hfirst
    have htail : header.Splits (requests.flatMap header.frame ++ rest) requests rest stuck :=
      ⟨fun payload hmem => hsplits.fits payload (List.mem_cons_of_mem _ hmem), rfl, hsplits.stuck⟩
    have hshorter := Header.first_rest_lt hfirst
    cases fuel with
    | zero => omega
    | succ fuel =>
      rw [processLoop, readPayloadOrEof_frame hfirst, serve.eq_def]
      dsimp only
      cases answer handler state room request with
      | mk state answered =>
        obtain ⟨sent, result⟩ := answered
        cases result with
        | error error => rfl
        | ok room =>
          dsimp only
          rw [@ih state room ⟨_, input.fails⟩ htail fuel (by simp only; omega)]

/-- Each request gets its response from the state that the one before it left. -/
inductive Answers (handler : PayloadHandler σ ε) : σ → List (List UInt8) → List (List UInt8) → σ → Prop
  | nil (state : σ) : Answers handler state [] [] state
  | cons {state state' state'' : σ} {request response : List UInt8} {requests responses : List (List UInt8)} :
    handler state request = (state', .ok response) → Answers handler state' requests responses state'' →
    Answers handler state (request :: requests) (response :: responses) state''

/-- The end of a session that answered `count` of the requests from `state`, after sending `cut` of a frame. -/
inductive Ends (handler : PayloadHandler σ ε) (final : Option FrameError) (requests : List (List UInt8)) (count : ℕ)
    (state : σ) : List UInt8 → Outcome σ ε → Prop
  | answered {sent : List UInt8} : count = requests.length → final = none →
    Ends handler final requests count state [] ⟨state, sent, .ok ()⟩
  | unread {sent : List UInt8} {error : FrameError} : count = requests.length → final = some error →
    Ends handler final requests count state [] ⟨state, sent, .error (.read error)⟩
  | failed {sent request : List UInt8} {state' : σ} {error : Option ε} : requests[count]? = some request →
    handler state request = (state', .error error) →
    Ends handler final requests count state [] ⟨state', sent, .error (.handler error)⟩
  | refused {sent request response : List UInt8} {state' : σ} {error : FrameError} : requests[count]? = some request →
    handler state request = (state', .ok response) → writePayload (some response) = .error error →
    Ends handler final requests count state [] ⟨state', sent, .error (.write error)⟩
  | broken {sent request response cut : List UInt8} {state' : σ} : requests[count]? = some request →
    handler state request = (state', .ok response) → header.Fits response → cut <+: header.frame response →
    cut.length < (header.frame response).length →
    Ends handler final requests count state cut ⟨state', sent, .error (.write .stream)⟩

variable {final : Option FrameError} {count : ℕ} {request cut sent : List UInt8} {outcome : Outcome σ ε}

theorem Ends.cons (h : Ends handler final requests count state cut outcome) :
    Ends handler final (request :: requests) (count + 1) state cut { outcome with sent := sent ++ outcome.sent } := by
  cases h with
  | answered hcount hfinal => exact .answered (congrArg Nat.succ hcount) hfinal
  | unread hcount hfinal => exact .unread (congrArg Nat.succ hcount) hfinal
  | failed hrequest hhandler => exact .failed hrequest hhandler
  | refused hrequest hhandler hwrite => exact .refused hrequest hhandler hwrite
  | broken hrequest hhandler hfits hcut hlength => exact .broken hrequest hhandler hfits hcut hlength

theorem writeAll_spec (room : Option ℕ) (bytes : List UInt8) :
    (∃ room', writeAll room bytes = (bytes, some room')) ∨
      ∃ n < bytes.length, writeAll room bytes = (bytes.take n, none) := by
  cases room with
  | none => exact .inl ⟨none, rfl⟩
  | some room =>
    rw [writeAll]
    by_cases h : bytes.length ≤ room
    · exact .inl ⟨_, if_pos h⟩
    · exact .inr ⟨room, Nat.not_le.mp h, if_neg h⟩

/-- Either the response goes out whole, or the session ends. -/
theorem answer_cases (state : σ) (room : Option ℕ) (request : List UInt8) (requests : List (List UInt8)) :
    (∃ state' response room', handler state request = (state', .ok response) ∧ header.Fits response ∧
      answer handler state room request = (state', header.frame response, .ok room')) ∨
    ∃ state' cut error, answer handler state room request = (state', cut, .error error) ∧
      Ends handler final (request :: requests) 0 state cut ⟨state', cut, .error error⟩ := by
  rw [answer]
  cases hhandler : handler state request with
  | mk state' result =>
    cases result with
    | error error => exact .inr ⟨state', [], _, rfl, .failed rfl hhandler⟩
    | ok response =>
      dsimp only
      cases hwrite : writePayload (some response) with
      | error error => exact .inr ⟨state', [], _, rfl, .refused rfl hhandler hwrite⟩
      | ok frame =>
        obtain ⟨hfits, rfl⟩ := writePayload_eq_ok.mp hwrite
        dsimp only
        rcases writeAll_spec room (header.frame response) with ⟨room', hall⟩ | ⟨n, hn, hcut⟩
        · rw [hall]
          exact .inl ⟨state', response, room', rfl, hfits, rfl⟩
        · rw [hcut]
          refine .inr ⟨state', _, _, rfl, .broken rfl hhandler hfits (List.take_prefix _ _) ?_⟩
          rw [List.length_take]
          omega

theorem Ends.first_cut (h : Ends handler final requests count state cut outcome) :
    ∃ stuck, header.first cut = .error stuck := by
  cases h with
  | answered | unread | failed | refused => exact ⟨.ended, rfl⟩
  | broken _ _ hfits hcut hlength =>
    rw [List.prefix_iff_eq_take] at hcut
    rw [hcut]
    exact Header.first_take_frame hfits hlength

theorem serve_answers (final : Option FrameError) (state : σ) (room : Option ℕ) (requests : List (List UInt8)) :
    ∃ responses state' cut, Answers handler state (requests.take responses.length) responses state' ∧
      (∀ response ∈ responses, header.Fits response) ∧
      (serve handler final state room requests).sent = responses.flatMap header.frame ++ cut ∧
      Ends handler final requests responses.length state' cut (serve handler final state room requests) := by
  induction requests generalizing state room with
  | nil =>
    refine ⟨[], state, [], .nil state, by simp, ?_, ?_⟩
    · rw [serve.eq_def]
      rfl
    · rw [serve.eq_def]
      cases final with
      | none => exact .answered rfl rfl
      | some error => exact .unread rfl rfl
  | cons request requests ih =>
    rw [serve.eq_def]
    dsimp only
    rcases @answer_cases σ ε handler final state room request requests with
      ⟨state', response, room', hhandler, hfits, hanswer⟩ | ⟨state', cut, error, hanswer, hends⟩
    · obtain ⟨responses, state'', cut, hanswers, hall, hsent, hends⟩ := ih state' room'
      rw [hanswer]
      refine ⟨response :: responses, state'', cut, .cons hhandler hanswers, List.forall_mem_cons.mpr ⟨hfits, hall⟩, ?_,
        hends.cons⟩
      rw [List.flatMap_cons, List.append_assoc, ← hsent]
    · rw [hanswer]
      exact ⟨[], state, cut, .nil state, by simp, rfl, hends⟩

/-- A session answers the whole frames of what it is sent, in order and each from the state that the one
    before it left; its peer reads exactly the responses, and the rest of the input says how it ends. -/
theorem session_answers_in_order (handler : PayloadHandler σ ε) (state : σ) (room : Option ℕ) (input : Input) :
    ∃ requests rest stuck responses state' cut,
      header.Splits input.bytes requests rest stuck ∧
      Answers handler state (requests.take responses.length) responses state' ∧
      (∃ stuck', header.Splits (processPayloads handler state room input).sent responses cut stuck') ∧
      Ends handler (endError input.fails stuck) requests responses.length state' cut
        (processPayloads handler state room input) := by
  obtain ⟨requests, rest, stuck, hsplits⟩ := @Header.exists_splits header input.bytes
  have hserve : processPayloads handler state room input = serve handler (endError input.fails stuck) state room requests :=
    processLoop_eq_serve hsplits (Nat.lt_succ_self _)
  obtain ⟨responses, state', cut, hanswers, hfits, hsent, hends⟩ :=
    @serve_answers σ ε handler (endError input.fails stuck) state room requests
  rw [hserve]
  obtain ⟨stuck', hstuck⟩ := hends.first_cut
  exact ⟨requests, rest, stuck, responses, state', cut, hsplits, hanswers, ⟨stuck', hfits, hsent, hstuck⟩, hends⟩

/-! ## The client -/

inductive ClientError where
  | requestEmpty
  | frame (error : FrameError)
  deriving DecidableEq

/-- `wyrebox_daemon_uds_client_send_request` and the session at the other end. The daemon takes `sendRoom`
    bytes, the client `room`. -/
def sendRequest (handler : PayloadHandler σ ε) (sendRoom room : Option ℕ) (state : σ) (request : List UInt8) :
    σ × Except ClientError (List UInt8) :=
  if request = [] then (state, .error .requestEmpty)
  else
    match writePayload (some request) with
    | .error error => (state, .error (.frame error))
    | .ok frame =>
      let (sent, remaining) := writeAll sendRoom frame
      let outcome := processPayloads handler state room ⟨sent, false⟩
      (outcome.state,
        if remaining.isNone then .error (.frame .stream)
        else
          match readPayload ⟨outcome.sent, false⟩ with
          | .error error => .error (.frame error)
          | .ok response => .ok response)

theorem processPayloads_frame (hfits : header.Fits request) :
    (processPayloads handler state room ⟨header.frame request, false⟩).state = (answer handler state room request).1 ∧
      (processPayloads handler state room ⟨header.frame request, false⟩).sent =
        (answer handler state room request).2.1 := by
  have hsplits : header.Splits (header.frame request) [request] [] .ended :=
    ⟨List.forall_mem_singleton.mpr hfits, by simp, rfl⟩
  rw [processPayloads, processLoop_eq_serve hsplits (Nat.lt_succ_self _), serve.eq_def]
  dsimp only
  cases answer handler state room request with
  | mk state' answered =>
    obtain ⟨sent, result⟩ := answered
    cases result with
    | error error => exact ⟨rfl, rfl⟩
    | ok room' =>
      dsimp only
      rw [serve.eq_def]
      exact ⟨rfl, List.append_nil sent⟩

/-- No part of a frame asks the daemon for anything. -/
theorem processPayloads_cut (hfits : header.Fits request) {n : ℕ} (hn : n < (header.frame request).length) :
    (processPayloads handler state room ⟨(header.frame request).take n, false⟩).state = state := by
  obtain ⟨stuck, hstuck⟩ := Header.first_take_frame hfits hn
  have hsplits : header.Splits ((header.frame request).take n) [] ((header.frame request).take n) stuck :=
    ⟨by simp, by simp, hstuck⟩
  rw [processPayloads, processLoop_eq_serve hsplits (Nat.lt_succ_self _), serve.eq_def]

theorem answer_state (state : σ) (room : Option ℕ) (request : List UInt8) :
    (answer handler state room request).1 = (handler state request).1 := by
  rw [answer]
  cases handler state request with
  | mk state' result =>
    cases result with
    | error error => rfl
    | ok response =>
      dsimp only
      cases writePayload (some response) with
      | error error => rfl
      | ok frame =>
        dsimp only
        rcases writeAll room frame with ⟨sent, _ | room'⟩ <;> rfl

/-- The client reads a response only if the handler gave it. -/
theorem readPayload_answer {response : List UInt8}
    (h : readPayload ⟨(answer handler state room request).2.1, false⟩ = .ok response) :
    handler state request = ((answer handler state room request).1, .ok response) := by
  rcases @answer_cases σ ε handler none state room request [] with
    ⟨state', response', room', hhandler, hfits, hanswer⟩ | ⟨state', cut, error, hanswer, hends⟩
  · have hfirst := Header.first_frame hfits []
    rw [List.append_nil] at hfirst
    rw [hanswer, readPayload, @readPayloadOrEof_frame ⟨header.frame response', false⟩ _ _ hfirst] at h
    rw [hanswer, hhandler, Except.ok.inj h]
  · obtain ⟨stuck, hstuck⟩ := hends.first_cut
    have hread := @readPayloadOrEof_stuck ⟨cut, false⟩ _ hstuck
    rw [hanswer, readPayload] at h
    cases hfinal : endError false stuck with
    | none =>
      rw [hfinal] at hread
      obtain ⟨input', hread⟩ := hread
      rw [hread] at h
      cases h
    | some error =>
      rw [hfinal] at hread
      simp only at hread
      rw [hread] at h
      cases h

theorem readPayload_unbroken (state : σ) (request : List UInt8) :
    readPayload ⟨(answer handler state none request).2.1, false⟩ =
      match (handler state request).2 with
      | .ok response => if header.Fits response then .ok response else .error .streamEnded
      | .error _ => .error .streamEnded := by
  rw [answer]
  cases handler state request with
  | mk state' result =>
    cases result with
    | error error => rfl
    | ok response =>
      dsimp only
      by_cases hfits : header.Fits response
      · have hfirst := Header.first_frame hfits []
        rw [List.append_nil] at hfirst
        rw [writePayload_eq_ok.mpr ⟨hfits, rfl⟩, if_pos hfits, readPayload]
        dsimp only [writeAll]
        rw [@readPayloadOrEof_frame ⟨header.frame response, false⟩ _ _ hfirst]
      · cases hwrite : writePayload (some response) with
        | error error =>
          rw [if_neg hfits]
          rfl
        | ok frame => exact absurd (writePayload_eq_ok.mp hwrite).1 hfits

/-- A request reaches the handler once or, if it does not get through, never; a response is the handler's. If
    nothing breaks, the client gets every response that fits in a frame. -/
theorem request_at_most_once (handler : PayloadHandler σ ε) (sendRoom room : Option ℕ) (state : σ) (request : List UInt8) :
    ((sendRequest handler sendRoom room state request).1 = state ∨
      header.Fits request ∧ (sendRequest handler sendRoom room state request).1 = (handler state request).1) ∧
    (∀ response, (sendRequest handler sendRoom room state request).2 = .ok response →
      handler state request = ((sendRequest handler sendRoom room state request).1, .ok response)) ∧
    (header.Fits request → sendRequest handler none none state request = ((handler state request).1,
      match (handler state request).2 with
      | .ok response => if header.Fits response then .ok response else .error (.frame .streamEnded)
      | .error _ => .error (.frame .streamEnded))) := by
  by_cases hempty : request = []
  · have hnot : ¬header.Fits request := fun hfits => hfits.1 hempty
    rw [sendRequest, if_pos hempty]
    exact ⟨.inl rfl, fun response h => by (cases h), fun hfits => absurd hfits hnot⟩
  · rw [sendRequest, sendRequest, if_neg hempty, if_neg hempty]
    cases hwrite : writePayload (some request) with
    | error error =>
      have hnot : ¬header.Fits request := fun hfits => by
        rw [writePayload_eq_ok.mpr ⟨hfits, rfl⟩] at hwrite
        cases hwrite
      exact ⟨.inl rfl, fun response h => by (cases h), fun hfits => absurd hfits hnot⟩
    | ok frame =>
      obtain ⟨hfits, rfl⟩ := writePayload_eq_ok.mp hwrite
      dsimp only
      refine ⟨?_, ?_, fun _ => ?_⟩
      · rcases writeAll_spec sendRoom (header.frame request) with ⟨room', hall⟩ | ⟨n, hn, hcut⟩
        · rw [hall, (processPayloads_frame hfits).1, answer_state]
          exact .inr ⟨hfits, rfl⟩
        · rw [hcut, processPayloads_cut hfits hn]
          exact .inl rfl
      · intro response h
        rcases writeAll_spec sendRoom (header.frame request) with ⟨room', hall⟩ | ⟨n, hn, hcut⟩
        · rw [hall, (processPayloads_frame hfits).2] at h
          rw [hall, (processPayloads_frame hfits).1]
          dsimp only [Option.isNone_some, Bool.false_eq_true, if_false] at h ⊢
          cases hread : readPayload ⟨(answer handler state room request).2.1, false⟩ with
          | error error => simp [hread] at h
          | ok response' =>
            rw [readPayload_answer hread]
            simp only [hread, Bool.false_eq_true, if_false, Except.ok.injEq] at h
            rw [h]
        · simp [hcut] at h
      · dsimp only [writeAll, Option.isNone_some]
        rw [(processPayloads_frame hfits).1, (processPayloads_frame hfits).2, answer_state, readPayload_unbroken]
        cases (handler state request).2 with
        | error error => rfl
        | ok response => by_cases hresponse : header.Fits response <;> simp [hresponse]

end

end Wyrebox.ConnectionSession
