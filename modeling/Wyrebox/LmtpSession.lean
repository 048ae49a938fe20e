import Wyrebox.LmtpListener

set_option autoImplicit false

/-!
# The LMTP session parser

`wyrebox_postfix_lmtp_session_build` reads a whole transcript and makes one request of it.
-/
namespace Wyrebox.Lmtp
open CString

/-- The arguments after `parse_arguments`. -/
structure ParsedArguments where
  accountId : CString
  deliveryId : CString
  socketPath : CString
  accountId_ne : accountId ≠ .empty
  deliveryId_ne : deliveryId ≠ .empty

/-- `LmtpTransaction` and the `in_data` of `parse_lmtp_conversation`. -/
structure Session where
  inData : Bool
  seenLhlo : Bool
  seenMail : Bool
  sender : Option CString
  recipients : List CString
  message : List UInt8

def Session.initial : Session := ⟨false, false, false, none, [], []⟩

def Session.reset (s : Session) : Session :=
  { s with sender := none, recipients := [], message := [], seenMail := false, inData := false }

inductive SessionNext where
  | next (s : Session)
  | quit
  | failed

/-- A command line in the loop of `parse_lmtp_conversation`. -/
def sessionDispatch (s : Session) : Option CString → SessionNext
  | none => .next { s with seenLhlo := true }
  | some line =>
    if hasPrefixCi line lhloCommand then .next { s with seenLhlo := true }
    else if hasPrefixCi line mailCommand then
      if !s.seenLhlo || s.seenMail then .failed
      else match extractPathArgument line mailCommand with
        | none => .failed
        | some sender => .next { s with sender := some sender, seenMail := true }
    else if hasPrefixCi line rcptCommand then
      if !s.seenMail then .failed
      else if !s.recipients.isEmpty then .failed
      else match extractPathArgument line rcptCommand with
        | none => .failed
        | some recipient => .next { s with recipients := s.recipients ++ [recipient] }
    else if equalCi line dataCommand then
      if s.recipients.length ≠ 1 then .failed else .next { s with inData := true }
    else if equalCi line rsetCommand then .next s.reset
    else if equalCi line quitCommand then .quit
    else .failed

/-- `lmtp_transaction_add_data_line`. A `GByteArray` of more than `G_MAXUINT` bytes ends the process. -/
def addDataLine (maxMessageBytes : ℕ) (message line : List UInt8) : Option (List UInt8) :=
  let payload := unstuff line
  if maxMessageBytes < message.length ∨ maxMessageBytes - message.length < payload.length ∨
      maxMessageBytes - message.length - payload.length < 2 then none
  else if maxGuint < message.length + payload.length + 2 then none
  else some (message ++ wire payload)

def sessionLineLimit (maxMessageBytes : ℕ) (s : Session) : ℕ :=
  if s.inData then
    let remaining := maxMessageBytes - s.message.length
    if remaining < 2 then 1 else remaining - 1
  else 8192

/-- The checks after the loop. -/
def Session.finish (s : Session) : Option Session :=
  if s.inData then none
  else if !s.seenMail || s.recipients.length ≠ 1 || s.message.isEmpty then none
  else some s

/-- The loop of `parse_lmtp_conversation`. A line takes at least CR LF from the transcript, so its length
    suffices as fuel. -/
def sessionLoop (maxMessageBytes : ℕ) : ℕ → Bool → Session → List UInt8 → Option Session
  | 0, _, _, _ => none
  | fuel + 1, allocated, s, input =>
    if s.inData && maxMessageBytes < s.message.length then none
    else match readCrlfLine (sessionLineLimit maxMessageBytes s) input with
      | .closed clean => if clean then s.finish else none
      | .tooLong => none
      | .line raw rest =>
        if s.inData then
          if raw = [46] then sessionLoop maxMessageBytes fuel (allocated || !raw.isEmpty) { s with inData := false } rest
          else match addDataLine maxMessageBytes s.message raw with
            | none => none
            | some message =>
              sessionLoop maxMessageBytes fuel (allocated || !raw.isEmpty) { s with message := message } rest
        else match sessionDispatch s (lineText allocated raw) with
          | .next s => sessionLoop maxMessageBytes fuel (allocated || !raw.isEmpty) s rest
          | .quit => s.finish
          | .failed => none

def sessionToolIdentity : CString := literal "wyrebox-postfix-lmtp"

/-- `wyrebox_postfix_lmtp_session_build`, once the arguments are parsed. -/
def sessionBuild (arguments : ParsedArguments) (maxMessageBytes : ℕ) (input : List UInt8) : Option Submission := do
  let s ← sessionLoop maxMessageBytes (input.length + 1) false .initial input
  let requestId := buildRequestId arguments.deliveryId
  let identity ← requestIdentityInit requestId callerIdentity arguments.accountId sessionToolIdentity requestId
  let request ← ingestionRequestInit arguments.deliveryId (s.sender.getD .empty) (s.recipients.take 1) s.message
  some ⟨identity, request⟩

/-! ## Transcripts -/

/-- What a transcript consists of: command lines, and the lines of a DATA up to its end. -/
inductive Element where
  | command (line : Option CString)
  | data (lines : List (List UInt8))

def isCommand (line : Option CString) (command : CString) : Bool := line.any fun text => equalCi text command

/-- A line of a stream, however long. -/
def readLine (input : List UInt8) : LineRead := readCrlfLine input.length input

/-- The stream begins with these lines of a DATA and their end. -/
inductive DataLines : List UInt8 → List (List UInt8) → List UInt8 → Prop where
  | stop {input rest : List UInt8} (h : readLine input = .line [46] rest) : DataLines input [] rest
  | line {input raw rest rest' : List UInt8} {lines : List (List UInt8)} (h : readLine input = .line raw rest)
      (hraw : raw ≠ [46]) (hrest : DataLines rest lines rest') : DataLines input (raw :: lines) rest'

/-- The stream is a transcript with these elements, up to its end or to QUIT. -/
inductive Transcript : Bool → List UInt8 → List Element → Prop where
  | closed {allocated : Bool} {input : List UInt8} (h : readLine input = .closed true) : Transcript allocated input []
  | quit {allocated : Bool} {input raw rest : List UInt8} (h : readLine input = .line raw rest)
      (hquit : isCommand (lineText allocated raw) quitCommand = true) : Transcript allocated input []
  | command {allocated : Bool} {input raw rest : List UInt8} {elements : List Element}
      (h : readLine input = .line raw rest) (hdata : isCommand (lineText allocated raw) dataCommand = false)
      (hquit : isCommand (lineText allocated raw) quitCommand = false)
      (hrest : Transcript (allocated || !raw.isEmpty) rest elements) :
      Transcript allocated input (.command (lineText allocated raw) :: elements)
  | data {allocated : Bool} {input raw rest rest' : List UInt8} {lines : List (List UInt8)} {elements : List Element}
      (h : readLine input = .line raw rest) (hdata : isCommand (lineText allocated raw) dataCommand = true)
      (hlines : DataLines rest lines rest') (hrest : Transcript true rest' elements) :
      Transcript allocated input (.data lines :: elements)

/-- The message that the lines of a DATA make. -/
def messageOf (lines : List (List UInt8)) : List UInt8 := lines.flatMap fun line => wire (unstuff line)

namespace Element

def message : Element → List UInt8
  | .command _ => []
  | .data lines => messageOf lines

def isRset : Element → Bool
  | .command line => isCommand line rsetCommand
  | .data _ => false

/-- The path of a MAIL or RCPT command. -/
def path (command : CString) : Element → Option CString
  | .command (some line) => extractPathArgument line command
  | _ => none

end Element
end Wyrebox.Lmtp
