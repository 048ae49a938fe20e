import Wyrebox.FactMutationPayload

set_option autoImplicit false

/-!
# Fact records

A fact in memory, the checks it passes when it is made, and the text that identifies it.
-/
namespace Wyrebox.FactRecords
open JournalRecord Event Fallible
open FactMutationPayload (isPredicateStart isPredicateChar isEmpty_iff)

def confidenceExact : ℕ := 1000000

inductive FactError where
  | predicateRequired
  | predicateStart
  | predicateCharacter
  | emptyArgument
  | sourceRequired
  | confidenceTooHigh
  | createdRequired
  deriving DecidableEq, Repr

def FactError.message : FactError → String
  | .predicateRequired => "fact predicate is required"
  | .predicateStart => "fact predicate must start with lowercase ASCII or underscore"
  | .predicateCharacter => "fact predicate contains an unsupported character"
  | .emptyArgument => "fact args must not be empty"
  | .sourceRequired => "fact source is required"
  | .confidenceTooHigh => "fact confidence must be <= 1000000"
  | .createdRequired => "fact created timestamp is required"

def validatePredicate (predicate : CString) : Except FactError Unit :=
  match predicate.bytes with
  | [] => .error .predicateRequired
  | b :: bs =>
    if !isPredicateStart b then .error .predicateStart
    else if !bs.all isPredicateChar then .error .predicateCharacter
    else .ok ()

def validateArgs (args : List CString) : Except FactError Unit :=
  if args.any fun arg => arg.bytes.isEmpty then .error .emptyArgument else .ok ()

def validateSource (source : CString) : Except FactError Unit :=
  if source.bytes.isEmpty then .error .sourceRequired else .ok ()

/-- `wyrebox_fact_record_init`. -/
def recordInit (predicate : CString) (args : List CString) (source : CString)
    (confidencePpm createdAtUnixUs : ℕ) : Except FactError FactRecord := do
  validatePredicate predicate
  validateArgs args
  validateSource source
  if confidenceExact < confidencePpm then .error .confidenceTooHigh
  else if createdAtUnixUs = 0 then .error .createdRequired
  else .ok { predicate, args, source, confidencePpm, createdAtUnixUs }

/-! ## Identity keys -/

/-- `append_key_component`. -/
def keyComponent (value : CString) : List UInt8 := (CString.decimal value.bytes.length).bytes ++ 58 :: value.bytes

/-- `build_fact_identity_key`, which is also what a fact id digests. -/
def identityKey (predicate source : CString) (args : List CString) : List UInt8 :=
  (predicate :: source :: args).flatMap keyComponent

lemma colon_not_mem_decimal (n : ℕ) : (58 : UInt8) ∉ (CString.decimal n).bytes := by
  intro h
  have hdigit := CString.mem_decimalDigits h
  simp at hdigit

/-- A component ends where its length says, whatever follows. -/
lemma keyComponent_append_inj {s t : CString} {rest rest' : List UInt8}
    (h : keyComponent s ++ rest = keyComponent t ++ rest') : s = t ∧ rest = rest' := by
  have hdigits : ∀ (s : CString) (rest : List UInt8), (keyComponent s ++ rest).takeWhile (· ≠ 58) =
      (CString.decimal s.bytes.length).bytes := by
    intro s rest
    rw [keyComponent, List.append_assoc, List.cons_append, List.takeWhile_append_of_pos]
    · simp
    · intro b hb
      have hne : b ≠ 58 := fun heq => colon_not_mem_decimal _ (heq ▸ hb)
      simpa using hne
  have hlen : s.bytes.length = t.bytes.length := by
    have htake := congrArg (fun bs => bs.takeWhile (· ≠ (58 : UInt8))) h
    simp only [hdigits] at htake
    exact CString.decimal_injective (CString.ext htake)
  simp only [keyComponent, List.append_assoc, List.cons_append, hlen] at h
  have htail := List.append_cancel_left h
  rw [List.cons.injEq] at htail
  obtain ⟨hbytes, hrest⟩ := List.append_inj htail.2 hlen
  exact ⟨CString.ext hbytes, hrest⟩

lemma flatMap_keyComponent_injective : Function.Injective fun l : List CString => l.flatMap keyComponent := by
  intro l l' h
  induction l generalizing l' with
  | nil =>
    cases l' with
    | nil => rfl
    | cons t l' => simp [keyComponent] at h
  | cons s l ih =>
    cases l' with
    | nil => simp [keyComponent] at h
    | cons t l' =>
      simp only [List.flatMap_cons] at h
      obtain ⟨rfl, hrest⟩ := keyComponent_append_inj h
      rw [ih hrest]

theorem identityKey_inj {predicate source predicate' source' : CString} {args args' : List CString}
    (h : identityKey predicate source args = identityKey predicate' source' args') :
    predicate = predicate' ∧ source = source' ∧ args = args' := by
  have hall := flatMap_keyComponent_injective h
  simp only [List.cons.injEq] at hall
  exact hall

/-! ## Records of valid requests -/

lemma validatePredicate_of_valid {request : FactMutation} (h : FactMutationPayload.Valid request) :
    validatePredicate request.predicateId = .ok () := by
  obtain ⟨b, bs, hbytes, hstart, hchars⟩ := h.predicateId
  simp only [validatePredicate, hbytes, hstart, hchars]
  rfl

lemma validateArgs_of_valid {request : FactMutation} (h : FactMutationPayload.Valid request) :
    validateArgs request.arguments = .ok () := by
  refine if_neg fun hany => ?_
  obtain ⟨arg, harg, hempty⟩ := List.any_eq_true.mp hany
  exact h.arguments arg harg ((isEmpty_iff arg).mp hempty)

/-- A checked request makes a record. -/
theorem recordInit_of_valid {request : FactMutation} {source : CString} {createdAtUnixUs : ℕ}
    (h : FactMutationPayload.Valid request) (hsource : source ≠ .empty) (hcreated : createdAtUnixUs ≠ 0) :
    recordInit request.predicateId request.arguments source confidenceExact createdAtUnixUs =
      .ok ⟨request.predicateId, request.arguments, source, confidenceExact, createdAtUnixUs⟩ := by
  have hsource' : validateSource source = .ok () := if_neg fun hempty => hsource ((isEmpty_iff source).mp hempty)
  simp only [recordInit, bind_eq_ok]
  refine ⟨(), validatePredicate_of_valid h, (), validateArgs_of_valid h, (), hsource', ?_⟩
  rw [if_neg (Nat.lt_irrefl _), if_neg hcreated]

end Wyrebox.FactRecords
