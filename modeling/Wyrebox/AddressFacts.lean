import Wyrebox.AddressListAgreement

set_option autoImplicit false

/-!
# Participants and the sender's domain

The facts about the addresses of a message, against what its address headers say.
-/
namespace Wyrebox.AddressFacts
open AddressSyntax AddressList AddressGrammar EncodedWords FactRecords Event Fallible
open HeaderDecoding (plainText)
open JournalRecord (ascii)

/-! ## Records -/

section
variable {mailId source : CString} {createdAtUnixUs : ℕ} {addresses : List ParsedAddress} {facts : List FactRecord}

theorem recordInit_eq_ok {predicate : CString} {args : List CString} {confidencePpm : ℕ} {fact : FactRecord}
    (h : recordInit predicate args source confidencePpm createdAtUnixUs = .ok fact) :
    fact = ⟨predicate, args, source, confidencePpm, createdAtUnixUs⟩ := by
  simp only [recordInit, bind_eq_ok, ite_error_eq_ok, Except.ok.injEq] at h
  obtain ⟨-, -, -, -, -, -, -, -, heq⟩ := h
  exact heq.symm

def participantRecord (mailId source : CString) (createdAtUnixUs : ℕ) (parsed : ParsedAddress) : FactRecord :=
  ⟨.literal "participant", [mailId, .ofBuffer parsed.address], source, confidenceExact, createdAtUnixUs⟩

def displayNameRecord (mailId source : CString) (createdAtUnixUs : ℕ) (parsed : ParsedAddress) (name : List UInt8) :
    FactRecord :=
  ⟨.literal "participant_display_name", [mailId, .ofBuffer parsed.address, .ofBuffer name], source, confidenceExact,
    createdAtUnixUs⟩

def recordsOf (mailId source : CString) (createdAtUnixUs : ℕ) (parsed : ParsedAddress) : List FactRecord :=
  participantRecord mailId source createdAtUnixUs parsed ::
    parsed.displayName.toList.map (displayNameRecord mailId source createdAtUnixUs parsed)

theorem participantFacts_eq_ok {parsed : ParsedAddress} (h : participantFacts mailId source createdAtUnixUs parsed = .ok facts) :
    facts = recordsOf mailId source createdAtUnixUs parsed := by
  rw [participantFacts, bind_eq_ok] at h
  obtain ⟨participant, hparticipant, h⟩ := h
  have hrecord := recordInit_eq_ok hparticipant
  unfold recordsOf
  cases hname : parsed.displayName with
  | none =>
    rw [hname] at h
    rw [← Except.ok.inj h, hrecord]
    rfl
  | some name =>
    rw [hname] at h
    obtain ⟨displayName, hdisplayName, h⟩ := bind_eq_ok.mp h
    rw [← Except.ok.inj h, hrecord, recordInit_eq_ok hdisplayName]
    rfl

theorem parsedParticipantFacts_eq_ok (h : parsedParticipantFacts mailId source createdAtUnixUs addresses = .ok facts) :
    facts = addresses.flatMap (recordsOf mailId source createdAtUnixUs) := by
  rw [parsedParticipantFacts, bind_eq_ok] at h
  obtain ⟨parts, hparts, h⟩ := h
  rw [← Except.ok.inj h, List.flatMap_def]
  refine congrArg _ ?_
  rw [mapM_eq_ok] at hparts
  clear h
  induction hparts with
  | nil => rfl
  | cons hfirst _ ih => rw [participantFacts_eq_ok hfirst, ih, List.map_cons]

end

/-! ## The facts of a message -/

section
variable {glib : GLib} {mailId : CString} {metadata : Metadata} {createdAtUnixUs : ℕ} {facts : List FactRecord}

def senderDomainRecord (mailId : CString) (createdAtUnixUs : ℕ) (domain : List UInt8) : FactRecord :=
  ⟨.literal "sender_domain", [mailId, .ofBuffer domain], .literal "header:from", confidenceExact, createdAtUnixUs⟩

/-- The address headers with the source that their facts name. -/
def addressHeaders (metadata : Metadata) : List (CString × Option CString) :=
  [(.literal "header:from", metadata.fromAddr), (.literal "header:to", metadata.toAddr), (.literal "header:cc", metadata.cc),
    (.literal "header:bcc", metadata.bcc)]

def headerRecords (glib : GLib) (mailId : CString) (createdAtUnixUs : ℕ) (header : CString × Option CString) :
    List FactRecord :=
  (parseAddressList glib header.2).flatMap (recordsOf mailId header.1 createdAtUnixUs)

theorem senderDomainFacts_eq_ok {addresses : List ParsedAddress}
    (h : senderDomainFacts mailId createdAtUnixUs addresses = .ok facts) :
    facts = (senderDomain addresses).toList.map (senderDomainRecord mailId createdAtUnixUs) := by
  unfold senderDomainFacts at h
  split at h
  · rename_i hnone
    rw [← Except.ok.inj h, hnone]
    rfl
  · rename_i domain hdomain
    obtain ⟨fact, hfact, h⟩ := bind_eq_ok.mp h
    rw [← Except.ok.inj h, recordInit_eq_ok hfact, hdomain]
    rfl

theorem addressFacts_eq_ok (h : addressFacts glib mailId metadata createdAtUnixUs = .ok facts) :
    facts = (senderDomain (parseAddressList glib metadata.fromAddr)).toList.map (senderDomainRecord mailId createdAtUnixUs) ++
      (addressHeaders metadata).flatMap (headerRecords glib mailId createdAtUnixUs) := by
  simp only [addressFacts, bind_eq_ok] at h
  obtain ⟨domain, hdomain, sender, hsender, recipients, hrecipients, cc, hcc, bcc, hbcc, h⟩ := h
  rw [← Except.ok.inj h, senderDomainFacts_eq_ok hdomain, parsedParticipantFacts_eq_ok hsender,
    parsedParticipantFacts_eq_ok hrecipients, parsedParticipantFacts_eq_ok hcc, parsedParticipantFacts_eq_ok hbcc]
  simp [addressHeaders, headerRecords]

end

/-! ## What the facts say -/

/-- The members of a header, read from the left as items. -/
def headerMembers (value : Option CString) : List Lexical :=
  (value.elim [] fun text => members (lex true (pieces text.bytes)))

def headerAddresses (glib : GLib) (value : Option CString) : List (List UInt8) :=
  (headerMembers value).filterMap fun m => memberAddress glib m.bytes

theorem parseAddressList_addresses (glib : GLib) (value : Option CString) :
    (parseAddressList glib value).map ParsedAddress.address = headerAddresses glib value := by
  cases value with
  | none => rfl
  | some text =>
    rw [parseAddressList_eq, List.map_filterMap, headerAddresses]
    exact List.filterMap_congr fun m _ => addressOfSegment_eq glib m.bytes

theorem no_nul_member {value : Option CString} {m : Lexical} (hm : m ∈ headerMembers value) : 0 ∉ m.bytes := by
  cases value with
  | none => cases hm
  | some text =>
    intro hzero
    have hinfix := (members_part hm).flatMap Piece.bytes
    rw [pieces_lex] at hinfix
    have hmem : 0 ∈ bytesOf (pieces text.bytes) := hinfix.mem hzero
    rw [EncodedWordPieces.bytesOf_pieces] at hmem
    exact text.no_nul hmem

/-- An address of a header is well formed, and its domain is what is extracted from it. -/
theorem address_of_header {glib : GLib} (hlower : LowersText glib) {value : Option CString} {address : List UInt8}
    (h : address ∈ headerAddresses glib value) :
    ∃ localPart domain, Address glib address localPart domain ∧ domainIsValid glib domain = true ∧
      extractDomain address = some domain ∧ 0 ∉ address := by
  obtain ⟨m, hm, haddress⟩ := List.mem_filterMap.mp h
  obtain ⟨text, hnormal, -⟩ := memberAddress_eq_some haddress
  obtain ⟨localPart, rest, -, -, hparts, hvalid, hdomain⟩ := address_of_normalize hlower hnormal
  exact ⟨localPart, glib.strdown rest, hparts, hvalid, hdomain, no_nul_memberAddress hlower (no_nul_member hm) haddress⟩

theorem senderDomain_eq (glib : GLib) (value : Option CString) :
    senderDomain (parseAddressList glib value) = (headerAddresses glib value).head?.bind extractDomain := by
  rw [← parseAddressList_addresses, List.head?_map, senderDomain, Option.bind_map]
  rfl

/-- No local part goes on after a separator. -/
theorem not_localPart {localPart more : List UInt8} (h : LocalPart localPart) : ¬LocalPart (localPart ++ 64 :: more) := by
  intro hlonger
  obtain ⟨hnone, hmode⟩ := inert_localPart h
  have hzero := (inert_localPart hlonger).1
  rw [separators_append, hnone, hmode, separators, if_pos ⟨rfl, rfl⟩] at hzero
  omega

/-- An address has one local part and one domain. -/
theorem address_unique {glib : GLib} {address localPart localPart' domain domain' : List UInt8}
    (h : Address glib address localPart domain) (h' : Address glib address localPart' domain') : domain = domain' := by
  have hsame : localPart ++ 64 :: domain = localPart' ++ 64 :: domain' := h.parts.symm.trans h'.parts
  rcases List.append_eq_append_iff.mp hsame with ⟨more, hlonger, hrest⟩ | ⟨more, hlonger, hrest⟩
  · cases more with
    | nil => exact (List.cons.inj hrest).2
    | cons c more =>
      obtain rfl : 64 = c := (List.cons.inj hrest).1
      exact absurd (hlonger ▸ h'.validLocal) (not_localPart h.validLocal)
  · cases more with
    | nil => exact (List.cons.inj hrest).2.symm
    | cons c more =>
      obtain rfl : 64 = c := (List.cons.inj hrest).1
      exact absurd (hlonger ▸ h.validLocal) (not_localPart h'.validLocal)

theorem ofBuffer_of_no_nul {bytes : List UInt8} (h : (0 : UInt8) ∉ bytes) : (CString.ofBuffer bytes).bytes = bytes :=
  congrArg CString.bytes (CString.ofBuffer_bytes ⟨bytes, h⟩)

section
variable {glib : GLib} {mailId : CString} {metadata : Metadata} {createdAtUnixUs : ℕ} {facts : List FactRecord}

/-- The participants among the facts of a header. -/
theorem mem_headerRecords {fact : FactRecord} {header : CString × Option CString} (hlower : LowersText glib)
    (hpredicate : fact.predicate = .literal "participant") :
    fact ∈ headerRecords glib mailId createdAtUnixUs header ↔ ∃ participant : CString,
      participant.bytes ∈ headerAddresses glib header.2 ∧
      fact = ⟨.literal "participant", [mailId, participant], header.1, confidenceExact, createdAtUnixUs⟩ := by
  rw [headerRecords, ← parseAddressList_addresses]
  simp only [List.mem_flatMap, List.mem_map, recordsOf, List.mem_cons]
  constructor
  · rintro ⟨parsed, hparsed, rfl | ⟨name, -, rfl⟩⟩
    · have haddress : parsed.address ∈ headerAddresses glib header.2 := by
        rw [← parseAddressList_addresses]
        exact List.mem_map_of_mem hparsed
      obtain ⟨-, -, -, -, -, hzero⟩ := address_of_header hlower haddress
      exact ⟨.ofBuffer parsed.address, ⟨parsed, hparsed, (ofBuffer_of_no_nul hzero).symm⟩, rfl⟩
    · have hother : CString.literal "participant_display_name" ≠ .literal "participant" := by decide
      exact absurd hpredicate hother
  · rintro ⟨participant, ⟨parsed, hparsed, hbytes⟩, rfl⟩
    refine ⟨parsed, hparsed, .inl ?_⟩
    rw [participantRecord, hbytes, CString.ofBuffer_bytes]

theorem not_senderDomain_of_header {fact : FactRecord} {header : CString × Option CString}
    (h : fact ∈ headerRecords glib mailId createdAtUnixUs header) : fact.predicate ≠ .literal "sender_domain" := by
  have hparticipant : CString.literal "participant" ≠ .literal "sender_domain" := by decide
  have hname : CString.literal "participant_display_name" ≠ .literal "sender_domain" := by decide
  rw [headerRecords] at h
  simp only [List.mem_flatMap, recordsOf, List.mem_cons, List.mem_map] at h
  rcases h with ⟨parsed, -, rfl | ⟨name, -, rfl⟩⟩
  · exact hparticipant
  · exact hname

theorem participant_iff (hlower : LowersText glib) (h : addressFacts glib mailId metadata createdAtUnixUs = .ok facts)
    (source : CString) (args : List CString) :
    (∃ fact ∈ facts, fact.predicate = .literal "participant" ∧ fact.source = source ∧ fact.args = args) ↔
      ∃ value, (source, value) ∈ addressHeaders metadata ∧ ∃ participant : CString,
        participant.bytes ∈ headerAddresses glib value ∧ args = [mailId, participant] := by
  rw [addressFacts_eq_ok h]
  simp only [List.mem_append, List.mem_flatMap]
  constructor
  · rintro ⟨fact, hfact | ⟨header, hheader, hfact⟩, hpredicate, rfl, rfl⟩
    · obtain ⟨domain, -, rfl⟩ := List.mem_map.mp hfact
      have hother : CString.literal "sender_domain" ≠ .literal "participant" := by decide
      exact absurd hpredicate hother
    · obtain ⟨participant, hparticipant, rfl⟩ := (mem_headerRecords hlower hpredicate).mp hfact
      exact ⟨header.2, hheader, participant, hparticipant, rfl⟩
  · rintro ⟨value, hheader, participant, hparticipant, rfl⟩
    refine ⟨⟨.literal "participant", [mailId, participant], source, confidenceExact, createdAtUnixUs⟩,
      .inr ⟨(source, value), hheader, ?_⟩, rfl, rfl, rfl⟩
    exact (mem_headerRecords hlower rfl).mpr ⟨participant, hparticipant, rfl⟩

theorem senderDomain_iff (hlower : LowersText glib) (h : addressFacts glib mailId metadata createdAtUnixUs = .ok facts)
    (args : List CString) :
    (∃ fact ∈ facts, fact.predicate = .literal "sender_domain" ∧ fact.args = args) ↔
      ∃ first localPart, ∃ domain : CString, (headerAddresses glib metadata.fromAddr).head? = some first ∧
        Address glib first localPart domain.bytes ∧ args = [mailId, domain] := by
  rw [addressFacts_eq_ok h, senderDomain_eq]
  simp only [List.mem_append, List.mem_flatMap, List.mem_map, Option.mem_toList]
  constructor
  · rintro ⟨fact, ⟨bytes, hbytes, rfl⟩ | ⟨header, -, hfact⟩, hpredicate, rfl⟩
    · obtain ⟨first, hfirst, hextract⟩ := Option.bind_eq_some_iff.mp hbytes
      obtain ⟨localPart, domain, haddress, -, hdomain, hzero⟩ := address_of_header hlower (List.mem_of_head? hfirst)
      obtain rfl : bytes = domain := Option.some.inj (hextract.symm.trans hdomain)
      rw [haddress.parts, List.mem_append, List.mem_cons, not_or, not_or] at hzero
      refine ⟨first, localPart, .ofBuffer bytes, hfirst, ?_, rfl⟩
      rwa [ofBuffer_of_no_nul hzero.2.2]
    · exact absurd hpredicate (not_senderDomain_of_header hfact)
  · rintro ⟨first, localPart, domain, hfirst, haddress, rfl⟩
    obtain ⟨localPart', domain', haddress', -, hdomain', -⟩ := address_of_header hlower (List.mem_of_head? hfirst)
    obtain rfl := address_unique haddress' haddress
    refine ⟨senderDomainRecord mailId createdAtUnixUs domain.bytes, .inl ⟨domain.bytes, ?_, rfl⟩, rfl, ?_⟩
    · rw [hfirst, Option.bind_some, hdomain']
    · rw [senderDomainRecord, CString.ofBuffer_bytes]

end

theorem plainText_lowers : LowersText plainText := by
  intro text hutf8
  clear hutf8
  change Lowered text (text.map Eml.toLower)
  induction text with
  | nil => exact .nil
  | cons c rest ih =>
    rcases UInt8.lt_or_le c 0x80 with hlow | hhigh
    · exact .ascii hlow ih
    · rw [List.map_cons, toLower_high (.inl hhigh)]
      exact @Lowered.other [c] [c] rest _ (List.cons_ne_nil _ _) (List.cons_ne_nil _ _) (by simpa using hhigh)
        (by simpa using .inl hhigh) ih

end Wyrebox.AddressFacts
