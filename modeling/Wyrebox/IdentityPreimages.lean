import Wyrebox.DerivedViewMaterializer
import Wyrebox.FactRecords

set_option autoImplicit false

/-!
# What ids are digests of

Fact ids, the keys of the fact snapshot and the ids of derived memberships are taken of strings with
their lengths before them, so no two tuples of components give the same bytes.
-/
namespace Wyrebox.IdentityPreimages
open JournalRecord FactRecords
open DerivedViewMaterializer (framed)

/-- A string whose length `strlen` can return. -/
@[ext]
structure MachineString where
  text : CString
  fits : text.bytes.length < 2 ^ 64

/-- `append_fact_identity_component` for the components of `build_fact_id`. -/
def factIdPreimage (source predicate : CString) (arguments : List CString) : List UInt8 :=
  keyComponent predicate ++ (keyComponent source ++ arguments.flatMap keyComponent)

/-- What `materializer_build_membership_id` takes the digest of. -/
def membershipPreimage (accountId viewId messageId ruleVersionHash : CString) : List UInt8 :=
  framed [accountId, viewId, messageId, ruleVersionHash]

lemma buildMembershipId_eq (sha : Sha256) (request : DerivedViewMaterializer.Request) (messageId : CString) :
    DerivedViewMaterializer.buildMembershipId sha request messageId =
      .literal "derived-view:sha256:" ++ DerivedViewMaterializer.hexadecimal
        (sha.digest (membershipPreimage request.accountId request.viewId messageId request.ruleVersionHash)) :=
  rfl

section
variable {s t : MachineString} {ss ts : List MachineString} {rest rest' : List UInt8}

/-- The length of a string in eight bytes, the most significant one first. -/
def lengthBytes (s : MachineString) : List UInt8 := (LittleEndian.encode 8 s.text.bytes.length).reverse

lemma lengthBytes_inj (h : lengthBytes s = lengthBytes t) : s.text.bytes.length = t.text.bytes.length := by
  have hdecode := congrArg LittleEndian.decode (List.reverse_injective h)
  rwa [LittleEndian.decode_encode (s.fits.trans_eq (by norm_num)),
    LittleEndian.decode_encode (t.fits.trans_eq (by norm_num))] at hdecode

/-- A framed string ends where its length says, whatever follows. -/
lemma frame_append_inj (h : lengthBytes s ++ s.text.bytes ++ rest = lengthBytes t ++ t.text.bytes ++ rest') :
    s = t ∧ rest = rest' := by
  rw [List.append_assoc, List.append_assoc] at h
  obtain ⟨hlength, hbytes⟩ := List.append_inj h (by simp [lengthBytes])
  obtain ⟨htext, hrest⟩ := List.append_inj hbytes (lengthBytes_inj hlength)
  exact ⟨MachineString.ext (CString.ext htext), hrest⟩

lemma framed_cons (s : MachineString) (ss : List MachineString) :
    framed ((s :: ss).map MachineString.text) =
      lengthBytes s ++ s.text.bytes ++ framed (ss.map MachineString.text) :=
  rfl

lemma framed_cons_ne_nil (s : MachineString) (ss : List MachineString) :
    framed ((s :: ss).map MachineString.text) ≠ [] := by
  intro h
  have hlength := congrArg List.length h
  simp only [framed_cons, lengthBytes, List.length_append, List.length_reverse, LittleEndian.encode_length,
    List.length_nil] at hlength
  omega

/-- Framed lists of any lengths are told apart. -/
lemma framed_inj (h : framed (ss.map MachineString.text) = framed (ts.map MachineString.text)) : ss = ts := by
  induction ss generalizing ts with
  | nil =>
    cases ts with
    | nil => rfl
    | cons t ts => exact absurd h.symm (framed_cons_ne_nil t ts)
  | cons s ss ih =>
    cases ts with
    | nil => exact absurd h (framed_cons_ne_nil s ss)
    | cons t ts =>
      rw [framed_cons, framed_cons] at h
      obtain ⟨rfl, hrest⟩ := frame_append_inj h
      rw [ih hrest]

end

lemma factIdPreimage_eq (source predicate : CString) (arguments : List CString) :
    factIdPreimage source predicate arguments = identityKey predicate source arguments := by
  simp only [factIdPreimage, identityKey, List.flatMap_cons]

/-- The digested bytes and the keys determine the components. -/
theorem preimages_injective :
    (Function.Injective fun fact : CString × CString × List CString => factIdPreimage fact.1 fact.2.1 fact.2.2) ∧
    (Function.Injective fun fact : CString × CString × List CString => identityKey fact.1 fact.2.1 fact.2.2) ∧
    Function.Injective fun row : MachineString × MachineString × MachineString × MachineString =>
      membershipPreimage row.1.text row.2.1.text row.2.2.1.text row.2.2.2.text := by
  refine ⟨?_, ?_, ?_⟩
  · rintro ⟨source, predicate, arguments⟩ ⟨source', predicate', arguments'⟩ h
    simp only [factIdPreimage_eq] at h
    obtain ⟨rfl, rfl, rfl⟩ := identityKey_inj h
    rfl
  · rintro ⟨predicate, source, args⟩ ⟨predicate', source', args'⟩ h
    obtain ⟨rfl, rfl, rfl⟩ := identityKey_inj h
    rfl
  · rintro ⟨accountId, viewId, messageId, ruleVersion⟩ ⟨accountId', viewId', messageId', ruleVersion'⟩ h
    have hlists := @framed_inj [accountId, viewId, messageId, ruleVersion] [accountId', viewId', messageId', ruleVersion'] h
    simp only [List.cons.injEq, and_true] at hlists
    obtain ⟨rfl, rfl, rfl, rfl⟩ := hlists
    rfl

end Wyrebox.IdentityPreimages
