import Wyrebox.Convergence
import Wyrebox.RowFrames

set_option autoImplicit false

/-!
# Extraction rows

Which messages of a catalog count as extracted, and which records make them so.
-/
namespace Wyrebox.ExtractionMarks
open Catalog Materializer Catchup MaterializationService PassInvariant CheckpointInvariant Fallible
open AccountReplay DeliveryRuns Convergence RowFrames

/-- The account and message whose facts a record holds. -/
def extractionOf (record : ProjectionRecord) : Option (CString × CString) :=
  match record.event with
  | .factsExtracted extraction => some (extraction.accountId, extraction.messageId)
  | _ => none

/-- The message has a row in `message_fact_extractions`. -/
def Marked (cat : Catalog) (key : CString × CString) : Prop := (cat.tables key.1).extractions key.2 ≠ none

section
variable {seed : Provisioned} {account : CString} {run : Run} {s s' : Session} {cat cat' : Catalog}

lemma extractionOf_account {record : ProjectionRecord} {key : CString × CString} (h : extractionOf record = some key) :
    accountOf record = key.1 := by
  obtain ⟨position, event⟩ := record
  cases event with
  | factsExtracted extraction =>
    rw [← Option.some.inj h]
    rfl
  | _ => simp [extractionOf] at h

/-- Only an extraction touches the extraction rows, and it adds at most its own. -/
lemma rows_extractions {t t' : AccountTables} {record : ProjectionRecord} (h : rows seed account t record = .ok t')
    (messageId : CString) : t'.extractions messageId ≠ none ↔
      t.extractions messageId ≠ none ∨ extractionOf record = some (accountOf record, messageId) := by
  have hother : t'.extractions = t.extractions → extractionOf record = none →
      (t'.extractions messageId ≠ none ↔
        t.extractions messageId ≠ none ∨ extractionOf record = some (accountOf record, messageId)) := by
    intro hsame hnone
    rw [hsame, hnone]
    simp
  obtain ⟨position, event⟩ := record
  cases event with
  | messageDelivered delivery => exact hother (deliverRows_store h).extractions rfl
  | flagChanged change =>
    obtain ⟨flags, rfl⟩ := applyFlagChange_frame h
    exact hother rfl rfl
  | factMutated mutation =>
    change mutationRows t mutation position = .ok t' at h
    simp only [mutationRows, bind_eq_ok] at h
    obtain ⟨-, -, heq⟩ := h
    exact hother (by rw [Except.ok.inj heq]) rfl
  | factsExtracted extraction =>
    have hself : extractionOf ⟨position, .factsExtracted extraction⟩ =
        some (accountOf ⟨position, .factsExtracted extraction⟩, messageId) ↔ extraction.messageId = messageId := by
      change some (extraction.accountId, extraction.messageId) = some (extraction.accountId, messageId) ↔ _
      simp
    rw [hself]
    change extractionRows t extraction position = .ok t' at h
    simp only [extractionRows, bind_eq_ok] at h
    obtain ⟨-, -, h⟩ := h
    split at h
    · rename_i row hrow
      obtain rfl : t = t' := Except.ok.inj h
      refine ⟨.inl, fun hmarked => hmarked.elim id ?_⟩
      rintro rfl
      simp [hrow]
    · simp only [bind_eq_ok] at h
      obtain ⟨-, -, heq⟩ := h
      rw [← Except.ok.inj heq]
      by_cases hmessage : extraction.messageId = messageId
      · simp [hmessage]
      · simp [hmessage, Function.update_of_ne (Ne.symm hmessage)]
  | derivedViewMembershipChanged change =>
    obtain ⟨derived, uidState, rfl⟩ := viewRows_frame h
    exact hother rfl rfl
  | membershipsExpunged expunge =>
    obtain ⟨memberships, rfl⟩ := expunged_frame h
    exact hother rfl rfl
  | membershipsCopied copy =>
    obtain ⟨memberships, uidState, flags, rfl⟩ := copied_frame h
    exact hother rfl rfl
  | membershipsMoved move =>
    obtain ⟨memberships, uidState, flags, rfl⟩ := copied_frame h
    exact hother rfl rfl
  | messageAppended append => exact hother (appendRows_store h).extractions rfl

lemma delivery_extractionOf {record : ProjectionRecord} (h : isDelivery record = true) : extractionOf record = none := by
  obtain ⟨position, event⟩ := record
  cases event with
  | messageDelivered delivery => rfl
  | _ => simp [isDelivery] at h

lemma applyRecords_extractions (hsorted : Sorted run) (h : applyRecords seed run s = .ok s') (messageId : CString) :
    s'.tables.extractions messageId ≠ none ↔ s.tables.extractions messageId ≠ none ∨
      ∃ r ∈ run.records, extractionOf r = some (accountOf r, messageId) := by
  unfold applyRecords at h
  rcases hsorted with hall | ⟨hother, hrest⟩
  · rw [if_pos (hall _ run.first_mem)] at h
    rw [(deliverRows_store (applyToInbox_rows h).1).extractions]
    refine ⟨.inl, fun hmarked => hmarked.elim id ?_⟩
    rintro ⟨r, hr, hextraction⟩
    rw [delivery_extractionOf (hall r hr)] at hextraction
    simp at hextraction
  · rw [if_neg (by simp [hother])] at h
    rw [rows_extractions (apply_rows h).1, Run.records, hrest]
    simp

/-- A committed run marks the messages that its records extract, and no others. -/
lemma applyRun_marked {advance : Bool} (hu : Run.Uniform run) (hsorted : Sorted run)
    (h : applyRun seed run advance cat = .ok cat') (key : CString × CString) :
    Marked cat' key ↔ Marked cat key ∨ ∃ r ∈ run.records, extractionOf r = some key := by
  obtain ⟨s, hs, -, -, htables⟩ := applyRun_eq_ok h
  obtain ⟨account, messageId⟩ := key
  rw [Marked, Marked, htables]
  by_cases haccount : account = run.account
  · subst haccount
    rw [Function.update_self, applyRecords_extractions hsorted hs]
    refine or_congr Iff.rfl (exists_congr fun r => and_congr_right fun hr => ?_)
    rw [hu r hr]
  · rw [Function.update_of_ne haccount]
    refine ⟨.inl, fun hmarked => hmarked.elim id ?_⟩
    rintro ⟨r, hr, hextraction⟩
    exact absurd ((extractionOf_account hextraction).symm.trans (hu r hr)) haccount

/-! ## One pass -/

variable {env : Surroundings} {fromCheckpoint : Bool} {p : Progress} {kind : PassKind} {w : World}

lemma passLoop_marked {runs' : List Run} (hruns : ∀ run ∈ runs', Run.Uniform run ∧ Sorted run)
    (hp : ∀ key, Marked p.catalog key ↔ Marked cat key ∨ ∃ r ∈ committedRecords p, extractionOf r = some key)
    (key : CString × CString) :
    Marked (passLoop seed env fromCheckpoint p runs').1.catalog key ↔ Marked cat key ∨
      ∃ r ∈ committedRecords (passLoop seed env fromCheckpoint p runs').1, extractionOf r = some key := by
  induction runs' generalizing p with
  | nil => exact hp key
  | cons run runs' ih =>
    obtain ⟨⟨hu, hsorted⟩, hmore⟩ := List.forall_mem_cons.mp hruns
    rw [passLoop]
    cases hstep : stepRun seed env fromCheckpoint p run with
    | none => exact hp key
    | some p₁ =>
      refine ih hmore fun key => ?_
      rcases stepRun_eq_some hstep with ⟨-, rfl⟩ | ⟨-, rfl⟩ | ⟨-, cat₁, happly, rfl⟩
      · exact hp key
      · exact hp key
      · rw [committedRecords_commit]
        change Marked cat₁ key ↔ _
        rw [applyRun_marked hu hsorted happly, hp key, or_assoc]
        refine or_congr Iff.rfl ?_
        simp only [List.mem_append, or_and_right, exists_or]

lemma passLoop_committed {runs' : List Run} :
    ∀ r ∈ committedRecords (passLoop seed env fromCheckpoint p runs').1,
      r ∈ committedRecords p ∨ r ∈ runs'.flatMap Run.records := by
  induction runs' generalizing p with
  | nil => exact fun r hr => .inl hr
  | cons run runs' ih =>
    rw [passLoop, List.flatMap_cons]
    cases hstep : stepRun seed env fromCheckpoint p run with
    | none => exact fun r hr => .inl hr
    | some p₁ =>
      intro r hr
      have hfirst : ∀ r ∈ committedRecords p₁, r ∈ committedRecords p ∨ r ∈ run.records := by
        rcases stepRun_eq_some hstep with ⟨-, rfl⟩ | ⟨-, rfl⟩ | ⟨-, cat₁, -, rfl⟩
        · exact fun r hr => .inl hr
        · exact fun r hr => .inl hr
        · intro r hr
          rw [committedRecords_commit] at hr
          exact List.mem_append.mp hr
      rw [List.mem_append]
      rcases ih r hr with hold | hnew
      · exact (hfirst r hold).imp_right .inl
      · exact .inr (.inr hnew)

end
end Wyrebox.ExtractionMarks
