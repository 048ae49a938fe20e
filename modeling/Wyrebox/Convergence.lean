import Wyrebox.AccountCatchup
import Wyrebox.PassState

set_option autoImplicit false

/-!
# Convergence of catch-up

Whatever passes abort, hold accounts and resume, an account that a completed pass does not hold
has the rows of one clean pass over the journal from an empty catalog.
-/
namespace Wyrebox.Convergence
open Catalog Materializer Catchup MaterializationService PassInvariant CheckpointInvariant PassState
open AccountRows AccountReplay Reapplication FirstApplication DeliveryRuns AccountCatchup
open JournalWriter (Position)

def ownRecords (account : CString) (records : List ProjectionRecord) : List ProjectionRecord :=
  records.filter fun r => accountOf r = account

/-- A pass in which nothing goes wrong. -/
def calm : Surroundings := ⟨true, true, fun _ => .none⟩

/-- One uninterrupted pass over the whole journal from an empty catalog. -/
def cleanPass (seed : Provisioned) (log : Log) : Progress × Option Report :=
  pass seed calm log none [] (.initial seed)

def cleanCatalog (seed : Provisioned) (log : Log) : Catalog := (cleanPass seed log).1.catalog

/-- Its payloads are such as the codecs decode, every MOVE leaves its own destinations alone, and
    the clean pass completes without a hold. -/
structure ValidJournal (seed : Provisioned) (log : Log) : Prop where
  decoded : ∀ r ∈ log.records, Decoded r
  separate : ∀ r ∈ log.records, SeparateRecord r
  clean : ∃ report, (cleanPass seed log).2 = some report ∧ report.holds = []

section
variable {seed : Provisioned} {account : CString} {records more : List ProjectionRecord} {run : Run}

lemma ownRecords_append : ownRecords account (records ++ more) =
    ownRecords account records ++ ownRecords account more := List.filter_append ..

lemma ownRecords_uniform (hu : Run.Uniform run) : ownRecords run.account run.records = run.records := by
  rw [ownRecords, List.filter_eq_self]
  intro r hr
  simpa using hu r hr

lemma ownRecords_uniform_of_ne (hu : Run.Uniform run) (hne : account ≠ run.account) :
    ownRecords account run.records = [] := by
  rw [ownRecords, List.filter_eq_nil_iff]
  intro r hr
  rw [hu r hr, decide_eq_true_eq]
  exact Ne.symm hne

lemma journaled_of_valid {log : Log} (h : ValidJournal seed log) (account : CString) :
    Journaled (ownRecords account log.records) where
  ascending := (log.ordered.imp fun h => h.2).sublist List.filter_sublist
  decoded := fun r hr => h.decoded r (List.mem_of_mem_filter hr)
  separate := fun r hr => h.separate r (List.mem_of_mem_filter hr)

/-! ## The clean pass -/

section
variable {env : Surroundings} {fromCheckpoint : Bool} {p p' : Progress} {runs' : List Run}

/-- What a committed run leaves in the catalog. -/
lemma applyRun_eq_ok {advance : Bool} {cat cat' : Catalog} (h : applyRun seed run advance cat = .ok cat') :
    ∃ s, applyRecords seed run (cat.session run.account) = .ok s ∧ cat'.objects = s.objects ∧
      cat'.derivedOwner = s.derivedOwner ∧ cat'.tables = Function.update cat.tables run.account s.tables := by
  unfold applyRun at h
  split at h
  · simp at h
  · rename_i s hs
    simp only [Except.ok.injEq] at h
    refine ⟨s, hs, ?_⟩
    rw [← h]
    cases advance <;> exact ⟨rfl, rfl, rfl⟩

/-- What a loop without holds has done. -/
structure Replays (seed : Provisioned) (cat cat' : Catalog) (records : List ProjectionRecord) : Prop where
  rows : ∀ account, replayRows seed account (cat.tables account) (ownRecords account records) =
    .ok (cat'.tables account)
  objects : cat.objects.Within cat'.objects
  owner : cat.derivedOwner.Within cat'.derivedOwner
  fits : ∀ r ∈ records, Fits cat'.objects cat'.derivedOwner r

lemma Replays.refl (cat : Catalog) : Replays seed cat cat [] := ⟨fun _ => rfl, .refl _, .refl _, by simp⟩

lemma Replays.trans {cat cat' cat'' : Catalog} (h : Replays seed cat cat' records)
    (h' : Replays seed cat' cat'' more) : Replays seed cat cat'' (records ++ more) where
  rows := fun account => by
    rw [ownRecords_append]
    exact replayRows_append.mpr ⟨_, h.rows account, h'.rows account⟩
  objects := h.objects.trans h'.objects
  owner := h.owner.trans h'.owner
  fits := List.forall_mem_append.mpr ⟨fun r hr => (h.fits r hr).mono h'.objects h'.owner, h'.fits⟩

lemma applyRun_replays {advance : Bool} {cat cat' : Catalog} (hu : Run.Uniform run) (hsorted : Sorted run)
    (hw : ∀ account, WellFormed (cat.tables account)) (h : applyRun seed run advance cat = .ok cat') :
    Replays seed cat cat' run.records := by
  obtain ⟨s, hs, hobjects, howner, htables⟩ := applyRun_eq_ok h
  obtain ⟨hrows, hshared, hfits⟩ := applyRecords_rows hsorted (fits_of_wellFormed (hw run.account)) hs
  refine ⟨fun account => ?_, ?_, ?_, ?_⟩
  · rw [htables]
    by_cases haccount : account = run.account
    · subst haccount
      rw [ownRecords_uniform hu, Function.update_self]
      exact hrows
    · rw [ownRecords_uniform_of_ne hu haccount, Function.update_of_ne haccount]
      rfl
  · rw [hobjects]
    exact hshared.objects
  · rw [howner]
    exact hshared.owner
  · rw [hobjects, howner]
    exact hfits

/-- A loop that ends without a hold has replayed the records of every account in order. -/
lemma passLoop_clean (hruns : ∀ run ∈ runs', Run.Uniform run ∧ Sorted run)
    (hdecoded : ∀ r ∈ runs'.flatMap Run.records, Decoded r)
    (hseparate : ∀ r ∈ runs'.flatMap Run.records, SeparateRecord r)
    (hw : ∀ account, WellFormed (p.catalog.tables account))
    (hend : (passLoop seed env fromCheckpoint p runs').1.holds = [])
    (hcomplete : (passLoop seed env fromCheckpoint p runs').2 = true) :
    Replays seed p.catalog (passLoop seed env fromCheckpoint p runs').1.catalog
      (runs'.flatMap Run.records) := by
  induction runs' generalizing p with
  | nil => exact .refl _
  | cons run runs' ih =>
    rw [List.forall_mem_cons] at hruns
    rw [List.flatMap_cons] at hdecoded hseparate ⊢
    rw [List.forall_mem_append] at hdecoded hseparate
    rw [passLoop] at hend hcomplete ⊢
    cases hstep : stepRun seed env fromCheckpoint p run with
    | none =>
      rw [hstep] at hcomplete
      simp at hcomplete
    | some p₁ =>
      rw [hstep] at hend hcomplete
      simp only at hend hcomplete ⊢
      obtain ⟨-, cat, hcat, rfl⟩ := stepRun_holds hstep (passLoop_holds hend)
      have hfirst := applyRun_replays hruns.1.1 hruns.1.2 hw hcat
      refine hfirst.trans (ih hruns.2 hdecoded.2 hseparate.2 (fun account => ?_) hend hcomplete)
      refine replayRows_wellFormed ?_ ?_ (hw account) (hfirst.rows account)
      · exact fun r hr => hdecoded.1 r (List.mem_of_mem_filter hr)
      · exact fun r hr => hseparate.1 r (List.mem_of_mem_filter hr)

end

/-- The clean pass replays every account's records from an empty account. -/
lemma cleanCatalog_replays {log : Log} (h : ValidJournal seed log) :
    Replays seed (.initial seed) (cleanCatalog seed log) log.records := by
  obtain ⟨report, hreport, hholds⟩ := h.clean
  unfold cleanCatalog
  unfold cleanPass at hreport ⊢
  cases hrecords : passRecords calm log (.initial seed) none with
  | none =>
    rw [pass_eq_none _ _ _ _ _ _ hrecords] at hreport
    simp at hreport
  | some records =>
    have hall : records = log.records := (Option.some.inj (passRecords_eq_some hrecords)).symm
    subst hall
    rw [pass_eq _ _ _ _ _ _ hrecords] at hreport ⊢
    simp only at hreport ⊢
    generalize hloop : passLoop seed calm (startsAtCheckpoint (Catalog.initial seed) none)
      ⟨.initial seed, [], [], []⟩ (runs log.records) = loop at hreport ⊢
    obtain ⟨p, completed⟩ := loop
    cases completed with
    | false => simp at hreport
    | true =>
      simp only [if_true, Option.some.injEq] at hreport
      subst hreport
      have hclean := @passLoop_clean seed calm (startsAtCheckpoint (Catalog.initial seed) none)
        ⟨.initial seed, [], [], []⟩ (runs log.records) (fun run hrun => ⟨runs_uniform run hrun, runs_sorted run hrun⟩)
        (by rw [runs_flatMap]; exact h.decoded) (by rw [runs_flatMap]; exact h.separate)
        (fun account => accountTables_wellFormed seed account) (by rw [hloop]; exact hholds) (by rw [hloop])
      rwa [hloop, runs_flatMap] at hclean

/-! ## One pass -/

/-- The account has come to the end of `done`, a beginning of the journal. -/
def CaughtTo (seed : Provisioned) (log : Log) (done : List ProjectionRecord) (account : CString)
    (t : AccountTables) : Prop :=
  Caught seed account (ownRecords account log.records) (ownRecords account done).length t

/-- A beginning of the journal at or before the position. -/
def UpTo (log : Log) (position : Option Position) (done : List ProjectionRecord) : Prop :=
  done <+: log.records ∧ ∀ r ∈ done, AtOrBefore r position

section
variable {log : Log} {start done done' rest : List ProjectionRecord} {t : AccountTables}
  {position : Option Position}

lemma CaughtTo.mono (h : CaughtTo seed log done' account t) (hle : done <+: done') :
    CaughtTo seed log done account t := by
  obtain ⟨tail, rfl⟩ := hle
  apply h.restart
  rw [ownRecords_append, List.length_append]
  exact Nat.le_add_right _ _

lemma CaughtTo.extend (h : CaughtTo seed log done account t) (hu : Run.Uniform run)
    (hne : account ≠ run.account) : CaughtTo seed log (done ++ run.records) account t := by
  rw [CaughtTo, ownRecords_append, ownRecords_uniform_of_ne hu hne, List.append_nil]
  exact h

/-- A beginning that ends before everything in `rest` is within what precedes `rest`. -/
lemma UpTo.within (h : UpTo log position done') (hsplit : log.records = done ++ rest)
    (hbehind : ∀ c, position = some c → ∀ r ∈ rest, c.sequence < r.position.sequence) : done' <+: done := by
  have hdone : done <+: log.records := ⟨rest, hsplit.symm⟩
  rcases List.prefix_or_prefix_of_prefix h.1 hdone with hle | ⟨tail, htail⟩
  · exact hle
  · cases tail with
    | nil => exact ⟨[], by rw [List.append_nil, ← htail, List.append_nil]⟩
    | cons r tail =>
      -- the first record after `done` would be both at or before and after the position
      have hrest : r ∈ rest := by
        obtain ⟨more, hmore⟩ := h.1
        rw [hsplit, ← htail, List.append_assoc, List.append_cancel_left_eq] at hmore
        rw [← hmore]
        exact List.mem_cons_self
      obtain ⟨c, hc, hle⟩ := h.2 r (by rw [← htail]; exact List.mem_append_right _ List.mem_cons_self)
      exact absurd (hbehind c hc r hrest) (Nat.not_lt.mpr hle)

/-- A pass that has come to the end of `done` in the journal. -/
structure Underway (seed : Provisioned) (log : Log) (prior : List Hold) (start done : List ProjectionRecord)
    (p : Progress) : Prop where
  objects : p.catalog.objects.Within (cleanCatalog seed log).objects
  owner : p.catalog.derivedOwner.Within (cleanCatalog seed log).derivedOwner
  unheld : ∀ account, isHeld p.holds account = false →
    CaughtTo seed log done account (p.catalog.tables account)
  started : ∀ account, isHeld prior account = false →
    CaughtTo seed log start account (p.catalog.tables account)
  checkpoint : ∀ account b, UpTo log p.catalog.checkpoint b →
    CaughtTo seed log b account (p.catalog.tables account)

variable {env : Surroundings} {fromCheckpoint : Bool} {prior : List Hold} {p p' : Progress}

/-- A run of an account that is not held brings the account to the run's end. -/
lemma Underway.commit (h : Underway seed log prior start done p) (hvalid : ValidJournal seed log)
    (hu : Run.Uniform run) (hsorted : Sorted run) (hsplit : log.records = done ++ (run.records ++ rest))
    (hstart : start <+: done) (hfree : isHeld p.holds run.account = false)
    (hbehind : ∀ c, p.catalog.checkpoint = some c → ∀ r ∈ run.records ++ rest,
      c.sequence < r.position.sequence) {cat : Catalog}
    (happly : applyRun seed run (fromCheckpoint && p.holds.isEmpty) p.catalog = .ok cat) :
    Underway seed log prior start (done ++ run.records) (p.commit run cat) ∧
      ∀ c, cat.checkpoint = some c → ∀ r ∈ rest, c.sequence < r.position.sequence := by
  have hclean := cleanCatalog_replays hvalid
  have hj := journaled_of_valid hvalid run.account
  have hcaught := h.unheld run.account hfree
  obtain ⟨s, hs, hobjects, howner, htables⟩ := applyRun_eq_ok happly
  have hdrop : (ownRecords run.account log.records).drop (ownRecords run.account done).length =
      run.records ++ ownRecords run.account rest := by
    rw [hsplit, ownRecords_append, ownRecords_append, ownRecords_uniform hu, List.drop_left]
  obtain ⟨t', hreplay, hcaught'⟩ := hcaught.replay hj (hclean.rows run.account) hdrop
  have hfits : ∀ r ∈ run.records,
      Fits (cleanCatalog seed log).objects (cleanCatalog seed log).derivedOwner r := by
    intro r hr
    refine hclean.fits r ?_
    rw [hsplit]
    exact List.mem_append_right _ (List.mem_append_left _ hr)
  obtain ⟨s', hs', rfl, hobjects', howner'⟩ := @rows_applyRecords seed _ run (p.catalog.session run.account)
    _ _ hsorted (fits_of_wellFormed (hcaught.wellFormed hj)) hreplay h.objects h.owner hfits
  rw [hs] at hs'
  cases hs'
  have hown : CaughtTo seed log (done ++ run.records) run.account s.tables := by
    rw [CaughtTo, ownRecords_append, ownRecords_uniform hu, List.length_append]
    exact hcaught'
  have hself : cat.tables run.account = s.tables := by rw [htables, Function.update_self]
  have hother : ∀ account, account ≠ run.account → cat.tables account = p.catalog.tables account := by
    intro account hne
    rw [htables, Function.update_of_ne hne]
  have hafter : ∀ r ∈ rest, run.last.position.sequence < r.position.sequence := by
    intro r hr
    have hordered := log.ordered
    rw [hsplit, List.pairwise_append, List.pairwise_append] at hordered
    exact (hordered.2.1.2.2 run.last run.last_mem r hr).2
  have hcheckpoint := applyRun_checkpoint happly
  have hbehind' : ∀ c, cat.checkpoint = some c → ∀ r ∈ rest, c.sequence < r.position.sequence := by
    intro c hc r hr
    rw [hcheckpoint] at hc
    split at hc
    · rw [saveCheckpoint_of_lt fun c hc => hbehind c hc run.last (List.mem_append_left _ run.last_mem),
        Option.some.injEq] at hc
      rw [← hc]
      exact hafter r hr
    · exact hbehind c hc r (List.mem_append_right _ hr)
  refine ⟨⟨?_, ?_, ?_, ?_, ?_⟩, hbehind'⟩
  · change cat.objects.Within _
    rw [hobjects]
    exact hobjects'
  · change cat.derivedOwner.Within _
    rw [howner]
    exact howner'
  · intro account hunheld
    change CaughtTo seed log _ account (cat.tables account)
    by_cases haccount : account = run.account
    · rw [haccount, hself]
      exact hown
    · rw [hother account haccount]
      exact (h.unheld account hunheld).extend hu haccount
  · intro account hunheld
    change CaughtTo seed log _ account (cat.tables account)
    by_cases haccount : account = run.account
    · rw [haccount, hself]
      exact hown.mono (hstart.trans (List.prefix_append _ _))
    · rw [hother account haccount]
      exact h.started account hunheld
  · intro account b hb
    change UpTo log cat.checkpoint b at hb
    change CaughtTo seed log b account (cat.tables account)
    have hwithin : b <+: done ++ run.records :=
      hb.within (by rw [hsplit, List.append_assoc]) hbehind'
    by_cases haccount : account = run.account
    · rw [haccount, hself]
      exact hown.mono hwithin
    · rw [hother account haccount]
      rw [hcheckpoint] at hb
      split at hb
      · rename_i hadvance
        rw [Bool.and_eq_true, List.isEmpty_iff] at hadvance
        have hunheld : isHeld p.holds account = false := by rw [hadvance.2]; rfl
        exact ((h.unheld account hunheld).extend hu haccount).mono hwithin
      · exact h.checkpoint account b hb

/-- One turn of the loop. -/
lemma Underway.step (h : Underway seed log prior start done p) (hvalid : ValidJournal seed log)
    (hu : Run.Uniform run) (hsorted : Sorted run) (hsplit : log.records = done ++ (run.records ++ rest))
    (hstart : start <+: done)
    (hbehind : ∀ c, p.catalog.checkpoint = some c → ∀ r ∈ run.records ++ rest,
      c.sequence < r.position.sequence) (hstep : stepRun seed env fromCheckpoint p run = some p') :
    Underway seed log prior start (done ++ run.records) p' ∧
      ∀ c, p'.catalog.checkpoint = some c → ∀ r ∈ rest, c.sequence < r.position.sequence := by
  have hbehind' : ∀ c, p.catalog.checkpoint = some c → ∀ r ∈ rest, c.sequence < r.position.sequence :=
    fun c hc r hr => hbehind c hc r (List.mem_append_right _ hr)
  rcases stepRun_eq_some hstep with ⟨hheld, rfl⟩ | ⟨-, rfl⟩ | ⟨hfree, cat, happly, rfl⟩
  · refine ⟨⟨h.objects, h.owner, fun account hunheld => ?_, h.started, h.checkpoint⟩, hbehind'⟩
    refine (h.unheld account hunheld).extend hu ?_
    rintro rfl
    rw [hheld] at hunheld
    simp at hunheld
  · refine ⟨⟨h.objects, h.owner, fun account hunheld => ?_, h.started, h.checkpoint⟩, hbehind'⟩
    change isHeld (p.holds ++ [_]) account = false at hunheld
    rw [isHeld_append, Bool.or_eq_false_iff] at hunheld
    refine (h.unheld account hunheld.1).extend hu ?_
    rintro rfl
    rw [isHeld_singleton] at hunheld
    simp at hunheld
  · exact h.commit hvalid hu hsorted hsplit hstart hfree hbehind happly

/-- The loop stops somewhere in the journal, at the end of its runs when it completes. -/
lemma Underway.loop (h : Underway seed log prior start done p) (hvalid : ValidJournal seed log)
    {more : List Run} (hruns : ∀ run ∈ more, Run.Uniform run ∧ Sorted run)
    (hsplit : log.records = done ++ (more.flatMap Run.records ++ rest)) (hstart : start <+: done)
    (hbehind : ∀ c, p.catalog.checkpoint = some c → ∀ r ∈ more.flatMap Run.records ++ rest,
      c.sequence < r.position.sequence) :
    ∃ done', Underway seed log prior start done' (passLoop seed env fromCheckpoint p more).1 ∧
      ((passLoop seed env fromCheckpoint p more).2 = true → done' = done ++ more.flatMap Run.records) := by
  induction more generalizing p done with
  | nil => exact ⟨done, h, fun _ => by rw [List.flatMap_nil, List.append_nil]⟩
  | cons run more ih =>
    rw [List.forall_mem_cons] at hruns
    rw [List.flatMap_cons, List.append_assoc] at hsplit hbehind
    rw [passLoop]
    cases hstep : stepRun seed env fromCheckpoint p run with
    | none => exact ⟨done, h, fun habsurd => absurd habsurd (by simp)⟩
    | some p₁ =>
      obtain ⟨h₁, hbehind₁⟩ := h.step hvalid hruns.1.1 hruns.1.2 hsplit hstart hbehind hstep
      obtain ⟨done', h', hcomplete⟩ := ih h₁ hruns.2 (by rw [hsplit, List.append_assoc])
        (hstart.trans (List.prefix_append _ _)) hbehind₁
      refine ⟨done', h', fun hdone => ?_⟩
      rw [hcomplete hdone, List.flatMap_cons, List.append_assoc]

end

/-! ## The daemon -/

/-- The catalog holds for every account what its journal says up to the checkpoint. -/
structure Coherent (seed : Provisioned) (log : Log) (w : World) : Prop where
  records : w.log.records <+: log.records
  objects : w.catalog.objects.Within (cleanCatalog seed log).objects
  owner : w.catalog.derivedOwner.Within (cleanCatalog seed log).derivedOwner
  checkpoint : ∀ account b, UpTo log w.catalog.checkpoint b →
    CaughtTo seed log b account (w.catalog.tables account)

/-- Accounts that are not held have come to the cursor. -/
def CursorCoherent (seed : Provisioned) (log : Log) (w : World) : Prop :=
  ∀ account, isHeld w.service.holds account = false → ∀ b, UpTo log w.service.cursor b →
    CaughtTo seed log b account (w.catalog.tables account)

/-- The accounts outside these holds have come to the end of the world's journal. -/
def CaughtUp (seed : Provisioned) (log : Log) (w : World) (holds : List Hold) : Prop :=
  ∀ account, isHeld holds account = false →
    CaughtTo seed log w.log.records account (w.catalog.tables account)

section
variable {log : Log} {w w' : World}

lemma upTo_none {b : List ProjectionRecord} (h : UpTo log none b) : b = [] := by
  rw [List.eq_nil_iff_forall_not_mem]
  intro r hr
  obtain ⟨c, hc, -⟩ := h.2 r hr
  simp at hc

lemma caughtTo_nil (h : Coherent seed log w) (account : CString) :
    CaughtTo seed log [] account (w.catalog.tables account) :=
  h.checkpoint account [] ⟨⟨_, rfl⟩, by simp⟩

lemma Coherent.of_catalog (h : Coherent seed log w) (hcatalog : w'.catalog = w.catalog)
    (hrecords : w'.log.records <+: log.records) : Coherent seed log w' := by
  refine ⟨hrecords, ?_, ?_, ?_⟩
  · rw [hcatalog]
    exact h.objects
  · rw [hcatalog]
    exact h.owner
  · rw [hcatalog]
    exact h.checkpoint

lemma CursorCoherent.of_catalog (h : CursorCoherent seed log w) (hcatalog : w'.catalog = w.catalog)
    (hholds : w'.service.holds = w.service.holds) (hcursor : w'.service.cursor = w.service.cursor) :
    CursorCoherent seed log w' := by
  intro account hunheld b hb
  rw [hcatalog]
  rw [hholds] at hunheld
  rw [hcursor] at hb
  exact h account hunheld b hb

lemma cursorCoherent_none (h : Coherent seed log w) (hcursor : w.service.cursor = none) :
    CursorCoherent seed log w := by
  intro account _ b hb
  rw [hcursor] at hb
  rw [upTo_none hb]
  exact caughtTo_nil h account

/-- Records after the world's journal are after every position in it. -/
lemma InLog.behind {position : Option Position} (h : InLog w.log position) {later : List ProjectionRecord}
    (hsplit : log.records = w.log.records ++ later) :
    ∀ c, position = some c → ∀ r ∈ later, c.sequence < r.position.sequence := by
  intro c hc r hr
  obtain ⟨s, hs, rfl⟩ := h c hc
  have hordered := log.ordered
  rw [hsplit, List.pairwise_append] at hordered
  exact (hordered.2.2 s hs r hr).2

structure PassCoherent (seed : Provisioned) (log : Log) (kind : PassKind) (w' : World)
    (result : Option Report) : Prop where
  coherent : Coherent seed log w'
  cursor : kind = .postIngest → CursorCoherent seed log w'
  completed : ∀ report, result = some report → CaughtUp seed log w' report.holds

variable {kind : PassKind}

theorem runPass_coherent (env : Surroundings) (hvalid : ValidJournal seed log) (h : Coherent seed log w)
    (hsound : Sound w) (hahead : kind = .postIngest → CursorAhead w)
    (hcursor : kind = .postIngest → CursorCoherent seed log w) :
    PassCoherent seed log kind (runPass seed kind env w).1 (runPass seed kind env w).2 := by
  obtain ⟨hbehind, hinLog, -⟩ := start_sound hsound hahead
  obtain ⟨later, hlater⟩ := h.records
  have hassert : assertCursorHasHolds w = w := by
    rw [assertCursorHasHolds, if_neg]
    exact fun hfails => hsound.cursor_holds hfails.1 hfails.2
  set resumeAfter := if kind = .postIngest then w.service.cursor else none with hresume
  have hprior : (if kind = .postIngest then w.service.holds else []) = priorHolds kind w := rfl
  unfold runPass
  simp only [servicePass, hassert, ← hresume, hprior]
  cases hrecords : passRecords env w.log w.catalog resumeAfter with
  | none =>
    rw [pass_eq_none _ _ _ _ _ _ hrecords]
    exact ⟨h.of_catalog rfl h.records, fun hkind => (hcursor hkind).of_catalog rfl rfl rfl, by simp⟩
  | some records =>
    obtain ⟨before, hsplit, hbefore, hafter⟩ := pendingRecords_spec (passRecords_eq_some hrecords)
    have hlog : log.records = before ++ (records ++ later) := by rw [← hlater, hsplit, List.append_assoc]
    have hstartBehind : ∀ c, startPosition w.catalog resumeAfter = some c → ∀ r ∈ records ++ later,
        c.sequence < r.position.sequence := by
      intro c hc r hr
      rcases List.mem_append.mp hr with hr | hr
      · exact hafter c hc r hr
      · exact InLog.behind hinLog hlater.symm c hc r hr
    have hcheckpointBehind : ∀ c, w.catalog.checkpoint = some c → ∀ r ∈ records ++ later,
        c.sequence < r.position.sequence := by
      intro c hc r hr
      obtain ⟨d, hd, hle⟩ := hbehind c hc
      exact hle.trans_lt (hstartBehind d hd r hr)
    have hupTo : UpTo log (startPosition w.catalog resumeAfter) before := ⟨⟨_, hlog.symm⟩, hbefore⟩
    -- the accounts that the pass does not hold from the outset have come to its start
    have hstarted : ∀ account, isHeld (priorHolds kind w) account = false →
        CaughtTo seed log before account (w.catalog.tables account) := by
      intro account hunheld
      by_cases hkind : kind = .postIngest
      · rw [hresume, if_pos hkind] at hupTo
        rw [priorHolds, if_pos hkind] at hunheld
        cases hdone : w.service.cursor with
        | none =>
          rw [hdone] at hupTo
          exact h.checkpoint account before hupTo
        | some cursor =>
          refine hcursor hkind account hunheld before ?_
          rw [hdone] at hupTo ⊢
          exact hupTo
      · rw [hresume, if_neg hkind] at hupTo
        exact h.checkpoint account before hupTo
    have hinitial : Underway seed log (priorHolds kind w) before before ⟨w.catalog, priorHolds kind w, [], []⟩ :=
      ⟨h.objects, h.owner, hstarted, hstarted, h.checkpoint⟩
    obtain ⟨done, hdone, hcomplete⟩ := @Underway.loop seed log before before later env
      (startsAtCheckpoint w.catalog resumeAfter) (priorHolds kind w) _ hinitial hvalid (runs records)
      (fun run hrun => ⟨runs_uniform run hrun, runs_sorted run hrun⟩) (by rw [runs_flatMap]; exact hlog)
      (List.prefix_refl _) (by rw [runs_flatMap]; exact hcheckpointBehind)
    rw [pass_eq _ _ _ _ _ _ hrecords]
    rw [runs_flatMap] at hcomplete
    generalize passLoop seed env (startsAtCheckpoint w.catalog resumeAfter)
      ⟨w.catalog, priorHolds kind w, [], []⟩ (runs records) = loop at hdone hcomplete ⊢
    obtain ⟨p, completed⟩ := loop
    refine ⟨⟨h.records, hdone.objects, hdone.owner, hdone.checkpoint⟩, ?_, ?_⟩
    · intro hkind account hunheld b hb
      change UpTo log w.service.cursor b at hb
      have hcaught : CaughtTo seed log before account (p.catalog.tables account) :=
        hdone.started account (by rw [priorHolds, if_pos hkind]; exact hunheld)
      refine hcaught.mono ?_
      cases hposition : w.service.cursor with
      | none =>
        rw [hposition] at hb
        rw [upTo_none hb]
        exact List.nil_prefix
      | some cursor =>
        rw [hposition] at hb
        refine hb.within hlog ?_
        rw [hresume, if_pos hkind, hposition] at hstartBehind
        exact hstartBehind
    · intro report hreport
      cases completed with
      | false => simp at hreport
      | true =>
        simp only [if_true, Option.some.injEq] at hreport
        subst hreport
        intro account hunheld
        have hcaught := hdone.unheld account hunheld
        rw [hcomplete rfl, ← hsplit] at hcaught
        exact hcaught

/-! ## Entry points -/

/-- The refreshes of a pass write nothing. -/
def Quiet (env : PassEnv) : Prop :=
  ∀ account, (env.refresh account).appended = [] ∧ (env.refresh account).tables = id ∧
    (env.refresh account).derivedOwner = id

lemma refreshAccount_quiet {env : PassEnv} (hq : Quiet env) (w : World) (account : CString) :
    (refreshAccount env w account).catalog = w.catalog ∧ (refreshAccount env w account).log = w.log := by
  obtain ⟨happended, htables, howner⟩ := hq account
  have hcatalog : ∀ cat : Catalog, cat.withSession account { cat.session account with
      tables := (cat.session account).tables, derivedOwner := (cat.session account).derivedOwner } = cat := by
    intro cat
    rw [withSession, session_tables, Function.update_eq_self]
    rfl
  unfold refreshAccount
  simp only [happended, htables, howner]
  split
  · exact ⟨hcatalog w.catalog, rfl⟩
  · exact ⟨hcatalog w.catalog, rfl⟩

lemma refreshPending_quiet {env : PassEnv} (hq : Quiet env) (report : Report) (w : World) :
    (refreshPending env report w).catalog = w.catalog ∧ (refreshPending env report w).log = w.log := by
  have hfold : ∀ (accounts : List CString) (w : World),
      (accounts.foldl (refreshAccount env) w).catalog = w.catalog ∧
      (accounts.foldl (refreshAccount env) w).log = w.log := by
    intro accounts
    induction accounts with
    | nil => exact fun w => ⟨rfl, rfl⟩
    | cons account accounts ih =>
      intro w
      obtain ⟨hcatalog, hlog⟩ := refreshAccount_quiet hq w account
      exact ⟨(ih _).1.trans hcatalog, (ih _).2.trans hlog⟩
  unfold refreshPending
  split
  · exact ⟨rfl, rfl⟩
  · exact hfold _ w

lemma extractPending_catalog (env : PassEnv) (report : Report) (w : World) :
    (extractPending env report w).1.catalog = w.catalog := by
  have hfold : ∀ (accounts : List CString) (progress : World × Bool),
      (accounts.foldl (extractAccount env) progress).1.catalog = progress.1.catalog := by
    intro accounts
    induction accounts with
    | nil => exact fun _ => rfl
    | cons account accounts ih =>
      intro progress
      refine (ih _).trans ?_
      unfold extractAccount
      simp only
      split <;> rfl
  unfold extractPending
  split
  · rfl
  · exact hfold _ _

/-- Extractions that append nothing leave the journal alone. -/
lemma extractPending_log (env : PassEnv) (report : Report) (w : World)
    (h : (extractPending env report w).2 = false) : (extractPending env report w).1.log = w.log := by
  have hfold : ∀ (accounts : List CString) (progress : World × Bool),
      (accounts.foldl (extractAccount env) progress).2 = false →
      progress.2 = false ∧ (accounts.foldl (extractAccount env) progress).1.log = progress.1.log := by
    intro accounts
    induction accounts with
    | nil => exact fun _ hnone => ⟨hnone, rfl⟩
    | cons account accounts ih =>
      intro progress hnone
      obtain ⟨hstep, hlog⟩ := ih _ hnone
      rw [List.foldl_cons, hlog]
      unfold extractAccount at hstep ⊢
      simp only [Bool.or_eq_false_iff, Bool.not_eq_false', List.isEmpty_iff] at hstep
      simp only [hstep.2]
      refine ⟨hstep.1, ?_⟩
      split <;> rfl
  unfold extractPending at h ⊢
  split
  · rfl
  · rename_i hextract
    rw [if_neg hextract] at h
    exact (hfold _ _ h).2

/-- What the passes of one entry point leave. -/
structure DerivedCoherent (seed : Provisioned) (log : Log) (w' : World) (result : Option Report) : Prop where
  coherent : Coherent seed log w'
  completed : ∀ report, result = some report → CaughtUp seed log w' report.holds

lemma PassCoherent.refreshed {env : PassEnv} {report report' : Report}
    (h : PassCoherent seed log kind w (some report)) (hq : Quiet env) :
    DerivedCoherent seed log (refreshPending env report' (queueMaterializedAccounts report w)) (some report) := by
  obtain ⟨hcatalog, hlog⟩ := refreshPending_quiet hq report' (queueMaterializedAccounts report w)
  refine ⟨h.coherent.of_catalog hcatalog (by rw [hlog]; exact h.coherent.records), ?_⟩
  intro r hr account hunheld
  rw [hcatalog, hlog]
  exact h.completed r hr account hunheld

theorem runDerivedPass_coherent {env : PassEnv} (hvalid : ValidJournal seed log) (hq : Quiet env)
    (h : Coherent seed log w) (hsound : Sound w) (hahead : kind = .postIngest → CursorAhead w)
    (hcursor : kind = .postIngest → CursorCoherent seed log w)
    (hrecords : (runDerivedPass seed kind env w).1.log.records <+: log.records) :
    DerivedCoherent seed log (runDerivedPass seed kind env w).1 (runDerivedPass seed kind env w).2 := by
  have hfirst := runPass_coherent env.first hvalid h hsound hahead hcursor
  have hfirstSound := runPass_sound seed env.first hsound hahead
  unfold runDerivedPass at hrecords ⊢
  generalize runPass seed kind env.first w = first at hfirst hfirstSound hrecords ⊢
  obtain ⟨w₁, result⟩ := first
  cases result with
  | none => exact ⟨hfirst.coherent, by simp⟩
  | some report =>
    simp only at hrecords ⊢
    have hqueued := (grows_queueMaterializedAccounts report w₁).trans (grows_clearRefreshHolds _)
    have hqueuedCatalog : ((queueMaterializedAccounts report w₁).withService
      { (queueMaterializedAccounts report w₁).service with refreshHolds := [] }).catalog = w₁.catalog := rfl
    have hqueuedLog : ((queueMaterializedAccounts report w₁).withService
      { (queueMaterializedAccounts report w₁).service with refreshHolds := [] }).log = w₁.log := rfl
    generalize (queueMaterializedAccounts report w₁).withService
      { (queueMaterializedAccounts report w₁).service with refreshHolds := [] } = w₂
      at hqueued hqueuedCatalog hqueuedLog hrecords ⊢
    have hextract := grows_extractPending env report w₂
    have hextractCatalog := extractPending_catalog env report w₂
    have hnothing : (extractPending env report w₂).2 = false →
        (extractPending env report w₂).1.log = w₂.log := extractPending_log env report w₂
    generalize extractPending env report w₂ = extracted
      at hextract hextractCatalog hnothing hrecords ⊢
    obtain ⟨w₃, appendedAny⟩ := extracted
    have hgrows := hqueued.trans hextract
    have hcatalog : w₃.catalog = w₁.catalog := hextractCatalog.trans hqueuedCatalog
    cases appendedAny with
    | false =>
      simp only at hrecords hnothing ⊢
      obtain ⟨hquietCatalog, hquietLog⟩ := refreshPending_quiet hq report w₃
      have hlog : (refreshPending env report w₃).log = w₁.log :=
        hquietLog.trans ((hnothing trivial).trans hqueuedLog)
      refine ⟨hfirst.coherent.of_catalog (hquietCatalog.trans hcatalog) hrecords, ?_⟩
      intro r hr account hunheld
      rw [hquietCatalog, hcatalog, hlog]
      exact hfirst.completed r hr account hunheld
    | true =>
      simp only at hrecords ⊢
      have hsecondLog : (runPass seed kind env.followUp w₃).1.log = w₃.log :=
        (runPass_sound seed env.followUp (hfirstSound.sound.grows hgrows)
          fun hkind => (hfirstSound.cursorAhead hkind).grows hgrows).log
      have hrecords₃ : w₃.log.records <+: log.records := by
        rw [← hsecondLog]
        generalize runPass seed kind env.followUp w₃ = second at hrecords ⊢
        obtain ⟨w₄, result⟩ := second
        cases result with
        | none => exact hrecords
        | some report =>
          rwa [(refreshPending_quiet hq report (queueMaterializedAccounts report w₄)).2] at hrecords
      have hsecond := @runPass_coherent seed log w₃ kind env.followUp hvalid
        (hfirst.coherent.of_catalog hcatalog hrecords₃) (hfirstSound.sound.grows hgrows)
        (fun hkind => (hfirstSound.cursorAhead hkind).grows hgrows)
        fun hkind => (hfirst.cursor hkind).of_catalog hcatalog hgrows.schedule.holds hgrows.schedule.cursor
      generalize runPass seed kind env.followUp w₃ = second at hsecond ⊢
      obtain ⟨w₄, result⟩ := second
      cases result with
      | none => exact ⟨hsecond.coherent, by simp⟩
      | some report => exact hsecond.refreshed hq

/-! ## The end of an entry point -/

structure StepCoherent (seed : Provisioned) (log : Log) (w' : World) (result : Option PassResult) : Prop where
  coherent : Coherent seed log w'
  cursor : CursorCoherent seed log w'
  completed : ∀ r, result = some r → r ≠ .aborted → CaughtUp seed log w' w'.service.holds
  clean : result = some .clean → w'.service.holds = []

/-- A cursor within the journal is behind the end of what has been caught up. -/
lemma CaughtUp.cursor {holds : List Hold} (h : CaughtUp seed log w holds)
    (hrecords : w.log.records <+: log.records) (hmem : InLog w.log w.service.cursor)
    (hholds : w.service.holds = holds) : CursorCoherent seed log w := by
  intro account hunheld b hb
  obtain ⟨later, hlater⟩ := hrecords
  rw [hholds] at hunheld
  exact (h account hunheld).mono (hb.within hlater.symm (InLog.behind hmem hlater.symm))

lemma finishPass_coherent {result : Option Report} (h : DerivedCoherent seed log w result)
    (hd : ∀ report, result = some report → ReportSound w report) :
    StepCoherent seed log (finishPass kind (w, result)).1 (some (finishPass kind (w, result)).2) := by
  cases result with
  | none =>
    have hf := finishFailedPass_spec kind none w
    have hcoherent : Coherent seed log (finishPass kind (w, none)).1 :=
      h.coherent.of_catalog hf.data.catalog (by change (finishFailedPass kind none w).log.records <+: _
                                                rw [hf.data.log]
                                                exact h.coherent.records)
    exact ⟨hcoherent, cursorCoherent_none hcoherent hf.cursor,
      fun r hr hne => absurd (Option.some.inj hr).symm hne, by simp [finishPass]⟩
  | some report =>
    have hcaught := h.completed report rfl
    unfold finishPass
    simp only
    split
    · rename_i hnoHolds
      have hcoherent : Coherent seed log ((finishCleanPass w).record (.passCompleted kind)) :=
        h.coherent.of_catalog rfl h.coherent.records
      refine ⟨hcoherent, cursorCoherent_none hcoherent rfl, fun _ _ _ => ?_, fun _ => rfl⟩
      rw [hnoHolds.1] at hcaught
      exact hcaught
    · have hf := finishFailedPass_spec kind (some report) w
      generalize finishFailedPass kind (some report) w = w' at hf ⊢
      have hholds : w'.service.holds = report.holds := hf.holds
      have hrecords : (w'.record (.passCompleted kind)).log.records <+: log.records := by
        change w'.log.records <+: _
        rw [hf.data.log]
        exact h.coherent.records
      have hcaught' : CaughtUp seed log (w'.record (.passCompleted kind)) report.holds := by
        intro account hunheld
        change CaughtTo seed log w'.log.records account (w'.catalog.tables account)
        rw [hf.data.log, hf.data.catalog]
        exact hcaught account hunheld
      refine ⟨h.coherent.of_catalog hf.data.catalog hrecords, ?_, fun _ _ _ => ?_, by simp⟩
      · refine hcaught'.cursor hrecords ?_ hholds
        change InLog w'.log w'.service.cursor
        rw [hf.cursor, hf.data.log, Option.elim_some]
        split
        · exact (hd report rfl).through_mem
        · intro c hc
          simp at hc
      · change CaughtUp seed log (w'.record (.passCompleted kind)) w'.service.holds
        rw [hholds]
        exact hcaught'

/-! ## Whole runs -/

def QuietOp : Op → Prop
  | .catchUp env => Quiet env
  | .postIngest env => Quiet env
  | .retry _ env => Quiet env
  | .write _ _ => False
  | _ => True

/-- The worlds that catch-up passes reach when nothing else writes to the catalog. The journal may
    grow between passes and by extractions. -/
inductive CatchUpRun (seed : Provisioned) (hasRefresh hasExtract : Bool) : World → Prop where
  | start : CatchUpRun seed hasRefresh hasExtract (start seed hasRefresh hasExtract)
  | step (op : Op) {w : World} : CatchUpRun seed hasRefresh hasExtract w → QuietOp op →
      CatchUpRun seed hasRefresh hasExtract (step seed op w).1

lemma CatchUpRun.reachable {hasRefresh hasExtract : Bool} (h : CatchUpRun seed hasRefresh hasExtract w) :
    Reachable seed hasRefresh hasExtract w := by
  induction h with
  | start => exact .start
  | step op _ _ ih => exact .step op ih

lemma runPass_log (env : Surroundings) : (runPass seed kind env w).1.log = w.log := by
  unfold runPass assertCursorHasHolds
  simp only
  split <;> rfl

lemma Grows.records_within (h : Grows w w') : w.log.records <+: w'.log.records := by
  obtain ⟨new, hnew, -⟩ := h.records
  exact ⟨new, hnew.symm⟩

lemma runDerivedPass_records (env : PassEnv) :
    w.log.records <+: (runDerivedPass seed kind env w).1.log.records := by
  have hfirst := @runPass_log seed w kind env.first
  unfold runDerivedPass
  generalize runPass seed kind env.first w = first at hfirst ⊢
  obtain ⟨w₁, result⟩ := first
  simp only at hfirst
  rw [← hfirst]
  cases result with
  | none => exact List.prefix_refl _
  | some report =>
    simp only
    have hqueued := (grows_queueMaterializedAccounts report w₁).trans (grows_clearRefreshHolds _)
    generalize (queueMaterializedAccounts report w₁).withService
      { (queueMaterializedAccounts report w₁).service with refreshHolds := [] } = w₂ at hqueued ⊢
    have hextract := grows_extractPending env report w₂
    generalize extractPending env report w₂ = extracted at hextract ⊢
    obtain ⟨w₃, appendedAny⟩ := extracted
    have hgrows := hqueued.trans hextract
    cases appendedAny with
    | false => exact Grows.records_within (hgrows.trans (grows_refreshPending env report w₃))
    | true =>
      have hsecond := @runPass_log seed w₃ kind env.followUp
      simp only
      generalize runPass seed kind env.followUp w₃ = second at hsecond ⊢
      obtain ⟨w₄, result⟩ := second
      simp only at hsecond
      cases result with
      | none =>
        simp only
        rw [hsecond]
        exact Grows.records_within hgrows
      | some report =>
        have hlast := Grows.records_within
          ((grows_queueMaterializedAccounts report w₄).trans (grows_refreshPending env report _))
        rw [hsecond] at hlast
        exact (Grows.records_within hgrows).trans hlast

lemma finishPass_log (result : Option Report) : (finishPass kind (w, result)).1.log = w.log := by
  cases result with
  | none => exact (finishFailedPass_spec kind none w).data.log
  | some report =>
    unfold finishPass
    simp only
    split
    · rfl
    · exact (finishFailedPass_spec kind (some report) w).data.log

/-- An entry point that ends with `finishPass`. -/
lemma finished_coherent {env : PassEnv} (hvalid : ValidJournal seed log) (hq : Quiet env)
    (h : Coherent seed log w) (hcursor : kind = .postIngest → CursorCoherent seed log w) (hinv : Invariant w)
    (hrecords : (finishPass kind (runDerivedPass seed kind env w)).1.log.records <+: log.records) :
    StepCoherent seed log (finishPass kind (runDerivedPass seed kind env w)).1
      (some (finishPass kind (runDerivedPass seed kind env w)).2) := by
  have hd := @runDerivedPass_sound kind w seed env hinv.sound fun _ => hinv.cursorAhead
  rw [show runDerivedPass seed kind env w = (_, _) from rfl, finishPass_log] at hrecords
  exact finishPass_coherent
    (runDerivedPass_coherent hvalid hq h hinv.sound (fun _ => hinv.cursorAhead) hcursor hrecords) hd.report

lemma step_records (op : Op) (w : World) : w.log.records <+: (step seed op w).1.log.records := by
  have hfinish : ∀ (kind : PassKind) (env : PassEnv) (w : World),
      w.log.records <+: (finishPass kind (runDerivedPass seed kind env w)).1.log.records := by
    intro kind env w
    rw [show runDerivedPass seed kind env w = (_, _) from rfl, finishPass_log]
    exact runDerivedPass_records env
  cases op with
  | catchUp env =>
    have hpass := @runDerivedPass_records seed w .catchUp env
    change _ <+: (catchUp seed env w).1.log.records
    unfold catchUp
    generalize runDerivedPass seed .catchUp env w = derived at hpass ⊢
    obtain ⟨w', result⟩ := derived
    cases result with
    | none => exact hpass
    | some report =>
      simp only
      rw [finishPass_log]
      exact hpass
  | postIngest env => exact hfinish .postIngest env w
  | retry source env =>
    change _ <+: (retryCatchUp seed source env w).1.log.records
    unfold retryCatchUp
    simp only
    split
    · exact List.prefix_refl _
    · have hpass := hfinish .retry env ({ w with timers := w.timers.filter (· ≠ source) }.withService
        { w.service with retrySource := none })
      exact hpass
  | stop => exact List.prefix_refl _
  | queueRefresh account => exact List.prefix_refl _
  | append event size => exact List.prefix_append _ _
  | write account tables => exact List.prefix_refl _
  | restart => exact List.prefix_refl _

theorem step_coherent (op : Op) (hop : QuietOp op) (hvalid : ValidJournal seed log) (hinv : Invariant w)
    (h : Coherent seed log w) (hcursor : CursorCoherent seed log w)
    (hrecords : (step seed op w).1.log.records <+: log.records) :
    StepCoherent seed log (step seed op w).1 (step seed op w).2 := by
  have hsame : ∀ w', w'.catalog = w.catalog → w'.log.records <+: log.records →
      w'.service.holds = w.service.holds → w'.service.cursor = w.service.cursor →
      StepCoherent seed log w' none := fun w' hcatalog hrecords hholds hposition =>
    ⟨h.of_catalog hcatalog hrecords, hcursor.of_catalog hcatalog hholds hposition, by simp, by simp⟩
  cases op with
  | catchUp env =>
    change StepCoherent seed log (catchUp seed env w).1 (some (catchUp seed env w).2)
    change (catchUp seed env w).1.log.records <+: log.records at hrecords
    have hd := @runDerivedPass_sound .catchUp w seed env hinv.sound (by simp)
    have hc := @runDerivedPass_coherent seed log w .catchUp env hvalid hop h hinv.sound (by simp) (by simp)
    unfold catchUp at hrecords ⊢
    generalize runDerivedPass seed .catchUp env w = derived at hd hc hrecords ⊢
    obtain ⟨w', result⟩ := derived
    cases result with
    | none =>
      have hcoherent := (hc hrecords).coherent
      have hcoherent' : Coherent seed log
          ((w'.withService { w'.service with cursor := none }).record (.passAborted .catchUp)) :=
        hcoherent.of_catalog rfl hrecords
      exact ⟨hcoherent', cursorCoherent_none hcoherent' rfl,
        fun r hr hne => absurd (Option.some.inj hr).symm hne, by simp⟩
    | some report =>
      simp only at hrecords
      rw [finishPass_log] at hrecords
      exact finishPass_coherent (hc hrecords) hd.report
  | postIngest env => exact finished_coherent hvalid hop h (fun _ => hcursor) hinv hrecords
  | retry source env =>
    change StepCoherent seed log (retryCatchUp seed source env w).1 (retryCatchUp seed source env w).2
    change (retryCatchUp seed source env w).1.log.records <+: log.records at hrecords
    unfold retryCatchUp at hrecords ⊢
    simp only at hrecords ⊢
    split
    · exact hsame _ rfl h.records rfl rfl
    · rename_i hlive
      rw [if_neg hlive] at hrecords
      have hsource : w.service.retrySource = some source := by
        by_contra hne
        exact hlive (.inr hne)
      exact finished_coherent hvalid hop (h.of_catalog rfl h.records) (by simp)
        (retry_pass_invariant hinv source hsource) hrecords
  | stop => exact hsame _ rfl h.records rfl rfl
  | queueRefresh account => exact hsame _ rfl h.records rfl rfl
  | append event size => exact hsame _ rfl hrecords rfl rfl
  | write account tables => exact absurd hop id
  | restart =>
    have hcoherent : Coherent seed log (restart w) := h.of_catalog rfl h.records
    exact ⟨hcoherent, cursorCoherent_none hcoherent rfl, by simp [step], by simp [step]⟩

lemma start_coherent (seed : Provisioned) (hasRefresh hasExtract : Bool) (log : Log) :
    Coherent seed log (start seed hasRefresh hasExtract) where
  records := List.nil_prefix
  objects := by simp [Registry.Within, start, initial, Registry.empty]
  owner := by simp [Registry.Within, start, initial, Registry.empty]
  checkpoint := by
    intro account b hb
    rw [upTo_none hb]
    exact caught_start seed account _

theorem run_coherent {hasRefresh hasExtract : Bool} (hrun : CatchUpRun seed hasRefresh hasExtract w)
    (hvalid : ValidJournal seed log) (hrecords : w.log.records <+: log.records) :
    Coherent seed log w ∧ CursorCoherent seed log w := by
  induction hrun with
  | start =>
    have hcoherent := start_coherent seed hasRefresh hasExtract log
    exact ⟨hcoherent, cursorCoherent_none hcoherent rfl⟩
  | step op hrun hop ih =>
    obtain ⟨hcoherent, hcursor⟩ := ih ((step_records op _).trans hrecords)
    have hstep := step_coherent op hop hvalid (reachable_invariant hrun.reachable) hcoherent hcursor hrecords
    exact ⟨hstep.coherent, hstep.cursor⟩

/-- After a pass that completes, every account it does not hold has the rows of one clean pass
    over the journal from an empty catalog; after a clean pass every account has. Whatever was held
    or failed before, an account's memberships and UID state are those of a replay of its own first
    records. -/
theorem catch_up_convergence (seed : Provisioned) {hasRefresh hasExtract : Bool} {w w' : World} {op : Op}
    {result : PassResult} (hrun : CatchUpRun seed hasRefresh hasExtract w) (hop : QuietOp op)
    (hstep : step seed op w = (w', some result)) (hvalid : ValidJournal seed w'.log) :
    (result = .clean → ∀ account, w'.catalog.tables account = (cleanCatalog seed w'.log).tables account) ∧
    (result ≠ .aborted → ∀ account, isHeld w'.service.holds account = false →
      w'.catalog.tables account = (cleanCatalog seed w'.log).tables account) ∧
    ∀ account, ∃ records t, records <+: ownRecords account w'.log.records ∧
      replayRows seed account (seed.accountTables account) records = .ok t ∧
      (w'.catalog.tables account).memberships = t.memberships ∧
      (w'.catalog.tables account).uidState = t.uidState := by
  have hrecords : (step seed op w).1.log.records <+: w'.log.records :=
    congrArg Prod.fst hstep ▸ List.prefix_refl _
  obtain ⟨hcoherent, hcursor⟩ := run_coherent hrun hvalid ((step_records op w).trans hrecords)
  have hafter := step_coherent op hop hvalid (reachable_invariant hrun.reachable) hcoherent hcursor hrecords
  rw [hstep] at hafter
  have hunheld : result ≠ .aborted → ∀ account, isHeld w'.service.holds account = false →
      w'.catalog.tables account = (cleanCatalog seed w'.log).tables account := by
    intro hcompleted account hfree
    have hcaught := hafter.completed result rfl hcompleted account hfree
    have hreplayed := hcaught.finished (journaled_of_valid hvalid account) (le_refl _)
    have hclean := (cleanCatalog_replays hvalid).rows account
    exact Except.ok.inj (hreplayed.symm.trans hclean)
  refine ⟨fun hclean account => ?_, hunheld, fun account => ?_⟩
  · refine hunheld (by simp [hclean]) account ?_
    have hnone : w'.service.holds = [] := hafter.clean (by rw [hclean])
    simp only [hnone, isHeld, List.any_nil]
  · exact (caughtTo_nil hafter.coherent account).firstRecords

lemma delivery_valid {r : ProjectionRecord} (h : isDelivery r = true) : Decoded r ∧ SeparateRecord r := by
  obtain ⟨position, event⟩ := r
  cases event with
  | messageDelivered delivery => exact ⟨trivial, by simp [SeparateRecord]⟩
  | _ => simp [isDelivery] at h

/-- Alice was held and released, the retry that released her aborted, and the next one is clean. -/
theorem catch_up_convergence_released :
    let w := (step sampleSeed (.retry 1 (faultAt 0 .none)) (runOps sampleSeed releasedOps)).1
    ((w.catalog.tables alice).memberships.map Membership.uid,
      (w.catalog.tables bob).memberships.map Membership.uid) = ([1], [1]) ∧
    ∀ account, w.catalog.tables account = (cleanCatalog sampleSeed w.log).tables account := by
  have hquiet : ∀ sequence fault, Quiet (faultAt sequence fault) := fun _ _ _ => ⟨rfl, rfl, rfl⟩
  have hrun : CatchUpRun sampleSeed true true (runOps sampleSeed releasedOps) :=
    .step _ (.step _ (.step _ (.step _ .start trivial) trivial) (hquiet _ _)) (hquiet _ _)
  have hdeliveries : (step sampleSeed (.retry 1 (faultAt 0 .none))
      (runOps sampleSeed releasedOps)).1.log.records.all isDelivery = true := by decide
  have hvalid : ValidJournal sampleSeed
      (step sampleSeed (.retry 1 (faultAt 0 .none)) (runOps sampleSeed releasedOps)).1.log :=
    ⟨fun r hr => (delivery_valid (List.all_eq_true.mp hdeliveries r hr)).1,
      fun r hr => (delivery_valid (List.all_eq_true.mp hdeliveries r hr)).2, _, rfl, rfl⟩
  exact ⟨by decide, (@catch_up_convergence sampleSeed true true _ _ (.retry 1 (faultAt 0 .none)) .clean hrun
    (hquiet 0 .none) rfl hvalid).1 rfl⟩

end

end
end Wyrebox.Convergence
