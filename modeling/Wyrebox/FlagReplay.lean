import Wyrebox.Reapplication

set_option autoImplicit false

/-!
# Flag changes applied again

A row records the journal position of the change that added its name, and a name that is present
is left alone. The last flag changes of a log, applied once more in order, reproduce every row.
-/
namespace Wyrebox.FlagReplay
open Catalog Materializer Event Catchup Fallible ReplayCells Reapplication
open JournalWriter (Position)

/-- A flag-changed record as the decoder accepts it: no name is listed twice. -/
structure FlagRecord where
  position : Position
  change : FlagChanged
  names_nodup : ∀ table, (flagNames change table).Nodup

def FlagRecord.run (record : FlagRecord) : Run := ⟨⟨record.position, .flagChanged record.change⟩, []⟩

section
variable (seed : Provisioned) (advanceCheckpoint : Bool)

def accepts (cat : Catalog) (record : FlagRecord) : Bool := (applyRun seed record.run advanceCheckpoint cat).isOk

/-- A record that fails is rolled back. -/
def applyFlagRecord (cat : Catalog) (record : FlagRecord) : Catalog :=
  match applyRun seed record.run advanceCheckpoint cat with
  | .ok cat => cat
  | .error _ => cat

def replayFlags (records : List FlagRecord) (cat : Catalog) : Catalog :=
  records.foldl (applyFlagRecord seed advanceCheckpoint) cat

end

/-! ## Rows and what a record writes -/

def target (cat : Catalog) (record : FlagRecord) : Option CString :=
  flagTarget (cat.tables record.change.accountId) record.change

def flagCells (cat : Catalog) (cell : CString × Cell) : Option CellRow := cells (cat.tables cell.1) cell.2

def recordEffect (cat : Catalog) (record : FlagRecord) : Effect (CString × Cell) CellRow := fun cell =>
  if record.change.accountId = cell.1 then
    flagEffect (target cat record) record.change record.position cell.2
  else .keep

/-- Only flag rows differ. -/
def SameFrame (cat cat' : Catalog) : Prop :=
  ∀ account, ∃ flags, cat'.tables account = { cat.tables account with flags := flags }

lemma SameFrame.refl (cat : Catalog) : SameFrame cat cat := fun account => ⟨(cat.tables account).flags, rfl⟩

lemma SameFrame.trans {cat cat' cat'' : Catalog} (h : SameFrame cat cat') (h' : SameFrame cat' cat'') :
    SameFrame cat cat'' := by
  intro account
  obtain ⟨flags, htables⟩ := h account
  obtain ⟨flags', htables'⟩ := h' account
  exact ⟨flags', by rw [htables', htables]⟩

lemma SameFrame.target_eq {cat cat' : Catalog} (h : SameFrame cat cat') (record : FlagRecord) :
    target cat' record = target cat record := by
  obtain ⟨flags, htables⟩ := h record.change.accountId
  rw [target, htables]
  rfl

lemma SameFrame.recordEffect_eq {cat cat' : Catalog} (h : SameFrame cat cat') (record : FlagRecord) :
    recordEffect cat' record = recordEffect cat record := by
  funext cell
  rw [recordEffect, recordEffect, h.target_eq]

/-- The rows of every account, from the frame and the cells. -/
lemma SameFrame.tables_ext {cat cat' : Catalog} (h : SameFrame cat cat')
    (hcells : flagCells cat' = flagCells cat) : cat'.tables = cat.tables := by
  funext account
  obtain ⟨flags, htables⟩ := h account
  have hflags : flags = (cat.tables account).flags := by
    funext table membershipId name
    have hcell := congrFun hcells (account, .flag table membershipId name)
    simp only [flagCells, htables, cells] at hcell
    exact Option.map_injective (fun _ _ heq => CellRow.flag.inj heq) hcell
  rw [htables, hflags]

/-! ## One record -/

section
variable {seed : Provisioned} {advanceCheckpoint : Bool} {cat cat' : Catalog}

lemma applyRun_flag (record : FlagRecord) :
    applyRun seed record.run advanceCheckpoint cat =
      match applyFlagChange (cat.tables record.change.accountId) record.change record.position with
      | .error error => .error error
      | .ok t =>
        let cat := cat.withSession record.change.accountId { cat.session record.change.accountId with tables := t }
        .ok (if advanceCheckpoint then
          { cat with checkpoint := saveCheckpoint cat.checkpoint record.position } else cat) := by
  have hrecords : applyRecords seed record.run (cat.session record.run.account) =
      (applyFlagChange (cat.tables record.change.accountId) record.change record.position).map
        fun t => { cat.session record.change.accountId with tables := t } := rfl
  rw [applyRun, hrecords]
  cases applyFlagChange (cat.tables record.change.accountId) record.change record.position <;> rfl

lemma applyRun_of_target_none {record : FlagRecord} (h : target cat record = none) :
    applyRun seed record.run advanceCheckpoint cat = .error .flagTargetMissing := by
  have hmissing : (cat.tables record.change.accountId).findUid record.change.mailboxId
      record.change.uidvalidity record.change.uid = none := Option.map_eq_none_iff.mp h
  have hresolve : applyFlagChange (cat.tables record.change.accountId) record.change record.position =
      .error .flagTargetMissing := by
    rw [applyFlagChange, resolveFlagTarget, hmissing]
    rfl
  rw [applyRun_flag, hresolve]

lemma applyRun_of_target_some {record : FlagRecord} {membershipId : CString}
    (h : target cat record = some membershipId) :
    ∃ cat', applyRun seed record.run advanceCheckpoint cat = .ok cat' ∧ SameFrame cat cat' ∧
      flagCells cat' = (recordEffect cat record).apply (flagCells cat) := by
  obtain ⟨row, hrow, -⟩ := Option.map_eq_some_iff.mp h
  obtain ⟨flags, happly, hcells⟩ :=
    @applyFlagChange_cells record.position _ record.change row record.names_nodup hrow
  have htables : ∀ account, (cat.withSession record.change.accountId
      { cat.session record.change.accountId with
        tables := { cat.tables record.change.accountId with flags := flags } }).tables account =
      if record.change.accountId = account then { cat.tables account with flags := flags }
      else cat.tables account := by
    intro account
    split
    · rename_i heq
      subst heq
      exact withSession_tables_self ..
    · rename_i hne
      exact withSession_tables_of_ne _ _ _ (Ne.symm hne)
  have hframe : ∀ cat' : Catalog, (∀ account, cat'.tables account =
      if record.change.accountId = account then { cat.tables account with flags := flags }
      else cat.tables account) → SameFrame cat cat' ∧
        flagCells cat' = (recordEffect cat record).apply (flagCells cat) := by
    intro cat' hcat'
    constructor
    · intro account
      rw [hcat']
      split
      · exact ⟨flags, rfl⟩
      · exact ⟨(cat.tables account).flags, rfl⟩
    · funext ⟨account, cell⟩
      simp only [flagCells, hcat', Effect.apply, recordEffect]
      split
      · rename_i heq
        subst heq
        exact congrFun hcells cell
      · rfl
  rw [applyRun_flag, happly]
  exact ⟨_, rfl, hframe _ fun account => by rw [← htables account]; cases advanceCheckpoint <;> rfl⟩

lemma accepts_eq (record : FlagRecord) :
    accepts seed advanceCheckpoint cat record = (target cat record).isSome := by
  cases htarget : target cat record with
  | none =>
    rw [accepts, applyRun_of_target_none htarget]
    rfl
  | some membershipId =>
    obtain ⟨cat', happly, -⟩ :=
      @applyRun_of_target_some seed advanceCheckpoint cat record membershipId htarget
    rw [accepts, happly]
    rfl

/-- A record writes its target's rows, and none where there is no target. -/
lemma applyFlagRecord_cells (record : FlagRecord) :
    SameFrame cat (applyFlagRecord seed advanceCheckpoint cat record) ∧
      flagCells (applyFlagRecord seed advanceCheckpoint cat record) =
        (recordEffect cat record).apply (flagCells cat) := by
  cases htarget : target cat record with
  | none =>
    rw [applyFlagRecord, applyRun_of_target_none htarget]
    refine ⟨.refl cat, ?_⟩
    funext ⟨account, cell⟩
    simp only [Effect.apply, recordEffect, htarget]
    split
    · cases cell <;> rfl
    · rfl
  | some membershipId =>
    obtain ⟨cat', happly, hspec⟩ :=
      @applyRun_of_target_some seed advanceCheckpoint cat record membershipId htarget
    rw [applyFlagRecord, happly]
    exact hspec

/-! ## A log of records -/

lemma replayFlags_cells (records : List FlagRecord) :
    SameFrame cat (replayFlags seed advanceCheckpoint records cat) ∧
      flagCells (replayFlags seed advanceCheckpoint records cat) =
        replay (records.map (recordEffect cat)) (flagCells cat) := by
  induction records generalizing cat with
  | nil => exact ⟨.refl cat, rfl⟩
  | cons record records ih =>
    obtain ⟨hframe, hcells⟩ := @applyFlagRecord_cells seed advanceCheckpoint cat record
    obtain ⟨hframe', hcells'⟩ := @ih (applyFlagRecord seed advanceCheckpoint cat record)
    refine ⟨hframe.trans hframe', ?_⟩
    have heffects : records.map (recordEffect (applyFlagRecord seed advanceCheckpoint cat record)) =
        records.map (recordEffect cat) := List.map_congr_left fun record _ => hframe.recordEffect_eq record
    change flagCells (replayFlags seed advanceCheckpoint records _) = _
    rw [hcells', heffects, hcells]
    rfl

end

/-- Whatever the checkpoint does, the last records of a log are accepted again as they were and
    leave every row of every account. -/
theorem replayFlags_suffix (seed : Provisioned) (advanceCheckpoint advanceAgain : Bool)
    (before suffix : List FlagRecord) (cat : Catalog) :
    (replayFlags seed advanceAgain suffix
      (replayFlags seed advanceCheckpoint (before ++ suffix) cat)).tables =
        (replayFlags seed advanceCheckpoint (before ++ suffix) cat).tables ∧
    ∀ record, accepts seed advanceAgain (replayFlags seed advanceCheckpoint (before ++ suffix) cat) record =
      accepts seed advanceCheckpoint cat record := by
  obtain ⟨hframe, hcells⟩ := @replayFlags_cells seed advanceCheckpoint cat (before ++ suffix)
  obtain ⟨hagain, hcellsAgain⟩ := @replayFlags_cells seed advanceAgain
    (replayFlags seed advanceCheckpoint (before ++ suffix) cat) suffix
  constructor
  · apply hagain.tables_ext
    have heffects : suffix.map (recordEffect (replayFlags seed advanceCheckpoint (before ++ suffix) cat)) =
        suffix.map (recordEffect cat) := List.map_congr_left fun record _ => hframe.recordEffect_eq record
    rw [hcellsAgain, heffects, hcells, List.map_append]
    exact replay_suffix ..
  · intro record
    rw [accepts_eq, accepts_eq, hframe.target_eq]

end Wyrebox.FlagReplay
