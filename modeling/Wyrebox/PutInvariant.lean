import Wyrebox.ObjectStore

set_option autoImplicit false

/-!
# What each call of a put keeps

A put owns its temporary name and file until it removes the name; an object's file was whole and
synced before it got its final name. One call of a put changes nothing that others rely on.
-/
namespace Wyrebox.ObjectStore
open JournalRecord CrashFs

/-! ## What is relied on -/

/-- The temporary name and file of a put that has one. -/
def Stage.temp? : Stage → Option (List UInt8 × FileId)
  | .write temp file _ => some (temp, file)
  | .syncTemp temp file => some (temp, file)
  | .closeTemp temp file => some (temp, file)
  | .link temp file => some (temp, file)
  | .unlinkInstalled temp file => some (temp, file)
  | .unlinkExisting temp file => some (temp, file)
  | .unlinkFailed temp file => some (temp, file)
  | _ => none

/-- Every object file was synced with the bytes of some put before it got its name. -/
structure ObjectsValid (sha : Sha256) (isPut : List UInt8 → Prop) (fs : StoreFs) : Prop where
  valid : ∀ path file, path.2.IsObject → fs.entries path = some file →
    isPut (fs.data file) ∧ path = objectPath (checksumBytes sha (fs.data file)) ∧ fs.synced file = true
  stale : ∀ path, path.2.IsObject → ∀ entry ∈ fs.stale path, entry = none

/-- The put's temporary name leads to its file. -/
def Put.Owns (sha : Sha256) (fs : StoreFs) (p : Put) (temp : List UInt8) (file : FileId) : Prop :=
  DirDurable fs (p.parentDir sha) ∧ fs.entries (p.tempPath sha temp) = some file

/-- What a put relies on at each stage. -/
def Put.Holds (sha : Sha256) (fs : StoreFs) (p : Put) : Prop :=
  match p.stage with
  | .syncHashRoot => fs.dirs (p.parentDir sha) = true
  | .testExists | .createTemp | .syncExisting | .verifyExisting => DirDurable fs (p.parentDir sha)
  | .write temp file written => p.Owns sha fs temp file ∧ ¬Linked FileName.IsObject fs file ∧
      fs.data file = p.bytes.take written
  | .syncTemp temp file => p.Owns sha fs temp file ∧ ¬Linked FileName.IsObject fs file ∧
      fs.data file = p.bytes
  | .closeTemp temp file | .link temp file => p.Owns sha fs temp file ∧
      fs.data file = p.bytes ∧ fs.synced file = true
  | .unlinkInstalled temp file => p.Owns sha fs temp file ∧ (fs.entries (p.path sha)).isSome = true
  | .unlinkExisting temp file | .unlinkFailed temp file => p.Owns sha fs temp file
  | .syncParent => DirDurable fs (p.parentDir sha) ∧ (fs.entries (p.path sha)).isSome = true
  | .done => ∃ contents, Durable fs (p.path sha) contents
  | _ => True

section
variable {sha : Sha256} {isPut : List UInt8 → Prop} {fs fs' : StoreFs} {p : Put} {own : FileId}

theorem Put.Owns.frame {temp : List UInt8} {file : FileId} (h : p.Owns sha fs temp file) (hfile : file ≠ own)
    (hframe : Frame FileName.IsObject own fs fs') : p.Owns sha fs' temp file :=
  ⟨hframe.dirDurable _ h.1, hframe.entries _ _ h.2 (.inr hfile)⟩

theorem entry_isSome_frame (hframe : Frame FileName.IsObject own fs fs')
    (h : (fs.entries (p.path sha)).isSome = true) : (fs'.entries (p.path sha)).isSome = true := by
  obtain ⟨file, hfile⟩ := Option.isSome_iff_exists.mp h
  rw [hframe.entries _ _ hfile (.inl trivial)]
  rfl

/-- What one put relies on is not touched by the others. -/
theorem Put.Holds.frame (h : p.Holds sha fs) (hfresh : Fresh fs)
    (hown : ∀ temp file, p.stage.temp? = some (temp, file) → file ≠ own)
    (hframe : Frame FileName.IsObject own fs fs') : p.Holds sha fs' := by
  obtain ⟨bytes, stage⟩ := p
  have hlinked : ∀ {file}, file ≠ own → ¬Linked FileName.IsObject fs file →
      ¬Linked FileName.IsObject fs' file :=
    fun hne hunlinked hlinked => (hframe.links _ hlinked).elim hunlinked hne
  have hdata : ∀ {temp file}, Put.Owns sha fs ⟨bytes, stage⟩ temp file → file ≠ own →
      fs'.data file = fs.data file ∧ (fs.synced file = true → fs'.synced file = true) :=
    fun howns hne => hframe.data _ (hfresh _ _ (.inl howns.2)) (.inl hne)
  cases stage with
  | checkRoot => trivial
  | makeParent => trivial
  | syncHashRoot => exact hframe.dirs _ h
  | testExists => exact hframe.dirDurable _ h
  | createTemp => exact hframe.dirDurable _ h
  | syncExisting => exact hframe.dirDurable _ h
  | verifyExisting => exact hframe.dirDurable _ h
  | write temp file written =>
    obtain ⟨howns, hunlinked, hbytes⟩ := h
    have hne := hown temp file rfl
    exact ⟨howns.frame hne hframe, hlinked hne hunlinked, (hdata howns hne).1.trans hbytes⟩
  | syncTemp temp file =>
    obtain ⟨howns, hunlinked, hbytes⟩ := h
    have hne := hown temp file rfl
    exact ⟨howns.frame hne hframe, hlinked hne hunlinked, (hdata howns hne).1.trans hbytes⟩
  | closeTemp temp file =>
    obtain ⟨howns, hbytes, hsynced⟩ := h
    have hne := hown temp file rfl
    exact ⟨howns.frame hne hframe, (hdata howns hne).1.trans hbytes, (hdata howns hne).2 hsynced⟩
  | link temp file =>
    obtain ⟨howns, hbytes, hsynced⟩ := h
    have hne := hown temp file rfl
    exact ⟨howns.frame hne hframe, (hdata howns hne).1.trans hbytes, (hdata howns hne).2 hsynced⟩
  | unlinkInstalled temp file => exact ⟨h.1.frame (hown temp file rfl) hframe, entry_isSome_frame hframe h.2⟩
  | unlinkExisting temp file => exact Put.Owns.frame h (hown temp file rfl) hframe
  | unlinkFailed temp file => exact Put.Owns.frame h (hown temp file rfl) hframe
  | syncParent => exact ⟨hframe.dirDurable _ h.1, entry_isSome_frame hframe h.2⟩
  | done =>
    obtain ⟨contents, hdurable⟩ := h
    exact ⟨contents, hdurable.frame hfresh trivial hframe⟩
  | syncFailed => trivial
  | failed => trivial
  | killed => trivial

/-- An operation that changes no object's entry keeps the objects valid. -/
theorem ObjectsValid.frame (h : ObjectsValid sha isPut fs) (hfresh : Fresh fs)
    (hframe : Frame FileName.IsObject own fs fs')
    (hentries : ∀ path, path.2.IsObject → fs'.entries path = fs.entries path)
    (hstale : ∀ path, path.2.IsObject → ∀ entry ∈ fs'.stale path, entry ∈ fs.stale path) :
    ObjectsValid sha isPut fs' := by
  refine ⟨?_, fun path hpath entry hentry => h.stale path hpath entry (hstale path hpath entry hentry)⟩
  intro path file hpath hentry
  rw [hentries path hpath] at hentry
  obtain ⟨hput, hname, hsynced⟩ := h.valid path file hpath hentry
  obtain ⟨hdata, hsynced'⟩ := hframe.data file (hfresh path file (.inl hentry)) (.inr ⟨path, hpath, hentry⟩)
  rw [hdata]
  exact ⟨hput, hname, hsynced' hsynced⟩

end

/-! ## One call keeps the invariant -/

/-- What a call of one put may do: `stage` is the put's next stage. -/
structure Acts (sha : Sha256) (isPut : List UInt8 → Prop) (fs : StoreFs) (p : Put) (fs' : StoreFs)
    (stage : Stage) : Prop where
  frame : ∃ own, Frame FileName.IsObject own fs fs' ∧
    (own = fs.next ∨ ∃ temp, p.stage.temp? = some (temp, own))
  fresh : Fresh fs'
  objects : ObjectsValid sha isPut fs'
  holds : Put.Holds sha fs' ⟨p.bytes, stage⟩
  temp : ∀ temp file, stage.temp? = some (temp, file) → p.stage.temp? = some (temp, file) ∨ file = fs.next

section
variable {sha : Sha256} {isPut : List UInt8 → Prop} {fs fs' : StoreFs} {p : Put} {stage : Stage}

theorem Acts.same (hfresh : Fresh fs) (hobjects : ObjectsValid sha isPut fs)
    (hholds : Put.Holds sha fs ⟨p.bytes, stage⟩)
    (htemp : ∀ temp file, stage.temp? = some (temp, file) → p.stage.temp? = some (temp, file)) :
    Acts sha isPut fs p fs stage :=
  ⟨⟨fs.next, .refl, .inl rfl⟩, hfresh, hobjects, hholds, fun temp file h => .inl (htemp temp file h)⟩

/-- A put that ends without success touches nothing. -/
theorem Acts.failed (hfresh : Fresh fs) (hobjects : ObjectsValid sha isPut fs) :
    Acts sha isPut fs p fs .failed :=
  .same hfresh hobjects trivial fun _ _ h => by simp [Stage.temp?] at h

/-- An operation that names no object. -/
theorem Acts.of_frame {own : FileId} (hobjects : ObjectsValid sha isPut fs) (hfresh : Fresh fs)
    (hframe : Frame FileName.IsObject own fs fs')
    (hown : own = fs.next ∨ ∃ temp, p.stage.temp? = some (temp, own)) (hfresh' : Fresh fs')
    (hentries : ∀ path, path.2.IsObject → fs'.entries path = fs.entries path)
    (hstale : ∀ path, path.2.IsObject → ∀ entry ∈ fs'.stale path, entry ∈ fs.stale path)
    (hholds : Put.Holds sha fs' ⟨p.bytes, stage⟩)
    (htemp : ∀ temp file, stage.temp? = some (temp, file) →
      p.stage.temp? = some (temp, file) ∨ file = fs.next) :
    Acts sha isPut fs p fs' stage :=
  ⟨⟨own, hframe, hown⟩, hfresh', hobjects.frame hfresh hframe hentries hstale, hholds, htemp⟩

/-- Syncing the put's directory. -/
theorem Acts.syncDir (hobjects : ObjectsValid sha isPut fs) (hfresh : Fresh fs)
    (hholds : Put.Holds sha (fs.syncDir (p.parentDir sha)) ⟨p.bytes, stage⟩)
    (htemp : stage.temp? = none) : Acts sha isPut fs p (fs.syncDir (p.parentDir sha)) stage := by
  refine .of_frame hobjects hfresh (.syncDir _) (.inl rfl) (hfresh.syncDir _) (fun _ _ => rfl) ?_ hholds ?_
  · intro path _ entry hentry
    simp only [Fs.syncDir] at hentry
    split at hentry
    · exact absurd hentry List.not_mem_nil
    · exact hentry
  · intro temp file h
    simp [htemp] at h

theorem setEntry_entries_of_ne {path other : List UInt8 × FileName} {entry : Option FileId} (h : other ≠ path) :
    (fs.setEntry path entry).entries other = fs.entries other ∧
      (fs.setEntry path entry).stale other = fs.stale other := by
  simp [Fs.setEntry, Function.update_of_ne h]

/-- Removing the put's temporary name. -/
theorem Acts.unlinkTemp {temp : List UInt8} {file : FileId} (hobjects : ObjectsValid sha isPut fs)
    (hfresh : Fresh fs) (howns : p.Owns sha fs temp file) (hstage : p.stage.temp? = some (temp, file))
    (hholds : ∀ fs', Frame FileName.IsObject file fs fs' → Put.Holds sha fs' ⟨p.bytes, stage⟩)
    (htemp : stage.temp? = none) :
    Acts sha isPut fs p (fs.setEntry (p.tempPath sha temp) none) stage := by
  have hframe : Frame FileName.IsObject file fs (fs.setEntry (p.tempPath sha temp) none) :=
    .unlink howns.2 id
  have hother : ∀ path : List UInt8 × FileName, path.2.IsObject → path ≠ p.tempPath sha temp := by
    rintro path hpath rfl
    exact hpath
  refine .of_frame hobjects hfresh hframe (.inr ⟨temp, hstage⟩) (hfresh.setEntry _ (by simp)) ?_ ?_
    (hholds _ hframe) ?_
  · exact fun path hpath => (setEntry_entries_of_ne (hother path hpath)).1
  · intro path hpath entry hentry
    rwa [(setEntry_entries_of_ne (hother path hpath)).2] at hentry
  · intro temp file h
    simp [htemp] at h

/-- Giving the put's file its final name. -/
theorem Acts.install {temp : List UInt8} {file : FileId} (hput : isPut p.bytes)
    (hobjects : ObjectsValid sha isPut fs) (hfresh : Fresh fs) (hstage : p.stage = .link temp file)
    (hholds : p.Holds sha fs) (hnone : fs.entries (p.path sha) = none) :
    Acts sha isPut fs p (fs.setEntry (p.path sha) (some file)) (.unlinkInstalled temp file) := by
  have hlink : p.Owns sha fs temp file ∧ fs.data file = p.bytes ∧ fs.synced file = true := by
    simpa only [Put.Holds, hstage] using hholds
  obtain ⟨howns, hbytes, hsynced⟩ := hlink
  have htempNe : p.tempPath sha temp ≠ p.path sha := by simp [Put.tempPath, Put.path, objectPath]
  refine ⟨⟨file, .link hnone, .inr ⟨temp, by rw [hstage]; rfl⟩⟩, ?_, ⟨?_, ?_⟩, ?_, ?_⟩
  · refine hfresh.setEntry _ fun other hother => ?_
    cases hother
    exact hfresh _ _ (.inl howns.2)
  · intro path other hpath hentry
    by_cases hsame : path = p.path sha
    · subst hsame
      simp only [Fs.setEntry, Function.update_self, Option.some.injEq] at hentry
      subst hentry
      change isPut (fs.data file) ∧ _ = objectPath (checksumBytes sha (fs.data file)) ∧ fs.synced file = true
      rw [hbytes]
      exact ⟨hput, rfl, hsynced⟩
    · rw [(setEntry_entries_of_ne hsame).1] at hentry
      exact hobjects.valid path other hpath hentry
  · intro path hpath entry hentry
    by_cases hsame : path = p.path sha
    · subst hsame
      simp only [Fs.setEntry, Function.update_self, List.mem_cons] at hentry
      rcases hentry with rfl | hold
      · exact hnone
      · exact hobjects.stale _ hpath entry hold
    · rw [(setEntry_entries_of_ne hsame).2] at hentry
      exact hobjects.stale path hpath entry hentry
  · refine ⟨⟨howns.1, ?_⟩, ?_⟩
    · exact (setEntry_entries_of_ne htempNe).1.trans howns.2
    · change (Function.update fs.entries (p.path sha) (some file) (p.path sha)).isSome = true
      rw [Function.update_self]
      rfl
  · intro temp' file' h
    left
    rw [hstage]
    exact h

/-- Each call of a put, whatever it replies. -/
theorem Put.act_acts (hput : isPut p.bytes) (hobjects : ObjectsValid sha isPut fs) (hfresh : Fresh fs)
    (hholds : p.Holds sha fs) (reply : Reply) :
    Acts sha isPut fs p (p.act sha fs reply).1 (p.act sha fs reply).2 := by
  obtain ⟨bytes, stage⟩ := p
  have hfailed := Acts.failed (p := ⟨bytes, stage⟩) hfresh hobjects
  have hnone : ∀ {stage' : Stage}, stage'.temp? = none → ∀ temp file,
      stage'.temp? = some (temp, file) → stage.temp? = some (temp, file) :=
    fun hstage temp file h => by simp [hstage] at h
  cases stage with
  | checkRoot =>
    cases reply with
    | failure => exact hfailed
    | success => exact .same hfresh hobjects trivial (hnone rfl)
    | name suffix => exact .same hfresh hobjects trivial (hnone rfl)
    | count n => exact .same hfresh hobjects trivial (hnone rfl)
  | makeParent =>
    have hmade : Acts sha isPut fs ⟨bytes, .makeParent⟩ (fs.mkdir (Put.parentDir sha ⟨bytes, .makeParent⟩))
        .syncHashRoot := by
      refine .of_frame hobjects hfresh (.mkdir _) (.inl rfl) (hfresh.mkdir _) ?_ ?_ ?_ ?_
      · intro path _
        unfold Fs.mkdir
        split <;> rfl
      · intro path _ entry hentry
        unfold Fs.mkdir at hentry
        split at hentry <;> exact hentry
      · change (fs.mkdir _).dirs _ = true
        unfold Fs.mkdir
        split
        · assumption
        · exact Function.update_self ..
      · exact fun temp file h => .inl (hnone rfl temp file h)
    cases reply with
    | failure => exact hfailed
    | success => exact hmade
    | name suffix => exact hmade
    | count n => exact hmade
  | syncHashRoot =>
    have hsynced : Acts sha isPut fs ⟨bytes, .syncHashRoot⟩ fs.syncRoot .testExists := by
      refine .of_frame hobjects hfresh .syncRoot (.inl rfl) hfresh (fun _ _ => rfl) (fun _ _ _ h => h) ?_ ?_
      · exact ⟨hholds, rfl⟩
      · exact fun temp file h => .inl (hnone rfl temp file h)
    cases reply with
    | failure => exact hfailed
    | success => exact hsynced
    | name suffix => exact hsynced
    | count n => exact hsynced
  | testExists =>
    have hcreate : Acts sha isPut fs ⟨bytes, .testExists⟩ fs .createTemp :=
      .same hfresh hobjects hholds (hnone rfl)
    have htest : Acts sha isPut fs ⟨bytes, .testExists⟩
        (Put.act sha fs ⟨bytes, .testExists⟩ .success).1 (Put.act sha fs ⟨bytes, .testExists⟩ .success).2 := by
      simp only [Put.act]
      split
      · exact .same hfresh hobjects hholds (hnone rfl)
      · exact hcreate
    cases reply with
    | failure => exact hcreate
    | success => exact htest
    | name suffix => exact htest
    | count n => exact htest
  | createTemp =>
    have hstay : Acts sha isPut fs ⟨bytes, .createTemp⟩ fs .createTemp :=
      .same hfresh hobjects hholds (hnone rfl)
    cases reply with
    | failure => exact hfailed
    | success => exact hstay
    | count n => exact hstay
    | name suffix =>
      simp only [Put.act]
      split
      · exact hstay
      · rename_i hfree
        rw [Option.not_isSome_iff_eq_none] at hfree
        have hother : ∀ path : List UInt8 × FileName, path.2.IsObject →
            path ≠ Put.tempPath sha ⟨bytes, .createTemp⟩ suffix := by
          rintro path hpath rfl
          exact hpath
        refine .of_frame hobjects hfresh (.create hfree id) (.inl rfl) (hfresh.create _) ?_ ?_ ?_ ?_
        · intro path hpath
          simp only [Fs.create, Fs.setEntry, Function.update_of_ne (hother path hpath)]
        · intro path hpath entry hentry
          simpa only [Fs.create, Fs.setEntry, Function.update_of_ne (hother path hpath)] using hentry
        · refine ⟨⟨hholds, ?_⟩, ?_, ?_⟩
          · simp [Fs.create, Fs.setEntry, Put.tempPath, Put.parentDir, Put.hex]
          · rintro ⟨path, hpath, hentry⟩
            simp only [Fs.create, Fs.setEntry, Function.update_of_ne (hother path hpath)] at hentry
            exact Nat.lt_irrefl _ (hfresh path fs.next (.inl hentry))
          · simp [Fs.create]
        · intro temp file h
          simp only [Stage.temp?, Option.some.injEq, Prod.mk.injEq] at h
          exact .inr h.2.symm
  | write temp file written =>
    obtain ⟨howns, hunlinked, hdata⟩ := hholds
    simp only [Put.act]
    split
    · rename_i hwhole
      refine .same hfresh hobjects ⟨howns, hunlinked, ?_⟩ fun _ _ h => h
      rw [hdata, List.take_of_length_le hwhole]
    · cases reply with
      | failure => exact .same hfresh hobjects howns fun _ _ h => h
      | success => exact .same hfresh hobjects ⟨howns, hunlinked, hdata⟩ fun _ _ h => h
      | name suffix => exact .same hfresh hobjects ⟨howns, hunlinked, hdata⟩ fun _ _ h => h
      | count n =>
        refine .of_frame hobjects hfresh (.append hunlinked _) (.inr ⟨temp, rfl⟩) hfresh (fun _ _ => rfl)
          (fun _ _ _ h => h) ⟨howns, hunlinked, ?_⟩ fun _ _ h => .inl h
        change Function.update fs.data file _ file = _
        rw [Function.update_self, hdata, ← List.take_add, List.take_eq_take_min]
  | syncTemp temp file =>
    obtain ⟨howns, hunlinked, hdata⟩ := hholds
    have hsynced : Acts sha isPut fs ⟨bytes, .syncTemp temp file⟩ (fs.syncFile file) (.closeTemp temp file) := by
      refine .of_frame hobjects hfresh .syncFile (.inr ⟨temp, rfl⟩) hfresh (fun _ _ => rfl)
        (fun _ _ _ h => h) ⟨howns, hdata, ?_⟩ fun _ _ h => .inl h
      exact Function.update_self ..
    cases reply with
    | failure => exact .same hfresh hobjects howns fun _ _ h => h
    | success => exact hsynced
    | name suffix => exact hsynced
    | count n => exact hsynced
  | closeTemp temp file =>
    have hclosed : Acts sha isPut fs ⟨bytes, .closeTemp temp file⟩ fs (.link temp file) :=
      .same hfresh hobjects hholds fun _ _ h => h
    cases reply with
    | failure => exact .same hfresh hobjects hholds.1 fun _ _ h => h
    | success => exact hclosed
    | name suffix => exact hclosed
    | count n => exact hclosed
  | link temp file =>
    have hlinked : Acts sha isPut fs ⟨bytes, .link temp file⟩
        (Put.act sha fs ⟨bytes, .link temp file⟩ .success).1
        (Put.act sha fs ⟨bytes, .link temp file⟩ .success).2 := by
      simp only [Put.act]
      rw [show fs.entries (Put.tempPath sha ⟨bytes, .link temp file⟩ temp) = some file from hholds.1.2]
      simp only
      split
      · exact .same hfresh hobjects hholds.1 fun _ _ h => h
      · rename_i hfree
        exact .install hput hobjects hfresh rfl hholds (Option.not_isSome_iff_eq_none.mp hfree)
    cases reply with
    | failure => exact .same hfresh hobjects hholds.1 fun _ _ h => h
    | success => exact hlinked
    | name suffix => exact hlinked
    | count n => exact hlinked
  | unlinkInstalled temp file =>
    have hunlinked : Acts sha isPut fs ⟨bytes, .unlinkInstalled temp file⟩
        (fs.setEntry (Put.tempPath sha ⟨bytes, .unlinkInstalled temp file⟩ temp) none) .syncParent :=
      .unlinkTemp hobjects hfresh hholds.1 rfl
        (fun fs' hframe => ⟨hframe.dirDurable _ hholds.1.1, entry_isSome_frame hframe hholds.2⟩) rfl
    cases reply with
    | failure => exact .same hfresh hobjects ⟨hholds.1.1, hholds.2⟩ (hnone rfl)
    | success => exact hunlinked
    | name suffix => exact hunlinked
    | count n => exact hunlinked
  | unlinkExisting temp file =>
    have hunlinked : Acts sha isPut fs ⟨bytes, .unlinkExisting temp file⟩
        (fs.setEntry (Put.tempPath sha ⟨bytes, .unlinkExisting temp file⟩ temp) none) .syncExisting :=
      .unlinkTemp hobjects hfresh hholds rfl (fun fs' hframe => hframe.dirDurable _ hholds.1) rfl
    cases reply with
    | failure => exact .same hfresh hobjects hholds.1 (hnone rfl)
    | success => exact hunlinked
    | name suffix => exact hunlinked
    | count n => exact hunlinked
  | syncExisting =>
    have hsynced : Acts sha isPut fs ⟨bytes, .syncExisting⟩
        (fs.syncDir (Put.parentDir sha ⟨bytes, .syncExisting⟩)) .verifyExisting :=
      .syncDir hobjects hfresh hholds rfl
    cases reply with
    | failure => exact .same hfresh hobjects hholds (hnone rfl)
    | success => exact hsynced
    | name suffix => exact hsynced
    | count n => exact hsynced
  | verifyExisting =>
    have hverified : Acts sha isPut fs ⟨bytes, .verifyExisting⟩
        (Put.act sha fs ⟨bytes, .verifyExisting⟩ .success).1
        (Put.act sha fs ⟨bytes, .verifyExisting⟩ .success).2 := by
      simp only [Put.act]
      cases hread : fs.read (Put.path sha ⟨bytes, .verifyExisting⟩) with
      | none => exact hfailed
      | some contents =>
        simp only
        split
        · refine .same hfresh hobjects ⟨hholds, ?_⟩ (hnone rfl)
          rw [Fs.read] at hread
          obtain ⟨file, hfile, -⟩ := Option.map_eq_some_iff.mp hread
          exact Option.isSome_iff_exists.mpr ⟨file, hfile⟩
        · exact hfailed
    cases reply with
    | failure => exact hfailed
    | success => exact hverified
    | name suffix => exact hverified
    | count n => exact hverified
  | syncParent =>
    obtain ⟨hdir, hsome⟩ := hholds
    have hdone : Acts sha isPut fs ⟨bytes, .syncParent⟩
        (fs.syncDir (Put.parentDir sha ⟨bytes, .syncParent⟩)) .done := by
      refine .syncDir hobjects hfresh ?_ rfl
      obtain ⟨file, hfile⟩ := Option.isSome_iff_exists.mp hsome
      obtain ⟨-, -, hsynced⟩ := hobjects.valid (Put.path sha ⟨bytes, .syncParent⟩) file trivial hfile
      exact ⟨fs.data file, hdir, ⟨file, hfile, hsynced, rfl⟩, if_pos rfl⟩
    cases reply with
    | failure => exact hfailed
    | success => exact hdone
    | name suffix => exact hdone
    | count n => exact hdone
  | unlinkFailed temp file =>
    have hunlinked : Acts sha isPut fs ⟨bytes, .unlinkFailed temp file⟩
        (fs.setEntry (Put.tempPath sha ⟨bytes, .unlinkFailed temp file⟩ temp) none) .syncFailed :=
      .unlinkTemp hobjects hfresh hholds rfl (fun _ _ => trivial) rfl
    cases reply with
    | failure => exact .same hfresh hobjects trivial (hnone rfl)
    | success => exact hunlinked
    | name suffix => exact hunlinked
    | count n => exact hunlinked
  | syncFailed =>
    have hsynced : Acts sha isPut fs ⟨bytes, .syncFailed⟩
        (fs.syncDir (Put.parentDir sha ⟨bytes, .syncFailed⟩)) .failed :=
      .syncDir hobjects hfresh trivial rfl
    cases reply with
    | failure => exact hfailed
    | success => exact hsynced
    | name suffix => exact hsynced
    | count n => exact hsynced
  | done => exact .same hfresh hobjects hholds (hnone rfl)
  | failed => exact hfailed
  | killed => exact .same hfresh hobjects trivial (hnone rfl)

end

end Wyrebox.ObjectStore
