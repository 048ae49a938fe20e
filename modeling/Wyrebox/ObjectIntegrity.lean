import Wyrebox.PutInvariant
import Wyrebox.JournalCrash

set_option autoImplicit false

/-!
# Integrity of the object store

Puts of any number of writers, deaths of processes and crashes, in any order.
-/
namespace Wyrebox.ObjectStore
open JournalRecord CrashFs

/-! ## The invariant -/

/-- Some put of the run was given these bytes. -/
def World.IsPut (w : World) (bytes : List UInt8) : Prop := ∃ k p, w.puts k = some p ∧ p.bytes = bytes

structure Inv (sha : Sha256) (w : World) : Prop where
  fresh : Fresh w.fs
  objects : ObjectsValid sha w.IsPut w.fs
  holds : ∀ k p, w.puts k = some p → p.Holds sha w.fs
  distinct : ∀ k k' p p' temp temp' file, w.puts k = some p → w.puts k' = some p' →
    p.stage.temp? = some (temp, file) → p'.stage.temp? = some (temp', file) → k = k'

section
variable {sha : Sha256} {w w' : World}

theorem ObjectsValid.mono {isPut isPut' : List UInt8 → Prop} {fs : StoreFs}
    (h : ObjectsValid sha isPut fs) (himp : ∀ bytes, isPut bytes → isPut' bytes) :
    ObjectsValid sha isPut' fs := by
  refine ⟨fun path file hpath hentry => ?_, h.stale⟩
  obtain ⟨hput, hname, hsynced⟩ := h.valid path file hpath hentry
  exact ⟨himp _ hput, hname, hsynced⟩

theorem World.IsPut.setPut {bytes : List UInt8} (h : w.IsPut bytes) {fs : StoreFs} {k : ℕ} {p : Put}
    (hp : ∀ old, w.puts k = some old → p.bytes = old.bytes) : (w.setPut fs k p).IsPut bytes := by
  obtain ⟨k', old, hold, rfl⟩ := h
  by_cases hk : k' = k
  · subst hk
    exact ⟨k', p, w.setPut_self fs k' p, hp old hold⟩
  · exact ⟨k', old, (w.setPut_of_ne fs hk p).trans hold, rfl⟩

/-- The file of a put that has one is in use. -/
theorem Put.Holds.file_lt {fs : StoreFs} {p : Put} (h : p.Holds sha fs) (hfresh : Fresh fs)
    {temp : List UInt8} {file : FileId} (htemp : p.stage.temp? = some (temp, file)) : file < fs.next := by
  have howns : p.Owns sha fs temp file := by
    obtain ⟨bytes, stage⟩ := p
    cases stage <;> simp only [Stage.temp?, reduceCtorEq, Option.some.injEq, Prod.mk.injEq] at htemp
    all_goals
      obtain ⟨rfl, rfl⟩ := htemp
      first
        | exact h.1
        | exact h
  exact hfresh _ _ (.inl howns.2)

theorem Inv.empty (sha : Sha256) : Inv sha .empty where
  fresh path file h := by simp [World.empty, Fs.empty] at h
  objects := ⟨fun path file _ h => by simp [World.empty, Fs.empty] at h,
    fun path _ entry h => by simp [World.empty, Fs.empty] at h⟩
  holds k p h := by simp [World.empty] at h
  distinct k k' p p' temp temp' file h := by simp [World.empty] at h

/-- One put takes another stage without touching the file system. -/
theorem Inv.setStage (h : Inv sha w) {k : ℕ} {p : Put} (hbytes : ∀ old, w.puts k = some old → p.bytes = old.bytes)
    (hholds : p.Holds sha w.fs) (htemp : p.stage.temp? = none) : Inv sha (w.setPut w.fs k p) := by
  refine ⟨h.fresh, h.objects.mono fun bytes hput => hput.setPut hbytes, ?_, ?_⟩
  · intro k' p' hp'
    by_cases hk : k' = k
    · subst hk
      rw [World.setPut_self, Option.some.injEq] at hp'
      exact hp' ▸ hholds
    · rw [World.setPut_of_ne _ _ hk] at hp'
      exact h.holds k' p' hp'
  · have hother : ∀ {k' p' temp file}, (w.setPut w.fs k p).puts k' = some p' →
        p'.stage.temp? = some (temp, file) → w.puts k' = some p' := by
      intro k' p' temp file hp' hfile
      by_cases hk : k' = k
      · subst hk
        rw [World.setPut_self, Option.some.injEq] at hp'
        subst hp'
        simp [htemp] at hfile
      · rwa [World.setPut_of_ne _ _ hk] at hp'
    intro k₁ k₂ p₁ p₂ temp₁ temp₂ file hp₁ hp₂ hfile₁ hfile₂
    exact h.distinct k₁ k₂ p₁ p₂ temp₁ temp₂ file (hother hp₁ hfile₁) (hother hp₂ hfile₂) hfile₁ hfile₂

/-- One call of one put, the others standing by. -/
theorem Inv.act (h : Inv sha w) {k : ℕ} {p : Put} (hp : w.puts k = some p) (reply : Reply) :
    Inv sha (w.setPut (p.act sha w.fs reply).1 k { p with stage := (p.act sha w.fs reply).2 }) := by
  have hacts := Put.act_acts ⟨k, p, hp, rfl⟩ h.objects h.fresh (h.holds k p hp) reply
  obtain ⟨own, hframe, hown⟩ := hacts.frame
  -- no other put has the file that the call is about
  have hothers : ∀ k' p' temp file, k' ≠ k → w.puts k' = some p' →
      p'.stage.temp? = some (temp, file) → file ≠ own := by
    rintro k' p' temp file hk hp' hfile rfl
    rcases hown with hnext | ⟨temp', hmine⟩
    · exact Nat.ne_of_lt ((h.holds k' p' hp').file_lt h.fresh hfile) hnext
    · exact hk (h.distinct k' k p' p temp temp' file hp' hp hfile hmine)
  have hbytes : ∀ old, w.puts k = some old →
      ({ p with stage := (p.act sha w.fs reply).2 } : Put).bytes = old.bytes := by
    intro old hold
    rw [hp, Option.some.injEq] at hold
    rw [← hold]
  refine ⟨hacts.fresh, hacts.objects.mono fun bytes hput => hput.setPut hbytes, ?_, ?_⟩
  · intro k' p' hp'
    by_cases hk : k' = k
    · subst hk
      rw [World.setPut_self, Option.some.injEq] at hp'
      exact hp' ▸ hacts.holds
    · rw [World.setPut_of_ne _ _ hk] at hp'
      exact (h.holds k' p' hp').frame h.fresh (fun temp file hfile => hothers k' p' temp file hk hp' hfile) hframe
  · -- a file that a put has after the call is its old one, or new and then of this put
    have hold : ∀ {k' p' temp file},
        (w.setPut (p.act sha w.fs reply).1 k { p with stage := (p.act sha w.fs reply).2 }).puts k' = some p' →
        p'.stage.temp? = some (temp, file) →
        (∃ old, w.puts k' = some old ∧ old.stage.temp? = some (temp, file)) ∨ (k' = k ∧ file = w.fs.next) := by
      intro k' p' temp file hp' hfile
      by_cases hk : k' = k
      · subst hk
        rw [World.setPut_self, Option.some.injEq] at hp'
        subst hp'
        rcases hacts.temp temp file hfile with hsame | hnew
        · exact .inl ⟨p, hp, hsame⟩
        · exact .inr ⟨rfl, hnew⟩
      · rw [World.setPut_of_ne _ _ hk] at hp'
        exact .inl ⟨p', hp', hfile⟩
    have hlt : ∀ {k' old temp file}, w.puts k' = some old → old.stage.temp? = some (temp, file) →
        file < w.fs.next := fun hold hfile => (h.holds _ _ hold).file_lt h.fresh hfile
    intro k₁ k₂ p₁ p₂ temp₁ temp₂ file hp₁ hp₂ hfile₁ hfile₂
    rcases hold hp₁ hfile₁ with ⟨old₁, hold₁, hmine₁⟩ | ⟨rfl, hnew₁⟩
    · rcases hold hp₂ hfile₂ with ⟨old₂, hold₂, hmine₂⟩ | ⟨rfl, hnew₂⟩
      · exact h.distinct k₁ k₂ old₁ old₂ temp₁ temp₂ file hold₁ hold₂ hmine₁ hmine₂
      · exact absurd (hlt hold₁ hmine₁) (by rw [hnew₂]; exact Nat.lt_irrefl _)
    · rcases hold hp₂ hfile₂ with ⟨old₂, hold₂, hmine₂⟩ | ⟨rfl, hnew₂⟩
      · exact absurd (hlt hold₂ hmine₂) (by rw [hnew₁]; exact Nat.lt_irrefl _)
      · rfl

theorem temp?_afterCrash (stage : Stage) : stage.afterCrash.temp? = none := by
  cases stage <;> rfl

theorem Put.Holds.killed {fs : StoreFs} {p : Put} (h : p.Holds sha fs) : p.crash.Holds sha fs := by
  obtain ⟨bytes, stage⟩ := p
  cases stage <;> first | exact h | trivial

theorem Inv.step (h : Inv sha w) (hstep : Step sha w w') : Inv sha w' := by
  cases hstep with
  | begin k bytes hnone => exact h.setStage (fun old hold => by simp [hnone] at hold) trivial rfl
  | act k p reply hp => exact h.act hp reply
  | kill k p hp =>
    refine h.setStage (fun old hold => ?_) (h.holds k p hp).killed (temp?_afterCrash p.stage)
    rw [hp, Option.some.injEq] at hold
    rw [← hold]
    rfl

theorem ObjectsValid.crash {isPut : List UInt8 → Prop} {fs fs' : StoreFs} (h : ObjectsValid sha isPut fs)
    (hcrash : Crash fs fs') : ObjectsValid sha isPut fs' := by
  refine ⟨fun path file hpath hentry => ?_, fun path _ entry hentry => ?_⟩
  · cases hdir : fs'.dirs path.1 with
    | false =>
      rw [hcrash.entries_lost path hdir] at hentry
      simp at hentry
    | true =>
      rcases hcrash.entries_of path hdir with hsame | hstale
      · rw [hsame] at hentry
        obtain ⟨hput, hname, hsynced⟩ := h.valid path file hpath hentry
        rw [hcrash.data file hsynced]
        exact ⟨hput, hname, hcrash.synced file⟩
      · rw [hentry] at hstale
        exact absurd (h.stale path hpath _ hstale) (by simp)
  · rw [hcrash.stale] at hentry
    exact absurd hentry List.not_mem_nil

theorem World.IsPut.crash {bytes : List UInt8} {fs : StoreFs} (h : w.IsPut bytes) :
    World.IsPut ⟨fs, fun k => (w.puts k).map Put.crash⟩ bytes := by
  obtain ⟨k, p, hp, rfl⟩ := h
  exact ⟨k, p.crash, congrArg (Option.map Put.crash) hp, rfl⟩

theorem Inv.crash (h : Inv sha w) (hcrash : CrashStep w w') : Inv sha w' := by
  obtain ⟨fs, hdisk⟩ := hcrash
  refine ⟨h.fresh.crash hdisk, (h.objects.crash hdisk).mono fun bytes hput => hput.crash, ?_, ?_⟩
  · intro k p hp
    obtain ⟨old, hold, rfl⟩ := Option.map_eq_some_iff.mp hp
    have hholds := h.holds k old hold
    obtain ⟨bytes, stage⟩ := old
    cases stage with
    | done =>
      obtain ⟨contents, hdurable⟩ := hholds
      exact ⟨contents, hdurable.crash hdisk⟩
    | _ => trivial
  · intro k k' p p' temp temp' file hp _ hfile
    obtain ⟨old, -, rfl⟩ := Option.map_eq_some_iff.mp hp
    simp [Put.crash, temp?_afterCrash] at hfile

theorem Inv.run (h : Inv sha w) (hrun : Run sha w w') : Inv sha w' := by
  induction hrun with
  | refl => exact h
  | tail _ hnext ih =>
    rcases hnext with hstep | hcrash
    · exact ih.step hstep
    · exact ih.crash hcrash

theorem World.IsPut.run {bytes : List UInt8} (h : w.IsPut bytes) (hrun : Run sha w w') : w'.IsPut bytes := by
  induction hrun with
  | refl => exact h
  | tail _ hnext ih =>
    rcases hnext with hstep | hcrash
    · cases hstep with
      | begin k bytes hnone => exact ih.setPut fun old hold => by simp [hnone] at hold
      | act k p reply hp =>
        refine ih.setPut fun old hold => ?_
        rw [hp, Option.some.injEq] at hold
        rw [← hold]
      | kill k p hp =>
        refine ih.setPut fun old hold => ?_
        rw [hp, Option.some.injEq] at hold
        rw [← hold]
        rfl
    · obtain ⟨fs, -⟩ := hcrash
      exact ih.crash

/-- A put that has returned success stays so. -/
theorem done_run {k : ℕ} {bytes : List UInt8} (h : w.puts k = some ⟨bytes, .done⟩) (hrun : Run sha w w') :
    w'.puts k = some ⟨bytes, .done⟩ := by
  induction hrun with
  | refl => exact h
  | tail _ hnext ih =>
    rcases hnext with hstep | hcrash
    · cases hstep with
      | begin k' bytes' hnone =>
        have hk : k ≠ k' := by
          rintro rfl
          simp [hnone] at ih
        rw [World.setPut_of_ne _ _ hk]
        exact ih
      | act k' p reply hp =>
        by_cases hk : k = k'
        · subst hk
          rw [hp, Option.some.injEq] at ih
          rw [World.setPut_self, ih]
          cases reply <;> rfl
        · rw [World.setPut_of_ne _ _ hk]
          exact ih
      | kill k' p hp =>
        by_cases hk : k = k'
        · subst hk
          rw [hp, Option.some.injEq] at ih
          rw [World.setPut_self, ih]
          rfl
        · rw [World.setPut_of_ne _ _ hk]
          exact ih
    · obtain ⟨fs, -⟩ := hcrash
      exact congrArg (Option.map Put.crash) ih

/-- No step but a crash takes an object away or changes it. -/
theorem Inv.read_step (h : Inv sha w) (hstep : Step sha w w') {path : List UInt8 × FileName}
    (hpath : path.2.IsObject) {contents : List UInt8} (hread : w.fs.read path = some contents) :
    w'.fs.read path = some contents := by
  cases hstep with
  | begin k bytes hnone => exact hread
  | kill k p hp => exact hread
  | act k p reply hp =>
    have hacts := Put.act_acts ⟨k, p, hp, rfl⟩ h.objects h.fresh (h.holds k p hp) reply
    obtain ⟨own, hframe, -⟩ := hacts.frame
    obtain ⟨file, hentry, hdata⟩ := Option.map_eq_some_iff.mp hread
    have hkept := hframe.entries path file hentry (.inl hpath)
    obtain ⟨hsame, -⟩ := hframe.data file (h.fresh path file (.inl hentry)) (.inr ⟨path, hpath, hentry⟩)
    change ((p.act sha w.fs reply).1.entries path).map (p.act sha w.fs reply).1.data = _
    rw [hkept, Option.map_some, hsame, hdata]

/-- What an object file holds was put, and hashes to the file's name. -/
theorem Inv.read (h : Inv sha w) {path : List UInt8 × FileName} (hpath : path.2.IsObject)
    {contents : List UInt8} (hread : w.fs.read path = some contents) :
    w.IsPut contents ∧ path = objectPath (checksumBytes sha contents) := by
  obtain ⟨file, hentry, rfl⟩ := Option.map_eq_some_iff.mp hread
  obtain ⟨hput, hname, -⟩ := h.objects.valid path file hpath hentry
  exact ⟨hput, hname⟩

theorem digest_eq_of_path {bytes bytes' : List UInt8}
    (h : objectPath (checksumBytes sha bytes) = objectPath (checksumBytes sha bytes')) :
    sha.digest bytes = sha.digest bytes' := by
  simp only [objectPath, Prod.mk.injEq, FileName.object.injEq] at h
  exact hexString_injective h.2

end

/-- SHA-256 has no collision among the bytes that were put. -/
def CollisionFree (sha : Sha256) (w : World) : Prop :=
  ∀ bytes bytes', w.IsPut bytes → w.IsPut bytes' → sha.digest bytes = sha.digest bytes' → bytes = bytes'

theorem stored_done {sha : Sha256} {w : World} (h : Inv sha w) (hfree : CollisionFree sha w) {k : ℕ}
    {bytes : List UInt8} (hdone : w.puts k = some ⟨bytes, .done⟩) :
    Durable w.fs (objectPath (checksumBytes sha bytes)) bytes := by
  obtain ⟨contents, hdurable⟩ := h.holds k _ hdone
  have hobject : (objectPath (checksumBytes sha bytes)).2.IsObject := trivial
  obtain ⟨hput, hname⟩ := h.read hobject hdurable.read
  rw [hfree bytes contents ⟨k, _, hdone, rfl⟩ hput (digest_eq_of_path hname)]
  exact hname ▸ hdurable

/-- In any run of puts and crashes every object file holds bytes that hash to its name, an object
    never changes, and the bytes of a put that succeeded are what a later get returns. -/
theorem object_store_integrity (sha : Sha256) {w w' : World} (hrun : Run sha .empty w)
    (hlater : Run sha w w') (hfree : CollisionFree sha w') :
    (∀ path contents, path.2.IsObject → w.fs.read path = some contents →
      path = objectPath (checksumBytes sha contents)) ∧
    (∀ path contents contents', path.2.IsObject → w.fs.read path = some contents →
      w'.fs.read path = some contents' → contents' = contents) ∧
    (Relation.ReflTransGen (Step sha) w w' → ∀ path contents, path.2.IsObject →
      w.fs.read path = some contents → w'.fs.read path = some contents) ∧
    (∀ k p, w.puts k = some p → p.stage = .done →
      getBytes sha w'.fs (objectKey sha p.bytes) = .ok p.bytes) := by
  have hinv := (Inv.empty sha).run hrun
  have hinv' := hinv.run hlater
  refine ⟨fun path contents hpath hread => (hinv.read hpath hread).2, ?_, ?_, ?_⟩
  · intro path contents contents' hpath hread hread'
    obtain ⟨hput, hname⟩ := hinv.read hpath hread
    obtain ⟨hput', hname'⟩ := hinv'.read hpath hread'
    exact hfree _ _ hput' (hput.run hlater) (digest_eq_of_path (hname'.symm.trans hname))
  · intro hsteps path contents hpath hread
    clear hlater hfree hinv'
    induction hsteps with
    | refl => exact hread
    | tail hbefore hstep ih =>
      have hbefore' : Run sha w _ := Relation.ReflTransGen.mono (fun _ _ h => Or.inl h) _ _ hbefore
      exact (hinv.run hbefore').read_step hstep hpath ih
  · intro k p hp hdone
    obtain ⟨bytes, stage⟩ := p
    cases hdone
    have hread := (stored_done hinv' hfree (done_run hp hlater)).read
    rw [getBytes, validateObjectKey_objectKey]
    simp only [hread, if_true]

/-- One put's calls without any other's in between. -/
def World.drive (sha : Sha256) (w : World) (k : ℕ) (p : Put) : List Reply → World × Put
  | [] => (w, p)
  | reply :: replies =>
    let (fs, stage) := p.act sha w.fs reply
    (w.setPut fs k ⟨p.bytes, stage⟩).drive sha k ⟨p.bytes, stage⟩ replies

theorem run_drive {sha : Sha256} {start w : World} {k : ℕ} {p : Put} (hrun : Run sha start w)
    (hp : w.puts k = some p) (replies : List Reply) :
    Run sha start (w.drive sha k p replies).1 ∧
      (w.drive sha k p replies).1.puts k = some (w.drive sha k p replies).2 := by
  induction replies generalizing w p with
  | nil => exact ⟨hrun, hp⟩
  | cons reply replies ih => exact ih (hrun.tail (.inl (.act w k p reply hp))) (World.setPut_self ..)

/-- A put into the empty store, and the same bytes put once more. -/
theorem object_store_integrity_again : ∃ w, Run JournalCrash.sha256 .empty w ∧
    w.puts 0 = some ⟨[1, 2, 3], .done⟩ ∧
    getBytes JournalCrash.sha256 (w.setPut w.fs 1 ⟨[1, 2, 3], .checkRoot⟩).fs
      (objectKey JournalCrash.sha256 [1, 2, 3]) = .ok [1, 2, 3] := by
  obtain ⟨w, hrun, hdone, hothers⟩ : ∃ w, Run JournalCrash.sha256 .empty w ∧
      w.puts 0 = some ⟨[1, 2, 3], .done⟩ ∧ ∀ k, k ≠ 0 → w.puts k = none := by
    have hbegun : Run JournalCrash.sha256 .empty (World.empty.setPut World.empty.fs 0 ⟨[1, 2, 3], .checkRoot⟩) :=
      .single (.inl (.begin .empty 0 [1, 2, 3] rfl))
    refine ⟨_, (run_drive hbegun (World.setPut_self ..) [.success, .success, .success, .success, .name [],
      .count 3, .success, .success, .success, .success, .success, .success]).1, ?_, ?_⟩
    · simp [World.drive, Put.act, World.empty, Fs.empty, Fs.mkdir, Fs.syncRoot, Fs.create, Fs.setEntry,
        World.setPut, Fs.append, Fs.syncFile, Fs.syncDir, Put.tempPath, Put.parentDir, Put.path, Put.hex,
        objectPath]
    · intro k hk
      simp [World.drive, World.empty, World.setPut, hk]
  have hagain : Run JournalCrash.sha256 w (w.setPut w.fs 1 ⟨[1, 2, 3], .checkRoot⟩) :=
    .single (.inl (.begin w 1 [1, 2, 3] (hothers 1 (by decide))))
  have hsame : ∀ bytes, (w.setPut w.fs 1 ⟨[1, 2, 3], .checkRoot⟩).IsPut bytes → bytes = [1, 2, 3] := by
    rintro bytes ⟨k, p, hp, rfl⟩
    by_cases hone : k = 1
    · subst hone
      rw [World.setPut_self, Option.some.injEq] at hp
      rw [← hp]
    · rw [World.setPut_of_ne _ _ hone] at hp
      by_cases hzero : k = 0
      · subst hzero
        rw [hdone, Option.some.injEq] at hp
        rw [← hp]
      · simp [hothers k hzero] at hp
  have hfree : CollisionFree JournalCrash.sha256 (w.setPut w.fs 1 ⟨[1, 2, 3], .checkRoot⟩) :=
    fun bytes bytes' hbytes hbytes' _ => (hsame bytes hbytes).trans (hsame bytes' hbytes').symm
  obtain ⟨-, -, -, hget⟩ := object_store_integrity JournalCrash.sha256 hrun hagain hfree
  refine ⟨w, hrun, hdone, ?_⟩
  have hread := hget 0 ⟨[1, 2, 3], .done⟩ hdone rfl
  exact hread

end Wyrebox.ObjectStore
