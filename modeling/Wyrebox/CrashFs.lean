import Mathlib.Logic.Function.Basic
import Mathlib.Data.List.Basic

set_option autoImplicit false

/-!
# A file system that loses what was not synced

One root directory with subdirectories `D`, in each of them names `N`. A directory remembers the
entries that a crash may bring back, a file whether its bytes are on disk.
-/
namespace Wyrebox.CrashFs

abbrev FileId : Type := ℕ

structure Fs (D N : Type) where
  dirs : D → Bool
  dirsUnsynced : D → Bool
  entries : D × N → Option FileId
  /-- Values that the entry had since the last sync of its directory. -/
  stale : D × N → List (Option FileId)
  data : FileId → List UInt8
  synced : FileId → Bool
  next : FileId

section
variable {D N : Type}

def Fs.empty : Fs D N where
  dirs := fun _ => false
  dirsUnsynced := fun _ => false
  entries := fun _ => none
  stale := fun _ => []
  data := fun _ => []
  synced := fun _ => true
  next := 0

def Fs.read (fs : Fs D N) (path : D × N) : Option (List UInt8) := (fs.entries path).map fs.data

def Fs.syncRoot (fs : Fs D N) : Fs D N := { fs with dirsUnsynced := fun _ => false }

def Fs.append (fs : Fs D N) (file : FileId) (bytes : List UInt8) : Fs D N :=
  { fs with
    data := Function.update fs.data file (fs.data file ++ bytes)
    synced := Function.update fs.synced file false }

def Fs.syncFile (fs : Fs D N) (file : FileId) : Fs D N :=
  { fs with synced := Function.update fs.synced file true }

section
variable [DecidableEq D]

def Fs.mkdir (fs : Fs D N) (dir : D) : Fs D N :=
  if fs.dirs dir then fs
  else
    { fs with
      dirs := Function.update fs.dirs dir true
      dirsUnsynced := Function.update fs.dirsUnsynced dir true }

def Fs.syncDir (fs : Fs D N) (dir : D) : Fs D N :=
  { fs with stale := fun path => if path.1 = dir then [] else fs.stale path }

end

section
variable [DecidableEq D] [DecidableEq N]

def Fs.setEntry (fs : Fs D N) (path : D × N) (entry : Option FileId) : Fs D N :=
  { fs with
    entries := Function.update fs.entries path entry
    stale := Function.update fs.stale path (fs.entries path :: fs.stale path) }

def Fs.create (fs : Fs D N) (path : D × N) : Fs D N :=
  { fs.setEntry path (some fs.next) with
    data := Function.update fs.data fs.next []
    synced := Function.update fs.synced fs.next false
    next := fs.next + 1 }

end

/-- What a crash may leave. Each entry is as it was at some moment since the last sync. -/
structure Crash (fs fs' : Fs D N) : Prop where
  dirs_of : ∀ dir, fs'.dirs dir = true → fs.dirs dir = true
  dirs_kept : ∀ dir, fs.dirs dir = true → fs.dirsUnsynced dir = false → fs'.dirs dir = true
  entries_lost : ∀ path, fs'.dirs path.1 = false → fs'.entries path = none
  entries_of : ∀ path, fs'.dirs path.1 = true →
    fs'.entries path = fs.entries path ∨ fs'.entries path ∈ fs.stale path
  data : ∀ file, fs.synced file = true → fs'.data file = fs.data file
  dirsUnsynced : ∀ dir, fs'.dirsUnsynced dir = false
  stale : ∀ path, fs'.stale path = []
  synced : ∀ file, fs'.synced file = true
  next : fs'.next = fs.next

/-! ## Durable files -/

/-- The subdirectory survives a crash. -/
def DirDurable (fs : Fs D N) (dir : D) : Prop := fs.dirs dir = true ∧ fs.dirsUnsynced dir = false

/-- A file that a crash leaves at its path, with its bytes. -/
structure Durable (fs : Fs D N) (path : D × N) (bytes : List UInt8) : Prop where
  dir : DirDurable fs path.1
  file : ∃ file, fs.entries path = some file ∧ fs.synced file = true ∧ fs.data file = bytes
  stale : fs.stale path = []

theorem Durable.read {fs : Fs D N} {path : D × N} {bytes : List UInt8} (h : Durable fs path bytes) :
    fs.read path = some bytes := by
  obtain ⟨file, hentry, -, hdata⟩ := h.file
  rw [Fs.read, hentry, Option.map_some, hdata]

theorem Durable.crash {fs fs' : Fs D N} {path : D × N} {bytes : List UInt8} (h : Durable fs path bytes)
    (hcrash : Crash fs fs') : Durable fs' path bytes := by
  obtain ⟨file, hentry, hsynced, hdata⟩ := h.file
  have hdir := hcrash.dirs_kept path.1 h.dir.1 h.dir.2
  have hkept : fs'.entries path = some file := by
    rcases hcrash.entries_of path hdir with hsame | hstale
    · rw [hsame, hentry]
    · rw [h.stale] at hstale
      exact absurd hstale List.not_mem_nil
  exact ⟨⟨hdir, hcrash.dirsUnsynced path.1⟩,
    ⟨file, hkept, hcrash.synced file, by rw [hcrash.data file hsynced, hdata]⟩, hcrash.stale path⟩

/-- File ids in use are below the next one. -/
def Fresh (fs : Fs D N) : Prop :=
  ∀ path file, fs.entries path = some file ∨ some file ∈ fs.stale path → file < fs.next

theorem Fresh.crash {fs fs' : Fs D N} (h : Fresh fs) (hcrash : Crash fs fs') : Fresh fs' := by
  intro path file hfile
  rw [hcrash.next]
  rw [hcrash.stale, List.mem_nil_iff, or_false] at hfile
  cases hdir : fs'.dirs path.1 with
  | false =>
    rw [hcrash.entries_lost path hdir] at hfile
    simp at hfile
  | true =>
    rcases hcrash.entries_of path hdir with hsame | hstale
    · exact h path file (.inl (hsame ▸ hfile))
    · exact h path file (.inr (hfile ▸ hstale))

theorem Fresh.syncDir [DecidableEq D] {fs : Fs D N} (h : Fresh fs) (dir : D) : Fresh (fs.syncDir dir) := by
  intro path file hfile
  simp only [Fs.syncDir] at hfile
  split at hfile
  · simp only [List.mem_nil_iff, or_false] at hfile
    exact h path file (.inl hfile)
  · exact h path file hfile

theorem Fresh.mkdir [DecidableEq D] {fs : Fs D N} (h : Fresh fs) (dir : D) : Fresh (fs.mkdir dir) := by
  unfold Fs.mkdir
  split
  · exact h
  · exact h

section
variable [DecidableEq D] [DecidableEq N]

theorem Fresh.setEntry {fs : Fs D N} (h : Fresh fs) (path : D × N) {entry : Option FileId}
    (hentry : ∀ file, entry = some file → file < fs.next) : Fresh (fs.setEntry path entry) := by
  intro other file hfile
  change file < fs.next
  by_cases hpath : other = path
  · subst hpath
    simp only [Fs.setEntry, Function.update_self, List.mem_cons] at hfile
    rcases hfile with hnew | hold | hstale
    · exact hentry file hnew
    · exact h other file (.inl hold.symm)
    · exact h other file (.inr hstale)
  · simp only [Fs.setEntry, Function.update_of_ne hpath] at hfile
    exact h other file hfile

theorem Fresh.create {fs : Fs D N} (h : Fresh fs) (path : D × N) : Fresh (fs.create path) := by
  intro other file hfile
  change file < fs.next + 1
  by_cases hpath : other = path
  · subst hpath
    simp only [Fs.create, Fs.setEntry, Function.update_self, List.mem_cons, Option.some.injEq] at hfile
    rcases hfile with hnew | hold | hstale
    · exact hnew ▸ Nat.lt_succ_self _
    · exact Nat.lt_succ_of_lt (h other file (.inl hold.symm))
    · exact Nat.lt_succ_of_lt (h other file (.inr hstale))
  · simp only [Fs.create, Fs.setEntry, Function.update_of_ne hpath] at hfile
    exact Nat.lt_succ_of_lt (h other file hfile)

end

/-! ## Operations that leave other files alone -/

section
variable (kept : N → Prop)

/-- A kept name leads to the file. -/
def Linked (fs : Fs D N) (file : FileId) : Prop := ∃ path, kept path.2 ∧ fs.entries path = some file

/-- Only names and bytes of `own` change, and none that a kept name shows. -/
structure Frame (own : FileId) (fs fs' : Fs D N) : Prop where
  dirs : ∀ dir, fs.dirs dir = true → fs'.dirs dir = true
  dirDurable : ∀ dir, DirDurable fs dir → DirDurable fs' dir
  entries : ∀ path file, fs.entries path = some file → kept path.2 ∨ file ≠ own →
    fs'.entries path = some file
  links : ∀ file, Linked kept fs' file → Linked kept fs file ∨ file = own
  stale : ∀ path, kept path.2 → (fs.entries path).isSome = true → fs.stale path = [] → fs'.stale path = []
  data : ∀ file, file < fs.next → file ≠ own ∨ Linked kept fs file →
    fs'.data file = fs.data file ∧ (fs.synced file = true → fs'.synced file = true)
  next : fs.next ≤ fs'.next

variable {kept} {fs fs' : Fs D N} {own : FileId}

theorem Durable.frame {path : D × N} {bytes : List UInt8} (h : Durable fs path bytes) (hfresh : Fresh fs)
    (hkept : kept path.2) (hframe : Frame kept own fs fs') : Durable fs' path bytes := by
  obtain ⟨file, hentry, hsynced, hdata⟩ := h.file
  obtain ⟨hdata', hsynced'⟩ := hframe.data file (hfresh path file (.inl hentry)) (.inr ⟨path, hkept, hentry⟩)
  refine ⟨hframe.dirDurable path.1 h.dir, ⟨file, ?_, hsynced' hsynced, hdata'.trans hdata⟩, ?_⟩
  · exact hframe.entries path file hentry (.inl hkept)
  · exact hframe.stale path hkept (by rw [hentry]; rfl) h.stale

theorem Frame.refl : Frame kept own fs fs where
  dirs _ h := h
  dirDurable _ h := h
  entries _ _ h _ := h
  links _ h := .inl h
  stale _ _ _ h := h
  data _ _ _ := ⟨rfl, id⟩
  next := Nat.le_refl _

theorem Frame.syncRoot : Frame kept own fs fs.syncRoot where
  dirs _ h := h
  dirDurable _ h := ⟨h.1, rfl⟩
  entries _ _ h _ := h
  links _ h := .inl h
  stale _ _ _ h := h
  data _ _ _ := ⟨rfl, id⟩
  next := Nat.le_refl _

theorem Frame.append (hown : ¬Linked kept fs own) (bytes : List UInt8) :
    Frame kept own fs (fs.append own bytes) where
  dirs _ h := h
  dirDurable _ h := h
  entries _ _ h _ := h
  links _ h := .inl h
  stale _ _ _ h := h
  data file _ hfile := by
    have hne : file ≠ own := hfile.elim id fun hlinked heq => hown (heq ▸ hlinked)
    simp [Fs.append, Function.update_of_ne hne]
  next := Nat.le_refl _

theorem Frame.syncFile : Frame kept own fs (fs.syncFile own) where
  dirs _ h := h
  dirDurable _ h := h
  entries _ _ h _ := h
  links _ h := .inl h
  stale _ _ _ h := h
  data file _ _ := by
    refine ⟨rfl, fun hsynced => ?_⟩
    by_cases hfile : file = own
    · simp [Fs.syncFile, hfile]
    · simpa [Fs.syncFile, Function.update_of_ne hfile] using hsynced
  next := Nat.le_refl _

theorem Frame.mkdir [DecidableEq D] (dir : D) : Frame kept own fs (fs.mkdir dir) := by
  by_cases hdir : fs.dirs dir = true
  · rw [Fs.mkdir, if_pos hdir]
    exact .refl
  · rw [Fs.mkdir, if_neg hdir]
    have hother : ∀ other, fs.dirs other = true → other ≠ dir := fun other h heq => hdir (heq ▸ h)
    exact
      { dirs := fun other h => by simpa [Function.update_of_ne (hother other h)] using h
        dirDurable := fun other h => by
          have hne := hother other h.1
          simpa [DirDurable, Function.update_of_ne hne] using h
        entries := fun _ _ h _ => h
        links := fun _ h => .inl h
        stale := fun _ _ _ h => h
        data := fun _ _ _ => ⟨rfl, id⟩
        next := Nat.le_refl _ }

theorem Frame.syncDir [DecidableEq D] (dir : D) : Frame kept own fs (fs.syncDir dir) where
  dirs _ h := h
  dirDurable _ h := h
  entries _ _ h _ := h
  links _ h := .inl h
  stale path _ _ h := by
    simp only [Fs.syncDir]
    split
    · rfl
    · exact h
  data _ _ _ := ⟨rfl, id⟩
  next := Nat.le_refl _

section
variable [DecidableEq D] [DecidableEq N]

theorem Frame.create {path : D × N} (hpath : fs.entries path = none) (hkept : ¬kept path.2) :
    Frame kept fs.next fs (fs.create path) where
  dirs _ h := h
  dirDurable _ h := h
  entries other file h _ := by
    have hne : other ≠ path := by
      rintro rfl
      simp [hpath] at h
    simpa [Fs.create, Fs.setEntry, Function.update_of_ne hne] using h
  links file := by
    rintro ⟨other, hother, hentry⟩
    have hne : other ≠ path := by
      rintro rfl
      exact hkept hother
    simp only [Fs.create, Fs.setEntry, Function.update_of_ne hne] at hentry
    exact .inl ⟨other, hother, hentry⟩
  stale other hother _ h := by
    have hne : other ≠ path := by
      rintro rfl
      exact hkept hother
    simpa [Fs.create, Fs.setEntry, Function.update_of_ne hne] using h
  data file hfile _ := by
    have hne : file ≠ fs.next := Nat.ne_of_lt hfile
    simp [Fs.create, Function.update_of_ne hne]
  next := Nat.le_succ _

theorem Frame.link {path : D × N} (hpath : fs.entries path = none) :
    Frame kept own fs (fs.setEntry path (some own)) where
  dirs _ h := h
  dirDurable _ h := h
  entries other file h _ := by
    have hne : other ≠ path := by
      rintro rfl
      simp [hpath] at h
    simpa [Fs.setEntry, Function.update_of_ne hne] using h
  links file := by
    rintro ⟨other, hother, hentry⟩
    by_cases hne : other = path
    · subst hne
      simp only [Fs.setEntry, Function.update_self, Option.some.injEq] at hentry
      exact .inr hentry.symm
    · simp only [Fs.setEntry, Function.update_of_ne hne] at hentry
      exact .inl ⟨other, hother, hentry⟩
  stale other _ hsome h := by
    have hne : other ≠ path := by
      rintro rfl
      simp [hpath] at hsome
    simpa [Fs.setEntry, Function.update_of_ne hne] using h
  data _ _ _ := ⟨rfl, id⟩
  next := Nat.le_refl _

theorem Frame.unlink {path : D × N} (hpath : fs.entries path = some own) (hkept : ¬kept path.2) :
    Frame kept own fs (fs.setEntry path none) where
  dirs _ h := h
  dirDurable _ h := h
  entries other file h hfile := by
    have hne : other ≠ path := by
      rintro rfl
      rw [hpath, Option.some.injEq] at h
      exact hfile.elim hkept fun hother => hother h.symm
    simpa [Fs.setEntry, Function.update_of_ne hne] using h
  links file := by
    rintro ⟨other, hother, hentry⟩
    have hne : other ≠ path := by
      rintro rfl
      exact hkept hother
    simp only [Fs.setEntry, Function.update_of_ne hne] at hentry
    exact .inl ⟨other, hother, hentry⟩
  stale other hother _ h := by
    have hne : other ≠ path := by
      rintro rfl
      exact hkept hother
    simpa [Fs.setEntry, Function.update_of_ne hne] using h
  data _ _ _ := ⟨rfl, id⟩
  next := Nat.le_refl _

end

end

end

end Wyrebox.CrashFs
