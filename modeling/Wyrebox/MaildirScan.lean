import Wyrebox.MaildirImport
import Wyrebox.WirelogScope
import Mathlib.Data.Prod.Lex

set_option autoImplicit false

/-!
# Scanning a Maildir

The tree under a root is searched for mailboxes, and their messages are listed. Directories list their children in
any order, so the order of the result is that of a sort.
-/
namespace Wyrebox.MaildirImport
open JournalRecord JournalWriter WirelogScope
open ObjectStore (checksumBytes)

/-- A name that `g_dir_read_name` returns. -/
structure FileName where
  text : CString
  no_slash : (47 : UInt8) ∉ text.bytes

/-- What is under a path; `other` is neither a regular file nor a directory. -/
inductive Node where
  | regular
  | directory (children : List (FileName × Node))
  | other

/-! ## Names -/

def flagOf (c : UInt8) : ℕ :=
  if c = 83 then 1 else if c = 82 then 2 else if c = 70 then 4 else if c = 84 then 8 else if c = 68 then 16
  else if c = 80 then 32 else 0

def maildirMessageFlagsFromSuffix (suffix : List UInt8) : ℕ := suffix.foldl (fun flags c => flags ||| flagOf c) 0

/-- What follows the last `:2,`. -/
def flagSuffix : List UInt8 → Option (List UInt8)
  | [] => none
  | b :: rest =>
    match flagSuffix rest with
    | some suffix => some suffix
    | none => if (ascii ":2,").isPrefixOf (b :: rest) then some (rest.drop 2) else none

/-- `build_source_path`; the root is the empty path. -/
def buildSourcePath (relativeDir child : CString) : CString :=
  if relativeDir = .empty then child else relativeDir ++ .literal "/" ++ child

def isMaildirPart (name : List UInt8) : Bool :=
  name = ascii "cur" ∨ name = ascii "new" ∨ name = ascii "tmp" ∨ name = ascii "maildirfolder"

/-- The turn of `normalize_mailbox_path_from_relative_dir` for one component of the path. -/
def normalizeComponent (component : List UInt8) : List (List UInt8) :=
  if isMaildirPart component = true then []
  else ((if component.head? = some 46 then component.tail else component).splitOn 46).filter fun part => !part.isEmpty

def normalizeMailboxPathFromRelativeDir (relativeDir : CString) : CString :=
  .ofBuffer (List.intercalate [47] ((relativeDir.bytes.splitOn 47).flatMap normalizeComponent))

/-! ## The scan -/

def Node.isDirectory : Node → Bool
  | .directory _ => true
  | _ => false

def Node.isRegular : Node → Bool
  | .regular => true
  | _ => false

/-- The names of the regular files in a directory. -/
def Node.messageNames : Node → List FileName
  | .directory children => (children.filter fun child => child.2.isRegular).map Prod.fst
  | _ => []

def hasDirectory (children : List (FileName × Node)) (name : List UInt8) : Bool :=
  children.any fun child => child.1.text.bytes = name ∧ child.2.isDirectory = true

def maildirRootHasFullLayout (children : List (FileName × Node)) : Bool :=
  hasDirectory children (ascii "cur") && hasDirectory children (ascii "new") && hasDirectory children (ascii "tmp")

def maildirRootHasPartialLayout (children : List (FileName × Node)) : Bool :=
  (hasDirectory children (ascii "cur") || hasDirectory children (ascii "new") ||
    hasDirectory children (ascii "tmp")) && !maildirRootHasFullLayout children

def messageEntry (relativeDir messageDirName : CString) (name : FileName) : ScanEntry where
  kind := .message
  mailboxPath := normalizeMailboxPathFromRelativeDir relativeDir
  sourcePath := buildSourcePath (buildSourcePath relativeDir messageDirName) name.text
  maildirFlagSuffix := (flagSuffix name.text.bytes).map .ofBuffer
  maildirFlags := ((flagSuffix name.text.bytes).map maildirMessageFlagsFromSuffix).getD 0

/-- `compare_scan_string`. -/
def scanStringLe (left right : FileName) : Bool := left.text ≤ right.text

/-- The names in the directory with a name; a directory has one child of a name. -/
def namesIn (messageDirName : CString) (children : List (FileName × Node)) : List FileName :=
  (children.filter fun child => child.1.text = messageDirName).flatMap fun child => child.2.messageNames

def scanMessageDir (relativeDir messageDirName : CString) (children : List (FileName × Node)) : List ScanEntry :=
  ((namesIn messageDirName children).mergeSort scanStringLe).map (messageEntry relativeDir messageDirName)

/-- The entries of a directory that is a mailbox. -/
def mailboxEntries (relativeDir : CString) (children : List (FileName × Node)) : List ScanEntry :=
  if maildirRootHasFullLayout children then
    ⟨.mailbox, normalizeMailboxPathFromRelativeDir relativeDir,
        if relativeDir = .empty then .literal "." else relativeDir, none, 0⟩ ::
      (scanMessageDir relativeDir (.literal "cur") children ++ scanMessageDir relativeDir (.literal "new") children)
  else []

def joined (found more : Option (List ScanEntry)) : Option (List ScanEntry) :=
  found.bind fun found => more.map (found ++ ·)

/-- What is found in one child after the other; the first that fails ends the scan. -/
def joinAll (found : List (FileName × Option (List ScanEntry))) : Option (List ScanEntry) :=
  found.foldr (fun child more => joined child.2 more) (some [])

def compareChildren (left right : FileName × Option (List ScanEntry)) : Bool := scanStringLe left.1 right.1

mutual

/-- `scan_maildir_root`; there is no entry where no mailbox is found. The children are scanned as
    `scan_directory_recursive` does it, in the order of their names. -/
def scanMaildirRoot (relativeDir : CString) : Node → Option (List ScanEntry)
  | .directory children =>
    if maildirRootHasPartialLayout children then none
    else joined (some (mailboxEntries relativeDir children))
      (joinAll ((scanChildren relativeDir children).mergeSort compareChildren))
  | .regular => none
  | .other => none

/-- What is found in each of the child directories. -/
def scanChildren (relativeDir : CString) : List (FileName × Node) → List (FileName × Option (List ScanEntry))
  | [] => []
  | (name, node) :: rest =>
    if isMaildirPart name.text.bytes = true ∨ node.isDirectory = false then scanChildren relativeDir rest
    else (name, scanMaildirRoot (buildSourcePath relativeDir name.text) node) :: scanChildren relativeDir rest

end

/-- `scan_directory_recursive`. -/
def scanDirectoryRecursive (relativeDir : CString) (children : List (FileName × Node)) : Option (List ScanEntry) :=
  joinAll ((scanChildren relativeDir children).mergeSort compareChildren)

def kindRank : EntryKind → ℕ
  | .mailbox => 0
  | .message => 1

/-- `compare_scan_entry`. -/
def scanEntryLe (left right : ScanEntry) : Bool :=
  left.mailboxPath < right.mailboxPath ∨ left.mailboxPath = right.mailboxPath ∧
    (kindRank left.kind < kindRank right.kind ∨ left.kind = right.kind ∧ left.sourcePath ≤ right.sourcePath)

/-- `wyrebox_maildir_scanner_scan`. -/
def scan (root : Node) : Option (List ScanEntry) :=
  match scanMaildirRoot .empty root with
  | none => none
  | some [] => none
  | some entries => some (entries.mergeSort scanEntryLe)

/-! ## Listing in another order -/

mutual

inductive Same : Node → Node → Prop where
  | regular : Same .regular .regular
  | other : Same .other .other
  | directory {children children' : List (FileName × Node)} (h : SameChildren children children') :
      Same (.directory children) (.directory children')

/-- The same children, in any order at any depth. -/
inductive SameChildren : List (FileName × Node) → List (FileName × Node) → Prop where
  | nil : SameChildren [] []
  | cons {node node' : Node} {children children' : List (FileName × Node)} (name : FileName) (h : Same node node')
      (hrest : SameChildren children children') : SameChildren ((name, node) :: children) ((name, node') :: children')
  | swap (child child' : FileName × Node) (children : List (FileName × Node)) :
      SameChildren (child :: child' :: children) (child' :: child :: children)
  | trans {children children' children'' : List (FileName × Node)} (h : SameChildren children children')
      (h' : SameChildren children' children'') : SameChildren children children''

end

/-- Scans that find the same entries, or both fail. -/
def SameFound (found found' : Option (List ScanEntry)) : Prop := Option.Rel List.Perm found found'

lemma SameFound.refl (found : Option (List ScanEntry)) : SameFound found found := by
  cases found with
  | none => exact .none
  | some entries => exact .some (.refl _)

lemma SameFound.trans {found found' found'' : Option (List ScanEntry)} (h : SameFound found found')
    (h' : SameFound found' found'') : SameFound found found'' := by
  cases h with
  | none => exact h'
  | some h =>
    cases h' with
    | some h' => exact .some (h.trans h')

lemma SameFound.joined {found found' more more' : Option (List ScanEntry)} (h : SameFound found found')
    (h' : SameFound more more') : SameFound (joined found more) (joined found' more') := by
  cases h with
  | none => exact .none
  | some h =>
    cases h' with
    | none => exact .none
    | some h' => exact .some (h.append h')

lemma joined_swap (a b c : Option (List ScanEntry)) : SameFound (joined a (joined b c)) (joined b (joined a c)) := by
  cases a with
  | none =>
    cases b with
    | none => exact .none
    | some b => exact .none
  | some a =>
    cases b with
    | none => exact .none
    | some b =>
      cases c with
      | none => exact .none
      | some c => exact .some (by simpa only [← List.append_assoc] using (List.perm_append_comm).append_right c)

theorem joinAll_perm {found found' : List (FileName × Option (List ScanEntry))} (h : found.Perm found') :
    SameFound (joinAll found) (joinAll found') := by
  induction h with
  | nil => exact .refl _
  | cons child _ ih => exact SameFound.joined (.refl _) ih
  | swap child child' found => exact joined_swap _ _ _
  | trans _ _ ih ih' => exact ih.trans ih'

/-- What the scan sees of one node. -/
structure Alike (node node' : Node) : Prop where
  isDirectory : node.isDirectory = node'.isDirectory
  isRegular : node.isRegular = node'.isRegular
  messageNames : node.messageNames.Perm node'.messageNames
  scan : ∀ relativeDir, SameFound (scanMaildirRoot relativeDir node) (scanMaildirRoot relativeDir node')

/-- What the scan sees of the children of a directory. -/
structure AlikeChildren (children children' : List (FileName × Node)) : Prop where
  hasDirectory : ∀ name, hasDirectory children name = hasDirectory children' name
  regularNames : ((children.filter fun child => child.2.isRegular).map Prod.fst).Perm
    ((children'.filter fun child => child.2.isRegular).map Prod.fst)
  listed : ∀ name, (namesIn name children).Perm (namesIn name children')
  scan : ∀ relativeDir, SameFound (joinAll (scanChildren relativeDir children))
    (joinAll (scanChildren relativeDir children'))

lemma AlikeChildren.scanMessageDir {children children' : List (FileName × Node)}
    (h : AlikeChildren children children') (relativeDir messageDirName : CString) :
    (scanMessageDir relativeDir messageDirName children).Perm
      (scanMessageDir relativeDir messageDirName children') :=
  (((List.mergeSort_perm _ _).trans (h.listed messageDirName)).trans (List.mergeSort_perm _ _).symm).map _

lemma AlikeChildren.scanDirectoryRecursive {children children' : List (FileName × Node)}
    (h : AlikeChildren children children') (relativeDir : CString) :
    SameFound (scanDirectoryRecursive relativeDir children) (scanDirectoryRecursive relativeDir children') :=
  ((joinAll_perm (List.mergeSort_perm _ _)).trans (h.scan relativeDir)).trans
    (joinAll_perm (List.mergeSort_perm _ _).symm)

lemma AlikeChildren.mailboxEntries {children children' : List (FileName × Node)}
    (h : AlikeChildren children children') (relativeDir : CString) :
    (mailboxEntries relativeDir children).Perm (mailboxEntries relativeDir children') := by
  have hfull : maildirRootHasFullLayout children = maildirRootHasFullLayout children' := by
    simp only [maildirRootHasFullLayout, h.hasDirectory]
  rw [MaildirImport.mailboxEntries, MaildirImport.mailboxEntries, hfull]
  split
  · exact .cons _ ((h.scanMessageDir _ _).append (h.scanMessageDir _ _))
  · exact .nil

section
variable {node node' : Node} {children children' children'' : List (FileName × Node)}

theorem AlikeChildren.directory (h : AlikeChildren children children') :
    Alike (.directory children) (.directory children') where
  isDirectory := rfl
  isRegular := rfl
  messageNames := h.regularNames
  scan := by
    intro relativeDir
    have hfull : maildirRootHasFullLayout children = maildirRootHasFullLayout children' := by
      simp only [maildirRootHasFullLayout, h.hasDirectory]
    have hlayout : maildirRootHasPartialLayout children = maildirRootHasPartialLayout children' := by
      simp only [maildirRootHasPartialLayout, hfull, h.hasDirectory]
    rw [scanMaildirRoot, scanMaildirRoot, hlayout]
    split
    · exact .none
    · exact SameFound.joined (.some (h.mailboxEntries relativeDir)) (h.scanDirectoryRecursive relativeDir)

theorem AlikeChildren.cons (name : FileName) (h : Alike node node') (hrest : AlikeChildren children children') :
    AlikeChildren ((name, node) :: children) ((name, node') :: children') where
  hasDirectory := by
    intro text
    simp only [MaildirImport.hasDirectory, List.any_cons, h.isDirectory]
    exact congrArg _ (hrest.hasDirectory text)
  regularNames := by
    simp only [List.filter_cons, h.isRegular]
    split
    · exact hrest.regularNames.cons _
    · exact hrest.regularNames
  listed := by
    intro text
    simp only [namesIn, List.filter_cons]
    split
    · exact h.messageNames.append (hrest.listed text)
    · exact hrest.listed text
  scan := by
    intro relativeDir
    rw [scanChildren, scanChildren, h.isDirectory]
    split
    · exact hrest.scan relativeDir
    · exact SameFound.joined (h.scan _) (hrest.scan relativeDir)

theorem AlikeChildren.swap (child child' : FileName × Node) (children : List (FileName × Node)) :
    AlikeChildren (child :: child' :: children) (child' :: child :: children) where
  hasDirectory := by
    intro text
    simp only [MaildirImport.hasDirectory, List.any_cons, ← Bool.or_assoc]
    rw [Bool.or_comm (decide _)]
  regularNames := ((List.Perm.swap _ _ _).filter _).map _
  listed := fun _ => ((List.Perm.swap _ _ _).filter _).flatMap_right _
  scan := by
    intro relativeDir
    simp only [scanChildren]
    split_ifs
    · exact .refl _
    · exact .refl _
    · exact .refl _
    · exact joined_swap _ _ _

theorem AlikeChildren.trans (h : AlikeChildren children children') (h' : AlikeChildren children' children'') :
    AlikeChildren children children'' where
  hasDirectory := fun text => (h.hasDirectory text).trans (h'.hasDirectory text)
  regularNames := h.regularNames.trans h'.regularNames
  listed := fun text => (h.listed text).trans (h'.listed text)
  scan := fun relativeDir => (h.scan relativeDir).trans (h'.scan relativeDir)

/-- One case for each constructor of the two relations. -/
theorem Same.alike (h : Same node node') : Alike node node' :=
  @Same.rec (fun node node' _ => Alike node node') (fun children children' _ => AlikeChildren children children')
    ⟨rfl, rfl, .refl _, fun _ => .refl _⟩ ⟨rfl, rfl, .refl _, fun _ => .refl _⟩ (fun _ => AlikeChildren.directory)
    ⟨fun _ => rfl, .refl _, fun _ => .refl _, fun _ => .refl _⟩
    (fun name _ _ => AlikeChildren.cons name) AlikeChildren.swap (fun _ _ => AlikeChildren.trans) node node' h

end

/-! ## The order of the result -/

/-- What follows the last `/`. -/
def leaf (path : List UInt8) : List UInt8 := (path.reverse.takeWhile (· ≠ 47)).reverse

/-- The flags of an entry are those that its own path spells. -/
def FlagsOfPath (entry : ScanEntry) : Prop :=
  match entry.kind with
  | .mailbox => entry.maildirFlagSuffix = none ∧ entry.maildirFlags = 0
  | .message =>
    entry.maildirFlagSuffix = (flagSuffix (leaf entry.sourcePath.bytes)).map .ofBuffer ∧
      entry.maildirFlags = ((flagSuffix (leaf entry.sourcePath.bytes)).map maildirMessageFlagsFromSuffix).getD 0

lemma leaf_append (path name : List UInt8) (h : (47 : UInt8) ∉ name) : leaf (path ++ 47 :: name) = name := by
  have hname : ∀ b ∈ name.reverse, decide (b ≠ 47) = true := by
    intro b hb
    rw [decide_eq_true_iff]
    rintro rfl
    exact h (List.mem_reverse.mp hb)
  rw [leaf, List.reverse_append, List.reverse_cons, List.append_assoc, List.takeWhile_append_of_pos hname]
  simp

lemma leaf_self (name : List UInt8) (h : (47 : UInt8) ∉ name) : leaf name = name := by
  rw [leaf, List.takeWhile_eq_self_iff.mpr, List.reverse_reverse]
  intro b hb
  rw [decide_eq_true_iff]
  rintro rfl
  exact h (List.mem_reverse.mp hb)

lemma leaf_buildSourcePath (relativeDir : CString) (name : FileName) :
    leaf (buildSourcePath relativeDir name.text).bytes = name.text.bytes := by
  rw [buildSourcePath]
  split
  · exact leaf_self _ name.no_slash
  · change leaf (relativeDir.bytes ++ [47] ++ name.text.bytes) = _
    rw [List.append_assoc, List.singleton_append]
    exact leaf_append _ _ name.no_slash

lemma messageEntry_flags (relativeDir messageDirName : CString) (name : FileName) :
    FlagsOfPath (messageEntry relativeDir messageDirName name) := by
  simp only [FlagsOfPath, messageEntry, leaf_buildSourcePath, and_self]

lemma mailboxEntries_flags {relativeDir : CString} {children : List (FileName × Node)} {entry : ScanEntry}
    (h : entry ∈ mailboxEntries relativeDir children) : FlagsOfPath entry := by
  rw [mailboxEntries] at h
  split at h
  · rcases List.mem_cons.mp h with rfl | h
    · exact ⟨rfl, rfl⟩
    · rcases List.mem_append.mp h with h | h <;>
      · obtain ⟨name, -, rfl⟩ := List.mem_map.mp h
        exact messageEntry_flags _ _ _
  · cases h

lemma joined_eq_some {found more : Option (List ScanEntry)} {entries : List ScanEntry}
    (h : joined found more = some entries) : ∃ a b, found = some a ∧ more = some b ∧ entries = a ++ b := by
  rw [joined, Option.bind_eq_some_iff] at h
  obtain ⟨a, ha, h⟩ := h
  obtain ⟨b, hb, rfl⟩ := Option.map_eq_some_iff.mp h
  exact ⟨a, b, ha, hb, rfl⟩

lemma joinAll_flags {found : List (FileName × Option (List ScanEntry))} {entries : List ScanEntry}
    (hfound : ∀ child ∈ found, ∀ entries, child.2 = some entries → ∀ entry ∈ entries, FlagsOfPath entry)
    (h : joinAll found = some entries) : ∀ entry ∈ entries, FlagsOfPath entry := by
  induction found generalizing entries with
  | nil =>
    cases h
    simp
  | cons child found ih =>
    obtain ⟨hchild, hfound⟩ := List.forall_mem_cons.mp hfound
    obtain ⟨first, more, hfirst, hmore, rfl⟩ := joined_eq_some h
    intro entry hmem
    rcases List.mem_append.mp hmem with hmem | hmem
    · exact hchild first hfirst entry hmem
    · exact ih hfound hmore entry hmem

/-- The scan of a node, of a list of children and of one child, each under any path. -/
theorem scan_flags (root : Node) : ∀ relativeDir entries, scanMaildirRoot relativeDir root = some entries →
    ∀ entry ∈ entries, FlagsOfPath entry := by
  refine @Node.rec
    (fun node => ∀ relativeDir entries, scanMaildirRoot relativeDir node = some entries →
      ∀ entry ∈ entries, FlagsOfPath entry)
    (fun children => ∀ relativeDir, ∀ child ∈ scanChildren relativeDir children, ∀ entries,
      child.2 = some entries → ∀ entry ∈ entries, FlagsOfPath entry)
    (fun child => ∀ relativeDir entries, scanMaildirRoot relativeDir child.2 = some entries →
      ∀ entry ∈ entries, FlagsOfPath entry)
    ?_ ?_ ?_ ?_ ?_ ?_ root
  · intro relativeDir entries h
    cases h
  · intro children ih relativeDir entries h entry hmem
    rw [scanMaildirRoot] at h
    split at h
    · cases h
    · obtain ⟨own, below, hown, hbelow, rfl⟩ := joined_eq_some h
      cases hown
      rcases List.mem_append.mp hmem with hmem | hmem
      · exact mailboxEntries_flags hmem
      · refine joinAll_flags (fun child hchild => ih relativeDir child ?_) hbelow entry hmem
        exact (List.mergeSort_perm _ _).mem_iff.mp hchild
  · intro relativeDir entries h
    cases h
  · intro relativeDir child h
    cases h
  · intro child rest ihchild ihrest relativeDir found h
    obtain ⟨name, node⟩ := child
    rw [scanChildren] at h
    split at h
    · exact ihrest relativeDir found h
    · rcases List.mem_cons.mp h with rfl | h
      · exact ihchild _
      · exact ihrest relativeDir found h
  · intro name node ih
    exact ih

lemma entry_ext {entry other : ScanEntry} (h : FlagsOfPath entry) (h' : FlagsOfPath other)
    (hkind : entry.kind = other.kind) (hmailbox : entry.mailboxPath = other.mailboxPath)
    (hsource : entry.sourcePath = other.sourcePath) : entry = other := by
  obtain ⟨kind, mailboxPath, sourcePath, suffix, flags⟩ := entry
  obtain ⟨kind', mailboxPath', sourcePath', suffix', flags'⟩ := other
  cases hkind
  cases hmailbox
  cases hsource
  cases kind with
  | mailbox =>
    simp only [FlagsOfPath] at h h'
    rw [h.1, h.2, h'.1, h'.2]
  | message =>
    simp only [FlagsOfPath] at h h'
    rw [h.1, h.2, h'.1, h'.2]

lemma kindRank_injective {kind kind' : EntryKind} (h : kindRank kind = kindRank kind') : kind = kind' := by
  cases kind <;> cases kind' <;> first | rfl | cases h

/-- The order of the sort as one on triples. -/
def sortKey (entry : ScanEntry) : Lex (CString × Lex (ℕ × CString)) :=
  toLex (entry.mailboxPath, toLex (kindRank entry.kind, entry.sourcePath))

theorem scanEntryLe_iff {left right : ScanEntry} : scanEntryLe left right = true ↔ sortKey left ≤ sortKey right := by
  have hkind : left.kind = right.kind ↔ kindRank left.kind = kindRank right.kind :=
    ⟨congrArg kindRank, kindRank_injective⟩
  simp only [scanEntryLe, decide_eq_true_eq, sortKey, Prod.Lex.toLex_le_toLex, hkind]

theorem sorted_of_perm {entries entries' : List ScanEntry} (h : entries.Perm entries')
    (hflags : ∀ entry ∈ entries, FlagsOfPath entry) :
    entries.mergeSort scanEntryLe = entries'.mergeSort scanEntryLe := by
  have hsorted : ∀ entries : List ScanEntry,
      (entries.mergeSort scanEntryLe).Pairwise fun left right => scanEntryLe left right = true := by
    intro entries
    refine List.pairwise_mergeSort (fun left middle right hle hle' => ?_) (fun left right => ?_) entries
    · rw [scanEntryLe_iff] at *
      exact hle.trans hle'
    · rw [Bool.or_eq_true, scanEntryLe_iff, scanEntryLe_iff]
      exact le_total _ _
  have hperm : (entries.mergeSort scanEntryLe).Perm (entries'.mergeSort scanEntryLe) :=
    ((List.mergeSort_perm entries scanEntryLe).trans h).trans (List.mergeSort_perm entries' scanEntryLe).symm
  refine List.Perm.eq_of_pairwise (fun left right hleft hright hle hle' => ?_) (hsorted entries) (hsorted entries')
    hperm
  rw [scanEntryLe_iff] at hle hle'
  have hkey := le_antisymm hle hle'
  simp only [sortKey, EmbeddingLike.apply_eq_iff_eq, Prod.mk.injEq] at hkey
  have hmem : ∀ entry, entry ∈ entries.mergeSort scanEntryLe → FlagsOfPath entry := fun entry hmem =>
    hflags entry ((List.mergeSort_perm entries scanEntryLe).mem_iff.mp hmem)
  exact entry_ext (hmem left hleft) (hmem right (hperm.mem_iff.mpr hright)) (kindRank_injective hkey.2.1) hkey.1
    hkey.2.2

/-- The result of a scan is that of the tree, in whatever order its directories list their children. -/
theorem scan_same {root root' : Node} (h : Same root root') : scan root = scan root' := by
  have hfound := h.alike.scan .empty
  rw [scan, scan]
  cases hleft : scanMaildirRoot .empty root with
  | none =>
    cases hright : scanMaildirRoot .empty root' with
    | none => rfl
    | some entries' =>
      rw [hleft, hright] at hfound
      cases hfound
  | some entries =>
    cases hright : scanMaildirRoot .empty root' with
    | none =>
      rw [hleft, hright] at hfound
      cases hfound
    | some entries' =>
      rw [hleft, hright] at hfound
      cases hfound with
      | some hperm =>
        cases entries with
        | nil =>
          rw [hperm.nil_eq]
        | cons entry entries =>
          cases entries' with
          | nil => exact absurd hperm.eq_nil (by simp)
          | cons entry' entries' => exact congrArg some (sorted_of_perm hperm (scan_flags root .empty _ hleft))

/-! ## An unchanged Maildir -/

/-- What a plan knows of the entries that were scanned for it. -/
abbrev PlannedFrom (sha : Sha256) (contents : CString → Option GBytes) : List ScanEntry → List PlanEntry → Prop :=
  List.Forall₂ fun scanned entry => scanned = entry.toScanEntry ∧ Unaltered sha contents entry

section
variable {sha : Sha256} {contents : CString → Option GBytes} {scanned : List ScanEntry} {plan : List PlanEntry}

lemma entryCopy_planned {scan : ScanEntry} {entry : PlanEntry}
    (h : maildirImportPlanEntryCopy sha contents scan = .ok entry) :
    scan = entry.toScanEntry ∧ Unaltered sha contents entry := by
  rw [maildirImportPlanEntryCopy] at h
  split at h
  · rename_i hkind
    cases h
    exact ⟨rfl, fun hmessage => absurd hmessage hkind⟩
  · split at h
    · cases h
    · rename_i bytes hread
      cases h
      exact ⟨rfl, fun _ => ⟨bytes, hread, rfl, rfl⟩⟩

theorem copyLoop_plannedFrom {index : ℕ} (h : copyLoop sha (fun _ => contents) index scanned = .ok plan) :
    PlannedFrom sha contents scanned plan := by
  induction scanned generalizing index plan with
  | nil =>
    cases h
    exact .nil
  | cons scan scanned ih =>
    rw [copyLoop] at h
    cases hcopy : maildirImportPlanEntryCopy sha contents scan with
    | error error =>
      rw [hcopy] at h
      cases h
    | ok entry =>
      simp only [hcopy] at h
      cases hrest : copyLoop sha (fun _ => contents) (index + 1) scanned with
      | error error =>
        rw [hrest] at h
        cases h
      | ok entries =>
        rw [hrest] at h
        cases h
        exact .cons (entryCopy_planned hcopy) (ih hrest)

theorem verifyLoop_of_plannedFrom (h : PlannedFrom sha contents scanned plan) (index : ℕ) :
    verifyLoop sha (fun _ => contents) index scanned plan = ⟨.ok, none⟩ := by
  induction h generalizing index with
  | nil => rfl
  | @cons scan entry scanned plan hsame _ ih =>
    rw [verifyLoop]
    rcases verifyScanEntry_cases contents scan entry with ⟨hverify, -⟩ | ⟨_, -, -, -, hdiffer⟩
    · rw [hverify]
      exact ih (index + 1)
    · exact absurd hsame hdiffer

/-- Where every message is as planned, only the ingestor can stop an import. -/
theorem executeLoop_of_plannedFrom (h : PlannedFrom sha contents scanned plan) (env : ℕ → Surroundings) (index : ℕ)
    (journal : Journal) (done : List ExecutionEntry) :
    (executeLoop sha (fun _ => contents) env index plan journal done).2.status = .ok ∨
      (executeLoop sha (fun _ => contents) env index plan journal done).2.status = .ingestFailed := by
  induction h generalizing index journal done with
  | nil => exact .inl rfl
  | @cons scan entry scanned plan hsame _ ih =>
    rw [executeLoop]
    by_cases hkind : entry.kind = .message
    · obtain ⟨bytes, hread, hsize, hdigest⟩ := hsame.2 hkind
      have hmatch : maildirMessageBytesMatchPlan sha contents entry = some bytes := by
        rw [maildirMessageBytesMatchPlan, hread]
        simp only
        rw [if_neg (not_not.mpr hsize), if_neg (not_not.mpr hdigest)]
      rw [if_neg (not_not.mpr hkind), hmatch]
      simp only
      split
      · exact .inr rfl
      · exact ih _ _ _
    · rw [if_pos hkind]
      exact ih _ _ _

/-- A Maildir that did not change is accepted, in whatever order its directories are listed again. -/
theorem unchanged_accepted {root root' : Node} (h : Same root root') (hscan : scan root = some scanned)
    (hplan : newFromScanEntries sha (fun _ => contents) scanned = .ok plan) :
    dryRunVerifyCurrent sha plan (scan root') (fun _ => contents) = some ⟨.ok, none⟩ ∧
    ∀ env journal, ∃ result, (execute sha plan (scan root') (fun _ => contents) (fun _ => contents) env journal).2 =
      some result ∧ (result.status = .ok ∨ result.status = .ingestFailed) := by
  have hfrom : plan ≠ [] ∧ PlannedFrom sha contents scanned plan := by
    rw [newFromScanEntries] at hplan
    split at hplan
    · cases hplan
    · cases hplan
    · rename_i entries hne hloop
      cases hplan
      exact ⟨hne, copyLoop_plannedFrom hloop⟩
  have hverify : dryRunVerifyCurrent sha plan (scan root') (fun _ => contents) = some ⟨.ok, none⟩ := by
    rw [dryRunVerifyCurrent, if_neg hfrom.1, ← scan_same h, hscan]
    exact congrArg some (verifyLoop_of_plannedFrom hfrom.2 0)
  refine ⟨hverify, fun env journal => ?_⟩
  rw [execute, hverify]
  exact ⟨_, rfl, executeLoop_of_plannedFrom hfrom.2 env 0 journal []⟩

end

/-! An inbox with two messages, listed twice. -/

lemma no_slash_of_literal {text : String} {no_nul : (ascii text).contains 0 = false}
    (h : (ascii text).contains 47 = false) : (47 : UInt8) ∉ (CString.literal text no_nul).bytes := by
  simpa [CString.literal] using h

lemma cur_no_slash : (47 : UInt8) ∉ (CString.literal "cur").bytes := no_slash_of_literal rfl
lemma new_no_slash : (47 : UInt8) ∉ (CString.literal "new").bytes := no_slash_of_literal rfl
lemma tmp_no_slash : (47 : UInt8) ∉ (CString.literal "tmp").bytes := no_slash_of_literal rfl
lemma seen_no_slash : (47 : UInt8) ∉ (CString.literal "1:2,S").bytes := no_slash_of_literal rfl
lemma plain_no_slash : (47 : UInt8) ∉ (CString.literal "2").bytes := no_slash_of_literal rfl

def seenMessage : FileName × Node := (⟨.literal "1:2,S", seen_no_slash⟩, .regular)

def plainMessage : FileName × Node := (⟨.literal "2", plain_no_slash⟩, .regular)

def inboxOf (messages : List (FileName × Node)) : Node :=
  .directory [(⟨.literal "cur", cur_no_slash⟩, .directory messages), (⟨.literal "new", new_no_slash⟩, .directory []),
    (⟨.literal "tmp", tmp_no_slash⟩, .directory [])]

lemma inbox_same : Same (inboxOf [seenMessage, plainMessage]) (inboxOf [plainMessage, seenMessage]) :=
  .directory (.cons _ (.directory (.swap _ _ _)) (.cons _ (.directory .nil) (.cons _ (.directory .nil) .nil)))

def inboxScan : List ScanEntry :=
  [⟨.mailbox, .empty, .literal ".", none, 0⟩, ⟨.message, .empty, .literal "cur/1:2,S", some (.literal "S"), 1⟩,
    ⟨.message, .empty, .literal "cur/2", none, 0⟩]

lemma inboxScan_sorted : inboxScan.Pairwise fun left right => scanEntryLe left right = true := by decide

lemma names_sorted : [seenMessage.1, plainMessage.1].Pairwise fun left right => scanStringLe left right = true := by
  decide

lemma inbox_found : scanMaildirRoot .empty (inboxOf [seenMessage, plainMessage]) = some inboxScan := by
  change joined (some (⟨.mailbox, .empty, .literal ".", none, 0⟩ ::
    (([seenMessage.1, plainMessage.1].mergeSort scanStringLe).map (messageEntry .empty (.literal "cur")) ++
      ([].mergeSort scanStringLe).map (messageEntry .empty (.literal "new")))))
    (joinAll ([].mergeSort compareChildren)) = _
  rw [List.mergeSort_of_pairwise names_sorted, List.mergeSort_nil, List.mergeSort_nil]
  decide +kernel

lemma inbox_scanned : scan (inboxOf [seenMessage, plainMessage]) = some inboxScan := by
  rw [scan, inbox_found]
  exact congrArg some (List.mergeSort_of_pairwise inboxScan_sorted)

def inboxPlan : List PlanEntry :=
  [⟨⟨.mailbox, .empty, .literal ".", none, 0⟩, 0, none⟩,
    ⟨⟨.message, .empty, .literal "cur/1:2,S", some (.literal "S"), 1⟩, 16,
      some (checksumBytes constantSha sampleMessage.data)⟩,
    ⟨⟨.message, .empty, .literal "cur/2", none, 0⟩, 16, some (checksumBytes constantSha sampleMessage.data)⟩]

lemma inboxPlan_made : newFromScanEntries constantSha (fun _ _ => some sampleMessage) inboxScan = .ok inboxPlan := rfl

theorem scan_same_inbox : scan (inboxOf [seenMessage, plainMessage]) = scan (inboxOf [plainMessage, seenMessage]) :=
  scan_same inbox_same

theorem unchanged_accepted_inbox :
    dryRunVerifyCurrent constantSha inboxPlan (scan (inboxOf [plainMessage, seenMessage]))
      (fun _ _ => some sampleMessage) = some ⟨.ok, none⟩ ∧
    ∀ env journal, ∃ result, (execute constantSha inboxPlan (scan (inboxOf [plainMessage, seenMessage]))
      (fun _ _ => some sampleMessage) (fun _ _ => some sampleMessage) env journal).2 = some result ∧
      (result.status = .ok ∨ result.status = .ingestFailed) :=
  unchanged_accepted inbox_same inbox_scanned inboxPlan_made

end Wyrebox.MaildirImport
