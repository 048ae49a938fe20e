import Wyrebox.AddressList

set_option autoImplicit false

/-!
# The grammar of addresses

What the checks of an address accept: a local part that is a dot-atom or a quoted string, and a domain that is
a host name or a literal.
-/
namespace Wyrebox.AddressGrammar
open AddressList EncodedWords

/-! ## Local parts -/

def IsAtext (c : UInt8) : Prop := 0x80 ≤ c ∨ isAlnum c = true ∨ c ∈ atomSpecials

instance (c : UInt8) : Decidable (IsAtext c) := inferInstanceAs (Decidable (_ ∨ _))

/-- Atoms with dots between them. -/
def DotAtom (text : List UInt8) : Prop :=
  ∃ atoms : List (List UInt8), atoms ≠ [] ∧ (∀ atom ∈ atoms, atom ≠ [] ∧ ∀ c ∈ atom, IsAtext c) ∧
    text = [46].intercalate atoms

/-- What stands between the marks of a quoted local part. -/
inductive QuotedLocal : List UInt8 → Prop
  | nil : QuotedLocal []
  | text {c rest} : c ≠ 34 → c ≠ 92 → 0x20 ≤ c → c ≠ 0x7f → QuotedLocal rest → QuotedLocal (c :: rest)
  | pair {c rest} : QuotedLocal rest → QuotedLocal (92 :: c :: rest)

def LocalPart (text : List UInt8) : Prop :=
  DotAtom text ∨ ∃ inner, text = 34 :: (inner ++ [34]) ∧ QuotedLocal inner

/-! ## Domains -/

def Label (label : List UInt8) : Prop :=
  label ≠ [] ∧ (∀ c ∈ label, 0x80 ≤ c ∨ isAlnum c = true ∨ c = 45) ∧ label.head? ≠ some 45 ∧ label.getLast? ≠ some 45

/-- Labels with dots between them. -/
def HostName (text : List UInt8) : Prop :=
  ∃ labels : List (List UInt8), labels ≠ [] ∧ (∀ label ∈ labels, Label label) ∧ text = [46].intercalate labels

def DomainLiteral (text : List UInt8) : Prop :=
  ∃ inner, inner ≠ [] ∧ text = 91 :: (inner ++ [93]) ∧ ∀ c ∈ inner, 0x20 < c ∧ c ≠ 0x7f ∧ c ≠ 91 ∧ c ≠ 93

def Domain (text : List UInt8) : Prop := HostName text ∨ DomainLiteral text

/-! ## What the checks accept -/

theorem quotedLocal_of_valid {text : List UInt8} :
    (quotedLocalIsValid false text = true → QuotedLocal text) ∧
    (quotedLocalIsValid true text = true → ∃ c rest, text = c :: rest ∧ QuotedLocal rest) := by
  induction text with
  | nil => exact ⟨fun _ => .nil, fun h => by cases h⟩
  | cons c rest ih =>
    constructor
    · intro h
      rw [quotedLocalIsValid, if_neg Bool.false_ne_true] at h
      split at h
      · rename_i hslash
        obtain ⟨d, rest', rfl, hrest⟩ := ih.2 h
        exact hslash ▸ .pair hrest
      · rename_i hslash
        split at h
        · cases h
        · rename_i hbad
          simp only [not_or, UInt8.not_lt] at hbad
          exact .text hbad.1 hslash hbad.2.2.2.1 hbad.2.2.2.2 (ih.1 h)
    · intro h
      rw [quotedLocalIsValid, if_pos rfl] at h
      exact ⟨c, rest, rfl, ih.1 h⟩

theorem intercalate_cons {first : List UInt8} {parts : List (List UInt8)} (h : parts ≠ []) :
    [46].intercalate (first :: parts) = first ++ 46 :: [46].intercalate parts := by
  rw [List.intercalate_cons_of_ne_nil h, List.append_assoc]
  rfl

/-- The atoms of the text, the first of which has begun. -/
theorem dotAtom_of_valid {text : List UInt8} (before : List UInt8) (previous : Option UInt8)
    (hbefore : ∀ c ∈ before, IsAtext c) (hprevious : before = [] → text.head? ≠ some 46 ∨ previous = some 46)
    (hsome : before ++ text ≠ []) (hlast : text.getLast? ≠ some 46) (h : atomsAreValid previous text = true) :
    DotAtom (before ++ text) := by
  induction text generalizing before previous with
  | nil =>
    rw [List.append_nil] at hsome ⊢
    exact ⟨[before], List.cons_ne_nil _ _, fun atom hatom => List.mem_singleton.mp hatom ▸ ⟨hsome, hbefore⟩,
      List.intercalate_singleton.symm⟩
  | cons c rest ih =>
    rw [atomsAreValid] at h
    by_cases hdot : c = 46
    · rw [if_pos hdot] at h
      split at h
      · cases h
      · rename_i hprevious46
        have hne : before ≠ [] := fun hnil => (hprevious hnil).elim (fun hhead => hhead (congrArg some hdot)) hprevious46
        have hrest : rest ≠ [] := fun hnil => hlast (by rw [hnil, hdot]; rfl)
        rw [List.getLast?_cons_of_ne_nil hrest] at hlast
        obtain ⟨atoms, hatoms, hvalid, hparts⟩ := ih [] (some c) (by simp) (fun _ => .inr (congrArg some hdot)) hrest hlast h
        refine ⟨before :: atoms, List.cons_ne_nil _ _, ?_, ?_⟩
        · exact List.forall_mem_cons.mpr ⟨⟨hne, hbefore⟩, hvalid⟩
        · rw [intercalate_cons hatoms, ← hparts, hdot]
          rfl
    · rw [if_neg hdot] at h
      split at h
      · cases h
      · rename_i hbad
        have hatext : IsAtext c := by
          simp only [Bool.not_eq_true', decide_eq_false_iff_not, not_and, Classical.not_not] at hbad
          rcases UInt8.lt_or_le c 0x80 with hlow | hhigh
          · exact .inr (hbad hlow)
          · exact .inl hhigh
        have hnext : ∀ d ∈ before ++ [c], IsAtext d := by
          intro d hd
          rcases List.mem_append.mp hd with hd | hd
          · exact hbefore d hd
          · exact List.mem_singleton.mp hd ▸ hatext
        have hlast' : rest.getLast? ≠ some 46 := by
          cases rest with
          | nil => simp
          | cons d rest => rwa [List.getLast?_cons_of_ne_nil (List.cons_ne_nil _ _)] at hlast
        have hatoms := ih (before ++ [c]) (some c) hnext (by simp) (by simp) hlast' h
        rwa [List.append_assoc] at hatoms

/-- The labels of the text, the first of which has begun. -/
theorem hostName_of_valid {text : List UInt8} (before : List UInt8) (hchars : ∀ c ∈ before, 0x80 ≤ c ∨ isAlnum c = true ∨ c = 45)
    (hhead : before.head? ≠ some 45) (h : labelsAreValid (before ≠ []) (before.getLast? = some 45) text = true) :
    HostName (before ++ text) := by
  induction text generalizing before with
  | nil =>
    simp only [labelsAreValid, decide_eq_true_eq, Bool.not_eq_true', decide_eq_false_iff_not] at h
    rw [List.append_nil]
    exact ⟨[before], List.cons_ne_nil _ _, fun label hlabel => List.mem_singleton.mp hlabel ▸ ⟨h.1, hchars, hhead, h.2⟩,
      List.intercalate_singleton.symm⟩
  | cons c rest ih =>
    rw [labelsAreValid] at h
    have hsnoc : 0x80 ≤ c ∨ isAlnum c = true ∨ c = 45 → ∀ d ∈ before ++ [c], 0x80 ≤ d ∨ isAlnum d = true ∨ d = 45 := by
      intro hc d hd
      rcases List.mem_append.mp hd with hd | hd
      · exact hchars d hd
      · exact List.mem_singleton.mp hd ▸ hc
    split at h
    · rename_i hdot
      split at h
      · cases h
      · rename_i hbad
        simp only [Bool.not_eq_true', decide_eq_false_iff_not, not_or, Classical.not_not, decide_eq_true_eq] at hbad
        obtain ⟨labels, hlabels, hvalid, hparts⟩ := ih [] (by simp) (by simp) h
        refine ⟨before :: labels, List.cons_ne_nil _ _, ?_, ?_⟩
        · exact List.forall_mem_cons.mpr ⟨⟨hbad.1, hchars, hhead, hbad.2⟩, hvalid⟩
        · rw [intercalate_cons hlabels, ← hparts, hdot]
          rfl
    · split at h
      · rename_i hhyphen
        split at h
        · cases h
        · rename_i hbad
          simp only [Bool.not_eq_true', decide_eq_false_iff_not, Classical.not_not] at hbad
          have hnext := ih (before ++ [c]) (hsnoc (.inr (.inr hhyphen))) (by rwa [List.head?_append_of_ne_nil _ hbad])
            (by simpa [hhyphen] using h)
          rwa [List.append_assoc] at hnext
      · rename_i hhyphen
        split at h
        · rename_i hchar
          have hhead' : (before ++ [c]).head? ≠ some 45 := by
            cases before with
            | nil => simpa using hhyphen
            | cons d before => exact hhead
          have hnext := ih (before ++ [c]) (hsnoc (hchar.imp_right .inl)) hhead' (by simpa [hhyphen] using h)
          rwa [List.append_assoc] at hnext
        · cases h

theorem localPart_of_valid {glib : GLib} {text : List UInt8} (h : localPartIsValid glib text = true) :
    glib.validate text = true ∧ LocalPart text := by
  unfold localPartIsValid at h
  split at h
  · cases h
  · rename_i hutf8
    simp only [Bool.not_eq_true', not_or, Bool.not_eq_false] at hutf8
    refine ⟨hutf8.2, ?_⟩
    split at h
    · rename_i hmark
      split at h
      · cases h
      · rename_i hends
        simp only [not_or, Classical.not_not, Nat.not_lt] at hends
        obtain ⟨rest, rfl⟩ := List.head?_eq_some_iff.mp hmark
        have hrest : rest ≠ [] := by
          intro hnil
          simp [hnil] at hends
        rw [List.getLast?_cons_of_ne_nil hrest] at hends
        obtain ⟨inner, rfl⟩ := List.getLast?_eq_some_iff.mp hends.2
        refine .inr ⟨inner, rfl, quotedLocal_of_valid.1 ?_⟩
        simpa using h
    · split at h
      · cases h
      · rename_i hdots
        rw [not_or] at hdots
        exact .inl (dotAtom_of_valid [] none (by simp) (fun _ => .inl hdots.1) hutf8.1 hdots.2 h)

theorem domain_of_valid {glib : GLib} {text : List UInt8} (h : domainIsValid glib text = true) : Domain text := by
  unfold domainIsValid at h
  split at h
  · cases h
  · split at h
    · rename_i hopen
      split at h
      · cases h
      · rename_i hends
        simp only [not_or, Classical.not_not, Nat.not_lt] at hends
        obtain ⟨rest, rfl⟩ := List.head?_eq_some_iff.mp hopen
        have hrest : rest ≠ [] := by
          intro hnil
          simp [hnil] at hends
        rw [List.getLast?_cons_of_ne_nil hrest] at hends
        obtain ⟨inner, rfl⟩ := List.getLast?_eq_some_iff.mp hends.2
        have hinner : inner ≠ [] := by
          intro hnil
          simp [hnil] at hends
        refine .inr ⟨inner, hinner, rfl, fun c hc => ?_⟩
        have hchars := List.all_eq_true.mp h c (by simpa using hc)
        simpa using hchars
    · split at h
      · cases h
      · split at h
        · cases h
        · rw [decide_eq_true_eq] at h
          exact .inl (hostName_of_valid [] (by simp) (by simp) (by simpa using h.1))

/-! ## Separators -/

inductive Mode where
  | plain
  | quoted
  | escaped
  | literal
  deriving DecidableEq

def Mode.next : Mode → UInt8 → Mode
  | .plain, c => if c = 34 then .quoted else if c = 91 then .literal else .plain
  | .quoted, c => if c = 92 then .escaped else if c = 34 then .plain else .quoted
  | .escaped, _ => .quoted
  | .literal, c => if c = 93 then .plain else .literal

/-- The number of `@` outside quoted strings and domain literals. -/
def separators : Mode → List UInt8 → ℕ
  | _, [] => 0
  | mode, c :: rest => (if mode = .plain ∧ c = 64 then 1 else 0) + separators (mode.next c) rest

theorem separators_append (mode : Mode) (text more : List UInt8) :
    separators mode (text ++ more) = separators mode text + separators (text.foldl Mode.next mode) more := by
  induction text generalizing mode with
  | nil => rw [List.nil_append, separators, Nat.zero_add, List.foldl_nil]
  | cons c text ih => rw [List.cons_append, separators, separators, ih, List.foldl_cons, Nat.add_assoc]

/-- The text neither has a separator nor leaves the mode it starts in. -/
def Inert (mode : Mode) (text : List UInt8) : Prop := separators mode text = 0 ∧ text.foldl Mode.next mode = mode

theorem inert_of {mode : Mode} {text : List UInt8} (hnext : ∀ c ∈ text, mode.next c = mode)
    (hplain : mode = .plain → 64 ∉ text) : Inert mode text := by
  induction text with
  | nil => exact ⟨rfl, rfl⟩
  | cons c rest ih =>
    obtain ⟨hc, hrest⟩ := List.forall_mem_cons.mp hnext
    obtain ⟨hnone, hmode⟩ := ih hrest fun h => fun hin => hplain h (List.mem_cons_of_mem _ hin)
    constructor
    · have hat : ¬(mode = .plain ∧ c = 64) := fun h => hplain h.1 (h.2 ▸ List.mem_cons_self)
      rw [separators, if_neg hat, hc, hnone]
    · rw [List.foldl_cons, hc, hmode]

theorem isAtext_ne {c : UInt8} (h : IsAtext c) : c ≠ 34 ∧ c ≠ 46 ∧ c ≠ 64 ∧ c ≠ 91 := by
  refine ⟨?_, ?_, ?_, ?_⟩ <;> rintro rfl <;> revert h <;> decide

theorem mem_intercalate {parts : List (List UInt8)} {c : UInt8} (h : c ∈ [46].intercalate parts) :
    c = 46 ∨ ∃ part ∈ parts, c ∈ part := by
  induction parts with
  | nil => cases h
  | cons first parts ih =>
    by_cases hparts : parts = []
    · rw [hparts, List.intercalate_singleton] at h
      exact .inr ⟨first, List.mem_cons_self, h⟩
    · rw [intercalate_cons hparts, List.mem_append, List.mem_cons] at h
      rcases h with h | h | h
      · exact .inr ⟨first, List.mem_cons_self, h⟩
      · exact .inl h
      · rcases ih h with h | ⟨part, hpart, hc⟩
        · exact .inl h
        · exact .inr ⟨part, List.mem_cons_of_mem _ hpart, hc⟩

theorem dotAtom_ne {text : List UInt8} (h : DotAtom text) {c : UInt8} (hc : c ∈ text) : c ≠ 34 ∧ c ≠ 64 ∧ c ≠ 91 := by
  obtain ⟨atoms, -, hatoms, rfl⟩ := h
  rcases mem_intercalate hc with rfl | ⟨atom, hatom, hc⟩
  · decide
  · have hne := isAtext_ne ((hatoms atom hatom).2 c hc)
    exact ⟨hne.1, hne.2.2⟩

theorem hostName_ne {text : List UInt8} (h : HostName text) {c : UInt8} (hc : c ∈ text) : c ≠ 34 ∧ c ≠ 64 ∧ c ≠ 91 := by
  obtain ⟨labels, -, hlabels, rfl⟩ := h
  rcases mem_intercalate hc with rfl | ⟨label, hlabel, hc⟩
  · decide
  · have hchars := (hlabels label hlabel).2.1 c hc
    refine ⟨?_, ?_, ?_⟩ <;> rintro rfl <;> revert hchars <;> decide

theorem inert_plain {text : List UInt8} (h : ∀ c ∈ text, c ≠ 34 ∧ c ≠ 64 ∧ c ≠ 91) : Inert .plain text := by
  refine inert_of (fun c hc => ?_) fun _ hin => (h 64 hin).2.1 rfl
  rw [Mode.next, if_neg (h c hc).1, if_neg (h c hc).2.2]

theorem inert_quotedLocal {inner : List UInt8} (h : QuotedLocal inner) : Inert .quoted inner := by
  induction h with
  | nil => exact ⟨rfl, rfl⟩
  | text hmark hslash _ _ _ ih => simpa [Inert, separators, Mode.next, hmark, hslash] using ih
  | pair _ ih => simpa [Inert, separators, Mode.next] using ih

theorem inert_localPart {text : List UInt8} (h : LocalPart text) : Inert .plain text := by
  rcases h with hatoms | ⟨inner, rfl, hinner⟩
  · exact inert_plain fun c hc => dotAtom_ne hatoms hc
  · obtain ⟨hnone, hmode⟩ := inert_quotedLocal hinner
    constructor
    · simp [separators, Mode.next, separators_append, hnone, hmode]
    · simp [Mode.next, hmode]

theorem separators_domain {text : List UInt8} (h : Domain text) : separators .plain text = 0 := by
  rcases h with hlabels | ⟨inner, -, rfl, hinner⟩
  · exact (inert_plain fun c hc => hostName_ne hlabels hc).1
  · have hinert : Inert .literal inner := inert_of (fun c hc => if_neg (hinner c hc).2.2.2) fun h => by cases h
    simp [separators, Mode.next, separators_append, hinert.1, hinert.2]

/-- An address has one separator. -/
theorem separators_address {localPart domain : List UInt8} (hlocal : LocalPart localPart) (hdomain : Domain domain) :
    separators .plain (localPart ++ 64 :: domain) = 1 := by
  obtain ⟨hnone, hmode⟩ := inert_localPart hlocal
  have hat : Mode.next .plain 64 = .plain := rfl
  rw [separators_append, hnone, hmode, separators, hat, separators_domain hdomain]
  rfl

/-! ## Where the separator is -/

section
variable {s s' : SeparatorScan} {i j : ℕ} {text more : List UInt8}

theorem run_append (s : SeparatorScan) (i : ℕ) (text more : List UInt8) :
    s.run i (text ++ more) = (s.run i text).bind fun s => s.run (i + text.length) more := by
  induction text generalizing s i with
  | nil => rfl
  | cons c text ih =>
    rw [List.cons_append, SeparatorScan.run, SeparatorScan.run, Option.bind_assoc]
    refine congrArg _ (funext fun s => ?_)
    rw [ih, List.length_cons, Nat.add_assoc, Nat.add_comm 1]

/-- A byte is the separator only if it is an `@` and there was none before. -/
theorem separator_step {c : UInt8} (h : s.step i c = some s') :
    s'.separator = s.separator ∨ s.separator = none ∧ c = 64 ∧ s'.separator = some i := by
  unfold SeparatorScan.step at h
  split_ifs at h with hescaped hslash hmark hat hsecond hopen hopened hclose hopened' hspace
  all_goals
    rw [Option.some_inj] at h
    subst h
  any_goals exact .inl rfl
  exact .inr ⟨by simpa using hsecond, hat.2.1, rfl⟩

/-- Once found, the separator stays. -/
theorem separator_kept (h : s.run i text = some s') {at' : ℕ} (hat : s.separator = some at') : s'.separator = some at' := by
  induction text generalizing s i with
  | nil =>
    rw [SeparatorScan.run, Option.some_inj] at h
    exact h ▸ hat
  | cons c rest ih =>
    rw [SeparatorScan.run, Option.bind_eq_some_iff] at h
    obtain ⟨next, hstep, hrun⟩ := h
    rcases separator_step hstep with hkept | ⟨hnone, -⟩
    · exact ih hrun (hkept.trans hat)
    · rw [hat] at hnone
      cases hnone

/-- The text up to the separator, and after it. -/
theorem separator_run (h : s.run i text = some s') (hnone : s.separator = none) {at' : ℕ} (hat : s'.separator = some at') :
    ∃ before after middle, text = before ++ 64 :: after ∧ at' = i + before.length ∧
      s.run i (before ++ [64]) = some middle ∧ middle.separator = some at' ∧ middle.run (at' + 1) after = some s' := by
  induction text generalizing s i with
  | nil =>
    rw [SeparatorScan.run, Option.some_inj] at h
    rw [← h, hnone] at hat
    cases hat
  | cons c rest ih =>
    rw [SeparatorScan.run, Option.bind_eq_some_iff] at h
    obtain ⟨next, hstep, hrun⟩ := h
    rcases separator_step hstep with hkept | ⟨-, rfl, hset⟩
    · obtain ⟨before, after, middle, rfl, rfl, hbefore, hmiddle, hafter⟩ := ih hrun (hkept.trans hnone)
      have hindex : i + 1 + before.length = i + (c :: before).length := by
        rw [List.length_cons]
        omega
      refine ⟨c :: before, after, middle, rfl, hindex, ?_, hmiddle, hafter⟩
      rw [List.cons_append, SeparatorScan.run, hstep]
      exact hbefore
    · have hi := separator_kept hrun hset
      rw [hat, Option.some_inj] at hi
      subst hi
      refine ⟨[], rest, next, rfl, rfl, ?_, hset, hrun⟩
      rw [List.nil_append, SeparatorScan.run, hstep]
      rfl

def SeparatorScan.Closed (s : SeparatorScan) : Prop := s.quoted = false ∧ s.escaped = false ∧ s.domainLiteral = false

/-- `before` and `@` are read, and the separator is found there. -/
def EndsLocal (before : List UInt8) (middle : SeparatorScan) : Prop :=
  SeparatorScan.initial.run 0 (before ++ [64]) = some middle ∧ middle.separator = some before.length

theorem findAddressSeparator_eq_some {value : List UInt8} {at' : ℕ} (h : findAddressSeparator value = some at') :
    ∃ before after middle final, value = before ++ 64 :: after ∧ at' = before.length ∧ EndsLocal before middle ∧
      middle.run (at' + 1) after = some final ∧ SeparatorScan.Closed final := by
  unfold findAddressSeparator at h
  split at h
  · cases h
  · rename_i final hrun
    split at h
    · cases h
    · rename_i hclosed
      simp only [not_or, Bool.not_eq_true] at hclosed
      obtain ⟨before, after, middle, rfl, rfl, hbefore, hmiddle, hafter⟩ := separator_run hrun rfl h
      rw [Nat.zero_add] at hmiddle hafter ⊢
      exact ⟨before, after, middle, final, rfl, rfl, ⟨hbefore, hmiddle⟩, hafter, hclosed⟩

theorem findAddressSeparator_of {before after : List UInt8} {middle final : SeparatorScan} (hbefore : EndsLocal before middle)
    (hafter : middle.run (before.length + 1) after = some final) (hclosed : SeparatorScan.Closed final) :
    findAddressSeparator (before ++ 64 :: after) = some before.length := by
  obtain ⟨hquoted, hescaped, hliteral⟩ := hclosed
  have hrun : SeparatorScan.initial.run 0 (before ++ 64 :: after) = some final := by
    have hparts : before ++ 64 :: after = (before ++ [64]) ++ after := by simp
    rw [hparts, run_append, hbefore.1, Option.bind_some, List.length_append, Nat.zero_add]
    exact hafter
  rw [findAddressSeparator, hrun]
  simp [hquoted, hescaped, hliteral, separator_kept hafter hbefore.2]

end

/-! ## Addresses -/

section
variable {glib : GLib} {value address : List UInt8}

/-- An address is the whole text, with the domain in lower case. -/
theorem normalizeAddress_eq_some (h : normalizeAddress glib value = some address) :
    ∃ localPart rest middle final, strip value = localPart ++ 64 :: rest ∧ address = localPart ++ 64 :: glib.strdown rest ∧
      localPartIsValid glib localPart = true ∧ glib.validate rest = true ∧ domainIsValid glib (glib.strdown rest) = true ∧
      EndsLocal localPart middle ∧ middle.run (localPart.length + 1) rest = some final ∧ SeparatorScan.Closed final := by
  unfold normalizeAddress at h
  dsimp only at h
  split at h
  · cases h
  · rename_i at' hat
    obtain ⟨before, after, middle, final, hvalue, rfl, hbefore, hafter, hclosed⟩ := findAddressSeparator_eq_some hat
    have htake : (before ++ 64 :: after).take before.length = before := List.take_left' rfl
    have hdrop : (before ++ 64 :: after).drop (before.length + 1) = after := by simp
    rw [hvalue, htake, hdrop] at h
    split at h
    · cases h
    · split at h
      · cases h
      · split at h
        · cases h
        · rename_i hutf8 hvalid
          simp only [not_or, Bool.not_eq_true', Bool.not_eq_false] at hutf8 hvalid
          rw [Option.some_inj] at h
          exact ⟨before, after, middle, final, hvalue, h.symm, hvalid.1, hutf8, hvalid.2, hbefore, hafter, hclosed⟩

end

/-! ## Lower case -/

/-- A text and its lower case, character by character: ASCII becomes its lower case, and no other character
    becomes ASCII except letters. -/
inductive Lowered : List UInt8 → List UInt8 → Prop
  | nil : Lowered [] []
  | ascii {c text low} : c < 0x80 → Lowered text low → Lowered (c :: text) (Eml.toLower c :: low)
  | other {character lowCharacter text low} : character ≠ [] → lowCharacter ≠ [] → (∀ c ∈ character, 0x80 ≤ c) →
      (∀ c ∈ lowCharacter, 0x80 ≤ c ∨ 97 ≤ c ∧ c ≤ 122) → Lowered text low →
      Lowered (character ++ text) (lowCharacter ++ low)

/-- What `g_utf8_strdown` does to valid text. -/
def LowersText (glib : GLib) : Prop := ∀ text, glib.validate text = true → Lowered text (glib.strdown text)

/-- Neither a mark of quoted strings and literals, nor `@`, nor white space. -/
def IsMarkless (c : UInt8) : Prop := c ≠ 34 ∧ c ≠ 92 ∧ c ≠ 64 ∧ c ≠ 91 ∧ c ≠ 93 ∧ isSpace c = false

instance (c : UInt8) : Decidable (IsMarkless c) := inferInstanceAs (Decidable (_ ∧ _))

theorem markless_high {c : UInt8} (h : 0x80 ≤ c ∨ 97 ≤ c ∧ c ≤ 122) : IsMarkless c := by
  refine ⟨?_, ?_, ?_, ?_, ?_, ?_⟩
  case refine_6 =>
    cases hspace : isSpace c with
    | false => rfl
    | true =>
      simp only [isSpace, decide_eq_true_eq] at hspace
      rcases hspace with rfl | rfl | rfl | rfl | rfl <;> revert h <;> decide
  all_goals
    rintro rfl
    revert h
    decide

theorem toLower_high {c : UInt8} (h : 0x80 ≤ c ∨ 97 ≤ c ∧ c ≤ 122) : Eml.toLower c = c := by
  unfold Eml.toLower
  rw [if_neg]
  simp only [UInt8.le_iff_toNat_le, UInt8.reduceToNat] at h ⊢
  omega

theorem lower_of_upper {c : UInt8} (h : 65 ≤ c ∧ c ≤ 90) : 97 ≤ c + 32 ∧ c + 32 ≤ 122 := by
  simp only [UInt8.le_iff_toNat_le, UInt8.toNat_add, UInt8.reduceToNat] at h ⊢
  omega

theorem markless_upper {c : UInt8} (h : 65 ≤ c ∧ c ≤ 90) : IsMarkless c := by
  refine ⟨?_, ?_, ?_, ?_, ?_, ?_⟩
  case refine_6 =>
    cases hspace : isSpace c with
    | false => rfl
    | true =>
      simp only [isSpace, decide_eq_true_eq] at hspace
      rcases hspace with rfl | rfl | rfl | rfl | rfl <;> revert h <;> decide
  all_goals
    rintro rfl
    revert h
    decide

theorem toLower_cases (c : UInt8) : Eml.toLower c = c ∨ IsMarkless c ∧ IsMarkless (Eml.toLower c) := by
  unfold Eml.toLower
  split
  · rename_i hupper
    exact .inr ⟨markless_upper hupper, markless_high (.inr (lower_of_upper hupper))⟩
  · exact .inl rfl

theorem toLower_toLower (c : UInt8) : Eml.toLower (Eml.toLower c) = Eml.toLower c := by
  by_cases hupper : 65 ≤ c ∧ c ≤ 90
  · have hlow : Eml.toLower c = c + 32 := if_pos hupper
    rw [hlow, toLower_high (.inr (lower_of_upper hupper))]
  · have hsame : Eml.toLower c = c := if_neg hupper
    rw [hsame, hsame]

section
variable {s final : SeparatorScan} {text low : List UInt8}

theorem step_markless {c : UInt8} (h : IsMarkless c) (s : SeparatorScan) (i : ℕ) :
    s.step i c = some { s with escaped := false } := by
  obtain ⟨hquote, hslash, hat, hopen, hclose, hspace⟩ := h
  obtain ⟨separator, quoted, escaped, literal⟩ := s
  cases escaped <;> simp [SeparatorScan.step, hquote, hslash, hat, hopen, hclose, hspace]

theorem run_markless {text : List UInt8} (hne : text ≠ []) (h : ∀ c ∈ text, IsMarkless c) (s : SeparatorScan) (i : ℕ) :
    s.run i text = some { s with escaped := false } := by
  induction text generalizing s i with
  | nil => exact absurd rfl hne
  | cons c rest ih =>
    obtain ⟨hc, hrest⟩ := List.forall_mem_cons.mp h
    rw [SeparatorScan.run, step_markless hc, Option.bind_some]
    by_cases hempty : rest = []
    · rw [hempty]
      rfl
    · rw [ih hempty hrest]

/-- After the separator the position of a byte does not matter. -/
theorem step_position (h : s.separator ≠ none) (i j : ℕ) (c : UInt8) : s.step i c = s.step j c := by
  simp [SeparatorScan.step, h]

theorem run_lowered (h : Lowered text low) {i : ℕ} (hseparator : s.separator ≠ none) (hrun : s.run i text = some final)
    (j : ℕ) : s.run j low = some final := by
  induction h generalizing s i j with
  | nil => exact hrun
  | @ascii c text low hc _ ih =>
    rw [SeparatorScan.run, Option.bind_eq_some_iff] at hrun
    obtain ⟨next, hstep, hrest⟩ := hrun
    have hnext : next.separator ≠ none := by
      rcases separator_step hstep with hkept | ⟨hnone, -⟩
      · rwa [hkept]
      · exact absurd hnone hseparator
    have hlow : s.step j (Eml.toLower c) = some next := by
      rcases toLower_cases c with hsame | ⟨hmarkless, hmarkless'⟩
      · rw [hsame, step_position hseparator j i, hstep]
      · rw [step_markless hmarkless', ← step_markless hmarkless s i, hstep]
    rw [SeparatorScan.run, hlow, Option.bind_some]
    exact ih hnext hrest (j + 1)
  | @other character lowCharacter text low hcharacter hlow hhigh hhigh' _ ih =>
    have hrun' := run_append s i character text
    rw [run_markless hcharacter fun c hc => markless_high (.inl (hhigh c hc)), Option.bind_some, hrun] at hrun'
    rw [run_append, run_markless hlow fun c hc => markless_high (hhigh' c hc), Option.bind_some]
    have hcleared : ({ s with escaped := false } : SeparatorScan).separator ≠ none := hseparator
    exact ih hcleared hrun'.symm _

theorem toLower_lowered (h : Lowered text low) : low.map Eml.toLower = low := by
  induction h with
  | nil => rfl
  | ascii _ _ ih => rw [List.map_cons, ih, toLower_toLower]
  | other _ _ _ hhigh _ ih =>
    rw [List.map_append, ih]
    refine congrArg (· ++ _) ?_
    exact (List.map_congr_left fun c hc => toLower_high (hhigh c hc)).trans (List.map_id _)

end

theorem no_nul_lowered {text low : List UInt8} (h : Lowered text low) (hzero : 0 ∉ text) : 0 ∉ low := by
  induction h with
  | nil => exact hzero
  | @ascii c text low _ _ ih =>
    rw [List.mem_cons, not_or] at hzero ⊢
    refine ⟨fun hlow => hzero.1 ?_, ih hzero.2⟩
    unfold Eml.toLower at hlow
    split at hlow
    · rename_i hupper
      have hne := lower_of_upper hupper
      rw [← hlow] at hne
      exact absurd hne (by decide)
    · exact hlow
  | @other character lowCharacter text low _ _ _ hhigh _ ih =>
    rw [List.mem_append, not_or] at hzero ⊢
    exact ⟨fun hin => absurd (hhigh 0 hin) (by decide), ih hzero.2⟩

/-! ## What an accepted address is -/

/-- A local part, `@` and a domain without capitals of ASCII. -/
structure Address (glib : GLib) (address localPart domain : List UInt8) : Prop where
  parts : address = localPart ++ 64 :: domain
  utf8 : glib.validate localPart = true
  validLocal : LocalPart localPart
  validDomain : Domain domain
  lower : domain.map Eml.toLower = domain
  separators : separators .plain address = 1

section
variable {glib : GLib} {value address : List UInt8}

/-- An accepted address is a whole text with the domain in lower case, and its domain is found again. -/
theorem address_of_normalize (hlower : LowersText glib) (h : normalizeAddress glib value = some address) :
    ∃ localPart rest, strip value = localPart ++ 64 :: rest ∧ glib.validate rest = true ∧
      Address glib address localPart (glib.strdown rest) ∧ domainIsValid glib (glib.strdown rest) = true ∧
      extractDomain address = some (glib.strdown rest) := by
  obtain ⟨localPart, rest, middle, final, hvalue, rfl, hlocal, hutf8, hdomain, hends, hrest, hclosed⟩ :=
    normalizeAddress_eq_some h
  have hlowered := hlower rest hutf8
  have hsame := toLower_lowered hlowered
  obtain ⟨hvalid, hlocalPart⟩ := localPart_of_valid hlocal
  have hdomain' := domain_of_valid hdomain
  have haddress : Address glib (localPart ++ 64 :: glib.strdown rest) localPart (glib.strdown rest) :=
    ⟨rfl, hvalid, hlocalPart, hdomain', hsame, separators_address hlocalPart hdomain'⟩
  refine ⟨localPart, rest, hvalue, hutf8, haddress, hdomain, ?_⟩
  have hmiddle : middle.separator ≠ none := by
    rw [hends.2]
    exact Option.some_ne_none _
  have hat := findAddressSeparator_of hends (run_lowered hlowered hmiddle hrest _) hclosed
  have hne : glib.strdown rest ≠ [] := fun hempty => by simp [domainIsValid, hempty] at hdomain
  have hdrop : (localPart ++ 64 :: glib.strdown rest).drop (localPart.length + 1) = glib.strdown rest := by simp
  rw [extractDomain, hat]
  simp only [hdrop, hne, if_false, hsame]

end

end Wyrebox.AddressGrammar
