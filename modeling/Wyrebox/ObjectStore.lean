import Wyrebox.CrashFs
import Wyrebox.JournalRecord
import Mathlib.Logic.Relation

set_option autoImplicit false

/-!
# The local object store

Bytes are stored under the name of their SHA-256. A put writes a temporary file, syncs it, links it to
its final name and syncs the directory. Puts of any number of writers interleave step by step, and
a crash may come between any two steps.
-/
namespace Wyrebox.ObjectStore
open JournalRecord CrashFs

/-! ## Keys -/

def hexDigit (n : ℕ) : UInt8 := UInt8.ofNat (if n < 10 then 48 + n else 87 + n)

/-- `g_checksum_get_string`: two lower-case digits a byte. -/
def hexString (digest : List UInt8) : List UInt8 :=
  digest.flatMap fun b => [hexDigit (b.toNat / 16), hexDigit (b.toNat % 16)]

/-- `checksum_bytes`. -/
def checksumBytes (sha : Sha256) (bytes : List UInt8) : List UInt8 := hexString (sha.digest bytes)

def isLowerHex (b : UInt8) : Bool := (48 ≤ b && b ≤ 57) || (97 ≤ b && b ≤ 102)

def keyPrefix : List UInt8 := ascii "sha256:"

/-- The key that `put_bytes` returns. -/
def objectKey (sha : Sha256) (bytes : List UInt8) : List UInt8 := keyPrefix ++ checksumBytes sha bytes

inductive GetError where
  | invalidKey
  | invalidKeyLength
  | invalidKeyHex
  | unreadable
  | hashMismatch
  deriving DecidableEq, Repr

/-- `validate_object_key`: the digits of the key. -/
def validateObjectKey (key : List UInt8) : Except GetError (List UInt8) :=
  if ¬keyPrefix <+: key then .error .invalidKey
  else
    let hex := key.drop keyPrefix.length
    if hex.length ≠ 64 then .error .invalidKeyLength
    else if ¬hex.all isLowerHex then .error .invalidKeyHex
    else .ok hex

theorem hexDigit_toNat {n : ℕ} (h : n < 16) : (hexDigit n).toNat = if n < 10 then 48 + n else 87 + n := by
  rw [hexDigit, UInt8.toNat_ofNat']
  split
  · omega
  · omega

theorem hexDigit_inj {m n : ℕ} (hm : m < 16) (hn : n < 16) (h : hexDigit m = hexDigit n) : m = n := by
  have hnat := congrArg UInt8.toNat h
  rw [hexDigit_toNat hm, hexDigit_toNat hn] at hnat
  split at hnat <;> split at hnat <;> omega

theorem isLowerHex_hexDigit {n : ℕ} (h : n < 16) : isLowerHex (hexDigit n) = true := by
  have hnat := hexDigit_toNat h
  simp only [isLowerHex, Bool.or_eq_true, Bool.and_eq_true, decide_eq_true_eq, UInt8.le_iff_toNat_le]
  rw [hnat]
  split
  · left
    exact ⟨Nat.le_add_right 48 n, by change 48 + n ≤ 57; omega⟩
  · right
    exact ⟨by change 97 ≤ 87 + n; omega, by change 87 + n ≤ 102; omega⟩

theorem hexString_length (digest : List UInt8) : (hexString digest).length = 2 * digest.length := by
  induction digest with
  | nil => rfl
  | cons b bs ih =>
    simp only [hexString, List.flatMap_cons, List.length_append, List.length_cons, List.length_nil] at ih ⊢
    omega

theorem hexString_all (digest : List UInt8) : (hexString digest).all isLowerHex = true := by
  rw [List.all_eq_true]
  intro c hc
  obtain ⟨b, -, hb⟩ := List.mem_flatMap.mp hc
  have hlt := b.toNat_lt
  simp only [List.mem_cons, List.not_mem_nil, or_false] at hb
  rcases hb with rfl | rfl
  · exact isLowerHex_hexDigit (by omega)
  · exact isLowerHex_hexDigit (by omega)

theorem hexString_injective : Function.Injective hexString := by
  intro digest digest' h
  induction digest generalizing digest' with
  | nil =>
    have hlen := congrArg List.length h
    rw [hexString_length, hexString_length] at hlen
    exact (List.length_eq_zero_iff.mp (by simpa using hlen.symm)).symm
  | cons b bs ih =>
    cases digest' with
    | nil => simp [hexString] at h
    | cons b' bs' =>
      simp only [hexString, List.flatMap_cons, List.cons_append, List.nil_append, List.cons.injEq] at h
      obtain ⟨hhigh, hlow, hrest⟩ := h
      have hlt := b.toNat_lt
      have hlt' := b'.toNat_lt
      have hdiv := hexDigit_inj (by omega) (by omega) hhigh
      have hmod := hexDigit_inj (by omega) (by omega) hlow
      have hb : b = b' := UInt8.toNat_inj.mp (by omega)
      rw [hb, ih hrest]

theorem validateObjectKey_objectKey (sha : Sha256) (bytes : List UInt8) :
    validateObjectKey (objectKey sha bytes) = .ok (checksumBytes sha bytes) := by
  have hlen : (checksumBytes sha bytes).length = 64 := by
    rw [checksumBytes, hexString_length, sha.digest_length]
  have hhex : (checksumBytes sha bytes).all isLowerHex = true := hexString_all _
  simp [validateObjectKey, objectKey, hlen, hhex]

/-! ## Files -/

/-- The names in one object directory. -/
inductive FileName where
  | object (hex : List UInt8)
  | temp (suffix : List UInt8)
  deriving DecidableEq

def FileName.IsObject : FileName → Prop
  | .object _ => True
  | .temp _ => False

abbrev StoreFs : Type := Fs (List UInt8) FileName

/-- `build_object_path`. -/
def objectPath (hex : List UInt8) : List UInt8 × FileName := (hex.take 2, .object hex)

/-- `wyrebox_local_object_store_get_bytes` when the file system does not fail. -/
def getBytes (sha : Sha256) (fs : StoreFs) (key : List UInt8) : Except GetError (List UInt8) :=
  match validateObjectKey key with
  | .error error => .error error
  | .ok hex =>
    match fs.read (objectPath hex) with
    | none => .error .unreadable
    | some contents => if checksumBytes sha contents = hex then .ok contents else .error .hashMismatch

/-! ## One put -/

/-- The next call of a running `put_bytes`. `file` is what its descriptor refers to. -/
inductive Stage where
  | checkRoot
  | makeParent
  | syncHashRoot
  | testExists
  | createTemp
  | write (temp : List UInt8) (file : FileId) (written : ℕ)
  | syncTemp (temp : List UInt8) (file : FileId)
  | closeTemp (temp : List UInt8) (file : FileId)
  | link (temp : List UInt8) (file : FileId)
  | unlinkInstalled (temp : List UInt8) (file : FileId)
  | unlinkExisting (temp : List UInt8) (file : FileId)
  | syncExisting
  | verifyExisting
  | syncParent
  | unlinkFailed (temp : List UInt8) (file : FileId)
  | syncFailed
  | done
  | failed
  | killed

structure Put where
  bytes : List UInt8
  stage : Stage

/-- How a call ends, as far as the file system alone does not decide it. -/
inductive Reply where
  | success
  | failure
  | name (suffix : List UInt8)
  | count (n : ℕ)

section
variable (sha : Sha256) (fs : StoreFs) (p : Put)

def Put.hex : List UInt8 := checksumBytes sha p.bytes

def Put.parentDir : List UInt8 := (p.hex sha).take 2

def Put.path : List UInt8 × FileName := objectPath (p.hex sha)

def Put.tempPath (temp : List UInt8) : List UInt8 × FileName := (p.parentDir sha, .temp temp)

/-- One call of `wyrebox_local_object_store_put_bytes`. -/
def Put.act (reply : Reply) : StoreFs × Stage :=
  match p.stage, reply with
  | .checkRoot, .failure => (fs, .failed)
  | .checkRoot, _ => (fs, .makeParent)
  | .makeParent, .failure => (fs, .failed)
  | .makeParent, _ => (fs.mkdir (p.parentDir sha), .syncHashRoot)
  | .syncHashRoot, .failure => (fs, .failed)
  | .syncHashRoot, _ => (fs.syncRoot, .testExists)
  | .testExists, .failure => (fs, .createTemp)
  | .testExists, _ =>
    if (fs.entries (p.path sha)).isSome then (fs, .verifyExisting) else (fs, .createTemp)
  | .createTemp, .failure => (fs, .failed)
  | .createTemp, .name temp =>
    -- `mkostemp` tries the next name when this one is taken
    if (fs.entries (p.tempPath sha temp)).isSome then (fs, .createTemp)
    else (fs.create (p.tempPath sha temp), .write temp fs.next 0)
  | .createTemp, _ => (fs, .createTemp)
  | .write temp file written, reply =>
    if p.bytes.length ≤ written then (fs, .syncTemp temp file)
    else match reply with
      | .failure => (fs, .unlinkFailed temp file)
      | .count n => (fs.append file ((p.bytes.drop written).take n),
          .write temp file (min (written + n) p.bytes.length))
      | _ => (fs, .write temp file written)
  | .syncTemp temp file, .failure => (fs, .unlinkFailed temp file)
  | .syncTemp temp file, _ => (fs.syncFile file, .closeTemp temp file)
  | .closeTemp temp file, .failure => (fs, .unlinkFailed temp file)
  | .closeTemp temp file, _ => (fs, .link temp file)
  | .link temp file, .failure => (fs, .unlinkFailed temp file)
  | .link temp file, _ =>
    match fs.entries (p.tempPath sha temp) with
    | none => (fs, .unlinkFailed temp file)
    | some linked =>
      if (fs.entries (p.path sha)).isSome then (fs, .unlinkExisting temp file)
      else (fs.setEntry (p.path sha) (some linked), .unlinkInstalled temp file)
  | .unlinkInstalled _ _, .failure => (fs, .syncParent)
  | .unlinkInstalled temp _, _ => (fs.setEntry (p.tempPath sha temp) none, .syncParent)
  | .unlinkExisting _ _, .failure => (fs, .syncExisting)
  | .unlinkExisting temp _, _ => (fs.setEntry (p.tempPath sha temp) none, .syncExisting)
  | .syncExisting, .failure => (fs, .verifyExisting)
  | .syncExisting, _ => (fs.syncDir (p.parentDir sha), .verifyExisting)
  | .verifyExisting, .failure => (fs, .failed)
  | .verifyExisting, _ =>
    match fs.read (p.path sha) with
    | none => (fs, .failed)
    | some contents =>
      if checksumBytes sha contents = p.hex sha then (fs, .syncParent) else (fs, .failed)
  | .syncParent, .failure => (fs, .failed)
  | .syncParent, _ => (fs.syncDir (p.parentDir sha), .done)
  | .unlinkFailed _ _, .failure => (fs, .syncFailed)
  | .unlinkFailed temp _, _ => (fs.setEntry (p.tempPath sha temp) none, .syncFailed)
  | .syncFailed, .failure => (fs, .failed)
  | .syncFailed, _ => (fs.syncDir (p.parentDir sha), .failed)
  | .done, _ => (fs, .done)
  | .failed, _ => (fs, .failed)
  | .killed, _ => (fs, .killed)

end

/-! ## All puts -/

/-- The file system and the puts begun so far, finished ones included. -/
structure World where
  fs : StoreFs
  puts : ℕ → Option Put

def World.empty : World := ⟨.empty, fun _ => none⟩

def World.setPut (w : World) (fs : StoreFs) (k : ℕ) (p : Put) : World :=
  ⟨fs, Function.update w.puts k (some p)⟩

@[simp] theorem World.setPut_self (w : World) (fs : StoreFs) (k : ℕ) (p : Put) :
    (w.setPut fs k p).puts k = some p := Function.update_self ..

theorem World.setPut_of_ne (w : World) (fs : StoreFs) {k k' : ℕ} (h : k' ≠ k) (p : Put) :
    (w.setPut fs k p).puts k' = w.puts k' := Function.update_of_ne h ..

def Stage.afterCrash : Stage → Stage
  | .done => .done
  | .failed => .failed
  | _ => .killed

def Put.crash (p : Put) : Put := { p with stage := p.stage.afterCrash }

inductive Step (sha : Sha256) : World → World → Prop where
  | begin (w : World) (k : ℕ) (bytes : List UInt8) (h : w.puts k = none) :
      Step sha w (w.setPut w.fs k ⟨bytes, .checkRoot⟩)
  | act (w : World) (k : ℕ) (p : Put) (reply : Reply) (h : w.puts k = some p) :
      Step sha w (w.setPut (p.act sha w.fs reply).1 k { p with stage := (p.act sha w.fs reply).2 })
  /-- The process of one put dies. -/
  | kill (w : World) (k : ℕ) (p : Put) (h : w.puts k = some p) : Step sha w (w.setPut w.fs k p.crash)

/-- The machine stops: every process dies, and the disk keeps what it has. -/
inductive CrashStep : World → World → Prop where
  | crash (w : World) (fs : StoreFs) (h : Crash w.fs fs) :
      CrashStep w ⟨fs, fun k => (w.puts k).map Put.crash⟩

abbrev Run (sha : Sha256) : World → World → Prop :=
  Relation.ReflTransGen fun w w' => Step sha w w' ∨ CrashStep w w'

end Wyrebox.ObjectStore
