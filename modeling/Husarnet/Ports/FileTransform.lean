import Husarnet.AddressText

/-! # Transforming a file

`transformFile` of the Linux port tries three ways to replace the content of a file, each of which reads the file anew.
What the file holds at the end, for every pattern of failures of the calls that are made.
-/

namespace Husarnet
open Octets
set_option autoImplicit false

namespace FileTransform

/-! ## The calls and their failures -/

/-- The reads of `transformLockFile`: how many bytes each call is ready to deliver, one at least, and the place in the
file at which a call fails. -/
structure Reads where
  sizes : ℕ → ℕ
  failAt : Option ℕ

/-- What becomes of each call. A stream that cannot be opened is `none`, one that breaks off has a number of bytes that
get through. -/
structure Calls where
  tmpRead : Option ℕ
  tmpWrite : Option ℕ
  exchanged : Bool
  /-- `std::filesystem::remove` throws when it fails. -/
  removed : Bool
  opened : Bool
  leased : Bool
  reads : Reads
  sought : Bool
  /-- What `write` returns, `none` for -1. -/
  written : Option ℕ
  truncated : Bool
  lastRead : Option ℕ
  lastWrite : Option ℕ

/-- How a function ends: with a value, without one (the process exits, or `std::filesystem::remove` throws, which only
the start of the thread catches), or with undefined behaviour. -/
inductive Ending (α : Type) where
  | returns (value : α)
  | exits
  | undefined
  deriving DecidableEq, Repr

/-- `readFile` of a file that is there; the process ends when it cannot be opened. -/
def readFile (call : Option ℕ) (content : Bytes) : Ending Bytes :=
  match call with
  | none => .exits
  | some n => .returns (content.take n)

/-- `writeFile`: what the file holds afterwards, `none` when it cannot be opened. -/
def writeFile (call : Option ℕ) (data : Bytes) : Option Bytes := call.map fun n => data.take n

/-! ## transformTmpFile -/

/-- The answer, and what the file at `path` holds. -/
def transformTmpFile (calls : Calls) (transform : Bytes → Bytes) (content : Bytes) : Ending (Bool × Bytes) :=
  match readFile calls.tmpRead content with
  | .exits => .exits
  | .undefined => .undefined
  | .returns oldContent =>
    match writeFile calls.tmpWrite (transform oldContent) with
    | none => .returns (false, content)
    | some tmp =>
      if !calls.exchanged then .returns (false, content)
      else if !calls.removed then .exits
      else .returns (true, tmp)

/-! ## transformLockFile -/

def BUFFER_SIZE : ℕ := 32 * 1024

/-- `read(fd, ptr, sizeLeft)`, the call after `total` bytes: `none` for -1. -/
def read (reads : Reads) (content : Bytes) (call total sizeLeft : ℕ) : Option ℕ :=
  if reads.failAt = some total then none
  else some (min (min (reads.sizes call + 1) sizeLeft) (min content.length (reads.failAt.getD content.length) - total))

/-- The loop that fills the buffer, `none` when a read fails. `ptr` still points into the buffer that was given back
when there was a `realloc`. -/
def readLoop (reads : Reads) (content : Bytes) : ℕ → ℕ → ℕ → Ending (Option Bytes)
  | 0, _, _ => .undefined
  | n + 1, call, total =>
    let sizeLeft := BUFFER_SIZE - 1 - total
    if sizeLeft ≤ 1024 then .undefined
    else match read reads content call total sizeLeft with
      | none => .returns none
      | some 0 => .returns (some (content.take total))
      | some (bytesRead + 1) => readLoop reads content n (call + 1) (total + (bytesRead + 1))

def overwrite (content data : Bytes) : Bytes := data ++ content.drop data.length

/-- The answer, and what the file holds. -/
def transformLockFile (calls : Calls) (transform : Bytes → Bytes) (content : Bytes) : Ending (Bool × Bytes) :=
  if !calls.opened then .returns (false, content)
  else if !calls.leased then .returns (false, content)
  else match readLoop calls.reads content (content.length + 1) 0 0 with
    | .exits => .exits
    | .undefined => .undefined
    | .returns none => .returns (false, content)
    | .returns (some buffer) =>
      -- the string ends at the first NUL of the buffer
      let newContent := transform (IpAddress.cstr buffer)
      if !calls.sought then .returns (false, content)
      else match calls.written with
        | none => .returns (false, content)
        | some n =>
          if (newContent.take n).length ≠ newContent.length then .returns (false, overwrite content (newContent.take n))
          else if !calls.truncated then .returns (false, overwrite content newContent)
          else .returns (true, newContent)

/-! ## transformFile -/

def transformDirectly (calls : Calls) (transform : Bytes → Bytes) (content : Bytes) : Ending (Bool × Bytes) :=
  match readFile calls.lastRead content with
  | .exits => .exits
  | .undefined => .undefined
  | .returns oldContent =>
    match writeFile calls.lastWrite (transform oldContent) with
    | none => .returns (false, content)
    | some written => .returns (true, written)

/-- `transformFile` of a file with this content. -/
def transformExisting (calls : Calls) (transform : Bytes → Bytes) (content : Bytes) : Ending (Bool × Bytes) :=
  match transformTmpFile calls transform content with
  | .exits => .exits
  | .undefined => .undefined
  | .returns (true, content) => .returns (true, content)
  | .returns (false, content) =>
    match transformLockFile calls transform content with
    | .exits => .exits
    | .undefined => .undefined
    | .returns (true, content) => .returns (true, content)
    | .returns (false, content) => transformDirectly calls transform content

/-- `transformFile`; `none` is a file that does not exist. -/
def transformFile (calls : Calls) (transform : Bytes → Bytes) : Option Bytes → Ending (Bool × Option Bytes)
  | none =>
    match writeFile calls.lastWrite (transform []) with
    | none => .returns (false, none)
    | some written => .returns (true, some written)
  | some content =>
    match transformExisting calls transform content with
    | .exits => .exits
    | .undefined => .undefined
    | .returns (answer, content) => .returns (answer, some content)

/-! ## The loop -/

/-- From here on the buffer is given back and used. -/
def ROOM : ℕ := 31743

/-- Where the loop stops: at the end of the file, or at the place that cannot be read. -/
def Reads.stop (reads : Reads) (content : Bytes) : ℕ := min content.length (reads.failAt.getD content.length)

theorem buffer_full_iff (total : ℕ) : BUFFER_SIZE - 1 - total ≤ 1024 ↔ ROOM ≤ total := by
  simp only [BUFFER_SIZE, ROOM]
  omega

theorem Reads.stop_le {reads : Reads} {total : ℕ} (h : reads.failAt = some total) (content : Bytes) :
    reads.stop content ≤ total := by
  rw [stop, h]
  exact Nat.min_le_right _ _

theorem Reads.length_le_stop {reads : Reads} {content : Bytes} (h : reads.failAt ≠ some (reads.stop content)) :
    content.length ≤ reads.stop content := by
  by_contra hlt
  refine h ?_
  rw [stop] at hlt ⊢
  cases hat : reads.failAt with
  | none => simp [hat] at hlt
  | some e =>
    rw [hat, Option.getD_some] at hlt
    rw [Option.getD_some, Nat.min_eq_right (by omega)]

theorem readLoop_eq (reads : Reads) (content : Bytes) {n : ℕ} (call : ℕ) {total : ℕ} (htotal : total ≤ reads.stop content)
    (hn : reads.stop content - total < n) :
    readLoop reads content n call total =
      if ROOM ≤ reads.stop content then .undefined
      else if reads.failAt = some (reads.stop content) then .returns none
      else .returns (some content) := by
  induction n generalizing call total with
  | zero => omega
  | succ n ih =>
    rw [readLoop]
    by_cases hroom : BUFFER_SIZE - 1 - total ≤ 1024
    · rw [if_pos hroom, if_pos (((buffer_full_iff total).mp hroom).trans htotal)]
    · have hnot : ¬ ROOM ≤ total := mt (buffer_full_iff total).mpr hroom
      rw [if_neg hroom, read, ← Reads.stop]
      by_cases hfail : reads.failAt = some total
      · -- the call fails, at the place where the loop stops
        have hstop : reads.stop content = total := Nat.le_antisymm (Reads.stop_le hfail content) htotal
        rw [if_pos hfail, hstop, if_neg hnot, if_pos hfail]
      · rw [if_neg hfail]
        by_cases hend : total = reads.stop content
        · -- the end of the file
          subst hend
          rw [if_neg hnot, if_neg hfail, Nat.sub_self, Nat.min_zero]
          dsimp only
          rw [List.take_of_length_le (Reads.length_le_stop hfail)]
        · obtain ⟨m, hm⟩ : ∃ m, min (min (reads.sizes call + 1) (BUFFER_SIZE - 1 - total)) (reads.stop content - total) =
              m + 1 := ⟨_, (Nat.succ_pred_eq_of_pos (by omega)).symm⟩
          rw [hm]
          dsimp only
          exact ih (call + 1) (by omega) (by omega)

/-! ## All or nothing -/

/-- A file that has been transformed holds what it should, and one that has not what it held before. -/
def AllOrNothing (transform : Bytes → Bytes) (content : Bytes) : Ending (Bool × Option Bytes) → Prop
  | .returns (true, after) => after = some (transform content)
  | .returns (false, after) => after = some content
  | .exits => True
  | .undefined => False

namespace Calls
variable (calls : Calls) (transform : Bytes → Bytes) (content : Bytes)

/-- The temporary file cannot be written, or not be exchanged. -/
def tmpFails : Bool := calls.tmpRead.isSome && (calls.tmpWrite.isNone || !calls.exchanged)

def locks : Bool := calls.opened && calls.leased

/-- Every read of the locked file succeeds. -/
def readsAll : Bool := decide (calls.reads.failAt ≠ some (calls.reads.stop content))

/-- The new content is written over the old one in full. -/
def writesAll : Bool :=
  (calls.written.any fun n => decide ((transform (IpAddress.cstr content)).length ≤ n)) && calls.truncated

def lockWorks : Bool := calls.locks && calls.readsAll content && calls.sought && calls.writesAll transform content

/-- What stands in the file when the lock has not helped: the old content, with as much as has been written over it. -/
def left : Bytes :=
  if calls.locks && calls.readsAll content && calls.sought then
    match calls.written with
    | none => content
    | some n => overwrite content ((transform (IpAddress.cstr content)).take n)
  else content

/-- The condition under which a file is transformed as a whole or not at all, with a clause for each of the three ways. -/
structure Whole : Prop where
  /-- What is read, and what of it gets through to the temporary file, makes the whole new content. -/
  byTmp : ∀ r w, calls.tmpRead = some r → calls.tmpWrite = some w → calls.exchanged = true → calls.removed = true →
    (transform (content.take r)).take w = transform content
  /-- The locked file is read without a `realloc`. -/
  room : calls.tmpFails = true → calls.locks = true → calls.reads.stop content < ROOM
  /-- What stands behind the first NUL does not matter. -/
  byLock : calls.tmpFails = true → calls.lockWorks transform content = true →
    transform (IpAddress.cstr content) = transform content
  /-- What is left makes the whole new content, or is the old content and cannot be opened for writing. -/
  directly : calls.tmpFails = true → calls.lockWorks transform content = false → ∀ r, calls.lastRead = some r →
    match calls.lastWrite with
    | none => calls.left transform content = content
    | some w => (transform ((calls.left transform content).take r)).take w = transform content

end Calls

section Ways
variable (calls : Calls) (transform : Bytes → Bytes) (content : Bytes)

theorem transformTmpFile_eq :
    transformTmpFile calls transform content =
      if calls.tmpFails then .returns (false, content)
      else match calls.tmpRead, calls.tmpWrite with
        | some r, some w => if calls.removed then .returns (true, (transform (content.take r)).take w) else .exits
        | _, _ => .exits := by
  unfold transformTmpFile Calls.tmpFails
  cases calls.tmpRead with
  | none => rfl
  | some r =>
    cases calls.tmpWrite with
    | none => rfl
    | some w => cases calls.exchanged <;> cases calls.removed <;> rfl

theorem transformLockFile_eq :
    transformLockFile calls transform content =
      if calls.locks && decide (ROOM ≤ calls.reads.stop content) then .undefined
      else if calls.lockWorks transform content then .returns (true, transform (IpAddress.cstr content))
      else .returns (false, calls.left transform content) := by
  have hloop := readLoop_eq calls.reads content (n := content.length + 1) 0 (Nat.zero_le _) (by
    have hle : calls.reads.stop content ≤ content.length := Nat.min_le_left _ _
    omega)
  rw [transformLockFile, Calls.lockWorks, Calls.left, Calls.locks, hloop]
  cases calls.opened with
  | false => rfl
  | true =>
    cases calls.leased with
    | false => rfl
    | true =>
      by_cases hroom : ROOM ≤ calls.reads.stop content
      · simp [hroom]
      · by_cases hfail : calls.reads.failAt = some (calls.reads.stop content)
        · simp [hroom, hfail, Calls.readsAll]
        · cases calls.sought with
          | false => simp [hroom, hfail, Calls.readsAll]
          | true =>
            rw [Calls.writesAll]
            cases calls.written with
            | none => simp [hroom, hfail, Calls.readsAll]
            | some n =>
              by_cases hfull : (transform (IpAddress.cstr content)).length ≤ n
              · cases calls.truncated <;> simp [hroom, hfail, Calls.readsAll, hfull, List.take_of_length_le hfull]
              · simp [hroom, hfail, Calls.readsAll, hfull]

end Ways

/-- The first way: what gets through to the temporary file is what the file holds. -/
theorem allOrNothing_byTmp {calls : Calls} {transform : Bytes → Bytes} {content : Bytes} (h : calls.tmpFails = false) :
    AllOrNothing transform content (transformFile calls transform (some content)) ↔
      ∀ r w, calls.tmpRead = some r → calls.tmpWrite = some w → calls.exchanged = true → calls.removed = true →
        (transform (content.take r)).take w = transform content := by
  rw [transformFile, transformExisting, transformTmpFile_eq, h]
  unfold Calls.tmpFails at h
  cases hread : calls.tmpRead with
  | none => simp [AllOrNothing]
  | some r =>
    rw [hread] at h
    cases hwrite : calls.tmpWrite with
    | none =>
      rw [hwrite] at h
      cases h
    | some w =>
      have hexchanged : calls.exchanged = true := by simpa [hwrite] using h
      cases calls.removed with
      | false => simp [AllOrNothing]
      | true => simp [AllOrNothing, hexchanged]

/-- The last way, on what the one before has left. -/
theorem allOrNothing_directly (calls : Calls) (transform : Bytes → Bytes) (content left : Bytes) :
    AllOrNothing transform content (match transformDirectly calls transform left with
      | .exits => .exits
      | .undefined => .undefined
      | .returns (answer, after) => .returns (answer, some after)) ↔
      ∀ r, calls.lastRead = some r → match calls.lastWrite with
        | none => left = content
        | some w => (transform (left.take r)).take w = transform content := by
  rw [transformDirectly]
  cases calls.lastRead with
  | none => simp [readFile, AllOrNothing]
  | some r =>
    cases calls.lastWrite with
    | none => simp [readFile, writeFile, AllOrNothing]
    | some w => simp [readFile, writeFile, AllOrNothing]

/-- **A transformed file.** It holds the whole new content, or is as it was when the answer is no, if and only if the
calls that are made, and the content, are such as `Whole` says. -/
theorem all_or_nothing_iff (calls : Calls) (transform : Bytes → Bytes) (content : Bytes) :
    AllOrNothing transform content (transformFile calls transform (some content)) ↔ calls.Whole transform content := by
  cases htmp : calls.tmpFails with
  | false =>
    rw [allOrNothing_byTmp htmp]
    constructor
    · intro h
      exact ⟨h, by simp [htmp], by simp [htmp], by simp [htmp]⟩
    · exact fun h => h.byTmp
  | true =>
    have hbyTmp : ∀ r w, calls.tmpRead = some r → calls.tmpWrite = some w → calls.exchanged = true →
        calls.removed = true → (transform (content.take r)).take w = transform content := by
      intro r w hread hwrite hexchanged
      simp [Calls.tmpFails, hread, hwrite, hexchanged] at htmp
    have hrun : transformExisting calls transform content =
        match transformLockFile calls transform content with
        | .exits => .exits
        | .undefined => .undefined
        | .returns (true, content) => .returns (true, content)
        | .returns (false, content) => transformDirectly calls transform content := by
      rw [transformExisting, transformTmpFile_eq, if_pos htmp]
    rw [transformFile, hrun, transformLockFile_eq]
    by_cases hroom : calls.locks = true ∧ ROOM ≤ calls.reads.stop content
    · rw [if_pos (by simpa using hroom)]
      constructor
      · exact False.elim
      · intro h
        exact absurd (h.room htmp hroom.1) (Nat.not_lt.mpr hroom.2)
    · rw [if_neg (by simpa using hroom)]
      have hspace : calls.locks = true → calls.reads.stop content < ROOM :=
        fun hlocks => Nat.not_le.mp fun hle => hroom ⟨hlocks, hle⟩
      cases hworks : calls.lockWorks transform content with
      | true =>
        have hfile : AllOrNothing transform content (.returns (true, some (transform (IpAddress.cstr content)))) ↔
            transform (IpAddress.cstr content) = transform content := Option.some_inj
        refine hfile.trans ⟨fun h => ⟨hbyTmp, fun _ => hspace, fun _ _ => h, by simp [hworks]⟩, fun h => h.byLock htmp hworks⟩
      | false =>
        refine (allOrNothing_directly calls transform content (calls.left transform content)).trans ?_
        exact ⟨fun h => ⟨hbyTmp, fun _ => hspace, by simp [hworks], fun _ _ => h⟩, fun h => h.directly htmp hworks⟩

/-- A disk that is full: the temporary file is opened but takes nothing. -/
def fullDisk : Calls where
  tmpRead := some 1000
  tmpWrite := some 0
  exchanged := true
  removed := true
  opened := true
  leased := true
  reads := ⟨fun _ => 1000, none⟩
  sought := true
  written := none
  truncated := true
  lastRead := some 1000
  lastWrite := some 0

/-- The answer is yes, and the file is empty. -/
theorem full_disk_empties : transformFile fullDisk (· ++ ascii "b") (some (ascii "a")) = .returns (true, some []) ∧
    ¬ AllOrNothing (· ++ ascii "b") (ascii "a") (transformFile fullDisk (· ++ ascii "b") (some (ascii "a"))) := by
  have hrun : transformFile fullDisk (· ++ ascii "b") (some (ascii "a")) = .returns (true, some []) := rfl
  rw [hrun]
  exact ⟨rfl, fun h => absurd (Option.some.inj h) (by decide)⟩

end FileTransform
end Husarnet
