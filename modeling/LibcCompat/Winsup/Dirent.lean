/-
# `LibcCompat.Winsup.Dirent` — `dirent.c`

A stub directory is a directory stream of the C runtime together with a
descriptor.  The functions are written against a record of what they call,
`Dirs`, as those of `at.c` are.

What `_readdir_stub` returns is a static variable, and the type of the entry is
read from a variable on the stack.  Both are handed to the function with what
they held before.  `fstatat` and `lseek` are called inside `assert`, so a build
with `NDEBUG` calls neither.
-/
import LibcCompat.Libbsd.Str
import LibcCompat.Winsup.At

namespace LibcCompat.Winsup

open LibcCompat.Lib LibcCompat.Libbsd

variable {σ : Type}

/-- The address of a directory stream, a `DIR *`. -/
abbrev DirPtr := Nat

def DT_UNKNOWN : UInt8 := 0
def DT_REG : UInt8 := 1
def DT_LNK : UInt8 := 2
def DT_DIR : UInt8 := 3
def DT_FIFO : UInt8 := 4
def DT_SOCK : UInt8 := 5
def DT_BLK : UInt8 := 6
def DT_CHR : UInt8 := 7

/-- The size of `d_name`. -/
def FILENAME_MAX : Nat := 260

/-- `struct dirent` of the C runtime, and the string its `d_name` holds. -/
structure Dirent where
  ino : Int
  reclen : UInt16
  namlen : UInt16
  name : Vector UInt8 FILENAME_MAX
  text : Path
  holds : HoldsString name.toList text

/-- An entry with a name of its own. -/
def Dirent.named (text : Path) (hlen : text.length < FILENAME_MAX) (hnonzero : 0 ∉ text) :
    Dirent where
  ino := 0
  reclen := 0
  namlen := UInt16.ofNat text.length
  name := ⟨(text ++ List.replicate (FILENAME_MAX - text.length) 0).toArray, by
    simp only [List.size_toArray, List.length_append, List.length_replicate]
    omega⟩
  text := text
  holds := by
    refine ⟨?_, hnonzero⟩
    obtain ⟨n, hn⟩ : ∃ n, FILENAME_MAX - text.length = n + 1 :=
      ⟨FILENAME_MAX - text.length - 1, by omega⟩
    show text ++ [0] <+: text ++ List.replicate (FILENAME_MAX - text.length) 0
    rw [hn, List.replicate_succ]
    exact List.prefix_append_right_inj text |>.mpr ⟨List.replicate n 0, rfl⟩

/-- `struct _dirent_stub`. -/
structure DirentStub where
  ino : Int
  type : UInt8
  reclen : UInt16
  namlen : UInt16
  name : Vector UInt8 FILENAME_MAX

/-- `_DIR_stub`. -/
structure DirStub where
  dirp : Option DirPtr
  fd : Fd
deriving DecidableEq, Repr

inductive Whence where
  | set
  | cur
deriving DecidableEq, Repr

/-- The functions `dirent.c` is built on. -/
structure Dirs (σ : Type) where
  malloc : Prog σ Bool
  opendir : Path → Prog σ (Option DirPtr)
  readdir : DirPtr → Prog σ (Option Dirent)
  rewinddir : DirPtr → Prog σ PUnit
  telldir : DirPtr → Prog σ Int
  seekdir : DirPtr → Int → Prog σ PUnit
  lseek : Fd → Int → Whence → Prog σ Int
  fstatat : Fd → Path → UInt32 → Prog σ Answer
  setErrno : Errno → σ → σ

/-- The functions that acquire and release what a stub directory has. -/
structure Fds (σ : Type) where
  openFd : Path → UInt32 → Prog σ (Option Fd)
  close : Fd → Prog σ PUnit
  closedir : DirPtr → Prog σ PUnit

/-- MinGW has no such flag. -/
def O_PATH : UInt32 := 0

/-- The type constant of a mode. -/
def typeOf (mode : ModeT) : UInt8 :=
  if mode &&& S_IFMT = S_IFREG then DT_REG
  else if isLnk mode then DT_LNK
  else if isDir mode then DT_DIR
  else if mode &&& S_IFMT = S_IFIFO then DT_FIFO
  else if mode &&& S_IFMT = S_IFSOCK then DT_SOCK
  else if mode &&& S_IFMT = S_IFBLK then DT_BLK
  else if mode &&& S_IFMT = S_IFCHR then DT_CHR
  else DT_UNKNOWN

/-- `assert(!(fstatat(fd, d_name, &buf, AT_SYMLINK_NOFOLLOW) < 0))`: what `buf`
holds afterwards. -/
def assertStat (D : Dirs σ) (b : Build) (fd : Fd) (d : Dirent) (buf : Stat) : Prog σ Stat :=
  match b with
  | .debug => do
      let answer ← D.fstatat fd d.text AT_SYMLINK_NOFOLLOW
      if answer.ret < 0 then throw .aborted
      else return answer.stat
  | .ndebug => return buf

/-- `assert(!lseek(fd, offset, whence))`. -/
def assertLseek (D : Dirs σ) (b : Build) (fd : Fd) (offset : Int) (whence : Whence) :
    Prog σ PUnit :=
  match b with
  | .debug => do
      let res ← D.lseek fd offset whence
      if res = 0 then return ⟨⟩
      else throw .aborted
  | .ndebug => return ⟨⟩

/-- The part of `_readdir_stub` that clones an entry of type `type`. -/
def cloneEntry (res : DirentStub) (d : Dirent) (type : UInt8) : Option DirentStub := do
  let (name, len) ← strlcpy res.name d.name.toList (min FILENAME_MAX d.namlen.toNat)
  return { ino := d.ino, type, reclen := d.reclen, namlen := UInt16.ofNat len, name }

/-- `_readdir_stub`, with what the static `res` and the local `buf` held before. -/
def readdirStub (D : Dirs σ) (b : Build) (res : DirentStub) (buf : Stat)
    (dirp : Option DirStub) : Prog σ (Option DirentStub) := do
  match dirp with
  | some ⟨some stream, fd⟩ =>
      if fd < 0 then
        modify (D.setErrno .EBADF)
        return none
      else
        match ← D.readdir stream with
        | none => return none
        | some d =>
            let buf ← assertStat D b fd d buf
            match cloneEntry res d (typeOf buf.mode) with
            | none => throw .undefined
            | some res =>
                assertLseek D b fd 1 .cur
                return some res
  | _ =>
      modify (D.setErrno .EBADF)
      return none

/-- Move the stream, if there is one, and the descriptor, if there is one. -/
def moveBoth (D : Dirs σ) (b : Build) (dirp : Option DirStub) (move : DirPtr → Prog σ PUnit)
    (loc : Int) : Prog σ PUnit := do
  match dirp with
  | none => return ⟨⟩
  | some ⟨dirp, fd⟩ =>
      match dirp with
      | none => pure ⟨⟩
      | some stream => move stream
      if fd < 0 then return ⟨⟩
      else assertLseek D b fd loc .set

/-- `_rewinddir_stub`. -/
def rewinddirStub (D : Dirs σ) (b : Build) (dirp : Option DirStub) : Prog σ PUnit :=
  moveBoth D b dirp D.rewinddir 0

/-- `_telldir_stub`. -/
def telldirStub (D : Dirs σ) (dirp : Option DirStub) : Prog σ Int := do
  match dirp with
  | some ⟨some stream, _⟩ => D.telldir stream
  | _ =>
      modify (D.setErrno .EBADF)
      return -1

/-- `_seekdir_stub`. -/
def seekdirStub (D : Dirs σ) (b : Build) (dirp : Option DirStub) (loc : Int) : Prog σ PUnit :=
  moveBoth D b dirp (D.seekdir · loc) loc

/-- `_opendir_stub`; the label `error` closes the descriptor. -/
def opendirStub (F : Fds σ) (D : Dirs σ) (path : Path) : Prog σ (Option DirStub) := do
  match ← F.openFd path O_PATH with
  | none => return none
  | some fd =>
      if ← D.malloc then
        match ← D.opendir path with
        | none =>
            F.close fd
            return none
        | some stream => return some ⟨some stream, fd⟩
      else
        F.close fd
        return none

/-- `_closedir_stub`. -/
def closedirStub (F : Fds σ) (D : Dirs σ) (dirp : Option DirStub) : Prog σ Int := do
  match dirp with
  | none =>
      modify (D.setErrno .EBADF)
      return -1
  | some ⟨dirp, fd⟩ =>
      match dirp with
      | none => pure ⟨⟩
      | some stream => F.closedir stream
      if fd < 0 then pure ⟨⟩
      else F.close fd
      return 0

/-- `fdopendir`; what it fails with is in `errno`. -/
def fdopendir (S : Sys σ) (D : Dirs σ) (fd : Fd) : Prog σ (Option DirStub) := do
  if ← isDirfd S fd then
    match ← S.fdGetPath fd with
    | none =>
        modify S.setErrnoViaWinerr
        return none
    | some path =>
        if ← D.malloc then
          match ← D.opendir path with
          | none => return none
          | some stream => return some ⟨some stream, fd⟩
        else
          return none
  else
    return none

/-! ## On an open stub directory -/

section
variable {D : Dirs σ} {b : Build} {stream : DirPtr} {fd : Fd}

theorem moveBoth_open (hfd : 0 ≤ fd) (move : DirPtr → Prog σ PUnit) (loc : Int) :
    moveBoth D b (some ⟨some stream, fd⟩) move loc =
      (do move stream; assertLseek D b fd loc .set) := by
  simp only [moveBoth, if_neg (Int.not_lt.mpr hfd)]

/-- The assert takes an offset for a result. -/
theorem assertLseek_debug {s t : σ} {offset res : Int} {whence : Whence}
    (h : D.lseek fd offset whence s = .ok res t) :
    assertLseek D .debug fd offset whence s = if res = 0 then .ok ⟨⟩ t else .error .aborted t := by
  simp only [assertLseek, bind_apply, h]
  split
  · rfl
  · rfl

theorem assertStat_debug {s t : σ} {d : Dirent} {buf : Stat} {answer : Answer}
    (h : D.fstatat fd d.text AT_SYMLINK_NOFOLLOW s = .ok answer t) :
    assertStat D .debug fd d buf s =
      if answer.ret < 0 then .error .aborted t else .ok answer.stat t := by
  simp only [assertStat, bind_apply, h]
  split
  · rfl
  · rfl

theorem readdirStub_none {res : DirentStub} {buf : Stat} {s t : σ} (hfd : 0 ≤ fd)
    (h : D.readdir stream s = .ok none t) :
    readdirStub D b res buf (some ⟨some stream, fd⟩) s = .ok none t := by
  simp only [readdirStub, if_neg (Int.not_lt.mpr hfd), bind_apply, h, pure_apply]

/-- An entry is read: its type, its clone, and the offset, in that order. -/
theorem readdirStub_some {res : DirentStub} {buf : Stat} {s t : σ} {d : Dirent} (hfd : 0 ≤ fd)
    (h : D.readdir stream s = .ok (some d) t) :
    readdirStub D b res buf (some ⟨some stream, fd⟩) s = (do
      let buf ← assertStat D b fd d buf
      match cloneEntry res d (typeOf buf.mode) with
      | none => throw .undefined
      | some res =>
          assertLseek D b fd 1 .cur
          return some res : Prog σ (Option DirentStub)) t := by
  simp only [readdirStub, if_neg (Int.not_lt.mpr hfd), bind_apply, h]

end

/-! ## The clone of an entry -/

/-- An entry can always be cloned; the name is cut where `d_namlen` says, as if
that counted the terminator. -/
theorem cloneEntry_eq (res : DirentStub) (d : Dirent) (type : UInt8) :
    ∃ name, cloneEntry res d type = some
        { ino := d.ino, type, reclen := d.reclen, namlen := UInt16.ofNat d.text.length, name } ∧
      (d.namlen ≠ 0 → HoldsString name.toList
        (d.text.take (min FILENAME_MAX d.namlen.toNat - 1))) := by
  rcases Nat.eq_zero_or_pos d.namlen.toNat with hzero | hpos
  · refine ⟨res.name, ?_, fun hne => absurd (UInt16.toNat_inj.mp hzero) hne⟩
    simp only [cloneEntry, hzero, Nat.min_zero, strlcpy_zero d.holds, Option.bind_eq_bind,
      Option.bind_some]
    rfl
  · obtain ⟨n, hn⟩ : ∃ n, min FILENAME_MAX d.namlen.toNat = n + 1 :=
      ⟨min FILENAME_MAX d.namlen.toNat - 1, by simp only [FILENAME_MAX]; omega⟩
    obtain ⟨name, hcopy, hset⟩ :=
      strlcpy_succ d.holds res.name (n := n) (by omega)
    refine ⟨name, ?_, fun _ => ?_⟩
    · simp only [cloneEntry, hn, hcopy, Option.bind_eq_bind, Option.bind_some]
      rfl
    · rw [hn]
      exact hset

end LibcCompat.Winsup
