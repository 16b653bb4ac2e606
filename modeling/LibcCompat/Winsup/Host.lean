/-
# `LibcCompat.Winsup.Host` — the process with its files and streams

What `open.c`, `file.c` and `dirent.c` acquire is more than the two tables of
`Win`: streams and directory streams, and an entry of the cache of `fd.c` for
each descriptor.  `Host` has them all.  Two lists say what happened on the way:
which files were opened, and what was released.

`Outside` is `Env` with what these files ask of the platform besides.
-/
import LibcCompat.Lib.Zoom
import LibcCompat.Winsup.Dirent
import LibcCompat.Winsup.FdCache
import LibcCompat.Winsup.Tables

namespace LibcCompat.Winsup

open LibcCompat.Lib

/-- The address of a stream, a `FILE *`. -/
abbrev FilePtr := Nat

def EMFILE : Errno := .other 24

/-- A call that releases something. -/
inductive Release where
  | close (fd : Fd)
  | closedir (dirp : DirPtr)
deriving DecidableEq, Repr

structure Host where
  win : Win
  /-- `fd_cache` and `fd_cache_max_size`. -/
  cache : FdCache.Cache
  /-- The open streams, with their descriptors. -/
  streams : FilePtr → Option Fd
  /-- The open directory streams, with the paths they were opened by. -/
  dirs : DirPtr → Option Path
  /-- The files that were opened, with the flags: some create or truncate. -/
  opened : List (Path × UInt32)
  released : List Release

structure Outside extends Env where
  runtime : FdCache.Crt
  /-- The object a path leads to, if links are followed. -/
  target : Nat → Path → Option Object
  /-- What `__real_open` finds or creates, or what it fails with. -/
  realOpen : Nat → Path → UInt32 → Option ModeT → Except Errno Object
  /-- What `__real_fdopen` hands out, or fails with. -/
  realFdopen : Nat → Fd → List UInt8 → Except Errno FilePtr
  opendir : Nat → Path → Except Errno DirPtr

/-- The part of the process that the path functions know. -/
def Host.onWin : Lens Host Win where
  get := Host.win
  set win s := { s with win }
  get_set _ _ := rfl
  set_get _ := rfl
  set_set _ _ _ := rfl

/-- The descriptors and handles, and the open directory streams. -/
def Host.tables (s : Host) : Tables × (DirPtr → Option Path) := (s.win.tables, s.dirs)

/-- A platform call is made. -/
def Host.called (s : Host) : Host := { s with win := { s.win with calls := s.win.calls + 1 } }

/-- And fails. -/
def Host.failed (s : Host) (e : Errno) : Host :=
  { s with win := { s.win with calls := s.win.calls + 1, errno := e } }

variable (O : Outside)

/-- `__real_open`. -/
def realOpen (path : Path) (oflag : UInt32) (mode : Option ModeT) :
    Prog Host (Option Fd) := fun s =>
  match O.realOpen s.win.calls path oflag mode with
  | .error e => .ok none (s.failed e)
  | .ok o =>
      let h := O.newHandle s.win.calls
      match freeFd O.toEnv s.win, s.win.handles h with
      | some fd, none =>
          .ok (some fd) { s.called with
            win := { s.called.win with
              crt := Function.update s.win.crt fd (some h)
              handles := Function.update s.win.handles h (some o) }
            opened := s.opened ++ [(path, oflag)] }
      | _, _ => .ok none (s.failed EMFILE)

/-- `__real_fdopen`.  A stream in use is not handed out. -/
def realFdopen (fd : Fd) (mode : List UInt8) : Prog Host (Option FilePtr) := fun s =>
  match O.realFdopen s.win.calls fd mode with
  | .error e => .ok none (s.failed e)
  | .ok fp =>
      match s.streams fp with
      | some _ => .ok none (s.failed .ENOMEM)
      | none => .ok (some fp) { s.called with streams := Function.update s.streams fp (some fd) }

/-- `opendir` of the C runtime. -/
def opendir (path : Path) : Prog Host (Option DirPtr) := fun s =>
  match O.opendir s.win.calls path with
  | .error e => .ok none (s.failed e)
  | .ok p =>
      match s.dirs p with
      | some _ => .ok none (s.failed .ENOMEM)
      | none => .ok (some p) { s.called with dirs := Function.update s.dirs p (some path) }

/-- `closedir` of the C runtime; a stream that is not open is undefined. -/
def closedir (dirp : DirPtr) : Prog Host PUnit := fun s =>
  match s.dirs dirp with
  | none => .error .undefined s
  | some _ =>
      .ok ⟨⟩ { s with
        dirs := Function.update s.dirs dirp none
        released := s.released ++ [.closedir dirp] }

/-- `close`. -/
def closeFd (fd : Fd) : Prog Host PUnit := do
  modify fun s => { s with released := s.released ++ [.close fd] }
  zoom Host.onWin (close fd)

end LibcCompat.Winsup
