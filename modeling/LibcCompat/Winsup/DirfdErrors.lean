/-
# `LibcCompat.Winsup.DirfdErrors` — how a bad directory descriptor is reported

A name relative to a descriptor needs the path of the directory.  Its
examination can fail at any step (`Failure`): the descriptor is not open, or no
directory; Windows refuses what `fstat` asks or the path; an allocation fails; the
joined path is too long.  `nameFailure` says which step it is, from the state and
what the outside does, and `Failure.errno` what `errno` ought to be.

The code merges three sources of errors.  `__is_dirfd` overwrites what `fstat`
set, and after a failed `malloc` the last error is translated, which is that of an
earlier call.  What is proved (`dirfd_tells_iff`), for each function that examines
a directory: `errno` tells the failure exactly if it is one the code tells
(`Failure.toldFrom`), and no other path is read than that of the directory, or
none that makes a difference.
-/
import LibcCompat.Winsup.Dirent
import LibcCompat.Winsup.Errno
import LibcCompat.Winsup.LstatReadlink
import LibcCompat.Winsup.Resolve

namespace LibcCompat.Winsup

open LibcCompat.Lib

/-! ## The steps and what they should report -/

/-- A directory, and not a link to one. -/
def Object.isDirectory (o : Object) : Bool :=
  o.type == .disk && !o.isReparse && o.attributes &&& FILE_ATTRIBUTE_DIRECTORY != 0

/-- The object a descriptor is bound to. -/
def Win.objectOf (s : Win) (fd : Fd) : Option Object := (s.crt fd).bind s.handles

/-- The step of the examination that fails. -/
inductive Failure where
  | notOpen
  | notDirectory
  /-- What `fstat` asks about an open directory. -/
  | fstat (e : WinErr)
  /-- The allocation in `__fd_get_path`. -/
  | pathMemory
  /-- `GetFinalPathNameByHandle`. -/
  | finalPath (e : WinErr)
  | tooLong
  /-- The allocation in `__get_path_at`. -/
  | joinMemory
deriving DecidableEq, Repr

variable (E : Env)

def Failure.errno : Failure → Errno
  | .notOpen => .EBADF
  | .notDirectory => .ENOTDIR
  | .fstat e => E.errnoOf e
  | .pathMemory => .ENOMEM
  | .finalPath e => E.errnoOf e
  | .tooLong => .ENAMETOOLONG
  | .joinMemory => .ENOMEM

/-- `errno` tells the failure. -/
structure Failure.ToldBy (f : Failure) (errno : Errno) : Prop where
  cause : errno = f.errno E
  nonzero : errno ≠ .other 0
  notDirectory_iff : errno = .ENOTDIR ↔ f = .notDirectory

/-- The step that fails on the way to the path of an open directory; `n` counts
the calls before it. -/
def pathFailure (o : Object) (n : Nat) : Option Failure :=
  (E.fails n).map .fstat <|>
  (E.fails (typeQuery E n)).map .fstat <|>
  (E.fails (typeQuery E n + 1)).map (fun _ => .pathMemory) <|>
  (E.fails (typeQuery E n + 2)).map .finalPath <|>
  if o.finalPath = [] then some (.finalPath ERROR_PATH_NOT_FOUND) else none

/-- The step that fails on the way to the path of the directory. -/
def dirFailure (fd : Fd) (s : Win) : Option Failure :=
  if (s.crt fd).isNone then some .notOpen
  else
    match s.objectOf fd with
    | none => some .notDirectory
    | some o => if o.isDirectory then pathFailure E o s.calls else some .notDirectory

/-- The step that fails once the path of the directory is there. -/
def joinFailure (mallocOk : Bool) (name parent : Path) : Option Failure :=
  if PATH_MAX < parent.length + 1 + name.length then some .tooLong
  else if mallocOk then none
  else some .joinMemory

/-- The step that fails when a name is resolved. -/
def nameFailure (mallocOk : Bool) (dirfd : Fd) (name : Path) (s : Win) : Option Failure :=
  dirFailure E dirfd s <|>
  (s.objectOf dirfd).bind fun o => joinFailure mallocOk name (stripPrefix o.finalPath)

/-- The last error that is there when `__fd_get_path` is asked for the second
time; `before` is the one at the start. -/
def staleError (fd : Fd) (s : Win) (before : WinErr) : WinErr :=
  (s.objectOf fd).elim before fun o => pathError E o (s.calls + 1) before

/-- Whether the code tells a failure.  It makes `ENOTDIR` of whatever `fstat`
fails with, and translates the last error after a failed `malloc`, which sets
none. -/
def Failure.toldFrom (stale : WinErr) : Failure → Prop
  | .notOpen => False
  | .notDirectory => True
  | .fstat _ => False
  | .pathMemory => E.errnoOf stale = .ENOMEM
  | .finalPath e => e ≠ NO_ERROR ∧ E.errnoOf e ≠ .ENOTDIR
  | .tooLong => True
  | .joinMemory => True

/-- What `__fd_get_path` finds in its buffer after `n` calls, if it ends there:
where the path is too long the buffer was not filled. -/
def readPath (o : Object) (n : Nat) : Option Path :=
  if o.finalPath.length < PATH_MAX then some (stripPrefix o.finalPath)
  else (E.uninit n).map stripPrefix

/-- What the examination reads as the path of an open directory, if neither
`fstat` stops on the way nor `__fd_get_path`. -/
def pathRead (o : Object) (n : Nat) : Option Path :=
  if stops E o n then none else readPath E o (typeQuery E n + 3)

/-- A call tells the failure of the examination `exam` it makes in state `s`: it
returns `failedWith` then and there, and `errno` is right whatever the last error
was before.  Where no step fails it does not say that one has. -/
def Tells {α : Type} (failure : Option Failure) (exam : Prog Win (Option Path)) (s : Win)
    (run : EStateM.Result Stop Win α) (failedWith : α) : Prop :=
  match failure with
  | some f => ∃ t, exam s = .ok none t ∧ run = .ok failedWith t ∧
      ∀ before u, exam { s with lastError := before } = .ok none u → f.ToldBy E u.errno
  | none => ∀ t, exam s ≠ .ok none t

/-- If a step fails before the path of the directory is there, then `fstat` comes
back, and the code tells the failure. -/
def DirTold (b : Build) (fd : Fd) (s : Win) : Prop :=
  ∀ f, dirFailure E fd s = some f →
    (PathOp.fstat fd).returns E b s = true ∧ ∀ before, f.toldFrom E (staleError E fd s before)

/-- And with the path that is read, the same step fails as with that of the
directory, or none. -/
def NameTold (b : Build) (mallocOk : Bool) (dirfd : Fd) (name : Path) (s : Win) : Prop :=
  DirTold E b dirfd s ∧
    (dirFailure E dirfd s = none → ∀ o, s.objectOf dirfd = some o →
      (pathRead E o s.calls).bind (joinFailure mallocOk name) =
        joinFailure mallocOk name (stripPrefix o.finalPath))

variable {σ : Type}

/-! ## The path of a directory

What `__get_path_at` and `fdopendir` begin with. -/

def dirPath (S : Sys σ) (fd : Fd) : Prog σ (Option Path) := do
  if ← isDirfd S fd then
    match ← S.fdGetPath fd with
    | none =>
        modify S.setErrnoViaWinerr
        return none
    | some path => return some path
  else
    return none

section
variable {S : Sys σ} {fd : Fd} {s t : σ}

theorem fdopendir_none (D : Dirs σ) (h : dirPath S fd s = .ok none t) :
    fdopendir S D fd s = .ok none t := by
  obtain ⟨ok, u, hdir, hrest⟩ := bind_ok h
  simp only [fdopendir, bind_apply, hdir]
  cases ok with
  | false =>
      cases hrest
      rfl
  | true =>
      obtain ⟨path, v, hpath, hrest⟩ := bind_ok hrest
      simp only [if_true, bind_apply, hpath]
      cases path with
      | none =>
          cases hrest
          rfl
      | some path => cases hrest

/-- `__get_path_at`, once the path of the directory is there. -/
def joinPath (S : Sys σ) (mallocOk : Bool) (name parent : Path) : Prog σ (Option Path) := do
  if parent.length + 1 + name.length > PATH_MAX then
    modify (S.setErrno .ENAMETOOLONG)
    return none
  else if mallocOk then
    return some (snprintfPath (PATH_MAX + 1) parent name)
  else
    modify (S.setErrno .ENOMEM)
    return none

theorem getPathAt_dirPath (S : Sys σ) (mallocOk : Bool) (dirfd : Fd) (name : Path) :
    getPathAt S mallocOk dirfd name =
      dirPath S dirfd >>= fun r => r.elim (pure none) (joinPath S mallocOk name) := by
  funext s
  simp only [getPathAt, dirPath, bind_apply]
  cases isDirfd S dirfd s with
  | error e t => rfl
  | ok ok t =>
      cases ok with
      | false => rfl
      | true =>
          simp only [if_true, bind_apply]
          cases S.fdGetPath dirfd t with
          | error e u => rfl
          | ok path u =>
              cases path with
              | none => rfl
              | some path => rfl

/-- A call that resolves one name against a descriptor, or two, begins to examine
the descriptor in a state; with it go the allocator and the name. -/
inductive Examines (S : Sys σ) (b : Build) (m₁ m₂ : Heap) (s : σ) :
    Asked → Bool → Fd → Path → σ → Prop
  | one {dirfd : Fd} {name : Path} {callee : Path → PathCall}
      (hrelative : S.pathIsRelative name = true) :
      Examines S b m₁ m₂ s (.one dirfd name callee) m₁.malloc dirfd name s
  | first {dirfd1 dirfd2 : Fd} {name1 name2 : Path} {callee : Path → Path → PathCall}
      (hrelative : S.pathIsRelative name1 = true) :
      Examines S b m₁ m₂ s (.two dirfd1 name1 dirfd2 name2 callee) m₁.malloc dirfd1 name1 s
  | second {dirfd1 dirfd2 : Fd} {name1 name2 path1 : Path} {callee : Path → Path → PathCall}
      {t : σ} (hrelative1 : S.pathIsRelative name1 = true)
      (hfirst : getPathAt S m₁.malloc dirfd1 name1 s = .ok (some path1) t)
      (hrelative : S.pathIsRelative name2 = true) :
      Examines S b m₁ m₂ s (.two dirfd1 name1 dirfd2 name2 callee) m₂.malloc dirfd2 name2 t
  | onlySecond {dirfd1 dirfd2 : Fd} {name1 name2 : Path} {path1 : Option Path}
      {callee : Path → Path → PathCall} {t : σ} (habsolute1 : S.pathIsRelative name1 = false)
      (hfirst : dupFirst b m₁ name1 s = .ok path1 t) (hrelative : S.pathIsRelative name2 = true) :
      Examines S b m₁ m₂ s (.two dirfd1 name1 dirfd2 name2 callee) m₂.malloc dirfd2 name2 t

theorem resolveThen_none {m : Heap} {name : Path} {callee : Path → PathCall}
    (hrelative : S.pathIsRelative name = true)
    (h : getPathAt S m.malloc fd name s = .ok none t) :
    resolveThen S m fd name callee s = .ok failed t := by
  rw [resolveThen, if_pos hrelative, bind_apply, h]
  rfl

theorem resolveSecondThen_none {b : Build} {m : Heap} {name : Path} {callee : Path → PathCall}
    (hrelative : S.pathIsRelative name = true)
    (h : getPathAt S m.malloc fd name s = .ok none t) :
    resolveSecondThen S b m fd name callee s = .ok failed t := by
  rw [resolveSecondThen, if_pos hrelative, bind_apply, h]
  rfl

variable {b : Build} {m₁ m₂ : Heap} {mallocOk : Bool} {dirfd : Fd} {name : Path} {s' : σ}

theorem resolveBothThen_none {dirfd1 dirfd2 : Fd} {name1 name2 : Path}
    {callee : Path → Path → PathCall} {callee' : Option Path → Path → PathCall}
    (hexamines : Examines S b m₁ m₂ s (.two dirfd1 name1 dirfd2 name2 callee) mallocOk dirfd
      name s')
    (h : getPathAt S mallocOk dirfd name s' = .ok none t) :
    resolveBothThen S b m₁ m₂ dirfd1 name1 dirfd2 name2 callee' s = .ok failed t := by
  cases hexamines with
  | first hrelative =>
      rw [resolveBothThen, if_pos hrelative, bind_apply, h]
      rfl
  | second hrelative1 hfirst hrelative =>
      rw [resolveBothThen, if_pos hrelative1, bind_apply, hfirst]
      exact resolveSecondThen_none hrelative h
  | onlySecond habsolute1 hfirst hrelative =>
      rw [resolveBothThen, if_neg (Bool.eq_false_iff.mp habsolute1), bind_apply, hfirst]
      exact resolveSecondThen_none hrelative h

theorem run_flagged {c c' : Prop} [Decidable c] [Decidable c'] {x y z : Prog σ Answer}
    {fd' : Fd} {path : Path} {callee callee' : Path → PathCall}
    (hexamines : Examines S b m₁ m₂ s
      (if c then .one fd' path callee else if c' then .one fd' path callee' else .rejected)
      mallocOk dirfd name s')
    (h : getPathAt S mallocOk dirfd name s' = .ok none t)
    (hx : S.pathIsRelative path = true → getPathAt S m₁.malloc fd' path s = .ok none t →
      x s = .ok failed t)
    (hy : S.pathIsRelative path = true → getPathAt S m₁.malloc fd' path s = .ok none t →
      y s = .ok failed t) :
    (if c then x else if c' then y else z) s = .ok failed t := by
  split at hexamines
  · next hc =>
      rw [if_pos hc]
      cases hexamines with
      | one hrelative => exact hx hrelative h
  · next hc =>
      rw [if_neg hc]
      split at hexamines
      · next hc' =>
          rw [if_pos hc']
          cases hexamines with
          | one hrelative => exact hy hrelative h
      · cases hexamines

theorem examined_none {c : AtCall}
    (hexamines : Examines S b m₁ m₂ s c.asked mallocOk dirfd name s')
    (h : getPathAt S mallocOk dirfd name s' = .ok none t) :
    c.run S b m₁ m₂ s = .ok failed t := by
  cases c with
  | readlinkat dirfd' path len =>
      cases hexamines with
      | one hrelative =>
          rw [AtCall.run, readlinkat]
          exact resolveThen_none hrelative h
  | symlinkat oldpath newdirfd newpath =>
      cases hexamines with
      | one hrelative => exact resolveThen_none hrelative h
  | linkat dirfd1 path1 dirfd2 path2 flags => exact resolveBothThen_none hexamines h
  | unlinkat dirfd' pathname flags =>
      exact run_flagged hexamines h resolveThen_none resolveThen_none
  | openat dirfd' pathname flags mode =>
      cases hexamines with
      | one hrelative =>
          rw [AtCall.run, openat, if_pos hrelative, bind_apply, h]
          rfl
  | faccessat dirfd' path mode flags =>
      refine run_flagged hexamines h (fun hrelative h => ?_) resolveThen_none
      rw [bind_apply, fstatat, if_pos rfl, resolveThen_none hrelative h]
      rfl
  | fstatat dirfd' pathname flags =>
      exact run_flagged hexamines h resolveThen_none resolveThen_none
  | mkdirat dirfd' pathname mode =>
      cases hexamines with
      | one hrelative =>
          rw [AtCall.run, mkdirat]
          exact resolveThen_none hrelative h
  | renameat olddirfd oldpath newdirfd newpath => exact resolveBothThen_none hexamines h

end

variable {E}

/-! ## What `fstat` makes of a directory -/

theorem isDir_writable (mode : ModeT) (o : Object) : isDir (mode ||| writable o) = isDir mode := by
  rw [isDir, isDir, fileType_writable]

theorem isDir_diskMode (o : Object) (path : Option Path) :
    isDir (S_IRUSR ||| S_IRGRP ||| S_IROTH ||| diskMode o path) =
      (!o.isReparse && o.attributes &&& FILE_ATTRIBUTE_DIRECTORY != 0) := by
  rw [diskMode]
  cases o.isReparse with
  | true =>
      rw [if_pos rfl, Bool.not_true, Bool.false_and]
      decide
  | false =>
      rw [if_neg Bool.false_ne_true]
      cases o.attributes &&& FILE_ATTRIBUTE_DIRECTORY != 0 with
      | true =>
          rw [if_pos rfl]
          decide
      | false =>
          rw [if_neg Bool.false_ne_true]
          split
          · decide
          · decide

theorem isDir_statOf (fd : Fd) (o : Object) (path : Option Path) :
    isDir (statOf fd o o.type path).mode = o.isDirectory := by
  rw [Object.isDirectory]
  cases o.type with
  | unknown => exact (by decide : isDir 0 = false)
  | char =>
      rw [statOf, isDir_writable]
      rfl
  | pipe =>
      rw [statOf, isDir_writable]
      rfl
  | disk =>
      rw [statOf, isDir_writable, isDir_diskMode]
      rfl

theorem isDir_size (st : Stat) (size : Int) (mode : Bool)
    (h : isDir st.mode = mode) :
    isDir ({ ret := 0, stat := { st with size } } : Answer).stat.mode = mode := h

section
variable {b : Build} {fd : Fd} {h : Handle} {o : Object} {s t : Win} {a : Answer}

theorem objectOf_eq_some :
    s.objectOf fd = some o ↔ ∃ h, s.crt fd = some h ∧ s.handles h = some o :=
  Option.bind_eq_some_iff

theorem objectOf_tables (htables : t.tables = s.tables) (fd : Fd) :
    t.objectOf fd = s.objectOf fd := by
  have hcrt : t.crt = s.crt := congrArg Tables.crt htables
  have hhandles : t.handles = s.handles := congrArg Tables.handles htables
  rw [Win.objectOf, hcrt, hhandles, Win.objectOf]

theorem fstat64_directory (hobject : s.objectOf fd = some o) (hdir : o.isDirectory = true)
    (hstops : stops E o s.calls = false) :
    (queriesFail E s.calls = true ∧ ∃ t, fstat64 E b fd s = .ok failed t) ∨
    (queriesFail E s.calls = false ∧ ∃ a t, fstat64 E b fd s = .ok a t ∧ a.ret = 0 ∧
      isDir a.stat.mode = true ∧ t.objectOf fd = some o ∧
      t.lastError = pathError E o (s.calls + 1) s.lastError ∧
      t.calls = typeQuery E s.calls + 1) := by
  obtain ⟨h, hfd, hopen⟩ := objectOf_eq_some.mp hobject
  cases hfail : queriesFail E s.calls with
  | true => exact .inl ⟨rfl, fstat64_fails hfd hopen hstops hfail⟩
  | false =>
      have hdisk := hdir
      simp only [Object.isDirectory, Bool.and_eq_true, beq_iff_eq, Bool.not_eq_true'] at hdisk
      have htype : o.type ≠ .unknown := by
        rw [hdisk.1.1]
        decide
      have hnone : ¬ (queriesFail E s.calls = true ∨ o.type = .unknown) :=
        not_or.mpr ⟨Bool.eq_false_iff.mp hfail, htype⟩
      obtain ⟨path, t, hexamine, hleft⟩ := examine_returns hfd hopen hstops
      have hkept : t.objectOf fd = some o :=
        (objectOf_tables (examine_keeps fd s _ t hexamine) fd).trans hobject
      rw [if_neg hnone] at hexamine
      exact .inr ⟨rfl, _, t, fstat64_plain hexamine hdisk.1.2, rfl,
        isDir_size _ _ _ ((isDir_statOf fd o path).trans hdir), hkept, hleft hfail htype⟩

theorem query_none (hclosed : s.handles h = none) : ∃ t, query E h s = .ok none t := by
  cases hfail : E.fails s.calls with
  | some e => exact ⟨_, query_fails hfail⟩
  | none =>
      simp only [query, attempt, hfail, hclosed]
      exact ⟨_, rfl⟩

theorem examine_some {type : FileType} {path : Option Path}
    (hexamine : examine E fd s = .ok (some (o, type, path)) t) :
    s.objectOf fd = some o ∧ type = o.type := by
  cases hfd : s.crt fd with
  | none =>
      rw [examine, bind_apply, getOsfhandle, hfd] at hexamine
      cases hexamine
  | some h =>
      cases hopen : s.handles h with
      | none =>
          obtain ⟨u, hquery⟩ := query_none (E := E) hopen
          simp only [examine, getFileInformationByHandle, bind_apply, getOsfhandle_eq hfd,
            hquery] at hexamine
          cases hexamine
      | some o' =>
          cases hstops : stops E o' s.calls with
          | true =>
              obtain ⟨u, herror⟩ := examine_stops hfd hopen hstops
              rw [herror] at hexamine
              cases hexamine
          | false =>
              obtain ⟨path', u, hreturns, -⟩ := examine_returns hfd hopen hstops
              rw [hreturns] at hexamine
              split at hexamine
              · cases hexamine
              · cases hexamine
                exact ⟨objectOf_eq_some.mpr ⟨h, hfd, hopen⟩, rfl⟩

/-- What is not an open directory is not reported as one. -/
theorem fstat64_notDirectory (hnot : ∀ o, s.objectOf fd = some o → o.isDirectory = false)
    (hrun : fstat64 E b fd s = .ok a t) : a.ret < 0 ∨ isDir a.stat.mode = false := by
  obtain ⟨found, u, hexamine, hrest⟩ := bind_ok hrun
  cases found with
  | none =>
      cases hrest
      exact .inl (by decide)
  | some found =>
      obtain ⟨o, type, path⟩ := found
      obtain ⟨size, v, hsize, hrest⟩ := bind_ok hrest
      cases hrest
      obtain ⟨hobject, rfl⟩ := examine_some hexamine
      exact .inr (isDir_size _ _ _ ((isDir_statOf fd o path).trans (hnot o hobject)))

/-! ## The examination -/

theorem winSys_fstat (hrun : fstat64 E b fd s = .ok a t) :
    (winSys E b).fstat fd s = .ok (if a.ret < 0 then none else some a.stat) t := by
  show (fstat64 E b fd >>= _) s = _
  rw [bind_apply, hrun]
  rfl

/-- Whatever `fstat` set, `ENOTDIR` is what is left. -/
theorem isDirfd_bad (hrun : fstat64 E b fd s = .ok a t)
    (hbad : a.ret < 0 ∨ isDir a.stat.mode = false) :
    isDirfd (winSys E b) fd s = .ok false { t with errno := .ENOTDIR } := by
  rw [isDirfd, bind_apply, winSys_fstat hrun]
  by_cases hret : a.ret < 0
  · rw [if_pos hret]
    rfl
  · rw [if_neg hret]
    dsimp only
    rw [if_neg (Bool.eq_false_iff.mp (hbad.resolve_left hret))]
    rfl

theorem isDirfd_good (hrun : fstat64 E b fd s = .ok a t) (hret : a.ret = 0)
    (hmode : isDir a.stat.mode = true) : isDirfd (winSys E b) fd s = .ok true t := by
  have hpos : ¬ a.ret < 0 := by
    rw [hret]
    decide
  rw [isDirfd, bind_apply, winSys_fstat hrun, if_neg hpos]
  dsimp only
  rw [if_pos hmode]
  rfl

theorem isDirfd_stops {e : Stop} (hrun : fstat64 E b fd s = .error e t) :
    isDirfd (winSys E b) fd s = .error e t := by
  show ((fstat64 E b fd >>= _) >>= _) s = _
  rw [bind_apply, bind_apply, hrun]

section
variable {e : WinErr}

theorem fdGetPath_noMemory (hfd : s.crt fd = some h) (hfail : E.fails s.calls = some e) :
    fdGetPath E fd s = .ok none { s with errno := .ENOMEM, calls := s.calls + 1 } := by
  simp only [fdGetPath, bind_apply, getOsfhandle_eq hfd, malloc_fails hfail, Bool.false_eq_true,
    if_false, pure_apply]

theorem fdGetPath_refused (hfd : s.crt fd = some h) (hm : E.fails s.calls = none)
    (hfail : E.fails (s.calls + 1) = some e) :
    fdGetPath E fd s = .ok none { s with lastError := e, calls := s.calls + 2 } := by
  have hquery : query E h { s with calls := s.calls + 1 } = _ := query_fails hfail
  simp only [fdGetPath, getFinalPathNameByHandle, bind_apply, getOsfhandle_eq hfd, malloc_ok hm,
    if_true, hquery, pure_apply]

theorem fdGetPath_nameless (hfd : s.crt fd = some h) (hopen : s.handles h = some o)
    (hm : E.fails s.calls = none) (hq : E.fails (s.calls + 1) = none) (hname : o.finalPath = []) :
    fdGetPath E fd s =
      .ok none { s with lastError := ERROR_PATH_NOT_FOUND, calls := s.calls + 2 } := by
  have hquery : query E h { s with calls := s.calls + 1 } = _ := query_ok hopen hq
  simp only [fdGetPath, getFinalPathNameByHandle, bind_apply, getOsfhandle_eq hfd, malloc_ok hm,
    if_true, hquery, hname, failWith, setLastError, modify_apply, pure_apply]

theorem fdGetPath_reads (hfd : s.crt fd = some h) (hopen : s.handles h = some o)
    (hm : E.fails s.calls = none) (hq : E.fails (s.calls + 1) = none) (hname : o.finalPath ≠ []) :
    (∃ path t, fdGetPath E fd s = .ok (some path) t ∧ readPath E o (s.calls + 2) = some path) ∨
    (∃ e t, fdGetPath E fd s = .error e t ∧ readPath E o (s.calls + 2) = none) := by
  have hquery : query E h { s with calls := s.calls + 1 } = _ := query_ok hopen hq
  simp only [fdGetPath, getFinalPathNameByHandle, bind_apply, getOsfhandle_eq hfd, malloc_ok hm,
    if_true, hquery, if_neg hname, readPath]
  by_cases hfits : o.finalPath.length < PATH_MAX
  · rw [if_pos hfits, if_pos hfits]
    exact .inl ⟨_, _, rfl, rfl⟩
  · rw [if_neg hfits, if_neg hfits, bind_apply]
    cases hread : E.uninit (s.calls + 2) with
    | some found =>
        simp only [readUninit, hread]
        exact .inl ⟨_, _, rfl, rfl⟩
    | none =>
        simp only [readUninit, hread]
        exact .inr ⟨_, _, rfl, rfl⟩

end

/-! ### Up to the path of the directory -/

theorem dirPath_bad (hrun : fstat64 E b fd s = .ok a t)
    (hbad : a.ret < 0 ∨ isDir a.stat.mode = false) :
    dirPath (winSys E b) fd s = .ok none { t with errno := .ENOTDIR } := by
  rw [dirPath, bind_apply, isDirfd_bad hrun hbad]
  rfl

theorem dirPath_stops {e : Stop} (hrun : fstat64 E b fd s = .error e t) :
    dirPath (winSys E b) fd s = .error e t := by
  rw [dirPath, bind_apply, isDirfd_stops hrun]

section
variable {u : Win} (hrun : fstat64 E b fd s = .ok a t) (hret : a.ret = 0)
  (hmode : isDir a.stat.mode = true)
include hrun hret hmode

theorem dirPath_none (hpath : fdGetPath E fd t = .ok none u) :
    dirPath (winSys E b) fd s = .ok none { u with errno := E.errnoOf u.lastError } := by
  have hpath' : (winSys E b).fdGetPath fd t = .ok none u := hpath
  rw [dirPath, bind_apply, isDirfd_good hrun hret hmode]
  dsimp only
  rw [if_pos rfl, bind_apply, hpath']
  rfl

theorem dirPath_some {path : Path} (hpath : fdGetPath E fd t = .ok (some path) u) :
    dirPath (winSys E b) fd s = .ok (some path) u := by
  have hpath' : (winSys E b).fdGetPath fd t = .ok (some path) u := hpath
  rw [dirPath, bind_apply, isDirfd_good hrun hret hmode]
  dsimp only
  rw [if_pos rfl, bind_apply, hpath']
  rfl

theorem dirPath_error {e : Stop} (hpath : fdGetPath E fd t = .error e u) :
    dirPath (winSys E b) fd s = .error e u := by
  have hpath' : (winSys E b).fdGetPath fd t = .error e u := hpath
  rw [dirPath, bind_apply, isDirfd_good hrun hret hmode]
  dsimp only
  rw [if_pos rfl, bind_apply, hpath']

end

/-! ### Whether it is told -/

theorem pathFailure_fstat {n : Nat} {f : Failure} (hfails : queriesFail E n = true)
    (hf : pathFailure E o n = some f) : ∃ e, f = .fstat e := by
  rw [queriesFail, Bool.or_eq_true] at hfails
  rw [pathFailure] at hf
  cases hn : E.fails n with
  | some e =>
      rw [hn] at hf
      exact ⟨e, (Option.some_inj.mp hf).symm⟩
  | none =>
      rw [hn] at hfails hf
      obtain ⟨e, he⟩ := Option.isSome_iff_exists.mp (hfails.resolve_left (by decide))
      rw [he] at hf
      exact ⟨e, (Option.some_inj.mp hf).symm⟩

theorem pathFailure_rest {n : Nat} (hfails : queriesFail E n = false) :
    pathFailure E o n =
      ((E.fails (typeQuery E n + 1)).map (fun _ => .pathMemory) <|>
        (E.fails (typeQuery E n + 1 + 1)).map .finalPath <|>
        if o.finalPath = [] then some (.finalPath ERROR_PATH_NOT_FOUND) else none) := by
  rw [queriesFail, Bool.or_eq_false_iff, Option.isSome_eq_false_iff, Option.isSome_eq_false_iff,
    Option.isNone_iff_eq_none, Option.isNone_iff_eq_none] at hfails
  rw [pathFailure, hfails.1, hfails.2]
  rfl

/-- Where the last error is fresh, `errno` is right unless the table takes it for
another failure. -/
theorem toldBy_finalPath {e stale : WinErr}
    (hzero : ∀ e, E.errnoOf e = .other 0 ↔ e = NO_ERROR) :
    (Failure.finalPath e).ToldBy E (E.errnoOf e) ↔ (Failure.finalPath e).toldFrom E stale := by
  constructor
  · intro h
    exact ⟨fun he => h.nonzero ((hzero e).mpr he), fun he => by cases h.notDirectory_iff.mp he⟩
  · rintro ⟨hne, hdir⟩
    exact ⟨rfl, fun he => hne ((hzero e).mp he), iff_of_false hdir nofun⟩

/-- Where it is stale, `errno` is right by chance. -/
theorem toldBy_pathMemory {stale : WinErr} :
    Failure.pathMemory.ToldBy E (E.errnoOf stale) ↔ Failure.pathMemory.toldFrom E stale := by
  constructor
  · exact fun h => h.cause
  · intro h
    refine ⟨h, ?_, ?_⟩
    · rw [h]
      decide
    · rw [h]
      exact iff_of_false (by decide) nofun

theorem openDirectory_blocked {f : Failure}
    (hzero : ∀ e, E.errnoOf e = .other 0 ↔ e = NO_ERROR) (hobject : s.objectOf fd = some o)
    (hdir : o.isDirectory = true) (hstops : stops E o s.calls = false)
    (hf : pathFailure E o s.calls = some f) :
    ∃ t, dirPath (winSys E b) fd s = .ok none t ∧
      (f.ToldBy E t.errno ↔ f.toldFrom E (pathError E o (s.calls + 1) s.lastError)) := by
  rcases fstat64_directory (b := b) hobject hdir hstops with
    ⟨hfails, t, hrun⟩ | ⟨hfails, a, t, hrun, hret, hmode, hkept, herror, hcalls⟩
  · obtain ⟨e, rfl⟩ := pathFailure_fstat hfails hf
    refine ⟨_, dirPath_bad hrun (.inl (by decide)), ?_⟩
    exact iff_of_false (fun h => by cases h.notDirectory_iff.mp rfl) id
  · rw [pathFailure_rest hfails, ← hcalls] at hf
    obtain ⟨h, hfd, hopen⟩ := objectOf_eq_some.mp hkept
    cases hm : E.fails t.calls with
    | some e =>
        rw [hm] at hf
        cases hf
        refine ⟨_, dirPath_none hrun hret hmode (fdGetPath_noMemory hfd hm), ?_⟩
        rw [← herror]
        exact toldBy_pathMemory
    | none =>
        cases hq : E.fails (t.calls + 1) with
        | some e =>
            rw [hm, hq] at hf
            cases hf
            exact ⟨_, dirPath_none hrun hret hmode (fdGetPath_refused hfd hm hq),
              toldBy_finalPath hzero⟩
        | none =>
            rw [hm, hq] at hf
            change (if o.finalPath = [] then _ else _) = _ at hf
            split at hf
            · next hname =>
                cases hf
                exact ⟨_, dirPath_none hrun hret hmode
                  (fdGetPath_nameless hfd hopen hm hq hname), toldBy_finalPath hzero⟩
            · cases hf

theorem pathFailure_none {n : Nat} (hf : pathFailure E o n = none) :
    queriesFail E n = false ∧ E.fails (typeQuery E n + 1) = none ∧
      E.fails (typeQuery E n + 2) = none ∧ o.finalPath ≠ [] := by
  simp only [pathFailure, Option.orElse_eq_orElse, Option.orElse_eq_or, Option.or_eq_none_iff,
    Option.map_eq_none_iff, ite_eq_right_iff, reduceCtorEq, imp_false] at hf
  obtain ⟨hinfo, htype, hm, hq, hname⟩ := hf
  refine ⟨?_, hm, hq, hname⟩
  rw [queriesFail, hinfo, htype]
  rfl

theorem openDirectory_passes (hobject : s.objectOf fd = some o) (hdir : o.isDirectory = true)
    (hf : pathFailure E o s.calls = none) :
    (∃ path t, dirPath (winSys E b) fd s = .ok (some path) t ∧
      pathRead E o s.calls = some path) ∨
    (∃ e t, dirPath (winSys E b) fd s = .error e t ∧ pathRead E o s.calls = none) := by
  obtain ⟨hqueries, hm, hq, hname⟩ := pathFailure_none hf
  rw [pathRead]
  cases hstops : stops E o s.calls with
  | true =>
      obtain ⟨h, hfd, hopen⟩ := objectOf_eq_some.mp hobject
      obtain ⟨e, t, hrun⟩ := fstat64_stops (b := b) hfd hopen hstops
      exact .inr ⟨e, t, dirPath_stops hrun, rfl⟩
  | false =>
      rw [if_neg Bool.false_ne_true]
      rcases fstat64_directory (b := b) hobject hdir hstops with
        ⟨hfails, -⟩ | ⟨-, a, t, hrun, hret, hmode, hkept, -, hcalls⟩
      · rw [hqueries] at hfails
        cases hfails
      · obtain ⟨h, hfd, hopen⟩ := objectOf_eq_some.mp hkept
        rw [← hcalls] at hm
        have hcalls' : typeQuery E s.calls + 2 = t.calls + 1 := by omega
        rw [hcalls'] at hq
        have hcalls'' : typeQuery E s.calls + 3 = t.calls + 2 := by omega
        rw [hcalls'']
        rcases fdGetPath_reads hfd hopen hm hq hname with
          ⟨path, u, hpath, hread⟩ | ⟨e, u, hpath, hread⟩
        · exact .inl ⟨path, u, dirPath_some hrun hret hmode hpath, hread⟩
        · exact .inr ⟨e, u, dirPath_error hrun hret hmode hpath, hread⟩

theorem dirFailure_none (hf : dirFailure E fd s = none) :
    ∃ o, s.objectOf fd = some o ∧ o.isDirectory = true ∧ pathFailure E o s.calls = none := by
  rw [dirFailure] at hf
  split at hf
  · cases hf
  · split at hf
    · cases hf
    · next o hobject =>
        split at hf
        · next hdir => exact ⟨o, hobject, hdir, hf⟩
        · cases hf

theorem dirFailure_some {f : Failure} (hf : dirFailure E fd s = some f) :
    (f = .notOpen ∧ s.crt fd = none) ∨
    (f = .notDirectory ∧ ∀ o, s.objectOf fd = some o → o.isDirectory = false) ∨
    (∃ o, s.objectOf fd = some o ∧ o.isDirectory = true ∧ pathFailure E o s.calls = some f) := by
  rw [dirFailure] at hf
  split at hf
  · next hfd => exact .inl ⟨(Option.some_inj.mp hf).symm, Option.isNone_iff_eq_none.mp hfd⟩
  · split at hf
    · next hobject =>
        refine .inr (.inl ⟨(Option.some_inj.mp hf).symm, fun o ho => ?_⟩)
        rw [hobject] at ho
        cases ho
    · next o hobject =>
        split at hf
        · next hdir => exact .inr (.inr ⟨o, hobject, hdir, hf⟩)
        · next hdir =>
            refine .inr (.inl ⟨(Option.some_inj.mp hf).symm, fun o' ho' => ?_⟩)
            rw [hobject] at ho'
            cases ho'
            exact Bool.eq_false_iff.mpr hdir

theorem fstat64_notOpen (hfd : s.crt fd = none) : ∃ t, fstat64 E b fd s = .ok failed t := by
  rw [fstat64, bind_apply, examine, bind_apply, getOsfhandle, hfd]
  exact ⟨_, rfl⟩

theorem dirPath_stopped (hstops : (PathOp.fstat fd).returns E b s = false) :
    ∃ e t, dirPath (winSys E b) fd s = .error e t := by
  cases hrun : fstat64 E b fd s with
  | error e t => exact ⟨e, t, dirPath_stops hrun⟩
  | ok a t =>
      have hreturns : (PathOp.fstat fd).returns E b s = true := after_of_ok hrun
      rw [hreturns] at hstops
      cases hstops

theorem openDirectory_returns_iff (hobject : s.objectOf fd = some o)
    (hdir : o.isDirectory = true) :
    (PathOp.fstat fd).returns E b s = true ↔ stops E o s.calls = false := by
  cases hstops : stops E o s.calls with
  | true =>
      obtain ⟨h, hfd, hopen⟩ := objectOf_eq_some.mp hobject
      obtain ⟨e, t, hrun⟩ := fstat64_stops (b := b) hfd hopen hstops
      rw [PathOp.returns, after, PathOp.run, hrun]
      exact iff_of_false Bool.false_ne_true Bool.noConfusion
  | false =>
      refine iff_of_true ?_ rfl
      rcases fstat64_directory (b := b) hobject hdir hstops with
        ⟨-, t, hrun⟩ | ⟨-, a, t, hrun, -⟩
      · exact after_of_ok hrun
      · exact after_of_ok hrun

/-- Where a step fails before the path of the directory is there, the examination
ends there. -/
theorem dirPath_blocked {f : Failure} (hzero : ∀ e, E.errnoOf e = .other 0 ↔ e = NO_ERROR)
    (hf : dirFailure E fd s = some f) (hreturns : (PathOp.fstat fd).returns E b s = true) :
    ∃ t, dirPath (winSys E b) fd s = .ok none t ∧
      (f.ToldBy E t.errno ↔ f.toldFrom E (staleError E fd s s.lastError)) := by
  rcases dirFailure_some hf with ⟨rfl, hfd⟩ | ⟨rfl, hnot⟩ | ⟨o, hobject, hdir, hpath⟩
  · obtain ⟨t, hrun⟩ := fstat64_notOpen (E := E) (b := b) hfd
    refine ⟨_, dirPath_bad hrun (.inl (by decide)), ?_⟩
    exact iff_of_false (fun h => by cases h.cause) id
  · obtain ⟨a, t, hrun, -⟩ := after_iff.mp hreturns
    refine ⟨_, dirPath_bad hrun (fstat64_notDirectory hnot hrun), ?_⟩
    exact iff_of_true ⟨rfl, nofun, iff_of_true rfl rfl⟩ trivial
  · have hstops := (openDirectory_returns_iff hobject hdir).mp hreturns
    rw [staleError, hobject]
    exact openDirectory_blocked hzero hobject hdir hstops hpath

/-- Except with what is no directory, whether `fstat` comes back does not depend
on the last error. -/
theorem returns_any {f : Failure} (hf : dirFailure E fd s = some f) (hne : f ≠ .notDirectory)
    (hreturns : (PathOp.fstat fd).returns E b s = true) (before : WinErr) :
    (PathOp.fstat fd).returns E b { s with lastError := before } = true := by
  rcases dirFailure_some hf with ⟨rfl, hfd⟩ | ⟨rfl, hnot⟩ | ⟨o, hobject, hdir, hpath⟩
  · have hfd' : ({ s with lastError := before } : Win).crt fd = none := hfd
    obtain ⟨t, hrun⟩ := fstat64_notOpen (E := E) (b := b) hfd'
    exact after_of_ok hrun
  · exact absurd rfl hne
  · have hobject' : ({ s with lastError := before } : Win).objectOf fd = some o := hobject
    exact (openDirectory_returns_iff hobject' hdir).mpr
      ((openDirectory_returns_iff hobject hdir).mp hreturns)

section
variable {α : Type} {exam : Prog Win (Option Path)} {run : EStateM.Result Stop Win α}
  {failedWith : α}

theorem blocked_tells_iff {f : Failure} (hzero : ∀ e, E.errnoOf e = .other 0 ↔ e = NO_ERROR)
    (hf : dirFailure E fd s = some f)
    (hnone : ∀ s t, dirPath (winSys E b) fd s = .ok none t → exam s = .ok none t)
    (herror : ∀ s e t, dirPath (winSys E b) fd s = .error e t → exam s = .error e t)
    (hrun : ∀ t, exam s = .ok none t → run = .ok failedWith t) :
    Tells E (some f) exam s run failedWith ↔ DirTold E b fd s := by
  have hf' : ∀ before, dirFailure E fd { s with lastError := before } = some f := fun _ => hf
  constructor
  · rintro ⟨t, hexam, -, htold⟩ g hg
    rw [hf] at hg
    cases hg
    cases hreturns : (PathOp.fstat fd).returns E b s with
    | false =>
        obtain ⟨e, u, hpath⟩ := dirPath_stopped hreturns
        rw [herror s e u hpath] at hexam
        cases hexam
    | true =>
        refine ⟨rfl, fun before => ?_⟩
        by_cases hne : f = .notDirectory
        · rw [hne]
          trivial
        · obtain ⟨u, hpath, hiff⟩ :=
            dirPath_blocked hzero (hf' before) (returns_any hf hne hreturns before)
          exact hiff.mp (htold before u (hnone _ u hpath))
  · intro h
    obtain ⟨hreturns, htold⟩ := h f hf
    obtain ⟨t, hpath, -⟩ := dirPath_blocked (b := b) hzero hf hreturns
    refine ⟨t, hnone s t hpath, hrun t (hnone s t hpath), fun before u hexam => ?_⟩
    cases hreturns' : (PathOp.fstat fd).returns E b { s with lastError := before } with
    | false =>
        obtain ⟨e, v, hstop⟩ := dirPath_stopped hreturns'
        rw [herror _ e v hstop] at hexam
        cases hexam
    | true =>
        obtain ⟨v, hpath', hiff⟩ := dirPath_blocked hzero (hf' before) hreturns'
        rw [hnone _ v hpath'] at hexam
        cases hexam
        exact hiff.mpr (htold before)

end

/-! ### With the name -/

theorem joinPath_fails {mallocOk : Bool} {name parent : Path} {f : Failure}
    (hf : joinFailure mallocOk name parent = some f) :
    ∃ u, joinPath (winSys E b) mallocOk name parent t = .ok none u ∧ f.ToldBy E u.errno := by
  rw [joinFailure] at hf
  rw [joinPath]
  split at hf
  · next hlong =>
      cases hf
      rw [if_pos hlong]
      exact ⟨_, rfl, rfl, nofun, nofun, nofun⟩
  · next hfits =>
      rw [if_neg hfits]
      split at hf
      · cases hf
      · next hm =>
          cases hf
          rw [if_neg hm]
          exact ⟨_, rfl, rfl, nofun, nofun, nofun⟩

theorem joinPath_passes {mallocOk : Bool} {name parent : Path}
    (hf : joinFailure mallocOk name parent = none) :
    ∃ path, joinPath (winSys E b) mallocOk name parent t = .ok (some path) t := by
  rw [joinFailure] at hf
  rw [joinPath]
  split at hf
  · cases hf
  · next hfits =>
      rw [if_neg hfits]
      split at hf
      · next hm =>
          rw [if_pos hm]
          exact ⟨_, rfl⟩
      · cases hf

theorem joinFailure_cases {mallocOk : Bool} {name parent : Path} {f : Failure}
    (hf : joinFailure mallocOk name parent = some f) : f = .tooLong ∨ f = .joinMemory := by
  rw [joinFailure] at hf
  split at hf
  · exact .inl (Option.some_inj.mp hf).symm
  · split at hf
    · cases hf
    · exact .inr (Option.some_inj.mp hf).symm

/-- The two failures of joining set different values. -/
theorem joinFailure_unique {mallocOk : Bool} {name parent parent' : Path} {f g : Failure}
    {errno : Errno} (hf : joinFailure mallocOk name parent = some f)
    (hg : joinFailure mallocOk name parent' = some g) (hfe : f.ToldBy E errno)
    (hge : g.ToldBy E errno) : f = g := by
  have herrno : f.errno E = g.errno E := hfe.cause.symm.trans hge.cause
  rcases joinFailure_cases hf with rfl | rfl
  · rcases joinFailure_cases hg with rfl | rfl
    · rfl
    · cases herrno
  · rcases joinFailure_cases hg with rfl | rfl
    · cases herrno
    · rfl

variable {α : Type} {run : EStateM.Result Stop Win α} {failedWith : α} (mallocOk : Bool)
  (name : Path)

/-- Where the path of the directory is had, what fails is what fails with the path
that is read, and it is told. -/
theorem getPathAt_outcome (hobject : s.objectOf fd = some o) (hdir : o.isDirectory = true)
    (hf : pathFailure E o s.calls = none) :
    (∃ g t, (pathRead E o s.calls).bind (joinFailure mallocOk name) = some g ∧
      getPathAt (winSys E b) mallocOk fd name s = .ok none t ∧ g.ToldBy E t.errno) ∨
    ((pathRead E o s.calls).bind (joinFailure mallocOk name) = none ∧
      ∀ t, getPathAt (winSys E b) mallocOk fd name s ≠ .ok none t) := by
  rw [getPathAt_dirPath, bind_apply]
  rcases openDirectory_passes (b := b) hobject hdir hf with
    ⟨path, t, hpath, hread⟩ | ⟨e, t, hpath, hread⟩
  · rw [hpath, hread, Option.bind_some]
    cases hg : joinFailure mallocOk name path with
    | none =>
        obtain ⟨joined, hjoin⟩ := joinPath_passes (E := E) (b := b) (t := t) hg
        refine .inr ⟨rfl, fun u hu => ?_⟩
        cases hjoin.symm.trans hu
    | some g =>
        obtain ⟨u, hjoin, htold⟩ := joinPath_fails (E := E) (b := b) (t := t) hg
        exact .inl ⟨g, u, rfl, hjoin, htold⟩
  · rw [hpath, hread]
    exact .inr ⟨rfl, nofun⟩

theorem join_tells_iff (hobject : s.objectOf fd = some o) (hdir : o.isDirectory = true)
    (hf : pathFailure E o s.calls = none)
    (hrun : ∀ t, getPathAt (winSys E b) mallocOk fd name s = .ok none t →
      run = .ok failedWith t) :
    Tells E (joinFailure mallocOk name (stripPrefix o.finalPath))
        (getPathAt (winSys E b) mallocOk fd name) s run failedWith ↔
      (pathRead E o s.calls).bind (joinFailure mallocOk name) =
        joinFailure mallocOk name (stripPrefix o.finalPath) := by
  cases hreal : joinFailure mallocOk name (stripPrefix o.finalPath) with
  | none =>
      rcases getPathAt_outcome (b := b) mallocOk name hobject hdir hf with
        ⟨g, t, hg, hexam, -⟩ | ⟨hg, hpasses⟩
      · exact iff_of_false (fun h => h t hexam) fun h => by cases hg.symm.trans h
      · exact iff_of_true hpasses hg
  | some f =>
      constructor
      · rintro ⟨t, hexam, -, htold⟩
        rcases getPathAt_outcome (b := b) mallocOk name hobject hdir hf with
          ⟨g, u, hg, hexam', htold'⟩ | ⟨-, hpasses⟩
        · cases hexam.symm.trans hexam'
          obtain ⟨path, -, hjoin⟩ := Option.bind_eq_some_iff.mp hg
          rw [hg, joinFailure_unique hjoin hreal htold' (htold s.lastError t hexam)]
        · exact absurd hexam (hpasses t)
      · intro h
        -- the same path is read whatever the last error was
        have houtcome : ∀ before, ∃ t, getPathAt (winSys E b) mallocOk fd name
            { s with lastError := before } = .ok none t ∧ f.ToldBy E t.errno := by
          intro before
          rcases getPathAt_outcome (b := b) (s := { s with lastError := before }) mallocOk name
            hobject hdir hf with ⟨g, t, hg, hexam, htold⟩ | ⟨hg, -⟩
          · cases hg.symm.trans h
            exact ⟨t, hexam, htold⟩
          · cases hg.symm.trans h
        obtain ⟨t, hexam, -⟩ := houtcome s.lastError
        refine ⟨t, hexam, hrun t hexam, fun before u hexam' => ?_⟩
        obtain ⟨v, hexam'', htold⟩ := houtcome before
        cases hexam'.symm.trans hexam''
        exact htold

theorem name_tells_iff (hzero : ∀ e, E.errnoOf e = .other 0 ↔ e = NO_ERROR)
    (hrun : ∀ t, getPathAt (winSys E b) mallocOk fd name s = .ok none t →
      run = .ok failedWith t) :
    Tells E (nameFailure E mallocOk fd name s) (getPathAt (winSys E b) mallocOk fd name) s run
      failedWith ↔ NameTold E b mallocOk fd name s := by
  cases hf : dirFailure E fd s with
  | none =>
      obtain ⟨o, hobject, hdir, hpath⟩ := dirFailure_none hf
      have hname : nameFailure E mallocOk fd name s =
          joinFailure mallocOk name (stripPrefix o.finalPath) := by
        rw [nameFailure, hf, hobject]
        rfl
      rw [hname, join_tells_iff mallocOk name hobject hdir hpath hrun]
      constructor
      · intro h
        refine ⟨fun f hsome => ?_, fun _ o' ho' => ?_⟩
        · rw [hf] at hsome
          cases hsome
        · rw [hobject] at ho'
          cases ho'
          exact h
      · rintro ⟨-, h⟩
        exact h hf o hobject
  | some f =>
      have hname : nameFailure E mallocOk fd name s = some f := by
        rw [nameFailure, hf]
        rfl
      have htold : NameTold E b mallocOk fd name s ↔ DirTold E b fd s := by
        refine and_iff_left fun hnone => ?_
        rw [hf] at hnone
        cases hnone
      rw [hname, htold]
      refine blocked_tells_iff hzero hf (fun s t hpath => ?_) (fun s e t hpath => ?_) hrun
      · rw [getPathAt_dirPath, bind_apply, hpath]
        rfl
      · rw [getPathAt_dirPath, bind_apply, hpath]

end

/-! ## The calls -/

/-- A call of the `*at` family tells how the examination fails that it makes in
state `s'`. -/
def AtTells (E : Env) (b : Build) (m₁ m₂ : Heap) (c : AtCall) (s : Win) (mallocOk : Bool)
    (dirfd : Fd) (name : Path) (s' : Win) : Prop :=
  Tells E (nameFailure E mallocOk dirfd name s') (getPathAt (winSys E b) mallocOk dirfd name) s'
    (c.run (winSys E b) b m₁ m₂ s) failed

/-- And so does `fdopendir`. -/
def FdopendirTells (E : Env) (b : Build) (D : Dirs Win) (fd : Fd) (s : Win) : Prop :=
  Tells E (dirFailure E fd s) (dirPath (winSys E b) fd) s (fdopendir (winSys E b) D fd s) none

/-- **Bad directory descriptors.**  With errors looked up in `__winerr_map`, a
call tells how the examination of a directory fails exactly under the conditions
`NameTold` and `DirTold`. -/
theorem dirfd_tells_iff (E : Env) (winerrMap : List Errno) (b : Build) :
    (∀ (m₁ m₂ : Heap) (c : AtCall) (s : Win) (mallocOk : Bool) (dirfd : Fd) (name : Path)
        (s' : Win),
      Examines (winSys (E.mapping winerrMap) b) b m₁ m₂ s c.asked mallocOk dirfd name s' →
        (AtTells (E.mapping winerrMap) b m₁ m₂ c s mallocOk dirfd name s' ↔
          NameTold (E.mapping winerrMap) b mallocOk dirfd name s')) ∧
    (∀ (D : Dirs Win) (fd : Fd) (s : Win),
      FdopendirTells (E.mapping winerrMap) b D fd s ↔ DirTold (E.mapping winerrMap) b fd s) := by
  have hzero : ∀ e, (E.mapping winerrMap).errnoOf e = .other 0 ↔ e = NO_ERROR :=
    fun _ => errnoViaWinerr_eq_zero
  constructor
  · intro m₁ m₂ c s mallocOk dirfd name s' hexamines
    exact name_tells_iff mallocOk name hzero fun t h => examined_none hexamines h
  · intro D fd s
    rw [FdopendirTells]
    cases hf : dirFailure (E.mapping winerrMap) fd s with
    | some f =>
        exact blocked_tells_iff hzero hf (fun _ _ h => h) (fun _ _ _ h => h) fun t h =>
          fdopendir_none D h
    | none =>
        obtain ⟨o, hobject, hdir, hpath⟩ := dirFailure_none hf
        refine iff_of_true (fun t hexam => ?_) fun f hsome => ?_
        · rcases openDirectory_passes (b := b) hobject hdir hpath with
            ⟨path, u, hpasses, -⟩ | ⟨e, u, herror, -⟩
          · rw [hpasses] at hexam
            cases hexam
          · rw [herror] at hexam
            cases hexam
        · rw [hf] at hsome
          cases hsome

/-- `__winerr_map`, as far as `ERROR_PATH_NOT_FOUND`. -/
def firstErrors : List Errno := [.other 0, .EINVAL, .ENOENT, .ENOENT]

/-- Descriptor 3 is a file. -/
def aReader : Win := { aProcess with
  crt := Function.update aProcess.crt 3 (some 4)
  handles := Function.update aProcess.handles 4 (some aFile) }

theorem dirfd_tells_iff_aReader :
    AtTells (aFolder.mapping firstErrors) .debug ⟨true, some 0⟩ ⟨true, some 0⟩ (.mkdirat 3 [0x61] 0)
      aReader true 3 [0x61] aReader := by
  have hfailure : dirFailure (aFolder.mapping firstErrors) 3 aReader = some .notDirectory := by
    decide +kernel
  refine ((dirfd_tells_iff aFolder firstErrors .debug).1 ⟨true, some 0⟩ ⟨true, some 0⟩
    (.mkdirat 3 [0x61] 0) aReader true 3 [0x61] aReader (.one rfl)).mpr ⟨fun f hf => ?_, ?_⟩
  · rw [hfailure] at hf
    cases hf
    exact ⟨by decide +kernel, fun _ => trivial⟩
  · intro hnone
    rw [hfailure] at hnone
    cases hnone

/-- A descriptor that is not open is reported as no directory. -/
theorem mkdirat_notOpen :
    Examines (winSys (aFolder.mapping firstErrors) .debug) .debug ⟨true, some 0⟩ ⟨true, some 0⟩
        aProcess (AtCall.mkdirat 3 [0x61] 0).asked true 3 [0x61] aProcess ∧
      ¬ AtTells (aFolder.mapping firstErrors) .debug ⟨true, some 0⟩ ⟨true, some 0⟩
        (.mkdirat 3 [0x61] 0) aProcess true 3 [0x61] aProcess := by
  refine ⟨.one rfl, ?_⟩
  rintro ⟨t, hexam, -, htold⟩
  have hcause := (htold NO_ERROR t hexam).cause
  have herrno : after (getPathAt (winSys (aFolder.mapping firstErrors) .debug) true 3 [0x61])
      (fun _ t => t.errno == .ENOTDIR) aProcess = true := by decide +kernel
  rw [after_of_ok hexam, hcause] at herrno
  revert herrno
  decide

end LibcCompat.Winsup
