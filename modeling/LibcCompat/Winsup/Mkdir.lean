/-
# `LibcCompat.Winsup.Mkdir` — `_mkdir_stub` of `mkdir.c`

The `mkdir` of Windows takes no mode, so `_mkdir_stub` makes the directory and
then sets the mode.  If that fails it removes the directory again.  The removal
is inside an assert, and not there in a build without asserts.

What is proved (`mkdir_atomic`): the call fails without a trace exactly if there
are asserts, or the two steps do not come to differ.
-/
import LibcCompat.Lib.Zoom
import LibcCompat.Winsup.DirStreams

namespace LibcCompat.Winsup

open LibcCompat.Lib

def EEXIST : Errno := .other 17

/-! ## The tree -/

/-- What is at a place of the tree. -/
structure Entry where
  isDirectory : Bool
  mode : ModeT
deriving DecidableEq, Repr

/-- The outside, with the place that each path leads to, and how the calls of
`mkdir`, `chmod` and `rmdir` fail.  What is at a place decides besides. -/
structure Maker (κ : Type) extends Env where
  place : Path → κ
  mkdirFails : Nat → Path → Option Errno
  chmodFails : Nat → Path → ModeT → Option Errno
  rmdirFails : Nat → Path → Option Errno

/-- The process and the tree. -/
structure Making (κ : Type) where
  win : Win
  tree : κ → Option Entry

def Making.onWin {κ : Type} : Lens (Making κ) Win where
  get := Making.win
  set win s := { s with win }
  get_set _ _ := rfl
  set_get _ := rfl
  set_set _ _ _ := rfl

section
variable {κ : Type} [DecidableEq κ]

/-- A call succeeds, and leaves this at a place. -/
def Making.put (s : Making κ) (k : κ) (entry : Option Entry) : Making κ :=
  { s with
    win := { s.win with calls := s.win.calls + 1 }
    tree := Function.update s.tree k entry }

/-- A call fails. -/
def Making.failed (s : Making κ) (e : Errno) : Making κ :=
  { s with win := { s.win with calls := s.win.calls + 1, errno := e } }

variable (M : Maker κ) (b : Build) (path : Path) (mode : ModeT)

/-- What `mkdir` fails with. -/
def mkdirError (s : Making κ) : Option Errno :=
  match M.mkdirFails s.win.calls path with
  | some e => some e
  | none => if (s.tree (M.place path)).isSome then some EEXIST else none

/-- What `chmod` fails with. -/
def chmodError (s : Making κ) : Option Errno :=
  match M.chmodFails s.win.calls path mode with
  | some e => some e
  | none => if (s.tree (M.place path)).isSome then none else some .ENOENT

/-- What `rmdir` fails with. -/
def rmdirError (s : Making κ) : Option Errno :=
  match M.rmdirFails s.win.calls path with
  | some e => some e
  | none =>
      match s.tree (M.place path) with
      | none => some .ENOENT
      | some entry => if entry.isDirectory then none else some .ENOTDIR

/-- The tree with the new directory. -/
def made (s : Making κ) : Making κ :=
  s.put (M.place path) (some ⟨true, S_IRUSR ||| S_IWUSR ||| S_IXUSR⟩)

/-- `mkdir`. -/
def mkdir : Prog (Making κ) Int := fun s =>
  match mkdirError M path s with
  | some e => .ok (-1) (s.failed e)
  | none => .ok 0 (made M path s)

/-- `chmod`. -/
def chmod : Prog (Making κ) Int := fun s =>
  match chmodError M path mode s with
  | some e => .ok (-1) (s.failed e)
  | none =>
      .ok 0 (s.put (M.place path) ((s.tree (M.place path)).map fun entry => { entry with mode }))

/-- `rmdir`. -/
def rmdir : Prog (Making κ) Int := fun s =>
  match rmdirError M path s with
  | some e => .ok (-1) (s.failed e)
  | none => .ok 0 (s.put (M.place path) none)

/-- The rest of `_mkdir_stub`, where `chmod` has failed. -/
def undoMkdir : Prog (Making κ) Int := do
  let oldErrno := (← get).win.errno
  match b with
  | .debug => if (← rmdir M path) ≠ 0 then throw .aborted
  | .ndebug => pure ⟨⟩
  zoom Making.onWin (setErrno oldErrno)
  return -1

/-- `_mkdir_stub`. -/
def mkdirStub : Prog (Making κ) Int := do
  if (← mkdir M path) < 0 then return -1
  else if (← chmod M path mode) < 0 then undoMkdir M b path
  else return 0

/-- The functions `mkdirat` is built on. -/
def mkdirSys : Sys (Making κ) :=
  { (winSys M.toEnv b).zoom Making.onWin with
    call := fun
      | .mkdirStub path mode => do
          let ret ← mkdirStub M b path mode
          return Answer.of ret
      | c => zoom Making.onWin (pathCall M.toEnv b c) }

/-! ## Without a trace -/

/-- The error of the first step that fails. -/
def firstError (s : Making κ) : Option Errno :=
  (mkdirError M path s).or (chmodError M path mode (made M path s))

/-- Where the call returns -1, the tree is as it was, and `errno` is that of the
first step that failed. -/
def WithoutTrace {α : Type} (x : Prog (Making κ) α) (ret : α → Int) (first : Option Errno)
    (s : Making κ) : Prop :=
  ∀ a t, x s = .ok a t → ret a = -1 → t.tree = s.tree ∧ first = some t.win.errno

/-- The directory is made, and its mode cannot be set. -/
def HalfDone (s : Making κ) : Prop :=
  mkdirError M path s = none ∧ chmodError M path mode (made M path s) ≠ none

end

section
variable {κ : Type} [DecidableEq κ] {M : Maker κ} {b : Build} {path : Path} {mode : ModeT}
  {s : Making κ}

omit [DecidableEq κ] in
theorem mkdirError_none (h : mkdirError M path s = none) : s.tree (M.place path) = none := by
  unfold mkdirError at h
  split at h
  · cases h
  · split at h
    · cases h
    · next hfree => exact Option.not_isSome_iff_eq_none.mp hfree

theorem mkdirStub_fails {e : Errno} (h : mkdirError M path s = some e) :
    mkdirStub M b path mode s = .ok (-1) (s.failed e) := by
  simp only [mkdirStub, bind_apply, mkdir, h]
  rfl

theorem mkdirStub_succeeds (hmkdir : mkdirError M path s = none)
    (hchmod : chmodError M path mode (made M path s) = none) :
    ∃ t, mkdirStub M b path mode s = .ok 0 t := by
  have hstep : ¬ (0 : Int) < 0 := by decide
  simp only [mkdirStub, bind_apply, mkdir, hmkdir, if_neg hstep, chmod, hchmod]
  exact ⟨_, rfl⟩

theorem mkdirStub_halfDone {e : Errno} (hmkdir : mkdirError M path s = none)
    (hchmod : chmodError M path mode (made M path s) = some e) :
    mkdirStub M b path mode s = undoMkdir M b path ((made M path s).failed e) := by
  have hstep : ¬ (0 : Int) < 0 := by decide
  have hfails : (-1 : Int) < 0 := by decide
  simp only [mkdirStub, bind_apply, mkdir, hmkdir, if_neg hstep, chmod, hchmod, if_pos hfails]

theorem undoMkdir_ndebug (e : Errno) :
    undoMkdir M .ndebug path (s.failed e) = .ok (-1) (s.failed e) := rfl

theorem undoMkdir_debug {a : Int} {t : Making κ} {e : Errno}
    (hfree : s.tree (M.place path) = none)
    (hrun : undoMkdir M .debug path ((made M path s).failed e) = .ok a t) :
    t.tree = s.tree ∧ t.win.errno = e := by
  obtain ⟨u, hu⟩ : ∃ u, u = (made M path s).failed e := ⟨_, rfl⟩
  have hget : (get : Prog (Making κ) (Making κ)) u = .ok u u := rfl
  rw [← hu] at hrun
  simp only [undoMkdir, bind_apply, hget] at hrun
  cases hrmdir : rmdirError M path u with
  | some e' =>
      have hrm : rmdir M path u = .ok (-1) (u.failed e') := by
        simp only [rmdir, hrmdir]
      have hfails : (-1 : Int) ≠ 0 := by decide
      simp only [bind_apply, hrm, if_pos hfails] at hrun
      cases hrun
  | none =>
      have hrm : rmdir M path u = .ok 0 (u.put (M.place path) none) := by
        simp only [rmdir, hrmdir]
      simp only [hrm] at hrun
      cases hrun
      subst hu
      exact ⟨update_remove hfree _, rfl⟩

/-! ## The calls -/

theorem withoutTrace_fails {e : Errno} (hmkdir : mkdirError M path s = some e) :
    WithoutTrace (mkdirStub M b path mode) id (firstError M path mode s) s := by
  intro a t hrun _
  rw [mkdirStub_fails hmkdir] at hrun
  cases hrun
  rw [firstError, hmkdir]
  exact ⟨rfl, rfl⟩

theorem withoutTrace_debug {e : Errno} (hmkdir : mkdirError M path s = none)
    (hchmod : chmodError M path mode (made M path s) = some e) :
    WithoutTrace (mkdirStub M .debug path mode) id (firstError M path mode s) s := by
  intro a t hrun _
  rw [mkdirStub_halfDone hmkdir hchmod] at hrun
  obtain ⟨htree, herrno⟩ := undoMkdir_debug (mkdirError_none hmkdir) hrun
  rw [firstError, hmkdir, hchmod, herrno]
  exact ⟨htree, rfl⟩

theorem withTrace_ndebug {e : Errno} (hmkdir : mkdirError M path s = none)
    (hchmod : chmodError M path mode (made M path s) = some e) :
    ¬ WithoutTrace (mkdirStub M .ndebug path mode) id (firstError M path mode s) s := by
  intro h
  have hrun := mkdirStub_halfDone (b := .ndebug) hmkdir hchmod
  rw [undoMkdir_ndebug] at hrun
  have hplace := congrFun (h _ _ hrun rfl).1 (M.place path)
  rw [mkdirError_none hmkdir] at hplace
  simp only [Making.failed, made, Making.put, Function.update_self] at hplace
  cases hplace

theorem mkdirStub_withoutTrace :
    WithoutTrace (mkdirStub M b path mode) id (firstError M path mode s) s ↔
      (b = .debug ∨ ¬ HalfDone M path mode s) := by
  cases hmkdir : mkdirError M path s with
  | some e =>
      refine iff_of_true (withoutTrace_fails hmkdir) (.inr fun hhalf => ?_)
      rw [hhalf.1] at hmkdir
      cases hmkdir
  | none =>
      cases hchmod : chmodError M path mode (made M path s) with
      | none =>
          refine iff_of_true ?_ (.inr fun hhalf => hhalf.2 hchmod)
          intro a t hrun hret
          obtain ⟨u, hok⟩ := mkdirStub_succeeds (b := b) hmkdir hchmod
          rw [hok] at hrun
          cases hrun
          cases hret
      | some e =>
          have hhalf : HalfDone M path mode s := ⟨hmkdir, by rw [hchmod]; exact nofun⟩
          cases b with
          | debug => exact iff_of_true (withoutTrace_debug hmkdir hchmod) (.inl rfl)
          | ndebug =>
              refine iff_of_false (withTrace_ndebug hmkdir hchmod) ?_
              rintro (hdebug | hnot)
              · cases hdebug
              · exact hnot hhalf

theorem mkdirSys_resolve (M : Maker κ) (b : Build) (m : Heap) (dirfd : Fd) (name : Path) :
    resolve (mkdirSys M b) m dirfd name =
      zoom Making.onWin (resolve (winSys M.toEnv b) m dirfd name) :=
  resolve_zoom (winSys M.toEnv b) m dirfd name

theorem resolve_tree {m : Heap} {dirfd : Fd} {name : Path} {r : Option Path} {t : Making κ}
    (h : resolve (mkdirSys M b) m dirfd name s = .ok r t) : t.tree = s.tree := by
  rw [mkdirSys_resolve] at h
  have hkeeps : Keeps (fun s : Making κ => s.tree)
      (zoom Making.onWin (resolve (winSys M.toEnv b) m dirfd name)) :=
    zoom_keeps_beside fun _ _ => rfl
  exact hkeeps s r t h

theorem mkdirat_withoutTrace {m : Heap} {dirfd : Fd} {name : Path} {t : Making κ}
    (h : resolve (mkdirSys M b) m dirfd name s = .ok (some path) t) :
    WithoutTrace (mkdirat (mkdirSys M b) m dirfd name mode) Answer.ret
        (firstError M path mode t) s ↔
      WithoutTrace (mkdirStub M b path mode) id (firstError M path mode t) t := by
  have hrun : mkdirat (mkdirSys M b) m dirfd name mode s =
      (do let ret ← mkdirStub M b path mode; return Answer.of ret : Prog (Making κ) Answer) t :=
    resolveThen_some h
  have htree := resolve_tree h
  constructor
  · intro hat ret u hstub hret
    rw [htree]
    refine hat (.of ret) u ?_ hret
    rw [hrun, bind_apply, hstub]
    rfl
  · intro hstub a u hat hret
    rw [hrun] at hat
    obtain ⟨ret, v, hran, hrest⟩ := bind_ok hat
    cases hrest
    rw [← htree]
    exact hstub ret u hran hret

end

/-- **Making a directory.**  `_mkdir_stub`, and `mkdirat` with a name that
resolves, fail without a trace exactly if there are asserts or it does not come
to a directory whose mode cannot be set; `mkdirat` with a name that does not
resolve leaves the tree as it was. -/
theorem mkdir_atomic {κ : Type} [DecidableEq κ] (M : Maker κ) (b : Build) :
    (∀ path mode s, WithoutTrace (mkdirStub M b path mode) id (firstError M path mode s) s ↔
      (b = .debug ∨ ¬ HalfDone M path mode s)) ∧
    (∀ m dirfd name path mode s t,
      resolve (mkdirSys M b) m dirfd name s = .ok (some path) t →
        (WithoutTrace (mkdirat (mkdirSys M b) m dirfd name mode) Answer.ret
            (firstError M path mode t) s ↔
          (b = .debug ∨ ¬ HalfDone M path mode t))) ∧
    (∀ m dirfd name mode s t, resolve (mkdirSys M b) m dirfd name s = .ok none t →
      mkdirat (mkdirSys M b) m dirfd name mode s = .ok failed t ∧ t.tree = s.tree) := by
  refine ⟨?_, ?_, ?_⟩
  · intro path mode s
    exact mkdirStub_withoutTrace
  · intro m dirfd name path mode s t h
    rw [mkdirat_withoutTrace h, mkdirStub_withoutTrace]
  · intro m dirfd name mode s t h
    exact ⟨resolveThen_unresolved h, resolve_tree h⟩

/-- The mode of a new directory cannot be set. -/
def noChmod : Maker Path :=
  { aFolder with
    pathIsRelative := fun path => path.head? != some 0x2F
    place := id
    mkdirFails := fun _ _ => none
    chmodFails := fun _ _ _ => some (.other 13)
    rmdirFails := fun _ _ => none }

def emptyTree : Making Path := ⟨aProcess, fun _ => none⟩

theorem mkdir_atomic_noChmod :
    WithoutTrace (mkdirat (mkdirSys noChmod .debug) ⟨true, some 0⟩ 3 [0x2F, 0x61] 0) Answer.ret
        (firstError noChmod [0x2F, 0x61] 0 emptyTree) emptyTree ∧
      firstError noChmod [0x2F, 0x61] 0 emptyTree = some (.other 13) :=
  ⟨((mkdir_atomic noChmod .debug).2.1 ⟨true, some 0⟩ 3 [0x2F, 0x61] [0x2F, 0x61] 0 emptyTree
    emptyTree rfl).mpr (.inl rfl), rfl⟩

/-- Without asserts the call fails and the directory is there. -/
theorem mkdir_ndebug_stays :
    (∃ t, mkdirStub noChmod .ndebug [0x61] 0 emptyTree = .ok (-1) t ∧
      (t.tree [0x61]).isSome ∧ emptyTree.tree [0x61] = none) ∧
    ¬ WithoutTrace (mkdirStub noChmod .ndebug [0x61] 0) id
      (firstError noChmod [0x61] 0 emptyTree) emptyTree := by
  have hstays : ∃ t, mkdirStub noChmod .ndebug [0x61] 0 emptyTree = .ok (-1) t ∧
      (t.tree [0x61]).isSome ∧ emptyTree.tree [0x61] = none := ⟨_, rfl, rfl, rfl⟩
  refine ⟨hstays, fun h => ?_⟩
  obtain ⟨t, hrun, hthere, hbefore⟩ := hstays
  rw [(h _ t hrun rfl).1, hbefore] at hthere
  cases hthere

end LibcCompat.Winsup
