/-
# `LibcCompat.Winsup.Symlink` — `symlink` of `link.c`

On Windows a link to a directory is made as such, so `symlink` has to know what
the target is.  A relative target starts from the directory the link is in;
`symlink` looks it up with `stat`, which starts from the current directory.

What is proved (`symlink_choosesType`): the link has the type of its target
exactly if the target, where it exists, is a directory just when the same path
leads to a directory from the current directory.
-/
import LibcCompat.Lib.Zoom
import LibcCompat.Winsup.DirStreams
import LibcCompat.Winsup.Resolve

namespace LibcCompat.Winsup

open LibcCompat.Lib

def SYMBOLIC_LINK_FLAG_DIRECTORY : UInt32 := 0x1
def SYMBOLIC_LINK_FLAG_ALLOW_UNPRIVILEGED_CREATE : UInt32 := 0x2

/-! ## The files -/

/-- What `stat` gives back, from what the path leads to. -/
def statAnswer : Option Stat → Answer
  | some stat => { ret := 0, stat }
  | none => failed

/-- The outside with its directories, and where paths lead from each, links
followed.  `stat` starts from the current one. -/
structure Volume (δ : Type) extends Env where
  cwd : δ
  /-- The directory that an entry with this path is made in. -/
  parent : Path → Option δ
  relative : δ → Path → Option Stat
  absolute : Path → Option Stat
  call_stat : ∀ n path, call n (.stat path) =
    statAnswer (if pathIsRelative path then relative cwd path else absolute path)

/-- A call of `CreateSymbolicLink`. -/
structure LinkRequest where
  name : Path
  target : Path
  flags : UInt32
deriving DecidableEq, Repr

/-- The process, with the links it asked for. -/
structure Linking where
  win : Win
  requests : List LinkRequest

def Linking.onWin : Lens Linking Win where
  get := Linking.win
  set win s := { s with win }
  get_set _ _ := rfl
  set_get _ := rfl
  set_set _ _ _ := rfl

section
variable (E : Env) (b : Build)

/-- `CreateSymbolicLink`. -/
def createSymbolicLink (name target : Path) (flags : UInt32) : Prog Linking Bool := do
  modify fun s => { s with requests := s.requests ++ [⟨name, target, flags⟩] }
  zoom Linking.onWin (attempt E (fun e => do setLastError e; return false) fun _ => return true)

/-- `symlink`. -/
def symlink (name1 name2 : Path) : Prog Linking Int := do
  let buf ← zoom Linking.onWin (pathCall E b (.stat name1))
  let flags :=
    if buf.ret < 0 then SYMBOLIC_LINK_FLAG_ALLOW_UNPRIVILEGED_CREATE
    else if isDir buf.stat.mode then
      SYMBOLIC_LINK_FLAG_ALLOW_UNPRIVILEGED_CREATE ||| SYMBOLIC_LINK_FLAG_DIRECTORY
    else SYMBOLIC_LINK_FLAG_ALLOW_UNPRIVILEGED_CREATE
  if ← createSymbolicLink E name2 name1 flags then return 0
  else
    zoom Linking.onWin (setErrnoViaWinerr E)
    return -1

/-- The functions `symlinkat` is built on. -/
def linkSys : Sys Linking :=
  { (winSys E b).zoom Linking.onWin with
    call := fun
      | .symlink name1 name2 => do
          let ret ← symlink E b name1 name2
          return Answer.of ret
      | c => zoom Linking.onWin (pathCall E b c) }

end

/-! ## The type of a link -/

section
variable {δ : Type} (V : Volume δ)

/-- What a path leads to from the current directory. -/
def Volume.fromCwd (path : Path) : Option Stat :=
  if V.pathIsRelative path then V.relative V.cwd path else V.absolute path

/-- What a link leads to. -/
def Volume.fromLink (target name : Path) : Option Stat :=
  if V.pathIsRelative target then (V.parent name).bind (V.relative · target)
  else V.absolute target

/-- One link is asked for, and its type is that of what it leads to, if it leads
anywhere. -/
def ChoosesType {α : Type} (x : Prog Linking α) (target name : Path) (s : Linking) : Prop :=
  ∃ a t flags, x s = .ok a t ∧ t.requests = s.requests ++ [⟨name, target, flags⟩] ∧
    ∀ stat, V.fromLink target name = some stat →
      (flags &&& SYMBOLIC_LINK_FLAG_DIRECTORY ≠ 0 ↔ isDir stat.mode = true)

/-- What the link leads to, if anything, is a directory just when the path of the
target leads to a directory from the current directory. -/
def SeenAlike (target name : Path) : Prop :=
  ∀ stat, V.fromLink target name = some stat →
    ((∃ seen, V.fromCwd target = some seen ∧ isDir seen.mode = true) ↔ isDir stat.mode = true)

end

section
variable {δ : Type} {V : Volume δ} {b : Build} {name1 name2 : Path} {s : Linking}

theorem pathCall_stat (path : Path) (w : Win) :
    pathCall V.toEnv b (.stat path) w =
      .ok (statAnswer (V.fromCwd path)) { w with calls := w.calls + 1 } := by
  have hstat : V.call w.calls (.stat path) = statAnswer (V.fromCwd path) :=
    V.call_stat w.calls path
  rw [← hstat]
  rfl

theorem createSymbolicLink_returns (E : Env) (name target : Path) (flags : UInt32) (s : Linking) :
    ∃ ok t, createSymbolicLink E name target flags s = .ok ok t ∧
      t.requests = s.requests ++ [⟨name, target, flags⟩] := by
  obtain ⟨ok, u, hmade⟩ : ∃ ok u, attempt E (fun e => do setLastError e; return false)
      (fun _ => return true) s.win = .ok ok u := by
    unfold attempt
    cases E.fails s.win.calls with
    | some e => exact ⟨_, _, rfl⟩
    | none => exact ⟨_, _, rfl⟩
  exact ⟨ok, _, zoom_ok (l := Linking.onWin)
    (s := { s with requests := s.requests ++ [⟨name, target, flags⟩] }) hmade, rfl⟩

/-- The flags `symlink` asks for. -/
def linkFlags (seen : Option Stat) : UInt32 :=
  if seen.any fun stat => isDir stat.mode then
    SYMBOLIC_LINK_FLAG_ALLOW_UNPRIVILEGED_CREATE ||| SYMBOLIC_LINK_FLAG_DIRECTORY
  else SYMBOLIC_LINK_FLAG_ALLOW_UNPRIVILEGED_CREATE

theorem linkFlags_directory (seen : Option Stat) :
    linkFlags seen &&& SYMBOLIC_LINK_FLAG_DIRECTORY ≠ 0 ↔
      ∃ stat, seen = some stat ∧ isDir stat.mode = true := by
  rw [← Option.any_eq_true]
  unfold linkFlags
  split
  · next h => exact iff_of_true (by decide) h
  · next h => exact iff_of_false (by decide) h

theorem symlink_asks (name1 name2 : Path) (s : Linking) :
    ∃ ret t, symlink V.toEnv b name1 name2 s = .ok ret t ∧
      t.requests = s.requests ++ [⟨name2, name1, linkFlags (V.fromCwd name1)⟩] := by
  have hstat := zoom_ok (l := Linking.onWin) (pathCall_stat (V := V) (b := b) name1 s.win)
  obtain ⟨ok, t, hmade, hrequests⟩ := createSymbolicLink_returns V.toEnv name2 name1
    (linkFlags (V.fromCwd name1)) (Linking.onWin.set { s.win with calls := s.win.calls + 1 } s)
  have hflags : (if (statAnswer (V.fromCwd name1)).ret < 0 then
        SYMBOLIC_LINK_FLAG_ALLOW_UNPRIVILEGED_CREATE
      else if isDir (statAnswer (V.fromCwd name1)).stat.mode then
        SYMBOLIC_LINK_FLAG_ALLOW_UNPRIVILEGED_CREATE ||| SYMBOLIC_LINK_FLAG_DIRECTORY
      else SYMBOLIC_LINK_FLAG_ALLOW_UNPRIVILEGED_CREATE) = linkFlags (V.fromCwd name1) := by
    cases V.fromCwd name1 with
    | none => rfl
    | some stat => rfl
  rw [symlink, bind_apply, hstat]
  dsimp only
  rw [hflags, bind_apply, hmade]
  cases ok with
  | true => exact ⟨_, _, rfl, hrequests⟩
  | false => exact ⟨_, _, rfl, hrequests⟩

/-- A call that asks for the link `symlink` asks for chooses its type right
exactly if the target is seen alike. -/
theorem choosesType_iff {α : Type} {x : Prog Linking α}
    (h : ∃ a t, x s = .ok a t ∧
      t.requests = s.requests ++ [⟨name2, name1, linkFlags (V.fromCwd name1)⟩]) :
    ChoosesType V x name1 name2 s ↔ SeenAlike V name1 name2 := by
  obtain ⟨a, t, hrun, hrequests⟩ := h
  constructor
  · rintro ⟨a', t', flags, hrun', hrequests', htype⟩
    rw [hrun] at hrun'
    cases hrun'
    have hflags := List.append_cancel_left (hrequests.symm.trans hrequests')
    cases hflags
    intro stat hleads
    rw [← htype stat hleads, linkFlags_directory]
  · intro halike
    refine ⟨a, t, _, hrun, hrequests, fun stat hleads => ?_⟩
    rw [linkFlags_directory, halike stat hleads]

theorem linkSys_resolve (E : Env) (b : Build) (m : Heap) (dirfd : Fd) (name : Path) :
    resolve (linkSys E b) m dirfd name = zoom Linking.onWin (resolve (winSys E b) m dirfd name) :=
  resolve_zoom (winSys E b) m dirfd name

theorem symlinkat_asks {m : Heap} {dirfd : Fd} {path : Path} {t : Linking}
    (h : resolve (linkSys V.toEnv b) m dirfd name2 s = .ok (some path) t) :
    ∃ a u, symlinkat (linkSys V.toEnv b) m name1 dirfd name2 s = .ok a u ∧
      u.requests = s.requests ++ [⟨path, name1, linkFlags (V.fromCwd name1)⟩] := by
  obtain ⟨ret, u, hsymlink, hrequests⟩ := symlink_asks (V := V) (b := b) name1 path t
  rw [symlinkat, resolveThen_some h]
  rw [linkSys_resolve] at h
  obtain ⟨w, -, rfl⟩ := zoom_eq_ok h
  refine ⟨.of ret, u, ?_, hrequests⟩
  simp only [linkSys, bind_apply, hsymlink, pure_apply]

theorem seenAlike_absolute (habsolute : V.pathIsRelative name1 = false) :
    SeenAlike V name1 name2 := by
  intro stat hleads
  simp only [Volume.fromLink, habsolute, Bool.false_eq_true, if_false] at hleads
  simp only [Volume.fromCwd, habsolute, Bool.false_eq_true, if_false, hleads, Option.some.injEq,
    exists_eq_left']

theorem seenAlike_here (hhere : V.parent name2 = some V.cwd) : SeenAlike V name1 name2 := by
  intro stat hleads
  have hsame : V.fromLink name1 name2 = V.fromCwd name1 := by
    simp only [Volume.fromLink, hhere, Option.bind_some, Volume.fromCwd]
  rw [hsame] at hleads
  simp only [hleads, Option.some.injEq, exists_eq_left']

end

/-- **The type of a link.**  `symlink`, directly or through `symlinkat`, asks for
a link with the type of its target exactly if the target is seen alike from the
link and from the current directory. -/
theorem symlink_choosesType {δ : Type} (V : Volume δ) (b : Build) :
    (∀ name1 name2 s,
      ChoosesType V (symlink V.toEnv b name1 name2) name1 name2 s ↔ SeenAlike V name1 name2) ∧
    (∀ m dirfd name1 name2 s path t,
      resolve (linkSys V.toEnv b) m dirfd name2 s = .ok (some path) t →
        (ChoosesType V (symlinkat (linkSys V.toEnv b) m name1 dirfd name2) name1 path s ↔
          SeenAlike V name1 path)) := by
  constructor
  · intro name1 name2 s
    exact choosesType_iff (symlink_asks name1 name2 s)
  · intro m dirfd name1 name2 s path t h
    exact choosesType_iff (symlinkat_asks h)

/-- Where paths lead in `aTree`, from the folder `d` and from the current one. -/
def leads (inD : Bool) (path : Path) : Option Stat :=
  if inD = true ∧ path = [0x78] then some { mode := S_IFDIR } else none

/-- Absolute paths; `/y` is a folder. -/
def leadsFromRoot (path : Path) : Option Stat :=
  if path = [0x2F, 0x79] then some { mode := S_IFDIR } else none

/-- A folder `d` with a folder `x` in it; the current directory has no `x`. -/
def aTree : Volume Bool :=
  { aFolder with
    pathIsRelative := fun path => path.head? != some 0x2F
    call := fun _ c =>
      match c with
      | .stat path =>
          statAnswer (if path.head? != some 0x2F then leads false path else leadsFromRoot path)
      | _ => .of 0
    cwd := false
    parent := fun path => some (path.take 2 == [0x64, 0x2F])
    relative := leads
    absolute := leadsFromRoot
    call_stat := fun _ _ => rfl }

/-- No link was asked for yet. -/
def noLinks : Linking := ⟨aProcess, []⟩

/-- `symlinkat("/y", 3, "/l")` asks for a link to a folder. -/
theorem symlink_choosesType_aTree :
    aTree.fromLink [0x2F, 0x79] [0x2F, 0x6C] = some { mode := S_IFDIR } ∧
      ChoosesType aTree
        (symlinkat (linkSys aTree.toEnv .debug) ⟨true, some 0⟩ [0x2F, 0x79] 3 [0x2F, 0x6C])
        [0x2F, 0x79] [0x2F, 0x6C] noLinks :=
  ⟨rfl, ((symlink_choosesType aTree .debug).2 ⟨true, some 0⟩ 3 [0x2F, 0x79] [0x2F, 0x6C] noLinks
    [0x2F, 0x6C] noLinks rfl).mpr (seenAlike_absolute rfl)⟩

/-- `symlink("x", "d/l")` asks for a link to a file, but `d/x` is a folder. -/
theorem symlink_wrongType :
    aTree.fromLink [0x78] [0x64, 0x2F, 0x6C] = some { mode := S_IFDIR } ∧
      ¬ ChoosesType aTree (symlink aTree.toEnv .debug [0x78] [0x64, 0x2F, 0x6C]) [0x78]
        [0x64, 0x2F, 0x6C] noLinks := by
  refine ⟨rfl, fun hchooses => ?_⟩
  have halike := (choosesType_iff (symlink_asks _ _ _)).mp hchooses
  obtain ⟨seen, hseen, -⟩ := (halike _ rfl).mpr rfl
  cases hseen

end LibcCompat.Winsup
