/-
# `LibcCompat.WinsupRs.FdPath` — `fd_path` on Windows

From the patch that adds it to `native/src/base/files.rs`.  The function makes a
`File` of the descriptor it is given and asks it for its path.  That `File` is an
owner: where the function returns, by any of its three exits, it is dropped and
closes the handle of a descriptor that was only lent.

What is proved: so it is for every descriptor that is open, whatever comes of the
path; and a path that does not fit is cut without an error (`fdPath_closes`).

The path of a file is found by a crate that is not part of this repository, so
what it answers for a handle is a parameter.
-/
import LibcCompat.WinsupRs.Fd
import Mathlib.Data.List.Basic

namespace LibcCompat.WinsupRs

/-- What comes of `file.path()` and `path.to_str()`. -/
inductive PathAnswer where
  | err
  | notUnicode
  | str (path : List UInt8)
deriving DecidableEq, Repr

/-- A code of `io::Error::last_os_error`. -/
abbrev OsError := Nat

/-- What `fd_path` leaves: its result, the buffer, and the state. -/
structure Outcome where
  res : Except OsError Unit
  buf : List UInt8
  state : State

/-- `file.path()` for a live object. -/
def objectPath (path : Handle → PathAnswer) (s : State) (id : Nat) : PathAnswer :=
  match (s.objects id).bind Object.handle with
  | some h => path h
  | none => .err

/-- The copy into the buffer, with a terminator if there is room for one. -/
def copyPath (buf path : List UInt8) : List UInt8 :=
  let bytesToCopy := min path.length (buf.length - 1)
  (path.take bytesToCopy ++ buf.drop bytesToCopy).set bytesToCopy 0

/-- `fd_path`; `lastError` is what `last_os_error` finds. -/
def fdPath (path : Handle → PathAnswer) (lastError : OsError) (s : State) (fd : Nat)
    (buf : List UInt8) : Outcome :=
  let file := s.count
  let s := fromRawFd s fd
  match objectPath path s file with
  | .err => ⟨.error lastError, buf, step s (.drop file)⟩
  | .notUnicode => ⟨.error lastError, buf, step s (.drop file)⟩
  | .str p => ⟨.ok (), copyPath buf p, step s (.drop file)⟩

/-! ## The buffer -/

theorem copyPath_fits {buf path : List UInt8} (h : path.length < buf.length) :
    path ++ [0] <+: copyPath buf path := by
  have hmin : min path.length (buf.length - 1) = path.length := by omega
  have hrest : 0 < (buf.drop path.length).length := by
    rw [List.length_drop]
    omega
  obtain ⟨c, rest, hdrop⟩ := List.exists_cons_of_length_pos hrest
  simp only [copyPath, hmin, List.take_length, hdrop]
  exact ⟨rest, by simp⟩

theorem length_copyPath (buf path : List UInt8) : (copyPath buf path).length = buf.length := by
  simp only [copyPath, List.length_set, List.length_append, List.length_take, List.length_drop]
  omega

theorem copyPath_iff {buf path : List UInt8} :
    path ++ [0] <+: copyPath buf path ↔ path.length < buf.length := by
  constructor
  · intro h
    have hlen := h.length_le
    rw [length_copyPath, List.length_append, List.length_singleton] at hlen
    exact hlen
  · exact copyPath_fits

/-! ## The descriptor -/

/-- What is asked of `fd_path` on a descriptor that is open on `h`, a file with the
path `p`. -/
structure Lends (fd : Nat) (h : Handle) (p buf : List UInt8) (r : Outcome) : Prop where
  bound : r.state.crt fd = some h
  opened : r.state.opened h = true
  whole : r.res = .ok () → p ++ [0] <+: r.buf
  tooLong : buf.length ≤ p.length → r.res ≠ .ok ()

variable {path : Handle → PathAnswer} {lastError : OsError} {s : State} {fd : Nat} {h : Handle}
  {buf p : List UInt8}

/-- The `File` of a descriptor is dropped, by whatever exit. -/
theorem fdPath_state (path : Handle → PathAnswer) (lastError : OsError) (s : State) (fd : Nat)
    (buf : List UInt8) :
    (fdPath path lastError s fd buf).state = step (fromRawFd s fd) (.drop s.count) := by
  unfold fdPath
  dsimp only
  split
  · rfl
  · rfl
  · rfl

theorem drop_fromRawFd (hfd : s.crt fd = some h) (hopen : s.opened h = true) :
    (step (fromRawFd s fd) (.drop s.count)).crt = s.crt ∧
      (step (fromRawFd s fd) (.drop s.count)).opened h = false := by
  simp only [step, fromRawFd, State.object, Function.update_self, drop, hfd, State.forget,
    dropHandle, hopen, if_true, and_self]

theorem objectPath_fromRawFd (hfd : s.crt fd = some h) :
    objectPath path (fromRawFd s fd) s.count = path h := by
  simp only [objectPath, fromRawFd, State.object, Function.update_self, Option.bind_some, hfd]

/-- **`fd_path` closes what it is lent.**  For every descriptor that is open, the
descriptor is left bound to a handle that is closed, and a path that does not fit
is cut without an error. -/
theorem fdPath_closes (hfd : s.crt fd = some h) (hopen : s.opened h = true) :
    ¬ Lends fd h p buf (fdPath path lastError s fd buf) ∧
      (fdPath path lastError s fd buf).state.crt fd = some h ∧
      (fdPath path lastError s fd buf).state.opened h = false ∧
      (path h = .str p → (fdPath path lastError s fd buf).res = .ok () ∧
        (p ++ [0] <+: (fdPath path lastError s fd buf).buf ↔ p.length < buf.length)) := by
  obtain ⟨hcrt, hclosed⟩ := drop_fromRawFd hfd hopen
  rw [fdPath_state]
  refine ⟨?_, by rw [hcrt, hfd], hclosed, ?_⟩
  · intro hlends
    have hstill := hlends.opened
    rw [fdPath_state, hclosed] at hstill
    cases hstill
  · intro hpath
    simp only [fdPath, objectPath_fromRawFd hfd, hpath]
    exact ⟨trivial, copyPath_iff⟩

/-- Descriptor 3 is open on a file with the path `C:`, and the buffer has two bytes. -/
def shortBuffer : Outcome :=
  fdPath (fun _ => .str [0x43, 0x3A]) 0 (step init (.openFd 3 100)) 3 [7, 7]

theorem fdPath_closes_shortBuffer :
    ¬ Lends 3 100 [0x43, 0x3A] [7, 7] shortBuffer ∧ shortBuffer.state.crt 3 = some 100 ∧
      shortBuffer.state.opened 100 = false := by
  have hcloses : ¬ Lends 3 100 [0x43, 0x3A] [7, 7] shortBuffer ∧
      shortBuffer.state.crt 3 = some 100 ∧ shortBuffer.state.opened 100 = false ∧ _ :=
    fdPath_closes rfl rfl
  exact ⟨hcloses.1, hcloses.2.1, hcloses.2.2.1⟩

/-- The call succeeds with half of the path, and closes the handle. -/
theorem fdPath_shortBuffer :
    ¬ Lends 3 100 [0x43, 0x3A] [7, 7] shortBuffer ∧ shortBuffer.res = .ok () ∧
      shortBuffer.buf = [0x43, 0] ∧ shortBuffer.state.opened 100 = false := by
  refine ⟨?_, rfl, rfl, rfl⟩
  intro hlends
  have hstill := hlends.opened
  cases hstill

end LibcCompat.WinsupRs
