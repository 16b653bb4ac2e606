/-
# `LibcCompat.Winsup.Faccessat` — what `faccessat` reports without following links

It asks `fstatat` and compares the mode with the request.  A failure of `fstatat`
is passed on, with its `errno`.  A request that is denied is answered with -1 and
nothing else: `errno` is what `fstatat` left, and a successful `fstatat` leaves
what it found.

What is proved: the answer and `errno` are as they should be, whatever `errno`
was before, exactly if `fstatat` comes back and either fails, or gives a mode
that grants the request, or happens to leave `EACCES` (`faccessat_reports_iff`).
-/
import LibcCompat.Lib.Frame
import LibcCompat.Winsup.NoLeak
import LibcCompat.Winsup.PriorErrno

namespace LibcCompat.Winsup

open LibcCompat.Lib

def EACCES : Errno := .other 13

/-- Each permission asked for is there for the user, the group or the others. -/
structure Permits (stMode : ModeT) (mode : UInt32) : Prop where
  read : mode &&& R_OK ≠ 0 → stMode &&& (S_IRUSR ||| S_IRGRP ||| S_IROTH) ≠ 0
  write : mode &&& W_OK ≠ 0 → stMode &&& (S_IWUSR ||| S_IWGRP ||| S_IWOTH) ≠ 0
  execute : mode &&& X_OK ≠ 0 → stMode &&& (S_IXUSR ||| S_IXGRP ||| S_IXOTH) ≠ 0

/-- What is expected of the answer `res`, given in state `u`, where `fstatat`
gives `found` in state `t`. -/
structure Reported (mode : UInt32) (found : Answer) (t : Win) (res : Answer) (u : Win) :
    Prop where
  granted_iff : res.ret = 0 ↔ 0 ≤ found.ret ∧ Permits found.stat.mode mode
  denied : res.ret ≠ 0 → res.ret = -1
  errno : res.ret ≠ 0 → u.errno = if found.ret < 0 then t.errno else EACCES

variable (E : Env) (b : Build) (m : Heap) (dirfd : Fd) (path : Path)

/-- `fstatat` of a name, where `errno` was `e`. -/
def statAfter (e : Errno) (s : Win) : EStateM.Result Stop Win Answer :=
  fstatat (winSys E b) m dirfd path AT_SYMLINK_NOFOLLOW { s with errno := e }

/-- `faccessat` of a name, where `errno` was `e`. -/
def accessAfter (mode : UInt32) (e : Errno) (s : Win) : EStateM.Result Stop Win Answer :=
  faccessat (winSys E b) m dirfd path mode AT_SYMLINK_NOFOLLOW { s with errno := e }

/-- The call reports what it should, and its `errno` does not depend on the one
before. -/
def AccessReported (mode : UInt32) (s : Win) : Prop :=
  ∃ err, ∀ e, ∃ found t res u,
    statAfter E b m dirfd path e s = .ok found t ∧
      accessAfter E b m dirfd path mode e s = .ok res u ∧
      Reported mode found t res u ∧ (res.ret ≠ 0 → u.errno = err)

/-- `fstatat` fails, or there is nothing to deny, or `errno` is right by chance. -/
def NothingDenied (mode : UInt32) (s : Win) : Prop :=
  ∃ found t, fstatat (winSys E b) m dirfd path AT_SYMLINK_NOFOLLOW s = .ok found t ∧
    (found.ret < 0 ∨ Permits found.stat.mode mode ∨
      ∀ e, ∃ u, statAfter E b m dirfd path e s = .ok found u ∧ u.errno = EACCES)

/-! ## The comparison -/

theorem one_granted {asked : UInt32} {bits : ModeT} :
    (!(asked != 0 && bits == 0)) = true ↔ (asked ≠ 0 → bits ≠ 0) := by
  rw [Bool.not_eq_true', Bool.and_eq_false_iff, bne_eq_false_iff_eq, beq_eq_false_iff_ne]
  exact Decidable.or_iff_not_imp_left

theorem grants_iff {stMode : ModeT} {mode : UInt32} :
    grants stMode mode = true ↔ Permits stMode mode := by
  rw [grants, Bool.and_eq_true, Bool.and_eq_true, one_granted, one_granted, one_granted]
  constructor
  · rintro ⟨⟨hread, hwrite⟩, hexecute⟩
    exact ⟨hread, hwrite, hexecute⟩
  · rintro ⟨hread, hwrite, hexecute⟩
    exact ⟨⟨hread, hwrite⟩, hexecute⟩

theorem accessOf_granted {mode : UInt32} {found : Answer} (hret : 0 ≤ found.ret)
    (hgrants : Permits found.stat.mode mode) : accessOf mode found = .of 0 := by
  rw [accessOf, if_neg (Int.not_lt.mpr hret), if_pos (grants_iff.mpr hgrants)]

theorem accessOf_denied {mode : UInt32} {found : Answer}
    (h : ¬ (0 ≤ found.ret ∧ Permits found.stat.mode mode)) : accessOf mode found = failed := by
  rw [accessOf]
  split
  · rfl
  · next hret =>
      rw [if_neg fun hgrants => h ⟨Int.not_lt.mp hret, grants_iff.mp hgrants⟩]

/-- The answer is always right; it is `errno` that may not be. -/
theorem reported_iff {mode : UInt32} {found : Answer} {t : Win} :
    Reported mode found t (accessOf mode found) t ↔
      found.ret < 0 ∨ Permits found.stat.mode mode ∨ t.errno = EACCES := by
  by_cases hret : found.ret < 0
  · refine iff_of_true ?_ (.inl hret)
    have hdenied : accessOf mode found = failed :=
      accessOf_denied fun h => Int.not_le.mpr hret h.1
    rw [hdenied]
    refine ⟨iff_of_false (by decide) fun h => Int.not_le.mpr hret h.1, fun _ => rfl, fun _ => ?_⟩
    rw [if_pos hret]
  · by_cases hgrants : Permits found.stat.mode mode
    · refine iff_of_true ?_ (.inr (.inl hgrants))
      rw [accessOf_granted (Int.not_lt.mp hret) hgrants]
      exact ⟨iff_of_true rfl ⟨Int.not_lt.mp hret, hgrants⟩, fun h => absurd rfl h,
        fun h => absurd rfl h⟩
    · rw [accessOf_denied fun h => hgrants h.2]
      constructor
      · intro h
        have herrno := h.errno (by decide)
        rw [if_neg hret] at herrno
        exact .inr (.inr herrno)
      · rintro (h | h | h)
        · exact absurd h hret
        · exact absurd h hgrants
        · refine ⟨iff_of_false (by decide) fun h => hgrants h.2, fun _ => rfl, fun _ => ?_⟩
          rw [if_neg hret, h]

/-! ## Whatever `errno` was before -/

section
variable {E b m dirfd path} {mode : UInt32} {s t : Win} {found : Answer}

theorem accessAfter_eq {e : Errno} (h : statAfter E b m dirfd path e s = .ok found t) :
    accessAfter E b m dirfd path mode e s = .ok (accessOf mode found) t := by
  rw [accessAfter, faccessat, if_pos rfl, bind_apply]
  rw [statAfter] at h
  rw [h]
  rfl

/-- A call that comes back comes back with the same, and if it fails, with the
same `errno`. -/
theorem statAfter_any
    (h : fstatat (winSys E b) m dirfd path AT_SYMLINK_NOFOLLOW s = .ok found t) (e : Errno) :
    ∃ u, statAfter E b m dirfd path e s = .ok found u ∧ (found.ret < 0 → t = u) := by
  have hsame : s.butErrno = ({ s with errno := e } : Win).butErrno := rfl
  obtain ⟨u, hrun, -, hset⟩ := (fstatat_blind b m dirfd path).ok hsame h
  exact ⟨u, hrun, hset⟩

end

/-- **`faccessat` without following links.**  It reports what it should, whatever
`errno` was before, exactly if there is nothing to deny. -/
theorem faccessat_reports_iff (mode : UInt32) (s : Win) :
    AccessReported E b m dirfd path mode s ↔ NothingDenied E b m dirfd path mode s := by
  constructor
  · rintro ⟨err, hall⟩
    obtain ⟨found, t, -, -, hstat, -⟩ := hall s.errno
    refine ⟨found, t, hstat, ?_⟩
    by_cases hret : found.ret < 0
    · exact .inl hret
    · by_cases hgrants : Permits found.stat.mode mode
      · exact .inr (.inl hgrants)
      · refine .inr (.inr fun e => ?_)
        obtain ⟨found', u, res, v, hstat', haccess, hreported, -⟩ := hall e
        obtain ⟨u', hrun, -⟩ := statAfter_any hstat e
        rw [hrun] at hstat'
        cases hstat'
        rw [accessAfter_eq hrun] at haccess
        cases haccess
        refine ⟨u, hrun, ?_⟩
        exact ((reported_iff.mp hreported).resolve_left hret).resolve_left hgrants
  · rintro ⟨found, t, hstat, hgood⟩
    refine ⟨if found.ret < 0 then t.errno else EACCES, fun e => ?_⟩
    obtain ⟨u, hrun, hset⟩ := statAfter_any hstat e
    have hreported : Reported mode found u (accessOf mode found) u := by
      refine reported_iff.mpr ?_
      rcases hgood with hret | hgrants | hchance
      · exact .inl hret
      · exact .inr (.inl hgrants)
      · obtain ⟨u', hrun', herrno⟩ := hchance e
        rw [hrun] at hrun'
        cases hrun'
        exact .inr (.inr herrno)
    refine ⟨found, u, _, u, hrun, accessAfter_eq hrun, hreported, fun hne => ?_⟩
    rw [hreported.errno hne]
    split
    · next hret => rw [hset hret]
    · rfl

/-- A drive with a file `f`, which is not executable. -/
def aDrive : Env := { aFolder with
  pathIsRelative := fun path => path.head? != some 0x5C
  object := fun _ path => if path = [0x5C, 0x66] then some aFile else none }

/-- Execution is denied, and `errno` is still 0. -/
theorem faccessat_keepsErrno :
    ¬ AccessReported aDrive .debug ⟨true, some 0⟩ 0 [0x5C, 0x66] X_OK aProcess := by
  rintro ⟨err, hall⟩
  obtain ⟨found, t, res, u, hstat, haccess, hreported, -⟩ := hall (.other 0)
  have hfound : after (fun s => statAfter aDrive .debug ⟨true, some 0⟩ 0 [0x5C, 0x66] (.other 0) s)
      (fun found _ => found.ret == 0) aProcess = true := by decide +kernel
  have hdenied : after (fun s =>
        accessAfter aDrive .debug ⟨true, some 0⟩ 0 [0x5C, 0x66] X_OK (.other 0) s)
      (fun res u => res.ret == -1 && u.errno == .other 0) aProcess = true := by decide +kernel
  rw [after_of_ok hstat, beq_iff_eq] at hfound
  rw [after_of_ok haccess, Bool.and_eq_true, beq_iff_eq, beq_iff_eq] at hdenied
  have herrno := hreported.errno (by rw [hdenied.1]; decide)
  rw [hfound, if_neg (by decide), hdenied.2] at herrno
  revert herrno
  decide

end LibcCompat.Winsup
