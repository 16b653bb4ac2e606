/-
# `LibcCompat.Winsup.FinalPath` — `__fd_get_path`, with its buffer

`fdGetPath` of `Winsup.Link` works on the path alone.  Here is the function with the
buffer it works in, of `PATH_MAX` bytes, and what memory held before
(`fdGetPathIn`); `fdGetPathIn_refines` says that both do the same.

## What is proved

Where Windows reports a path for the descriptor, the buffer comes back with its
normal form, and no byte was used that was not stored, exactly if the path has
fewer than `PATH_MAX` bytes and the buffer is there (`fdGetPathIn_gives_iff`).
A path that does not fit is no failure for the function: `GetFinalPathNameByHandle`
returns the size it needs, which is not 0, and the unfilled buffer is read.
-/
import LibcCompat.Lib.Cells
import LibcCompat.Winsup.LstatReadlink

namespace LibcCompat.Winsup

open LibcCompat.Lib

variable (E : Env) (garbage : Nat → UInt8)

/-- What `malloc(PATH_MAX)` returns: memory as it was. -/
def mallocBuffer : Buffer := ⟨(List.range PATH_MAX).map fun i => ⟨garbage i, false⟩, false⟩

/-- `GetFinalPathNameByHandle` on a buffer: the length of the path if it fits with
its terminator, or else the size it needs, and nothing is stored. -/
def reportPath (p : Path) (buf : Buffer) : Nat × Buffer :=
  if p.length < buf.cells.length then (p.length, buf.fill (p ++ [0])) else (p.length + 1, buf)

/-- `GetFinalPathNameByHandle`; it returns 0 if it fails. -/
def finalPathNameInto (h : Handle) (buf : Buffer) : Prog Win (Nat × Buffer) := do
  match ← query E h with
  | none => return (0, buf)
  | some o =>
      if o.finalPath = [] then
        setLastError ERROR_PATH_NOT_FOUND
        return (0, buf)
      else return reportPath o.finalPath buf

/-- `__fd_get_path`, from the call of `strlen` on. -/
def normalise (buf : Buffer) : Option Buffer := do
  let (bufLen, buf) ← buf.strlen
  let (isUnc, buf) ← buf.startsWith uncPrefix
  if isUnc then
    let pathLen := bufLen - 8
    let buf ← buf.memmove 2 8 pathLen
    buf.store (pathLen + 2) 0
  else
    let (isLong, buf) ← buf.startsWith longPrefix
    if isLong then
      let pathLen := bufLen - 4
      let buf ← buf.memmove 0 4 pathLen
      buf.store pathLen 0
    else return buf

/-- `__fd_get_path`. -/
def fdGetPathIn (fd : Fd) : Prog Win (Option Buffer) := do
  match ← getOsfhandle fd with
  | none =>
      setLastError ERROR_INVALID_HANDLE
      return none
  | some h =>
      if ← malloc E then
        let (len, buf) ← finalPathNameInto E h (mallocBuffer garbage)
        if len = 0 then return none
        else
          match normalise buf with
          | none => throw .undefined
          | some buf => return some buf
      else return none

/-! ## The property -/

/-- A path without the prefix of an extended path. -/
inductive NormalForm : Path → Path → Prop
  | unc (s : Path) : NormalForm (uncPrefix ++ s) ([0x5C, 0x5C] ++ s)
  | long {d : Path} (h : ¬ uncPrefix <+: longPrefix ++ d) : NormalForm (longPrefix ++ d) d
  | plain {p : Path} (h : ¬ longPrefix <+: p) : NormalForm p p

/-- The buffer holds the normal form of `p`, and none of its bytes was used that
was not stored. -/
structure HoldsPath (p : Path) (buf : Buffer) : Prop where
  string : ∃ q, NormalForm p q ∧ HoldsString buf.bytes q
  size : buf.cells.length = PATH_MAX
  filled : buf.blank = false

/-- The call returns `NULL` and leaves an error, whatever the last one was before. -/
def RefusesPath (fd : Fd) (s : Win) : Prop :=
  ∃ e, e ≠ NO_ERROR ∧ ∀ e₀, ∃ t,
    fdGetPathIn E garbage fd { s with lastError := e₀ } = .ok none t ∧ t.lastError = e

/-- What `__fd_get_path` should do for a descriptor with the path `p`. -/
def GivesPath (fd : Fd) (s : Win) (p : Path) : Prop :=
  (∃ buf t, fdGetPathIn E garbage fd s = .ok (some buf) t ∧ HoldsPath p buf) ∨
    PATH_MAX ≤ p.length ∧ RefusesPath E garbage fd s

/-- Windows reports a path for the descriptor: its handle is open, and the call does
not fail. -/
structure Reports (fd : Fd) (s : Win) (h : Handle) (o : Object) : Prop where
  bound : s.crt fd = some h
  opened : s.handles h = some o
  answered : E.fails (s.calls + 1) = none
  named : o.finalPath ≠ []
  string : 0 ∉ o.finalPath

/-! ## The normal form -/

theorem longPrefix_of_uncPrefix {p : Path} (h : uncPrefix <+: p) : longPrefix <+: p :=
  (show longPrefix <+: uncPrefix from ⟨[0x55, 0x4E, 0x43, 0x5C], rfl⟩).trans h

theorem stripPrefix_unc {p : Path} (h : uncPrefix <+: p) :
    stripPrefix p = p.take 2 ++ p.drop 8 :=
  if_pos (List.prefix_iff_eq_take.mp h).symm

theorem stripPrefix_long {p : Path} (hunc : ¬ uncPrefix <+: p) (h : longPrefix <+: p) :
    stripPrefix p = p.drop 4 := by
  rw [stripPrefix, if_neg fun heq => hunc (List.prefix_iff_eq_take.mpr heq.symm)]
  exact if_pos (List.prefix_iff_eq_take.mp h).symm

theorem stripPrefix_plain {p : Path} (h : ¬ longPrefix <+: p) : stripPrefix p = p := by
  rw [stripPrefix,
    if_neg fun heq => h (longPrefix_of_uncPrefix (List.prefix_iff_eq_take.mpr heq.symm)),
    if_neg fun heq => h (List.prefix_iff_eq_take.mpr heq.symm)]

theorem normalForm_iff {p q : Path} : NormalForm p q ↔ q = stripPrefix p := by
  constructor
  · intro h
    cases h with
    | unc s => exact (stripPrefix_unc (List.prefix_append _ s)).symm
    | long h => exact (stripPrefix_long h (List.prefix_append _ q)).symm
    | plain h => exact (stripPrefix_plain h).symm
  · rintro rfl
    by_cases hlong : longPrefix <+: p
    · by_cases hunc : uncPrefix <+: p
      · obtain ⟨s, rfl⟩ := hunc
        exact stripPrefix_unc (List.prefix_append _ s) ▸ .unc s
      · obtain ⟨d, rfl⟩ := hlong
        exact stripPrefix_long hunc (List.prefix_append _ d) ▸ .long hunc
    · exact (stripPrefix_plain hlong).symm ▸ .plain hlong

/-! ## Inside the buffer -/

section
variable {b : Buffer} {s : Path}

/-- A string in the buffer is replaced by what `fdGetPath` leaves of it; all that was
looked at is the string. -/
theorem normalise_eq (h : HoldsString b.bytes s) :
    ∃ b', normalise b = some b' ∧ HoldsString b'.bytes (stripPrefix s) ∧
      b'.cells.length = b.cells.length ∧ b'.blank = (b.look (s.length + 1)).blank := by
  have hlook : HoldsString (b.look (s.length + 1)).bytes s := h
  simp only [normalise, Buffer.strlen_eq h, Option.bind_eq_bind, Option.bind_some,
    Buffer.startsWith_look h (show 0 ∉ uncPrefix by decide),
    Buffer.startsWith_look h (show 0 ∉ longPrefix by decide), decide_eq_true_eq]
  by_cases hunc : uncPrefix <+: s
  · obtain ⟨b₁, b₂, hmove, hstore, hholds, hsize, hblank⟩ :=
      Buffer.cut hlook (show 2 ≤ 8 by decide) hunc.length_le
    rw [if_pos hunc, hmove, stripPrefix_unc hunc]
    exact ⟨b₂, hstore, hholds, hsize, hblank⟩
  · rw [if_neg hunc]
    by_cases hlong : longPrefix <+: s
    · obtain ⟨b₁, b₂, hmove, hstore, hholds, hsize, hblank⟩ :=
        Buffer.cut hlook (Nat.zero_le 4) hlong.length_le
      rw [if_pos hlong, hmove, stripPrefix_long hunc hlong]
      exact ⟨b₂, hstore, hholds, hsize, hblank⟩
    · rw [if_neg hlong, stripPrefix_plain hlong]
      exact ⟨_, rfl, hlook, rfl, rfl⟩

theorem normalise_endless (h : cString b.bytes = none) : normalise b = none := by
  have hlen : strlen b.bytes = none := Option.map_eq_none_iff.mp h
  simp only [normalise, Buffer.strlen, hlen, Option.map_none, Option.bind_eq_bind,
    Option.bind_none]

end

/-! ## The call -/

section
variable {garbage}

theorem mallocBuffer_length : (mallocBuffer garbage).cells.length = PATH_MAX := by
  rw [mallocBuffer, List.length_map, List.length_range]

/-- Whoever looks at an unfilled buffer sees a byte that was not stored. -/
theorem mallocBuffer_look (n : Nat) : ((mallocBuffer garbage).look (n + 1)).blank = true := by
  refine List.any_eq_true.mpr ⟨⟨garbage 0, false⟩, ?_, rfl⟩
  have hcells : (mallocBuffer garbage).cells =
      ⟨garbage 0, false⟩ :: (List.range 259).map fun i => ⟨garbage (i + 1), false⟩ := by
    rw [mallocBuffer, show PATH_MAX = 259 + 1 from rfl, List.range_succ_eq_map, List.map_cons,
      List.map_map]
    rfl
  rw [hcells, List.take_succ_cons]
  exact List.mem_cons_self

variable {p : Path}

theorem reportPath_ne_zero (hp : p ≠ []) (buf : Buffer) : (reportPath p buf).1 ≠ 0 := by
  unfold reportPath
  split
  · exact fun hzero => hp (List.eq_nil_of_length_eq_zero hzero)
  · exact Nat.succ_ne_zero _

theorem reportPath_fits (h : p.length < PATH_MAX) :
    (reportPath p (mallocBuffer garbage)).2 = (mallocBuffer garbage).fill (p ++ [0]) := by
  rw [reportPath, if_pos (by rw [mallocBuffer_length]; exact h)]

theorem reportPath_unfit (h : PATH_MAX ≤ p.length) :
    (reportPath p (mallocBuffer garbage)).2 = mallocBuffer garbage := by
  rw [reportPath, if_neg (by rw [mallocBuffer_length]; omega)]

theorem normalise_fits (garbage : Nat → UInt8) (hstring : 0 ∉ p) (hfits : p.length < PATH_MAX) :
    ∃ buf, normalise (reportPath p (mallocBuffer garbage)).2 = some buf ∧ HoldsPath p buf ∧
      HoldsString buf.bytes (stripPrefix p) := by
  have hlen : (p ++ [(0 : UInt8)]).length = p.length + 1 := List.length_append
  obtain ⟨buf, heq, hholds, hsize, hblank⟩ :=
    normalise_eq (Buffer.fill_holds (b := mallocBuffer garbage) hstring)
  rw [reportPath_fits hfits]
  refine ⟨buf, heq, ⟨⟨_, normalForm_iff.mpr rfl, hholds⟩, hsize.trans ?_, hblank.trans ?_⟩, hholds⟩
  · rw [Buffer.fill_length (by rw [hlen, mallocBuffer_length]; exact hfits), mallocBuffer_length]
  · have hseen : ((mallocBuffer garbage).fill (p ++ [0])).blankIn (p ++ [0]).length = false :=
      Buffer.fill_blankIn
    rw [hlen] at hseen
    rw [Buffer.look, hseen]
    rfl

end

section
variable {E garbage} {fd : Fd} {s : Win} {h : Handle} {o : Object}

theorem query_closed (hopen : s.handles h = none) (hok : E.fails s.calls = none) :
    query E h s =
      .ok none { s with lastError := ERROR_INVALID_HANDLE, calls := s.calls + 1 } := by
  simp only [query, attempt, hok, hopen]

theorem fdGetPathIn_noMemory (hfd : s.crt fd = some h) {e : WinErr}
    (hfail : E.fails s.calls = some e) :
    fdGetPathIn E garbage fd s = .ok none { s with errno := .ENOMEM, calls := s.calls + 1 } := by
  simp only [fdGetPathIn, bind_apply, getOsfhandle_eq hfd, malloc_fails hfail, Bool.false_eq_true,
    if_false, pure_apply]

theorem fdGetPathIn_reports (hr : Reports E fd s h o) (hm : E.fails s.calls = none) :
    fdGetPathIn E garbage fd s =
      match normalise (reportPath o.finalPath (mallocBuffer garbage)).2 with
      | none => .error .undefined { s with calls := s.calls + 2 }
      | some buf => .ok (some buf) { s with calls := s.calls + 2 } := by
  have hquery : query E h { s with calls := s.calls + 1 } = _ := query_ok hr.opened hr.answered
  simp only [fdGetPathIn, finalPathNameInto, bind_apply, getOsfhandle_eq hr.bound, malloc_ok hm,
    if_true, hquery, if_neg hr.named, pure_apply, if_neg (reportPath_ne_zero hr.named _)]
  cases normalise (reportPath o.finalPath (mallocBuffer garbage)).2 with
  | none => rfl
  | some buf => rfl

theorem fdGetPathIn_fits (hr : Reports E fd s h o) (hm : E.fails s.calls = none)
    (hfits : o.finalPath.length < PATH_MAX) : GivesPath E garbage fd s o.finalPath := by
  obtain ⟨buf, heq, hholds, -⟩ := normalise_fits garbage hr.string hfits
  have hrun : fdGetPathIn E garbage fd s = _ := fdGetPathIn_reports hr hm
  rw [heq] at hrun
  exact .inl ⟨buf, _, hrun, hholds⟩

/-- Where the path does not fit, the function reads what memory held before, and
returns that if it ends within the buffer. -/
theorem fdGetPathIn_unfit (garbage : Nat → UInt8) (hr : Reports E fd s h o)
    (hm : E.fails s.calls = none) (hlong : PATH_MAX ≤ o.finalPath.length) :
    (∃ t, fdGetPathIn E garbage fd s = .error .undefined t) ∨
      ∃ buf t, fdGetPathIn E garbage fd s = .ok (some buf) t ∧ buf.blank = true := by
  rw [fdGetPathIn_reports hr hm, reportPath_unfit hlong]
  cases hfound : cString (mallocBuffer garbage).bytes with
  | none =>
      rw [normalise_endless hfound]
      exact .inl ⟨_, rfl⟩
  | some found =>
      obtain ⟨buf, heq, -, -, hblank⟩ := normalise_eq (holdsString_of_cString hfound)
      rw [heq]
      exact .inr ⟨buf, _, rfl, hblank.trans (mallocBuffer_look _)⟩

theorem not_givesPath_of_unfit (hr : Reports E fd s h o) (hm : E.fails s.calls = none)
    (hlong : PATH_MAX ≤ o.finalPath.length) : ¬ GivesPath E garbage fd s o.finalPath := by
  rintro (⟨buf, t, hrun, hholds⟩ | ⟨-, e, -, hall⟩)
  · rcases fdGetPathIn_unfit garbage hr hm hlong with
      ⟨t', herror⟩ | ⟨buf', t', hok, hblank⟩
    · cases hrun.symm.trans herror
    · cases hrun.symm.trans hok
      exact Bool.false_ne_true (hholds.filled.symm.trans hblank)
  · obtain ⟨t, hrun, -⟩ := hall s.lastError
    change fdGetPathIn E garbage fd s = _ at hrun
    rcases fdGetPathIn_unfit garbage hr hm hlong with
      ⟨t', herror⟩ | ⟨buf', t', hok, -⟩
    · cases hrun.symm.trans herror
    · cases hrun.symm.trans hok

/-- `malloc` leaves no last error. -/
theorem not_givesPath_of_noMemory (hfd : s.crt fd = some h) {e : WinErr}
    (hfail : E.fails s.calls = some e) (p : Path) : ¬ GivesPath E garbage fd s p := by
  rintro (⟨buf, t, hrun, -⟩ | ⟨-, e', hne, hall⟩)
  · cases hrun.symm.trans (fdGetPathIn_noMemory hfd hfail)
  · obtain ⟨t, hrun, hlast⟩ := hall NO_ERROR
    have hnull : fdGetPathIn E garbage fd { s with lastError := NO_ERROR } = _ :=
      fdGetPathIn_noMemory hfd hfail
    cases hrun.symm.trans hnull
    exact hne hlast.symm

/-! ## The path alone -/

/-- One call returns a path, and the other a buffer that holds it. -/
def SameResult : EStateM.Result Stop Win (Option Path) → EStateM.Result Stop Win (Option Buffer) →
    Prop
  | .ok none t, .ok none u => u = t
  | .ok (some p) t, .ok (some buf) u => u = t ∧ HoldsString buf.bytes p
  | .error e t, .error e' u => e' = e ∧ u = t
  | _, _ => False

theorem sameResult_reports (hr : Reports E fd s h o) (hm : E.fails s.calls = none)
    (huninit : E.uninit (s.calls + 2) = cString (mallocBuffer garbage).bytes) :
    SameResult (fdGetPath E fd s) (fdGetPathIn E garbage fd s) := by
  have hquery : query E h { s with calls := s.calls + 1 } = _ := query_ok hr.opened hr.answered
  simp only [fdGetPathIn_reports hr hm, fdGetPath, getFinalPathNameByHandle, bind_apply,
    getOsfhandle_eq hr.bound, malloc_ok hm, if_true, hquery, if_neg hr.named]
  rcases Nat.lt_or_ge o.finalPath.length PATH_MAX with hfits | hlong
  · obtain ⟨buf, heq, -, hholds⟩ := normalise_fits garbage hr.string hfits
    simp only [if_pos hfits, pure_apply, heq]
    exact ⟨rfl, hholds⟩
  · simp only [if_neg (Nat.not_lt.mpr hlong), bind_apply, readUninit, huninit,
      reportPath_unfit hlong]
    cases hfound : cString (mallocBuffer garbage).bytes with
    | none =>
        simp only [normalise_endless hfound]
        exact ⟨rfl, rfl⟩
    | some found =>
        obtain ⟨buf, heq, hholds, -⟩ := normalise_eq (holdsString_of_cString hfound)
        simp only [pure_apply, heq]
        exact ⟨rfl, hholds⟩

theorem sameResult_unreported (hfd : s.crt fd = some h) (hm : E.fails s.calls = none) {t : Win}
    (hquery : query E h { s with calls := s.calls + 1 } = .ok none t) :
    SameResult (fdGetPath E fd s) (fdGetPathIn E garbage fd s) := by
  simp only [fdGetPath, fdGetPathIn, getFinalPathNameByHandle, finalPathNameInto, bind_apply,
    getOsfhandle_eq hfd, malloc_ok hm, if_true, hquery, pure_apply, SameResult]

/-- **The buffer holds the path.**  If memory held the string that `fdGetPath` finds
there, the two functions do the same. -/
theorem fdGetPathIn_refines
    (huninit : E.uninit (s.calls + 2) = cString (mallocBuffer garbage).bytes)
    (hstring : ∀ h o, s.crt fd = some h → s.handles h = some o → 0 ∉ o.finalPath) :
    SameResult (fdGetPath E fd s) (fdGetPathIn E garbage fd s) := by
  cases hfd : s.crt fd with
  | none =>
      simp only [fdGetPath, fdGetPathIn, bind_apply, getOsfhandle, hfd, setLastError,
        modify_apply, pure_apply, SameResult]
  | some h =>
      cases hm : E.fails s.calls with
      | some e =>
          simp only [fdGetPathIn_noMemory hfd hm, fdGetPath, bind_apply, getOsfhandle_eq hfd,
            malloc_fails hm, Bool.false_eq_true, if_false, pure_apply, SameResult]
      | none =>
          cases hq : E.fails (s.calls + 1) with
          | some e => exact sameResult_unreported hfd hm (query_fails hq)
          | none =>
              cases hopen : s.handles h with
              | none => exact sameResult_unreported hfd hm (query_closed hopen hq)
              | some o =>
                  have hquery : query E h { s with calls := s.calls + 1 } = _ :=
                    query_ok hopen hq
                  by_cases hname : o.finalPath = []
                  · simp only [fdGetPath, fdGetPathIn, getFinalPathNameByHandle,
                      finalPathNameInto, bind_apply, getOsfhandle_eq hfd, malloc_ok hm, if_true,
                      hquery, hname, failWith, setLastError, modify_apply, pure_apply, SameResult]
                  · exact sameResult_reports ⟨hfd, hopen, hq, hname, hstring h o hfd hopen⟩ hm
                      huninit

/-- **The path of a descriptor.**  Where Windows reports a path, the function does what
it should exactly if it gets its buffer and the path fits. -/
theorem fdGetPathIn_gives_iff (hr : Reports E fd s h o) :
    GivesPath E garbage fd s o.finalPath ↔
      E.fails s.calls = none ∧ o.finalPath.length < PATH_MAX := by
  cases hm : E.fails s.calls with
  | some e =>
      refine iff_of_false (not_givesPath_of_noMemory hr.bound hm o.finalPath) ?_
      rintro ⟨⟨⟩, -⟩
  | none =>
      rcases Nat.lt_or_ge o.finalPath.length PATH_MAX with hfits | hlong
      · exact iff_of_true (fdGetPathIn_fits hr hm hfits) ⟨rfl, hfits⟩
      · refine iff_of_false (not_givesPath_of_unfit hr hm hlong) ?_
        rintro ⟨-, hlt⟩
        exact absurd hlt (Nat.not_lt.mpr hlong)

end

/-- `\\\\?\\UNC\\a\\b` -/
def aShare : Object := { aFile with finalPath := uncPrefix ++ [0x61, 0x5C, 0x62] }

/-- Descriptor 3 is a file on a share. -/
def aShareReader : Win := { aProcess with
  crt := Function.update aProcess.crt 3 (some 4)
  handles := Function.update aProcess.handles 4 (some aShare) }

theorem fdGetPathIn_gives_iff_aShare :
    GivesPath aFolder (fun _ => 0) 3 aShareReader aShare.finalPath := by
  have hr : Reports aFolder 3 aShareReader 4 aShare := ⟨rfl, rfl, rfl, by decide, by decide⟩
  exact (fdGetPathIn_gives_iff hr).mpr ⟨rfl, by decide⟩

/-- A file with a path of 300 bytes. -/
def aDeepFile : Object := { aFile with finalPath := List.replicate 300 0x61 }

/-- Descriptor 3 is that file. -/
def aDeepReader : Win := { aProcess with
  crt := Function.update aProcess.crt 3 (some 4)
  handles := Function.update aProcess.handles 4 (some aDeepFile) }

/-- The path does not fit, and the call does not fail. -/
theorem fdGetPathIn_aDeepReader :
    Reports aFolder 3 aDeepReader 4 aDeepFile ∧ aFolder.fails aDeepReader.calls = none ∧
      ¬ GivesPath aFolder (fun _ => 0) 3 aDeepReader aDeepFile.finalPath := by
  have hlen : aDeepFile.finalPath.length = 300 := List.length_replicate
  have hr : Reports aFolder 3 aDeepReader 4 aDeepFile := by
    refine ⟨rfl, rfl, rfl, fun hnil => ?_, fun hmem => ?_⟩
    · exact absurd (hnil ▸ hlen) (by decide)
    · exact absurd (List.eq_of_mem_replicate hmem) (by decide)
  refine ⟨hr, rfl, not_givesPath_of_unfit hr rfl ?_⟩
  rw [hlen]
  decide

end LibcCompat.Winsup
