/-
# `LibcCompat.Winsup.LstatReadlink` — whether `lstat` and `readlink` agree

`lstat` calls a link what has the reparse attribute.  `readlink` reads a link
that has the tag of one, and the length it returns is that of more characters
than the name has: `WideCharToMultiByte` is handed a number of bytes.

What is proved: on a path that both can open they agree, if the object is no
reparse point; and if it is one, then only by failing both.
-/
import LibcCompat.Winsup.NoLeak

namespace LibcCompat.Winsup

open LibcCompat.Lib

/-! ## Agreement -/

/-- What `lstat` says: the file type is that of a link. -/
def Answer.reportsLink (a : Answer) : Bool := a.ret == 0 && isLnk a.stat.mode

variable (E : Env)

/-- The target of a link. -/
def Reparse.target (r : Reparse) : Option (List UInt8) :=
  r.name.map fun (wsPtr, wsLen) => E.codePage.conv (r.chars wsPtr (wsLen / 2))

def Object.targetLength (o : Object) : Option Int :=
  (o.reparse.bind (Reparse.target E)).map fun target => target.length

/-- The answers of `lstat` and `readlink` agree: both or none has a link, and its
size is the length of the target. -/
def AnswersAgree (o : Object) (lstat readlink : Answer) : Prop :=
  (lstat.reportsLink = true ↔ 0 ≤ readlink.ret) ∧
    (lstat.reportsLink = true →
      lstat.stat.size = readlink.ret ∧ o.targetLength E = some readlink.ret)

instance (o : Object) (lstat readlink : Answer) : Decidable (AnswersAgree E o lstat readlink) :=
  inferInstanceAs (Decidable (_ ∧ _))

/-- Both come back, and agree.  They need not be called in the same state. -/
def agree (b : Build) (o : Object) (path : Path) (s s' : Win) : Bool :=
  after (lstat E b path)
    (fun found _ => after (readlink E b path PATH_MAX)
      (fun read _ => decide (AnswersAgree E o found read)) s') s

/-! ## Failures after the open

The platform calls of `lstat` and of `readlink` are counted from the open on. -/

/-- `lstat` reads a buffer that Windows did not fill, and that has no end. -/
def stops (o : Object) (n : Nat) : Bool :=
  (E.fails n).isNone && (E.fails (n + 1)).isNone && (E.fails (n + 2)).isNone &&
    PATH_MAX ≤ o.finalPath.length && (E.uninit (n + 3)).isNone

/-- The call that asks for the type; without a buffer the path is not asked for. -/
def typeQuery (n : Nat) : Nat := if (E.fails (n + 1)).isSome then n + 2 else n + 3

/-- The last error once `__fd_get_path` has asked for the path of an open
descriptor, after `n` calls and an error before them. -/
def pathError (o : Object) (n : Nat) (before : WinErr) : WinErr :=
  if (E.fails n).isSome then before
  else
    match E.fails (n + 1) with
    | some e => e
    | none => if o.finalPath = [] then ERROR_PATH_NOT_FOUND else before

/-- What `lstat` asks about the handle fails. -/
def queriesFail (n : Nat) : Bool := (E.fails n).isSome || (E.fails (typeQuery E n)).isSome

/-- `readlink` fails on the handle. -/
def readFails (b : Build) (o : Object) (n : Nat) : Bool :=
  (E.fails n).isSome || (E.fails (n + 1)).isSome ||
    match o.reparse with
    | none => true
    | some r => r.tag != IO_REPARSE_TAG_SYMLINK || (b == .ndebug && r.name.isNone)

variable {E}

/-! ## The length `readlink` returns -/

theorem Reparse.name_pos {r : Reparse} {wsPtr wsLen : Nat} (h : r.name = some (wsPtr, wsLen)) :
    0 < wsLen := by
  rw [Reparse.name] at h
  split at h
  · cases h
    omega
  · split at h
    · cases h
      omega
    · cases h

theorem Reparse.chars_add (r : Reparse) (wsPtr m n : Nat) :
    r.chars wsPtr (m + n) = r.chars wsPtr m ++
      (List.range n).map fun i => r.pathBuffer (wsPtr / 2 + (m + i)) := by
  simp only [Reparse.chars, List.range_add, List.map_append, List.map_map, Function.comp_def]

/-- One character more than there are bytes is at least two more than the name
has. -/
theorem Reparse.target_short (r : Reparse) (wsPtr : Nat) {wsLen : Nat} (hpos : 0 < wsLen) :
    (E.codePage.conv (r.chars wsPtr (wsLen / 2))).length + 2 ≤
      (E.codePage.conv (r.chars wsPtr (wsLen + 1))).length := by
  obtain ⟨extra, hextra⟩ : ∃ extra, wsLen + 1 = wsLen / 2 + (extra + 2) :=
    ⟨wsLen + 1 - wsLen / 2 - 2, by omega⟩
  have hgrows := E.codePage.grows (r.chars wsPtr (wsLen / 2))
    ((List.range (extra + 2)).map fun i => r.pathBuffer (wsPtr / 2 + (wsLen / 2 + i)))
  rw [← Reparse.chars_add, ← hextra, List.length_map, List.length_range] at hgrows
  omega

/-! ## `readlink` on an open handle -/

section
variable {b : Build} {h : Handle} {o : Object} {s : Win}

theorem query_ok (hopen : s.handles h = some o) (hok : E.fails s.calls = none) :
    query E h s = .ok (some o) { s with calls := s.calls + 1 } := by
  simp only [query, attempt, hok, hopen]

theorem query_fails {e : WinErr} (hfail : E.fails s.calls = some e) :
    query E h s = .ok none { s with lastError := e, calls := s.calls + 1 } := by
  simp only [query, attempt, hfail, failWith, setLastError, bind_apply, modify_apply, pure_apply]

theorem malloc_ok (hok : E.fails s.calls = none) :
    malloc E s = .ok true { s with calls := s.calls + 1 } := by
  simp only [malloc, attempt, hok, pure_apply]

theorem malloc_fails {e : WinErr} (hfail : E.fails s.calls = some e) :
    malloc E s = .ok false { s with errno := .ENOMEM, calls := s.calls + 1 } := by
  simp only [malloc, attempt, hfail, setErrno, bind_apply, modify_apply, pure_apply]

theorem leave_eq (h : Handle) (answer : Answer) (s : Win) : ∃ t, leave h answer s = .ok answer t :=
  ⟨_, rfl⟩

theorem getReparsePoint_ok {r : Reparse} (hopen : s.handles h = some o)
    (hok : E.fails s.calls = none) (hr : o.reparse = some r) :
    getReparsePoint E h s = .ok (some r) { s with calls := s.calls + 1 } := by
  simp only [getReparsePoint, bind_apply, query_ok hopen hok, hr, pure_apply]

theorem getReparsePoint_fails (hopen : s.handles h = some o)
    (hfail : (E.fails s.calls).isSome ∨ o.reparse = none) :
    ∃ t, getReparsePoint E h s = .ok none t := by
  cases hq : E.fails s.calls with
  | some e =>
      simp only [getReparsePoint, bind_apply, query_fails hq, pure_apply]
      exact ⟨_, rfl⟩
  | none =>
      have hr : o.reparse = none := by simpa [hq] using hfail
      simp only [getReparsePoint, bind_apply, query_ok hopen hq, hr, failWith, setLastError,
        modify_apply, pure_apply]
      exact ⟨_, rfl⟩

theorem readReparse_fails (hopen : s.handles h = some o) (hfails : readFails E b o s.calls = true)
    (len : Nat) : ∃ t, readReparse E b h len s = .ok failed t := by
  cases hm : E.fails s.calls with
  | some e =>
      simp only [readReparse, bind_apply, malloc_fails hm]
      exact leave_eq ..
  | none =>
      have hopen' : ({ s with calls := s.calls + 1 } : Win).handles h = some o := hopen
      by_cases hask : (E.fails (s.calls + 1)).isSome ∨ o.reparse = none
      · obtain ⟨t, hget⟩ := getReparsePoint_fails hopen' hask
        simp only [readReparse, bind_apply, malloc_ok hm, if_true, hget, setErrnoViaWinerr,
          modify_apply]
        exact leave_eq ..
      · rw [not_or, Option.not_isSome_iff_eq_none] at hask
        obtain ⟨r, hr⟩ := Option.ne_none_iff_exists'.mp hask.2
        have hget := getReparsePoint_ok hopen' hask.1 hr
        simp only [readReparse, bind_apply, malloc_ok hm, if_true, hget]
        by_cases htag : r.tag = IO_REPARSE_TAG_SYMLINK
        · have hnone : b = .ndebug ∧ r.name = none := by
            simpa [readFails, hm, hask.1, hr, htag] using hfails
          rw [if_pos htag, bind_apply, hnone.1]
          simp only [convertName, hnone.2, pure_apply]
          exact ⟨_, rfl⟩
        · rw [if_neg htag]
          simp only [setErrno, bind_apply, modify_apply]
          exact leave_eq ..

theorem wideCharToMultiByte_result {w : List UInt16} {len : Nat} {res : List UInt8 × Nat}
    {t : Win} (hrun : wideCharToMultiByte E w len s = .ok res t) :
    res.2 = 0 ∨ res.2 = (E.codePage.conv w).length := by
  rw [wideCharToMultiByte, attempt] at hrun
  cases hfail : E.fails s.calls with
  | some e =>
      rw [hfail] at hrun
      cases hrun
      exact .inl rfl
  | none =>
      rw [hfail] at hrun
      dsimp only at hrun
      split at hrun
      · cases hrun
        exact .inr rfl
      · split at hrun
        · cases hrun
          exact .inr rfl
        · cases hrun
          exact .inl rfl

/-- Where the conversion comes back, what it returns exceeds the length of the
target. -/
theorem convertName_long {r : Reparse} (hname : (b == .ndebug && r.name.isNone) = false)
    {found : Option Answer} {t : Win} (hrun : convertName E b r PATH_MAX s = .ok found t) :
    ∃ a, found = some a ∧ 0 ≤ a.ret ∧
      ∀ target, r.target E = some target → (target.length : Int) < a.ret := by
  cases hn : r.name with
  | none =>
      cases b with
      | debug => simp [convertName, hn] at hrun
      | ndebug => simp [hn] at hname
  | some name =>
      obtain ⟨wsPtr, wsLen⟩ := name
      simp only [convertName, hn] at hrun
      obtain ⟨⟨buf, chars⟩, u, hconv, hrest⟩ := bind_ok hrun
      dsimp only at hrest
      split at hrest
      · cases hrest
      · next hchars =>
          cases hrest
          have hlen : chars = _ := (wideCharToMultiByte_result hconv).resolve_left hchars
          have hshort := Reparse.target_short (E := E) r wsPtr (Reparse.name_pos hn)
          have hret : (0 : Int) ≤ chars - 1 := by omega
          refine ⟨_, rfl, hret, fun target htarget => ?_⟩
          rw [Reparse.target, hn, Option.map_some, Option.some_inj] at htarget
          rw [← htarget]
          dsimp only
          omega

/-- What comes back and is no failure is a length, and not that of the target. -/
theorem readReparse_long (hopen : s.handles h = some o)
    (hfails : readFails E b o s.calls = false) {a : Answer} {t : Win}
    (hrun : readReparse E b h PATH_MAX s = .ok a t) :
    0 ≤ a.ret ∧ o.targetLength E ≠ some a.ret := by
  simp only [readFails, Bool.or_eq_false_iff, Option.isSome_eq_false_iff,
    Option.isNone_iff_eq_none] at hfails
  obtain ⟨⟨hm, hask⟩, hrest⟩ := hfails
  cases hr : o.reparse with
  | none => simp [hr] at hrest
  | some r =>
      simp only [hr, Bool.or_eq_false_iff, bne_eq_false_iff_eq] at hrest
      have hopen' : ({ s with calls := s.calls + 1 } : Win).handles h = some o := hopen
      simp only [readReparse, bind_apply, malloc_ok hm, if_true,
        getReparsePoint_ok hopen' hask hr, hrest.1] at hrun
      obtain ⟨found, u, hconv, hleave⟩ := bind_ok hrun
      obtain ⟨answer, rfl, hret, hlong⟩ := convertName_long hrest.2 hconv
      obtain rfl : answer = a := by
        cases hleave
        rfl
      refine ⟨hret, fun heq => ?_⟩
      rw [Object.targetLength, hr, Option.bind_some, Option.map_eq_some_iff] at heq
      obtain ⟨target, htarget, hlen⟩ := heq
      have := hlong target htarget
      omega

end

/-! ## `lstat` on an open descriptor -/

section
variable {fd : Fd} {h : Handle} {o : Object} {s : Win}

theorem getFinalPathNameByHandle_stops (hopen : s.handles h = some o)
    (hok : E.fails s.calls = none) (hlong : PATH_MAX ≤ o.finalPath.length)
    (hend : E.uninit (s.calls + 1) = none) :
    ∃ t, getFinalPathNameByHandle E h s = .error .undefined t := by
  have hne : o.finalPath ≠ [] := by
    intro hnil
    rw [hnil] at hlong
    exact absurd hlong (by decide)
  simp only [getFinalPathNameByHandle, bind_apply, query_ok hopen hok, if_neg hne,
    if_neg (Nat.not_lt.mpr hlong), readUninit, hend]
  exact ⟨_, rfl⟩

theorem getFinalPathNameByHandle_returns (hopen : s.handles h = some o)
    (hread : (E.fails s.calls).isNone → PATH_MAX ≤ o.finalPath.length →
      (E.uninit (s.calls + 1)).isSome) :
    ∃ path t, getFinalPathNameByHandle E h s = .ok path t ∧ t.calls = s.calls + 1 ∧
      t.lastError = match E.fails s.calls with
        | some e => e
        | none => if o.finalPath = [] then ERROR_PATH_NOT_FOUND else s.lastError := by
  cases hq : E.fails s.calls with
  | some e =>
      simp only [getFinalPathNameByHandle, bind_apply, query_fails hq, pure_apply]
      exact ⟨_, _, rfl, rfl, rfl⟩
  | none =>
      simp only [getFinalPathNameByHandle, bind_apply, query_ok hopen hq]
      split
      · exact ⟨_, _, rfl, rfl, rfl⟩
      · rcases Nat.lt_or_ge o.finalPath.length PATH_MAX with hfits | hlong
        · rw [if_pos hfits]
          exact ⟨_, _, rfl, rfl, rfl⟩
        · rw [if_neg (Nat.not_lt.mpr hlong)]
          rw [hq] at hread
          obtain ⟨found, hfound⟩ := Option.isSome_iff_exists.mp (hread rfl hlong)
          simp only [bind_apply, readUninit, hfound, pure_apply]
          exact ⟨_, _, rfl, rfl, rfl⟩

theorem getFileType_ok (hopen : s.handles h = some o) (hok : E.fails s.calls = none) :
    getFileType E h s = .ok o.type { s with
      lastError := if o.type = .unknown then NO_ERROR else s.lastError
      calls := s.calls + 1 } := by
  simp only [getFileType, bind_apply, query_ok hopen hok]
  cases o.type with
  | unknown => rfl
  | char => rfl
  | pipe => rfl
  | disk => rfl

theorem getFileType_fails {e : WinErr} (hfail : E.fails s.calls = some e) :
    ∃ t, getFileType E h s = .ok .unknown t := by
  simp only [getFileType, bind_apply, query_fails hfail, pure_apply]
  exact ⟨_, rfl⟩

theorem fdGetPath_stops (hfd : s.crt fd = some h) (hopen : s.handles h = some o)
    (hm : E.fails s.calls = none) (hq : E.fails (s.calls + 1) = none)
    (hlong : PATH_MAX ≤ o.finalPath.length) (hend : E.uninit (s.calls + 2) = none) :
    ∃ t, fdGetPath E fd s = .error .undefined t := by
  obtain ⟨t, hpath⟩ := getFinalPathNameByHandle_stops (E := E)
    (s := { s with calls := s.calls + 1 }) hopen hq hlong hend
  simp only [fdGetPath, bind_apply, getOsfhandle_eq hfd, malloc_ok hm, if_true, hpath]
  exact ⟨t, rfl⟩

theorem fdGetPath_returns (hfd : s.crt fd = some h) (hopen : s.handles h = some o)
    (hread : (E.fails s.calls).isNone → (E.fails (s.calls + 1)).isNone →
      PATH_MAX ≤ o.finalPath.length → (E.uninit (s.calls + 2)).isSome) :
    ∃ path t, fdGetPath E fd s = .ok path t ∧
      (t.calls = if (E.fails s.calls).isSome then s.calls + 1 else s.calls + 2) ∧
      t.lastError = pathError E o s.calls s.lastError := by
  cases hm : E.fails s.calls with
  | some e =>
      simp only [fdGetPath, bind_apply, getOsfhandle_eq hfd, malloc_fails hm, pathError, hm]
      exact ⟨_, _, rfl, rfl, rfl⟩
  | none =>
      rw [hm] at hread
      obtain ⟨path, t, hpath, hcalls, herror⟩ := getFinalPathNameByHandle_returns (E := E)
        (s := { s with calls := s.calls + 1 }) hopen (hread rfl)
      have herror' : t.lastError = pathError E o s.calls s.lastError := by
        rw [herror, pathError, hm]
        rfl
      simp only [fdGetPath, bind_apply, getOsfhandle_eq hfd, malloc_ok hm, if_true, hpath]
      cases path with
      | none => exact ⟨_, _, rfl, hcalls, herror'⟩
      | some path => exact ⟨_, _, rfl, hcalls, herror'⟩

theorem examine_stops (hfd : s.crt fd = some h) (hopen : s.handles h = some o)
    (hstops : stops E o s.calls = true) : ∃ t, examine E fd s = .error .undefined t := by
  simp only [stops, Bool.and_eq_true, Option.isNone_iff_eq_none, decide_eq_true_eq] at hstops
  obtain ⟨⟨⟨⟨hinfo, hm⟩, hq⟩, hlong⟩, hend⟩ := hstops
  obtain ⟨t, hpath⟩ := fdGetPath_stops (E := E) (s := { s with calls := s.calls + 1 })
    hfd hopen hm hq hlong hend
  simp only [examine, getFileInformationByHandle, bind_apply, getOsfhandle_eq hfd,
    query_ok hopen hinfo, hpath]
  exact ⟨t, rfl⟩

/-- Where `lstat` comes to ask for the type, the handle is still open.  If all is
well, that is the last call. -/
theorem examine_returns (hfd : s.crt fd = some h) (hopen : s.handles h = some o)
    (hstops : stops E o s.calls = false) :
    ∃ path t, examine E fd s =
        .ok (if queriesFail E s.calls ∨ o.type = .unknown then none else some (o, o.type, path))
          t ∧
      (queriesFail E s.calls = false → o.type ≠ .unknown →
        t.lastError = pathError E o (s.calls + 1) s.lastError ∧
          t.calls = typeQuery E s.calls + 1) := by
  cases hinfo : E.fails s.calls with
  | some e =>
      simp only [examine, getFileInformationByHandle, bind_apply, getOsfhandle_eq hfd,
        query_fails hinfo, setErrnoViaWinerr, modify_apply, pure_apply, queriesFail, hinfo,
        Option.isSome_some, Bool.true_or, true_or, if_true]
      exact ⟨none, _, rfl, fun h => Bool.noConfusion h⟩
  | none =>
      have hread : (E.fails (s.calls + 1)).isNone → (E.fails (s.calls + 1 + 1)).isNone →
          PATH_MAX ≤ o.finalPath.length → (E.uninit (s.calls + 1 + 2)).isSome := by
        intro hm hq hlong
        simpa [stops, hinfo, hm, hq, hlong] using hstops
      obtain ⟨path, t, hpath, hcalls, herror⟩ := fdGetPath_returns (E := E)
        (s := { s with calls := s.calls + 1 }) hfd hopen hread
      have htables := fdGetPath_keeps fd _ _ _ hpath
      have hopen' : t.handles h = some o := by
        rw [← hopen]
        exact congrFun (congrArg Tables.handles htables) h
      have hcalls' : t.calls = typeQuery E s.calls := hcalls
      simp only [examine, getFileInformationByHandle, bind_apply, getOsfhandle_eq hfd,
        query_ok hopen hinfo, hpath]
      refine ⟨path, ?_⟩
      cases htype : E.fails t.calls with
      | some e =>
          obtain ⟨u, hfile⟩ := getFileType_fails (h := h) htype
          have hfail : queriesFail E s.calls = true := by
            rw [queriesFail, ← hcalls', htype, Option.isSome_some, Bool.or_true]
          simp only [hfile, hfail, true_or, if_true, bind_apply, modify_apply, pure_apply]
          exact ⟨_, rfl, fun h => Bool.noConfusion h⟩
      | none =>
          have hfile := getFileType_ok hopen' htype
          have hleft : t.calls + 1 = typeQuery E s.calls + 1 := congrArg (· + 1) hcalls'
          have hok : queriesFail E s.calls = false := by
            rw [queriesFail, ← hcalls', htype, hinfo]
            rfl
          simp only [hfile, hok, Bool.false_eq_true, false_or]
          cases o.type with
          | unknown => exact ⟨_, rfl, fun _ h => absurd rfl h⟩
          | char => exact ⟨_, rfl, fun _ _ => ⟨herror, hleft⟩⟩
          | pipe => exact ⟨_, rfl, fun _ _ => ⟨herror, hleft⟩⟩
          | disk => exact ⟨_, rfl, fun _ _ => ⟨herror, hleft⟩⟩

/-! ## What `lstat` reports -/

theorem fileType_writable (mode : ModeT) (o : Object) :
    (mode ||| writable o) &&& S_IFMT = mode &&& S_IFMT := by
  have hwrite : writable o &&& S_IFMT = 0 := by
    rw [writable]
    split
    · decide
    · decide
  have hdistrib : (mode ||| writable o) &&& S_IFMT = mode &&& S_IFMT ||| writable o &&& S_IFMT :=
    UInt16.toBitVec_inj.mp BitVec.and_or_distrib_right
  rw [hdistrib, hwrite, UInt16.or_zero]

theorem isLnk_writable (mode : ModeT) (o : Object) :
    isLnk (mode ||| writable o) = isLnk mode := by
  rw [isLnk, isLnk, fileType_writable]

theorem isLnk_diskMode (o : Object) (path : Option Path) :
    isLnk (S_IRUSR ||| S_IRGRP ||| S_IROTH ||| diskMode o path) = o.isReparse := by
  rw [diskMode]
  cases o.isReparse with
  | true =>
      rw [if_pos rfl]
      decide
  | false =>
      rw [if_neg Bool.false_ne_true]
      split
      · decide
      · split
        · decide
        · decide

theorem isLnk_statOf (fd : Fd) {o : Object} (path : Option Path) (htype : o.type ≠ .unknown) :
    isLnk (statOf fd o o.type path).mode = o.isReparse := by
  cases hreparse : o.isReparse with
  | true =>
      have hdisk : o.type = .disk := o.reparse_disk (o.isReparse_eq ▸ hreparse)
      rw [hdisk, statOf, isLnk_writable, isLnk_diskMode, hreparse]
  | false =>
      cases ht : o.type with
      | unknown => exact absurd ht htype
      | char =>
          rw [statOf, isLnk_writable]
          decide
      | pipe =>
          rw [statOf, isLnk_writable]
          decide
      | disk => rw [statOf, isLnk_writable, isLnk_diskMode, hreparse]

variable {b : Build}

theorem fstat64_stops (hfd : s.crt fd = some h) (hopen : s.handles h = some o)
    (hstops : stops E o s.calls = true) : ∃ e t, fstat64 E b fd s = .error e t := by
  obtain ⟨t, hexamine⟩ := examine_stops hfd hopen hstops
  rw [fstat64, bind_apply, hexamine]
  exact ⟨_, _, rfl⟩

theorem fstat64_fails (hfd : s.crt fd = some h) (hopen : s.handles h = some o)
    (hstops : stops E o s.calls = false) (hfails : queriesFail E s.calls = true) :
    ∃ t, fstat64 E b fd s = .ok failed t := by
  obtain ⟨path, t, hexamine, -⟩ := examine_returns hfd hopen hstops
  rw [if_pos (.inl hfails)] at hexamine
  rw [fstat64, bind_apply, hexamine]
  exact ⟨t, rfl⟩

theorem sizeOf_plain (hreparse : o.isReparse = false) (path : Option Path) :
    Winsup.sizeOf E b o path = pure (fileSize o) := by
  unfold Winsup.sizeOf
  rw [if_neg (Bool.eq_false_iff.mp hreparse)]

theorem fstat64_plain {type : FileType} {path : Option Path} {t : Win}
    (hexamine : examine E fd s = .ok (some (o, type, path)) t) (hreparse : o.isReparse = false) :
    fstat64 E b fd s =
      .ok { ret := 0, stat := { statOf fd o type path with size := fileSize o } } t := by
  rw [fstat64, bind_apply, hexamine]
  dsimp only
  rw [sizeOf_plain hreparse]
  rfl

theorem fstat64_noLink (hfd : s.crt fd = some h) (hopen : s.handles h = some o)
    (hstops : stops E o s.calls = false) (hreparse : o.isReparse = false) :
    ∃ a t, fstat64 E b fd s = .ok a t ∧ a.reportsLink = false := by
  obtain ⟨path, t, hexamine, -⟩ := examine_returns hfd hopen hstops
  by_cases hnone : queriesFail E s.calls = true ∨ o.type = .unknown
  · rw [if_pos hnone] at hexamine
    rw [fstat64, bind_apply, hexamine]
    exact ⟨_, _, rfl, rfl⟩
  · rw [if_neg hnone] at hexamine
    refine ⟨_, _, fstat64_plain hexamine hreparse, ?_⟩
    rw [Answer.reportsLink]
    exact (isLnk_statOf fd path (not_or.mp hnone).2).trans hreparse

theorem fstat64_link (hfd : s.crt fd = some h) (hopen : s.handles h = some o)
    (hstops : stops E o s.calls = false) (hfails : queriesFail E s.calls = false)
    (hreparse : o.isReparse = true) {a : Answer} {t : Win}
    (hrun : fstat64 E b fd s = .ok a t) : a.reportsLink = true := by
  have htype : o.type ≠ .unknown := by
    rw [o.reparse_disk (o.isReparse_eq ▸ hreparse)]
    decide
  obtain ⟨path, u, hexamine, -⟩ := examine_returns hfd hopen hstops
  rw [if_neg (not_or.mpr ⟨Bool.eq_false_iff.mp hfails, htype⟩)] at hexamine
  rw [fstat64, bind_apply, hexamine] at hrun
  obtain ⟨size, v, hsize, hrest⟩ := bind_ok hrun
  cases hrest
  rw [Answer.reportsLink]
  exact (isLnk_statOf fd path htype).trans hreparse

end

/-! ## Both calls -/

section
variable {b : Build} {path : Path} {s t : Win} {fd : Fd} {o : Object}

theorem Opened.handle (h : Opened E path s fd o t) :
    t.handles (E.newHandle s.calls) = some o := by
  rw [h.state]
  exact Function.update_self ..

theorem Opened.calls (h : Opened E path s fd o t) : t.calls = s.calls + 2 := by
  rw [h.state]

theorem lstat_ok_iff (hopen : openSymlinkFd E path s = .ok (some fd) t) {a : Answer} :
    (∃ v, lstat E b path s = .ok a v) ↔ ∃ u, fstat64 E b fd t = .ok a u := by
  rw [lstat, bind_apply, hopen]
  constructor
  · rintro ⟨v, hrun⟩
    obtain ⟨answer, u, hstat, hrest⟩ := bind_ok hrun
    obtain ⟨_, w, _, hpure⟩ := bind_ok hrest
    cases hpure
    exact ⟨u, hstat⟩
  · rintro ⟨u, hstat⟩
    dsimp only
    rw [bind_apply, hstat]
    dsimp only
    rw [bind_apply, close]
    cases u.crt fd with
    | none => exact ⟨_, rfl⟩
    | some h => exact ⟨_, rfl⟩

theorem readlink_result (hopen : openSymlinkFd E path s = .ok (some fd) t)
    (h : Opened E path s fd o t) :
    readlink E b path PATH_MAX s = readReparse E b (E.newHandle s.calls) PATH_MAX t := by
  have hlen : PATH_MAX ≠ 0 := by decide
  rw [readlink, if_neg hlen, bind_apply, hopen]
  dsimp only
  rw [bind_apply, getOsfhandle_eq h.bound]

theorem agree_iff {s' : Win} : agree E b o path s s' = true ↔
    ∃ found read, (∃ t, lstat E b path s = .ok found t) ∧
      (∃ t, readlink E b path PATH_MAX s' = .ok read t) ∧ AnswersAgree E o found read := by
  constructor
  · intro h
    obtain ⟨found, t, hlstat, h⟩ := after_iff.mp h
    obtain ⟨read, t', hreadlink, h⟩ := after_iff.mp h
    exact ⟨found, read, ⟨t, hlstat⟩, ⟨t', hreadlink⟩, of_decide_eq_true h⟩
  · rintro ⟨found, read, ⟨t, hlstat⟩, ⟨t', hreadlink⟩, h⟩
    exact after_iff.mpr ⟨found, t, hlstat, after_iff.mpr ⟨read, t', hreadlink, decide_eq_true h⟩⟩

section
variable {h h' : Handle} {t' : Win}

/-- On a reparse point the answers agree only if both calls fail. -/
theorem reparse_agree (hfd : t.crt fd = some h) (hopen : t.handles h = some o)
    (hopen' : t'.handles h' = some o) (hstops : stops E o t.calls = false)
    (hreparse : o.isReparse = true) {found read : Answer} {u u' : Win}
    (hstat : fstat64 E b fd t = .ok found u)
    (hread : readReparse E b h' PATH_MAX t' = .ok read u') (hagree : AnswersAgree E o found read) :
    queriesFail E t.calls = true ∧ readFails E b o t'.calls = true := by
  obtain ⟨hlink, hsize⟩ := hagree
  cases hfails : readFails E b o t'.calls with
  | false =>
      -- the length is not that of the target
      obtain ⟨hret, hlong⟩ := readReparse_long hopen' hfails hread
      exact absurd (hsize (hlink.mpr hret)).2 hlong
  | true =>
      obtain ⟨v, hfailed⟩ := readReparse_fails hopen' hfails PATH_MAX
      rw [hread] at hfailed
      cases hfailed
      cases hqueries : queriesFail E t.calls with
      | false =>
          have hreports := fstat64_link hfd hopen hstops hqueries hreparse hstat
          exact absurd (hlink.mp hreports) (by decide)
      | true => exact ⟨rfl, rfl⟩

/-- On another object they do. -/
theorem plain_agree (hfd : t.crt fd = some h) (hopen : t.handles h = some o)
    (hopen' : t'.handles h' = some o) (hstops : stops E o t.calls = false)
    (hreparse : o.isReparse = false) :
    ∃ found read, (∃ u, fstat64 E b fd t = .ok found u) ∧
      (∃ u, readReparse E b h' PATH_MAX t' = .ok read u) ∧ AnswersAgree E o found read := by
  obtain ⟨found, u, hstat, hno⟩ := fstat64_noLink (b := b) hfd hopen hstops hreparse
  have hfails : readFails E b o t'.calls = true := by
    rw [o.isReparse_eq, Option.isSome_eq_false_iff, Option.isNone_iff_eq_none] at hreparse
    rw [readFails, hreparse, Bool.or_true]
  obtain ⟨v, hread⟩ := readReparse_fails hopen' hfails PATH_MAX
  refine ⟨found, failed, ⟨u, hstat⟩, ⟨v, hread⟩, ?_, ?_⟩
  · rw [hno]
    decide
  · intro hlink
    rw [hno] at hlink
    cases hlink

end

/-- **`lstat` and `readlink` agree** on a path that both can open exactly if it
leads to no reparse point, or to one on which both fail. -/
theorem lstat_readlink_agree {s' : Win} (hs : opens E path s = true)
    (hs' : opens E path s' = true) (ho : E.object s.calls path = some o)
    (ho' : E.object s'.calls path = some o) :
    agree E b o path s s' = true ↔
      stops E o (s.calls + 2) = false ∧
        (o.isReparse = false ∨
          queriesFail E (s.calls + 2) = true ∧ readFails E b o (s'.calls + 2) = true) := by
  obtain ⟨fd, o₁, t, hopen, hopened⟩ := openSymlinkFd_ok hs
  obtain ⟨fd', o₂, t', hopen', hopened'⟩ := openSymlinkFd_ok hs'
  obtain rfl : o₁ = o := Option.some_inj.mp (hopened.object.symm.trans ho)
  obtain rfl : o₂ = o₁ := Option.some_inj.mp (hopened'.object.symm.trans ho')
  simp only [agree_iff, lstat_ok_iff hopen, readlink_result hopen' hopened', ← hopened.calls,
    ← hopened'.calls]
  constructor
  · rintro ⟨found, read, ⟨u, hstat⟩, ⟨u', hread⟩, hagree⟩
    have hstops : stops E o₂ t.calls = false := by
      refine Bool.eq_false_iff.mpr fun hstops => ?_
      obtain ⟨e, v, herror⟩ := fstat64_stops (b := b) hopened.bound hopened.handle hstops
      rw [hstat] at herror
      cases herror
    refine ⟨hstops, ?_⟩
    cases hreparse : o₂.isReparse with
    | false => exact .inl rfl
    | true =>
        exact .inr (reparse_agree hopened.bound hopened.handle hopened'.handle hstops hreparse
          hstat hread hagree)
  · rintro ⟨hstops, hreparse | ⟨hqueries, hfails⟩⟩
    · exact plain_agree hopened.bound hopened.handle hopened'.handle hstops hreparse
    · obtain ⟨u, hstat⟩ := fstat64_fails (b := b) hopened.bound hopened.handle hstops hqueries
      obtain ⟨v, hread⟩ := readReparse_fails hopened'.handle hfails PATH_MAX
      refine ⟨failed, failed, ⟨u, hstat⟩, ⟨v, hread⟩, by decide, fun hlink => ?_⟩
      cases hlink

theorem lstat_readlink_agree_file :
    agree aFolder .debug aFile [0x66] aProcess aProcess = true :=
  (lstat_readlink_agree (by decide +kernel) (by decide +kernel) rfl rfl).mpr (by decide)

/-- The name of the link has one byte, and `readlink` returns two. -/
theorem lstat_readlink_link :
    opens aFolder [0x6C] aProcess = true ∧ aFolder.object aProcess.calls [0x6C] = some aLink ∧
      agree aFolder .debug aLink [0x6C] aProcess aProcess = false :=
  ⟨by decide +kernel, rfl, by decide +kernel⟩

end

end LibcCompat.Winsup
