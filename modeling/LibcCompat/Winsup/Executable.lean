/-
# `LibcCompat.Winsup.Executable` — which files `fstat` calls executable

Windows has no permission to execute a file, so `__wrap__fstat64` goes by the
extension of its path.  It does not compare the three characters, but a key made
of them by shifts that overlap: `bat` and `cmd` have one key, and so have `com`
and `img`.  And the path is what `__fd_get_path` has of it: nothing, if an
allocation or `GetFinalPathNameByHandle` fails, and what is in the buffer, if it
is too long to be stored there.

What is proved (`executable_iff`), for every open regular file, whatever fails on
the way: the execute bits are those the extension of its path calls for exactly
if the code decides right (`DecidesRight`).  Where the path is read and fits, that
is if its extension is none that has the key of another (`Collides`).
-/
import LibcCompat.Winsup.DirfdErrors

namespace LibcCompat.Winsup

open LibcCompat.Lib

/-! ## What the extension calls for -/

def S_IXALL : ModeT := S_IXUSR ||| S_IXGRP ||| S_IXOTH

/-- A character without its case. -/
def lower (c : UInt8) : UInt8 := if 0x41 ≤ c ∧ c ≤ 0x5A then c + 0x20 else c

/-- `exe`, `bat`, `cmd` and `com`. -/
def executableExtensions : List (UInt8 × UInt8 × UInt8) :=
  [(0x65, 0x78, 0x65), (0x62, 0x61, 0x74), (0x63, 0x6D, 0x64), (0x63, 0x6F, 0x6D)]

/-- The path ends in a dot and three characters with the property. -/
def EndsIn (path : Path) (ext : UInt8 → UInt8 → UInt8 → Prop) : Prop :=
  ∃ stem x y z, path = stem ++ [0x2E, x, y, z] ∧ ext x y z

/-- The three characters are one of the extensions. -/
def IsExecutableExtension (x y z : UInt8) : Prop :=
  (lower x, lower y, lower z) ∈ executableExtensions

/-- Their key is that of one of the extensions. -/
def HasExecutableKey (x y z : UInt8) : Prop :=
  extKey (tolower (charToInt x)) (tolower (charToInt y)) (tolower (charToInt z)) ∈
    [EXE_SUFFIX, BAT_SUFFIX, CMD_SUFFIX, COM_SUFFIX]

instance (x y z : UInt8) : Decidable (IsExecutableExtension x y z) :=
  inferInstanceAs (Decidable (_ ∈ _))

instance (x y z : UInt8) : Decidable (HasExecutableKey x y z) :=
  inferInstanceAs (Decidable (_ ∈ _))

/-- The path ends in an extension that is none of the four and has the key of
one. -/
def Collides (path : Path) : Prop :=
  EndsIn path fun x y z => HasExecutableKey x y z ∧ ¬ IsExecutableExtension x y z

/-- A regular file on a disk. -/
def Object.isRegular (o : Object) : Bool :=
  o.type == .disk && !o.isReparse && o.attributes &&& FILE_ATTRIBUTE_DIRECTORY == 0

/-- `fstat` of the file comes back and, unless Windows refuses what it asks about the
handle, succeeds and reports the execute bits that the path of the file calls for. -/
def ExecutesRight (E : Env) (b : Build) (fd : Fd) (o : Object) (s : Win) : Prop :=
  ∃ a t, fstat64 E b fd s = .ok a t ∧
    (queriesFail E s.calls = false → a.ret = 0 ∧
      (EndsIn o.finalPath IsExecutableExtension → a.stat.mode &&& S_IXALL = S_IXALL) ∧
      (¬ EndsIn o.finalPath IsExecutableExtension → a.stat.mode &&& S_IXALL = 0))

/-- There is no path: no memory for it after `n` calls, or Windows refuses it. -/
def pathRefused (E : Env) (o : Object) (n : Nat) : Bool :=
  (E.fails n).isSome || (E.fails (n + 1)).isSome || o.finalPath.isEmpty

/-- What the code goes by calls for what the path does.  Without a path there are no
execute bits; one that fits is read; and if it is too long, the string found in
the buffer has an end, and an extension that counts just if the path has one. -/
def DecidesRight (E : Env) (o : Object) (n : Nat) : Prop :=
  if pathRefused E o n then ¬ EndsIn o.finalPath IsExecutableExtension
  else if o.finalPath.length < PATH_MAX then ¬ Collides o.finalPath
  else ∃ found, E.uninit (n + 2) = some found ∧
    (EndsIn found HasExecutableKey ↔ EndsIn o.finalPath IsExecutableExtension)

/-! ## The key -/

theorem endsIn_reverse {path : Path} {ext : UInt8 → UInt8 → UInt8 → Prop} :
    EndsIn path ext ↔ ∃ x y z stem, path.reverse = z :: y :: x :: 0x2E :: stem ∧ ext x y z := by
  constructor
  · rintro ⟨stem, x, y, z, rfl, hext⟩
    exact ⟨x, y, z, stem.reverse, by simp, hext⟩
  · rintro ⟨x, y, z, stem, hpath, hext⟩
    refine ⟨stem.reverse, x, y, z, ?_, hext⟩
    rw [← List.reverse_reverse path, hpath]
    simp

/-- The extension of a path, if it has one, is unique. -/
theorem endsIn_and {path : Path} {ext ext' : UInt8 → UInt8 → UInt8 → Prop} :
    EndsIn path (fun x y z => ext x y z ∧ ¬ ext' x y z) ↔
      EndsIn path ext ∧ ¬ EndsIn path ext' := by
  simp only [endsIn_reverse]
  constructor
  · rintro ⟨x, y, z, stem, hpath, hext, hnot⟩
    refine ⟨⟨x, y, z, stem, hpath, hext⟩, ?_⟩
    rintro ⟨x', y', z', stem', hpath', hext'⟩
    rw [hpath] at hpath'
    cases hpath'
    exact hnot hext'
  · rintro ⟨⟨x, y, z, stem, hpath, hext⟩, hnot⟩
    exact ⟨x, y, z, stem, hpath, hext, fun hext' => hnot ⟨x, y, z, stem, hpath, hext'⟩⟩

/-- The code goes by the key. -/
theorem isExecutable_iff (path : Path) :
    isExecutable path = true ↔ EndsIn path HasExecutableKey := by
  rw [endsIn_reverse, isExecutable]
  split
  · next z y x dot stem hpath =>
      rw [hpath]
      simp only [Bool.and_eq_true, Bool.or_eq_true, beq_iff_eq, HasExecutableKey, List.mem_cons,
        List.not_mem_nil, or_false]
      constructor
      · rintro ⟨rfl, hkey⟩
        exact ⟨x, y, z, stem, rfl, by simpa only [or_assoc] using hkey⟩
      · rintro ⟨x', y', z', stem', hpath', hkey⟩
        cases hpath'
        exact ⟨rfl, by simpa only [or_assoc] using hkey⟩
  · next hshort =>
      refine iff_of_false Bool.false_ne_true ?_
      rintro ⟨x, y, z, stem, hpath, -⟩
      exact hshort z y x 0x2E stem hpath

theorem tolower_charToInt (c : UInt8) : tolower (charToInt c) = charToInt (lower c) := by
  have hall : ∀ n < 256, tolower (charToInt (UInt8.ofNat n)) =
      charToInt (lower (UInt8.ofNat n)) := by decide +kernel
  have h := hall c.toNat c.toNat_lt
  rwa [UInt8.ofNat_toNat] at h

/-- Each of the extensions has its own key. -/
theorem key_of_extension {x y z : UInt8} (h : IsExecutableExtension x y z) :
    HasExecutableKey x y z := by
  simp only [HasExecutableKey, tolower_charToInt]
  simp only [IsExecutableExtension, executableExtensions, List.mem_cons, Prod.mk.injEq,
    List.not_mem_nil, or_false] at h
  rcases h with ⟨hx, hy, hz⟩ | ⟨hx, hy, hz⟩ | ⟨hx, hy, hz⟩ | ⟨hx, hy, hz⟩
  · rw [hx, hy, hz]
    decide
  · rw [hx, hy, hz]
    decide
  · rw [hx, hy, hz]
    decide
  · rw [hx, hy, hz]
    decide

theorem endsIn_key {path : Path} (h : EndsIn path IsExecutableExtension) :
    EndsIn path HasExecutableKey := by
  obtain ⟨stem, x, y, z, hpath, hext⟩ := h
  exact ⟨stem, x, y, z, hpath, key_of_extension hext⟩

/-- Where there is no collision, the key is as good as the extension. -/
theorem not_collides_iff {path : Path} :
    ¬ Collides path ↔
      (EndsIn path HasExecutableKey ↔ EndsIn path IsExecutableExtension) := by
  rw [Collides, endsIn_and, not_and, not_not]
  exact ⟨fun h => ⟨h, endsIn_key⟩, Iff.mp⟩

/-- What stands before, if there is no dot in it, does not change the extension. -/
theorem endsIn_append {pre path : Path} {ext : UInt8 → UInt8 → UInt8 → Prop}
    (hdot : 0x2E ∉ pre) : EndsIn (pre ++ path) ext ↔ EndsIn path ext := by
  constructor
  · rintro ⟨stem, x, y, z, hpath, hext⟩
    rcases List.append_eq_append_iff.mp hpath with ⟨stem', -, hrest⟩ | ⟨last, hpre, hend⟩
    · exact ⟨stem', x, y, z, hrest, hext⟩
    · cases last with
      | nil => exact ⟨[], x, y, z, hend.symm, hext⟩
      | cons c last =>
          -- the dot would be in what stands before
          obtain rfl : 0x2E = c := (List.cons.inj hend).1
          exact absurd (hpre ▸ List.mem_append_right stem List.mem_cons_self) hdot
  · rintro ⟨stem, x, y, z, rfl, hext⟩
    exact ⟨pre ++ stem, x, y, z, (List.append_assoc ..).symm, hext⟩

theorem endsIn_stripPrefix {path : Path} {ext : UInt8 → UInt8 → UInt8 → Prop} :
    EndsIn (stripPrefix path) ext ↔ EndsIn path ext := by
  unfold stripPrefix
  split
  · next hunc =>
      have htwo : path.take 2 = uncPrefix.take 2 := by
        rw [← hunc, List.take_take]
        rfl
      rw [htwo, endsIn_append (by decide)]
      conv_rhs => rw [← List.take_append_drop 8 path, hunc]
      exact (endsIn_append (by decide)).symm
  · split
    · next hlong =>
        conv_rhs => rw [← List.take_append_drop 4 path, hlong]
        exact (endsIn_append (by decide)).symm
    · rfl

/-! ## The mode -/

theorem Object.isRegular_iff {o : Object} : o.isRegular = true ↔
    o.type = .disk ∧ o.isReparse = false ∧
      (o.attributes &&& FILE_ATTRIBUTE_DIRECTORY != 0) = false := by
  simp only [Object.isRegular, Bool.and_eq_true, beq_iff_eq, Bool.not_eq_true', bne_eq_false_iff_eq,
    and_assoc]

theorem mode_regular (fd : Fd) {o : Object} (path : Option Path) (hregular : o.isRegular = true) :
    (statOf fd o o.type path).mode &&& S_IXALL =
      if path.any isExecutable then S_IXALL else 0 := by
  obtain ⟨hdisk, hreparse, hdir⟩ := Object.isRegular_iff.mp hregular
  rw [hdisk]
  by_cases hkey : path.any isExecutable = true
  · simp only [statOf, diskMode, hreparse, hdir, hkey, writable, Bool.false_eq_true, if_false,
      if_true]
    split
    · decide
    · decide
  · simp only [statOf, diskMode, hreparse, hdir, hkey, writable, Bool.false_eq_true, if_false]
    split
    · decide
    · decide

theorem answer_mode (st : Stat) (size : Int) :
    ({ ret := 0, stat := { st with size } } : Answer).stat.mode = st.mode := rfl

theorem bits_iff {mode : ModeT} {found : Prop} [Decidable found] (calls : Prop)
    (hmode : mode &&& S_IXALL = if found then S_IXALL else 0) :
    ((calls → mode &&& S_IXALL = S_IXALL) ∧ (¬ calls → mode &&& S_IXALL = 0)) ↔
      (found ↔ calls) := by
  have hne : S_IXALL ≠ 0 := by decide
  rw [hmode]
  by_cases hfound : found
  · rw [if_pos hfound, iff_true_left hfound]
    exact ⟨fun h => by_contra fun hnot => hne (h.2 hnot), fun h => ⟨fun _ => rfl, fun hnot =>
      absurd h hnot⟩⟩
  · rw [if_neg hfound, iff_false_left hfound]
    exact ⟨fun h hcalls => hne (h.1 hcalls).symm, fun h => ⟨fun hcalls => absurd hcalls h,
      fun _ => rfl⟩⟩

/-! ## The path -/

section
variable {E : Env} {b : Build} {fd : Fd} {h : Handle} {o : Object} {s t : Win}
  {path : Option Path}

theorem fdGetPath_eq (hfd : s.crt fd = some h) (hopen : s.handles h = some o)
    (hrun : fdGetPath E fd s = .ok path t) :
    path = if pathRefused E o s.calls then none else readPath E o (s.calls + 2) := by
  cases hm : E.fails s.calls with
  | some e =>
      rw [fdGetPath_noMemory hfd hm] at hrun
      cases hrun
      simp only [pathRefused, hm, Option.isSome_some, Bool.true_or, if_true]
  | none =>
      cases hq : E.fails (s.calls + 1) with
      | some e =>
          rw [fdGetPath_refused hfd hm hq] at hrun
          cases hrun
          simp only [pathRefused, hq, Option.isSome_some, Bool.true_or, Bool.or_true, if_true]
      | none =>
          by_cases hname : o.finalPath = []
          · rw [fdGetPath_nameless hfd hopen hm hq hname] at hrun
            cases hrun
            simp only [pathRefused, hname, List.isEmpty_nil, Bool.or_true, if_true]
          · have hgiven : pathRefused E o s.calls = false := by
              rw [pathRefused, hm, hq, List.isEmpty_eq_false_iff.mpr hname]
              rfl
            rw [hgiven, if_neg Bool.false_ne_true]
            rcases fdGetPath_reads hfd hopen hm hq hname with
              ⟨path', u, hreads, heq⟩ | ⟨e, u, hstops, -⟩
            · rw [hreads] at hrun
              cases hrun
              exact heq.symm
            · rw [hstops] at hrun
              cases hrun

theorem examine_path {o' : Object} {type : FileType} (hfd : s.crt fd = some h)
    (hopen : s.handles h = some o)
    (hexamine : examine E fd s = .ok (some (o', type, path)) t) :
    ∃ u, fdGetPath E fd { s with calls := s.calls + 1 } = .ok path u := by
  cases hinfo : E.fails s.calls with
  | some e =>
      simp only [examine, getFileInformationByHandle, bind_apply, getOsfhandle_eq hfd,
        query_fails hinfo, setErrnoViaWinerr, modify_apply, pure_apply] at hexamine
      cases hexamine
  | none =>
      simp only [examine, getFileInformationByHandle, bind_apply, getOsfhandle_eq hfd,
        query_ok hopen hinfo] at hexamine
      cases hpath : fdGetPath E fd { s with calls := s.calls + 1 } with
      | error e u =>
          rw [hpath] at hexamine
          cases hexamine
      | ok path' u =>
          rw [hpath] at hexamine
          obtain ⟨type', v, -, hrest⟩ := bind_ok hexamine
          cases type' with
          | unknown => cases hrest
          | char | pipe | disk =>
              cases hrest
              exact ⟨u, rfl⟩

/-- Where a string is read, whichever, the code decides right if its key is found just
where the extension is. -/
theorem decidesRight_iff {n : Nat}
    (hpath : path = if pathRefused E o n then none else readPath E o (n + 2))
    (hread : pathRefused E o n = false → (readPath E o (n + 2)).isSome) :
    DecidesRight E o n ↔
      (path.any isExecutable = true ↔ EndsIn o.finalPath IsExecutableExtension) := by
  unfold DecidesRight
  cases hrefused : pathRefused E o n with
  | true =>
      rw [hrefused, if_pos rfl] at hpath
      rw [if_pos rfl, hpath, Option.any_none, iff_false_left Bool.false_ne_true]
  | false =>
      rw [hrefused, if_neg Bool.false_ne_true] at hpath
      have hsome := hread hrefused
      rw [if_neg Bool.false_ne_true]
      rw [readPath] at hpath hsome
      by_cases hfits : o.finalPath.length < PATH_MAX
      · rw [if_pos hfits] at hpath ⊢
        rw [hpath, Option.any_some, isExecutable_iff, endsIn_stripPrefix, not_collides_iff]
      · rw [if_neg hfits] at hpath hsome ⊢
        rw [Option.isSome_map] at hsome
        obtain ⟨found, hfound⟩ := Option.isSome_iff_exists.mp hsome
        rw [hpath, hfound, Option.map_some, Option.any_some, isExecutable_iff,
          endsIn_stripPrefix]
        constructor
        · rintro ⟨found', heq, hsame⟩
          obtain rfl := Option.some.inj heq
          exact hsame
        · exact fun hsame => ⟨found, rfl, hsame⟩

/-- Unless `fstat` stops there, a buffer that was not filled has an end. -/
theorem readPath_isSome (hstops : stops E o s.calls = false)
    (hqueries : queriesFail E s.calls = false)
    (hgiven : pathRefused E o (s.calls + 1) = false) :
    (readPath E o (s.calls + 1 + 2)).isSome := by
  simp only [queriesFail, Bool.or_eq_false_iff, Option.isSome_eq_false_iff] at hqueries
  simp only [pathRefused, Bool.or_eq_false_iff, Option.isSome_eq_false_iff] at hgiven
  unfold readPath
  split
  · rfl
  · next hlong =>
      rw [Option.isSome_map]
      simpa [stops, hqueries.1, hgiven.1.1, hgiven.1.2, Nat.not_lt.mp hlong] using hstops

/-- **Execute permission.**  `fstat` of an open regular file reports the execute bits
its path calls for exactly if it does not read beyond a buffer that has no end and
decides right, or Windows refuses what it asks about the handle. -/
theorem executable_iff (hobject : s.objectOf fd = some o) (hregular : o.isRegular = true) :
    ExecutesRight E b fd o s ↔
      stops E o s.calls = false ∧
        (queriesFail E s.calls = true ∨ DecidesRight E o (s.calls + 1)) := by
  obtain ⟨h, hfd, hopen⟩ := objectOf_eq_some.mp hobject
  cases hstops : stops E o s.calls with
  | true =>
      refine iff_of_false ?_ fun hright => Bool.noConfusion hright.1
      rintro ⟨a, t, hrun, -⟩
      obtain ⟨e, u, herror⟩ := fstat64_stops (b := b) hfd hopen hstops
      rw [herror] at hrun
      cases hrun
  | false =>
      cases hqueries : queriesFail E s.calls with
      | true =>
          obtain ⟨t, hfails⟩ := fstat64_fails (b := b) hfd hopen hstops hqueries
          refine iff_of_true ⟨_, t, hfails, fun hnot => ?_⟩ ⟨rfl, .inl rfl⟩
          rw [hqueries] at hnot
          cases hnot
      | false =>
          obtain ⟨hdisk, hreparse, -⟩ := Object.isRegular_iff.mp hregular
          obtain ⟨path, t, hexamine, -⟩ := examine_returns hfd hopen hstops
          have hnone : ¬ (queriesFail E s.calls = true ∨ o.type = .unknown) := by
            rw [hqueries, hdisk]
            decide
          rw [if_neg hnone] at hexamine
          have hrun := fstat64_plain (b := b) hexamine hreparse
          obtain ⟨u, hgot⟩ := examine_path hfd hopen hexamine
          have hpath := fdGetPath_eq (s := { s with calls := s.calls + 1 }) hfd hopen hgot
          have hmode := mode_regular fd path hregular
          rw [← answer_mode _ (fileSize o)] at hmode
          have hbits := bits_iff (EndsIn o.finalPath IsExecutableExtension) hmode
          rw [decidesRight_iff hpath (readPath_isSome hstops hqueries)]
          constructor
          · rintro ⟨a, v, hrun', hright⟩
            rw [hrun] at hrun'
            cases hrun'
            exact ⟨rfl, .inr (hbits.mp (hright hqueries).2)⟩
          · rintro ⟨-, hfail | hright⟩
            · cases hfail
            · exact ⟨_, t, hrun, fun _ => ⟨rfl, hbits.mpr hright⟩⟩

end

/-- `\\?\C:\a.EXE`. -/
def anExe : Object := { aFile with
  finalPath := longPrefix ++ [0x43, 0x3A, 0x5C, 0x61, 0x2E, 0x45, 0x58, 0x45] }

/-- Descriptor 3 is the program. -/
def aShell : Win := { aReader with handles := Function.update aReader.handles 4 (some anExe) }

theorem executable_iff_anExe : ExecutesRight aFolder .debug 3 anExe aShell := by
  refine (executable_iff rfl (by decide)).mpr ⟨rfl, .inr ?_⟩
  have hfits : anExe.finalPath.length < PATH_MAX := by decide
  rw [DecidesRight, if_neg (by decide), if_pos hfits, not_collides_iff]
  have hexe : EndsIn anExe.finalPath IsExecutableExtension :=
    ⟨longPrefix ++ [0x43, 0x3A, 0x5C, 0x61], 0x45, 0x58, 0x45, rfl, by decide⟩
  exact iff_of_true (endsIn_key hexe) hexe

/-- `a.img`, and it is a file. -/
def anImage : Object := { aFile with finalPath := [0x61, 0x2E, 0x69, 0x6D, 0x67] }

/-- Descriptor 3 is the image. -/
def aMount : Win := { aReader with handles := Function.update aReader.handles 4 (some anImage) }

/-- An image has the key of `com`, and is reported as executable. -/
theorem image_collides :
    aMount.objectOf 3 = some anImage ∧ anImage.isRegular = true ∧
      ¬ ExecutesRight aFolder .debug 3 anImage aMount := by
  refine ⟨rfl, by decide, ?_⟩
  rintro ⟨a, t, hrun, hright⟩
  have himage : ¬ EndsIn anImage.finalPath IsExecutableExtension := by
    have hcollides : Collides anImage.finalPath :=
      ⟨[0x61], 0x69, 0x6D, 0x67, rfl, by decide, by decide⟩
    exact (endsIn_and.mp hcollides).2
  have hset : after (fstat64 aFolder .debug 3) (fun a _ => a.stat.mode &&& S_IXALL == S_IXALL)
      aMount = true := by decide +kernel
  rw [after_of_ok hrun, (hright (by decide)).2.2 himage] at hset
  revert hset
  decide

end LibcCompat.Winsup
