/-
# `LibcCompat.Winsup.Acl` — `fchmod` of `acl.c`

The only permission Windows has for a file is the attribute that makes it
read-only.  `fchmod` goes from the mode to that attribute, `fstat` from the
attribute to the mode.

What is proved (`fchmod_fstat_agree`): the two agree, unless the read-only
attribute is the only one and is to be cleared.  The attribute word is 0 then,
which for Windows means to leave the attributes as they are.
-/
import LibcCompat.Winsup.DirfdErrors

namespace LibcCompat.Winsup

open LibcCompat.Lib

def S_IWALL : ModeT := S_IWUSR ||| S_IWGRP ||| S_IWOTH

/-! ## Masks -/

section
variable {a b m : UInt32}

theorem or_and_distrib : (a ||| b) &&& m = (a &&& m) ||| (b &&& m) :=
  UInt32.toBitVec_inj.mp BitVec.and_or_distrib_right

theorem and_not_and : a &&& ~~~m &&& m = 0 := by
  rw [UInt32.and_assoc, UInt32.and_comm (~~~m) m, UInt32.and_not_self, UInt32.and_zero]

/-- A word is what the mask takes away and what is under the mask. -/
theorem mask_split : (a &&& ~~~m) ||| (a &&& m) = a := by
  rw [UInt32.and_comm a, UInt32.and_comm a, ← or_and_distrib, UInt32.not_or_self,
    UInt32.neg_one_and]

theorem and_mask_and : a &&& m &&& m = a &&& m := by
  rw [UInt32.and_assoc, UInt32.and_self]

end

/-! ## The attributes of an object -/

/-- An object with other attributes.  Whether it is a reparse point is not one
that can be set. -/
def Object.setAttributes (o : Object) (word : UInt32) : Object :=
  { o with
    attributes := (word &&& ~~~FILE_ATTRIBUTE_REPARSE_POINT) |||
      (o.attributes &&& FILE_ATTRIBUTE_REPARSE_POINT)
    reparse_iff := by
      rw [or_and_distrib, and_not_and, and_mask_and, UInt32.zero_or, o.reparse_iff] }

section
variable (E : Env)

/-- `SetFileInformationByHandle` with `FileBasicInfo` and no times: 0 leaves the
attributes as they are. -/
def setFileAttributes (h : Handle) (word : UInt32) : Prog Win Bool :=
  attempt E (fun e => do setLastError e; return false) fun _ s =>
    match s.handles h with
    | none => .ok false { s with lastError := ERROR_INVALID_HANDLE }
    | some o =>
        if word = 0 then .ok true s
        else .ok true
          { s with handles := Function.update s.handles h (some (o.setAttributes word)) }

/-- The attributes that go with a mode. -/
def newAttr (mode : ModeT) (attributes : UInt32) : UInt32 :=
  if mode &&& S_IWALL ≠ 0 then attributes &&& ~~~FILE_ATTRIBUTE_READONLY
  else attributes ||| FILE_ATTRIBUTE_READONLY

/-- `fchmod`. -/
def fchmod (fd : Fd) (mode : ModeT) : Prog Win Int := do
  match ← getOsfhandle fd with
  | none => return -1
  | some h =>
      match ← getFileInformationByHandle E h with
      | none =>
          setErrnoViaWinerr E
          return -1
      | some hfi =>
          if newAttr mode hfi.attributes = hfi.attributes then return 0
          else if ← setFileAttributes E h (newAttr mode hfi.attributes) then return 0
          else
            setErrnoViaWinerr E
            return -1

end

/-! ## The two directions -/

/-- What `fstat` reports after `fchmod`, in state `t`: write permission is as the
mode has it, and the other attributes are as they were. -/
structure Agree (fd : Fd) (mode : ModeT) (o : Object) (reported : ModeT) (t : Win) : Prop where
  writes : reported &&& S_IWALL ≠ 0 ↔ mode &&& S_IWALL ≠ 0
  others : ∃ o', t.objectOf fd = some o' ∧
    o'.attributes &&& ~~~FILE_ATTRIBUTE_READONLY = o.attributes &&& ~~~FILE_ATTRIBUTE_READONLY

section
variable {E : Env} {b : Build} {fd : Fd} {mode : ModeT} {s t u : Win} {o : Object} {a : Answer}

/-- The attributes that go with a mode make a reparse point of the same objects. -/
theorem newAttr_reparse (mode : ModeT) (attributes : UInt32) :
    newAttr mode attributes &&& FILE_ATTRIBUTE_REPARSE_POINT =
      attributes &&& FILE_ATTRIBUTE_REPARSE_POINT := by
  unfold newAttr
  split
  · rw [UInt32.and_assoc]
    rfl
  · rw [or_and_distrib]
    exact UInt32.or_zero

theorem newAttr_others (mode : ModeT) (attributes : UInt32) :
    newAttr mode attributes &&& ~~~FILE_ATTRIBUTE_READONLY =
      attributes &&& ~~~FILE_ATTRIBUTE_READONLY := by
  unfold newAttr
  split
  · exact and_mask_and
  · rw [or_and_distrib, UInt32.and_not_self, UInt32.or_zero]

theorem newAttr_readonly (mode : ModeT) (attributes : UInt32) :
    newAttr mode attributes &&& FILE_ATTRIBUTE_READONLY = 0 ↔ mode &&& S_IWALL ≠ 0 := by
  unfold newAttr
  split
  · next h => exact iff_of_true and_not_and h
  · next h =>
      refine iff_of_false ?_ h
      rw [or_and_distrib, UInt32.and_self, UInt32.or_eq_zero_iff]
      exact fun hzero => absurd hzero.2 (by decide)

theorem and_readonly (attributes : UInt32) :
    attributes &&& FILE_ATTRIBUTE_READONLY = 0 ∨
      attributes &&& FILE_ATTRIBUTE_READONLY = FILE_ATTRIBUTE_READONLY := by
  have hle : (attributes &&& FILE_ATTRIBUTE_READONLY).toNat ≤ 1 := UInt32.and_le_right
  simp only [← UInt32.toNat_inj]
  change _ = 0 ∨ _ = 1
  omega

theorem setAttributes_newAttr (o : Object) (mode : ModeT) :
    (o.setAttributes (newAttr mode o.attributes)).attributes = newAttr mode o.attributes := by
  unfold Object.setAttributes
  dsimp only
  rw [← newAttr_reparse mode o.attributes, mask_split]

theorem newAttr_cleared {mode : ModeT} (hwrite : mode &&& S_IWALL ≠ 0) :
    newAttr mode FILE_ATTRIBUTE_READONLY = 0 := by
  rw [newAttr, if_pos hwrite, UInt32.and_not_self]

/-- The word is 0 exactly for a file that is read-only and nothing else, and that
is to be writable. -/
theorem newAttr_eq_zero {mode : ModeT} {attributes : UInt32}
    (hchanged : newAttr mode attributes ≠ attributes) :
    newAttr mode attributes = 0 ↔
      attributes = FILE_ATTRIBUTE_READONLY ∧ mode &&& S_IWALL ≠ 0 := by
  constructor
  · intro hzero
    have hothers : attributes &&& ~~~FILE_ATTRIBUTE_READONLY = 0 := by
      rw [← newAttr_others mode, hzero, UInt32.zero_and]
    have hsplit : attributes &&& FILE_ATTRIBUTE_READONLY = attributes := by
      have h := mask_split (a := attributes) (m := FILE_ATTRIBUTE_READONLY)
      rwa [hothers, UInt32.zero_or] at h
    refine ⟨?_, ?_⟩
    · rcases and_readonly attributes with hnone | hset
      · exact absurd (hzero.trans (hnone.symm.trans hsplit)) hchanged
      · exact hsplit.symm.trans hset
    · rw [← newAttr_readonly mode attributes, hzero, UInt32.zero_and]
  · rintro ⟨rfl, hwrite⟩
    exact newAttr_cleared hwrite

theorem diskMode_writes (o : Object) (path : Option Path) :
    diskMode o path &&& S_IWALL = 0 := by
  unfold diskMode
  split
  · decide
  · split
    · decide
    · split
      · decide
      · decide

theorem writable_writes (o : Object) : writable o &&& S_IWALL = writable o := by
  unfold writable
  split
  · decide
  · decide

theorem mode_or_and (x y z : ModeT) : (x ||| y) &&& z = (x &&& z) ||| (y &&& z) :=
  UInt16.toBitVec_inj.mp BitVec.and_or_distrib_right

theorem statOf_writes (fd : Fd) (o : Object) (path : Option Path) :
    (statOf fd o .disk path).mode &&& S_IWALL = writable o := by
  have hread : (S_IRUSR ||| S_IRGRP ||| S_IROTH) &&& S_IWALL = 0 := by decide
  unfold statOf
  dsimp only
  rw [mode_or_and, mode_or_and, hread, diskMode_writes, writable_writes, UInt16.zero_or,
    UInt16.zero_or]

theorem writable_ne_zero (o : Object) :
    writable o ≠ 0 ↔ o.attributes &&& FILE_ATTRIBUTE_READONLY = 0 := by
  unfold writable
  split
  · next h => exact iff_of_true (by decide) h
  · next h => exact iff_of_false (fun hne => hne rfl) h

/-! ## What the calls leave -/

theorem setFileAttributes_ok {h : Handle} {word : UInt32} (hopen : s.handles h = some o)
    (hset : setFileAttributes E h word s = .ok true t) :
    t.crt = s.crt ∧ t.handles h = some (if word = 0 then o else o.setAttributes word) := by
  unfold setFileAttributes attempt at hset
  cases hfail : E.fails s.calls with
  | some e =>
      rw [hfail] at hset
      cases hset
  | none =>
      rw [hfail] at hset
      simp only [hopen] at hset
      split at hset
      · next hzero =>
          cases hset
          exact ⟨rfl, by rw [if_pos hzero, ← hopen]⟩
      · next hword =>
          cases hset
          refine ⟨rfl, ?_⟩
          dsimp only
          rw [Function.update_self, if_neg hword]

/-- What `fchmod` leaves of the object, where it succeeds. -/
def chmodded (mode : ModeT) (o : Object) : Object :=
  if newAttr mode o.attributes = o.attributes ∨ newAttr mode o.attributes = 0 then o
  else o.setAttributes (newAttr mode o.attributes)

theorem fchmod_ok (hobject : s.objectOf fd = some o) (hrun : fchmod E fd mode s = .ok 0 t) :
    t.objectOf fd = some (chmodded mode o) := by
  obtain ⟨h, hfd, hopen⟩ := objectOf_eq_some.mp hobject
  simp only [fchmod, bind_apply, getOsfhandle_eq hfd, getFileInformationByHandle] at hrun
  cases hfail : E.fails s.calls with
  | some e =>
      rw [query_fails hfail] at hrun
      cases hrun
  | none =>
      simp only [query_ok hopen hfail] at hrun
      unfold chmodded
      split at hrun
      · next hsame =>
          cases hrun
          rw [if_pos (.inl hsame), ← hobject]
          rfl
      · next hchanged =>
          obtain ⟨set, v, hset, hrun⟩ := bind_ok hrun
          cases set with
          | false => cases hrun
          | true =>
              cases hrun
              have hleft := setFileAttributes_ok (o := o) (by exact hopen) hset
              rw [objectOf_eq_some]
              refine ⟨h, hleft.1.symm ▸ hfd, hleft.2.trans ?_⟩
              by_cases hzero : newAttr mode o.attributes = 0
              · rw [if_pos hzero, if_pos (.inr hzero)]
              · rw [if_neg hzero, if_neg (not_or.mpr ⟨hchanged, hzero⟩)]

theorem fstat64_reports (hobject : s.objectOf fd = some o) (hrun : fstat64 E b fd s = .ok a t)
    (hret : a.ret = 0) : ∃ path, a.stat.mode = (statOf fd o o.type path).mode := by
  obtain ⟨found, u, hexamine, hrest⟩ := bind_ok hrun
  cases found with
  | none =>
      cases hrest
      exact absurd hret (by decide)
  | some found =>
      obtain ⟨o', type, path⟩ := found
      obtain ⟨size, v, -, hrest⟩ := bind_ok hrest
      cases hrest
      obtain ⟨hsame, rfl⟩ := examine_some hexamine
      cases hobject.symm.trans hsame
      exact ⟨path, rfl⟩

theorem chmodded_attributes (mode : ModeT) (o : Object) :
    (chmodded mode o).attributes =
      if newAttr mode o.attributes = 0 then o.attributes else newAttr mode o.attributes := by
  unfold chmodded
  by_cases hsame : newAttr mode o.attributes = o.attributes
  · rw [if_pos (.inl hsame), hsame, ite_self]
  · by_cases hzero : newAttr mode o.attributes = 0
    · rw [if_pos (.inr hzero), if_pos hzero]
    · rw [if_neg (not_or.mpr ⟨hsame, hzero⟩), if_neg hzero, setAttributes_newAttr]

theorem chmodded_others (mode : ModeT) (o : Object) :
    (chmodded mode o).attributes &&& ~~~FILE_ATTRIBUTE_READONLY =
      o.attributes &&& ~~~FILE_ATTRIBUTE_READONLY := by
  rw [chmodded_attributes]
  split
  · rfl
  · exact newAttr_others mode o.attributes

/-- The read-only attribute is as the mode has it, but for the one file that is
read-only and nothing else. -/
theorem chmodded_readonly (mode : ModeT) (o : Object) :
    ((chmodded mode o).attributes &&& FILE_ATTRIBUTE_READONLY = 0 ↔ mode &&& S_IWALL ≠ 0) ↔
      ¬ (o.attributes = FILE_ATTRIBUTE_READONLY ∧ mode &&& S_IWALL ≠ 0) := by
  rw [chmodded_attributes]
  split
  · next hzero =>
      have hwrite : mode &&& S_IWALL ≠ 0 := by
        rw [← newAttr_readonly mode o.attributes, hzero, UInt32.zero_and]
      by_cases hsame : newAttr mode o.attributes = o.attributes
      · rw [← hsame, hzero]
        exact iff_of_true (iff_of_true UInt32.zero_and hwrite) fun h => absurd h.1 (by decide)
      · have honly := (newAttr_eq_zero hsame).mp hzero
        refine iff_of_false (fun h => ?_) (not_not.mpr honly)
        rw [honly.1] at h
        exact absurd (h.mpr hwrite) (by decide)
  · next hword =>
      refine iff_of_true (newAttr_readonly mode o.attributes) ?_
      rintro ⟨honly, hwrite⟩
      exact hword (honly ▸ newAttr_cleared hwrite)

/-- **Write permission.**  After `fchmod`, `fstat` of a disk file reports write
permission as the mode has it, with the other attributes as they were, unless
the file was read-only and nothing else and the mode makes it writable. -/
theorem fchmod_fstat_agree (hobject : s.objectOf fd = some o) (hdisk : o.type = .disk)
    (hchmod : fchmod E fd mode s = .ok 0 t) (hstat : fstat64 E b fd t = .ok a u)
    (hret : a.ret = 0) :
    Agree fd mode o a.stat.mode t ↔
      ¬ (o.attributes = FILE_ATTRIBUTE_READONLY ∧ mode &&& S_IWALL ≠ 0) := by
  have hleft := fchmod_ok hobject hchmod
  obtain ⟨path, hmode⟩ := fstat64_reports hleft hstat hret
  have htype : (chmodded mode o).type = .disk := by
    unfold chmodded
    split
    · exact hdisk
    · exact hdisk
  have hwrites : a.stat.mode &&& S_IWALL ≠ 0 ↔
      (chmodded mode o).attributes &&& FILE_ATTRIBUTE_READONLY = 0 := by
    rw [hmode, htype, statOf_writes, writable_ne_zero]
  rw [← chmodded_readonly, ← hwrites]
  exact ⟨Agree.writes, fun h => ⟨h, _, hleft, chmodded_others mode o⟩⟩

/-- Descriptor 3 is a file that is read-only and has no other attribute. -/
def aLocked : Win := { aReader with
  handles := Function.update aReader.handles 4
    (some (aFile.setAttributes FILE_ATTRIBUTE_READONLY)) }

theorem fchmod_fstat_agree_aReader :
    ∃ t a u, fchmod aFolder 3 S_IRUSR aReader = .ok 0 t ∧
      fstat64 aFolder .debug 3 t = .ok a u ∧ Agree 3 S_IRUSR aFile a.stat.mode t := by
  obtain ⟨r, t, hchmod, hr⟩ := after_iff.mp
    (show after (fchmod aFolder 3 S_IRUSR) (fun r t =>
      decide (r = 0) && after (fstat64 aFolder .debug 3) (fun a _ => decide (a.ret = 0)) t)
      aReader = true by decide +kernel)
  simp only [Bool.and_eq_true, decide_eq_true_eq] at hr
  obtain ⟨a, u, hstat, hret⟩ := after_iff.mp hr.2
  cases hr.1
  exact ⟨t, a, u, hchmod, hstat,
    (fchmod_fstat_agree rfl rfl hchmod hstat (of_decide_eq_true hret)).mpr (by decide)⟩

/-- Such a file is not made writable, and `fchmod` reports success. -/
theorem fchmod_aLocked :
    ∃ t a u, fchmod aFolder 3 S_IWUSR aLocked = .ok 0 t ∧ fstat64 aFolder .debug 3 t = .ok a u ∧
      a.ret = 0 ∧ aLocked.objectOf 3 = some (aFile.setAttributes FILE_ATTRIBUTE_READONLY) ∧
      ¬ Agree 3 S_IWUSR (aFile.setAttributes FILE_ATTRIBUTE_READONLY) a.stat.mode t := by
  obtain ⟨r, t, hchmod, hr⟩ := after_iff.mp
    (show after (fchmod aFolder 3 S_IWUSR) (fun r t =>
      decide (r = 0) && after (fstat64 aFolder .debug 3)
        (fun a _ => decide (a.ret = 0 ∧ a.stat.mode &&& S_IWALL = 0)) t)
      aLocked = true by decide +kernel)
  simp only [Bool.and_eq_true, decide_eq_true_eq] at hr
  obtain ⟨a, u, hstat, hbits⟩ := after_iff.mp hr.2
  have hzero : a.ret = 0 ∧ a.stat.mode &&& S_IWALL = 0 := of_decide_eq_true hbits
  cases hr.1
  refine ⟨t, a, u, hchmod, hstat, hzero.1, rfl, fun hagree => ?_⟩
  exact hagree.writes.mpr (by decide) hzero.2

end

end LibcCompat.Winsup
