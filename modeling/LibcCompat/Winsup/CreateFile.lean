/-
# `LibcCompat.Winsup.CreateFile` — `__wrap_CreateFileW` of `open.c`

The wrapper hands its arguments over as they are.  Where a file may be created
it converts the name first, into a buffer that it does not use any more, and
ends the process if that fails.

What is proved (`createFileW_transparent`): the wrapper is one call of the real
function exactly if no conversion is made or the converted name fits.
-/
import LibcCompat.Winsup.NoLeak

namespace LibcCompat.Winsup

open LibcCompat.Lib

def CREATE_NEW : UInt32 := 1
def CREATE_ALWAYS : UInt32 := 2
def OPEN_EXISTING : UInt32 := 3
def OPEN_ALWAYS : UInt32 := 4
def TRUNCATE_EXISTING : UInt32 := 5

/-- A wide string of C. -/
structure WStr where
  chars : List UInt16
  nonzero : 0 ∉ chars
deriving DecidableEq

/-- The arguments of `CreateFileW`; pointers are addresses. -/
structure CreateArgs where
  fileName : Option WStr
  desiredAccess : UInt32
  shareMode : UInt32
  securityAttributes : Option Nat
  creationDisposition : UInt32
  flagsAndAttributes : UInt32
  templateFile : Option Handle
deriving DecidableEq

/-- Whether a new file might be asked for.  A disposition that is not known counts
as one that asks. -/
def mayCreate (disposition : UInt32) : Bool :=
  if disposition = CREATE_ALWAYS ∨ disposition = CREATE_NEW ∨ disposition = OPEN_ALWAYS then true
  else if disposition = OPEN_EXISTING ∨ disposition = TRUNCATE_EXISTING then false
  else true

/-- `__wrap_CreateFileW`, over `WideCharToMultiByte` and `__real_CreateFileW`. -/
def wrapCreateFileW {σ : Type} (convert : List UInt16 → Nat → Prog σ (List UInt8 × Nat))
    (real : CreateArgs → Prog σ (Option Handle)) (a : CreateArgs) : Prog σ (Option Handle) := do
  match a.fileName with
  | none => real a
  | some name =>
      if name.chars = [] then real a
      else if mayCreate a.creationDisposition then
        let (_path, written) ← convert (name.chars ++ [0]) (PATH_MAX + 1)
        if written = 0 then throw .aborted
        else real a
      else real a

section
variable (E : Env) (real : CreateArgs → Prog Win (Option Handle))

/-- The wrapper in the process, with the calls of the real function recorded. -/
def recordedCreateFileW (a : CreateArgs) : Prog (Win × List CreateArgs) (Option Handle) :=
  wrapCreateFileW (fun w len => onState (wideCharToMultiByte E w len)) (record real) a

/-- The wrapper is one call of the real function with the same arguments.  Only
the count of platform calls may be another by then. -/
def Transparent (a : CreateArgs) (s : Win) : Prop :=
  ∃ n, recordedCreateFileW E real a (s, []) = record real a ({ s with calls := n }, [])

/-- The conversion goes well and its bytes fit. -/
def BytesFit (w : List UInt16) (n : Nat) (s : Win) : Prop :=
  E.fails s.calls = none ∧ (E.codePage.conv w).length ≤ n

/-- The name is converted, as a file may be created. -/
structure Creates (a : CreateArgs) (name : WStr) : Prop where
  fileName : a.fileName = some name
  nonempty : name.chars ≠ []
  existing : a.creationDisposition ≠ OPEN_EXISTING
  truncate : a.creationDisposition ≠ TRUNCATE_EXISTING

/-- Where the name is converted, its bytes fit. -/
def Converts (a : CreateArgs) (s : Win) : Prop :=
  ∀ name, Creates a name → BytesFit E (name.chars ++ [0]) (PATH_MAX + 1) s

end

section
variable {E : Env} {real : CreateArgs → Prog Win (Option Handle)} {a : CreateArgs} {s : Win}

theorem mayCreate_iff (disposition : UInt32) :
    mayCreate disposition = true ↔
      disposition ≠ OPEN_EXISTING ∧ disposition ≠ TRUNCATE_EXISTING := by
  unfold mayCreate
  split
  · next h =>
      refine iff_of_true rfl ?_
      rcases h with rfl | rfl | rfl
      · decide
      · decide
      · decide
  · split
    · next h => exact iff_of_false Bool.false_ne_true fun hne => h.elim hne.1 hne.2
    · next h => exact iff_of_true rfl (not_or.mp h)

theorem conv_pos (E : Env) (w : List UInt16) : 0 < (E.codePage.conv (w ++ [0])).length := by
  have h := E.codePage.grows w [0]
  rw [List.length_singleton] at h
  omega

/-- A conversion into a buffer whose size is an `int`. -/
theorem wideCharToMultiByte_int {w : List UInt16} {n : Nat} (h0 : 0 < n) (hn : n < 2 ^ 31) :
    wideCharToMultiByte E w n =
      attempt E (fun e => do setLastError e; return ([], 0)) fun _ =>
        if (E.codePage.conv w).length ≤ n then
          return (E.codePage.conv w, (E.codePage.conv w).length)
        else return ([], 0) := by
  have hcap : (n : Int).bmod (2 ^ 32) = n := Int.bmod_eq_of_le (by omega) (by omega)
  have hne : ¬ (n : Int) = 0 := by omega
  unfold wideCharToMultiByte
  simp only [hcap, if_neg hne, Int.ofNat_le]

theorem wideCharToMultiByte_fits {w : List UInt16} {n : Nat} (h0 : 0 < n) (hn : n < 2 ^ 31)
    (hfits : BytesFit E w n s) :
    wideCharToMultiByte E w n s = .ok (E.codePage.conv w, (E.codePage.conv w).length)
      { s with calls := s.calls + 1 } := by
  rw [wideCharToMultiByte_int h0 hn, attempt, hfits.1]
  dsimp only
  rw [if_pos hfits.2]
  rfl

theorem wideCharToMultiByte_fails {w : List UInt16} {n : Nat} (h0 : 0 < n) (hn : n < 2 ^ 31)
    (hlong : ¬ BytesFit E w n s) : ∃ t, wideCharToMultiByte E w n s = .ok ([], 0) t := by
  rw [wideCharToMultiByte_int h0 hn, attempt]
  cases hfail : E.fails s.calls with
  | some e => exact ⟨_, rfl⟩
  | none =>
      dsimp only
      rw [if_neg fun hle => hlong ⟨hfail, hle⟩]
      exact ⟨_, rfl⟩

theorem createFileW_creates {name : WStr} (h : Creates a name) :
    recordedCreateFileW E real a =
      onState (wideCharToMultiByte E (name.chars ++ [0]) (PATH_MAX + 1)) >>= fun res =>
        if res.2 = 0 then throw .aborted else record real a := by
  have hcreate := (mayCreate_iff a.creationDisposition).mpr ⟨h.existing, h.truncate⟩
  simp only [recordedCreateFileW, wrapCreateFileW, h.fileName, if_neg h.nonempty, if_pos hcreate]

theorem createFileW_passes {name : WStr} (h : Creates a name)
    (hfits : BytesFit E (name.chars ++ [0]) (PATH_MAX + 1) s) :
    recordedCreateFileW E real a (s, []) =
      record real a ({ s with calls := s.calls + 1 }, []) := by
  rw [createFileW_creates h, bind_apply, onState_apply,
    wideCharToMultiByte_fits (by decide) (by decide) hfits]
  exact congrFun (if_neg (Nat.ne_of_gt (conv_pos E name.chars))) _

theorem createFileW_aborts {name : WStr} (h : Creates a name)
    (hlong : ¬ BytesFit E (name.chars ++ [0]) (PATH_MAX + 1) s) :
    ∃ t, recordedCreateFileW E real a (s, []) = .error .aborted (t, []) := by
  obtain ⟨t, hconv⟩ := wideCharToMultiByte_fails (by decide) (by decide) hlong
  rw [createFileW_creates h, bind_apply, onState_apply, hconv]
  exact ⟨t, rfl⟩

theorem aborts_notTransparent
    (h : ∃ t, recordedCreateFileW E real a (s, []) = .error .aborted (t, [])) :
    ¬ Transparent E real a s := by
  rintro ⟨n, hsame⟩
  obtain ⟨t, haborts⟩ := h
  have hcalls := congrArg (fun r => (finalState r).2) (haborts.symm.trans hsame)
  rw [record_finalState] at hcalls
  exact absurd hcalls (List.cons_ne_nil a []).symm

theorem createFileW_skips (h : ∀ name, ¬ Creates a name) :
    recordedCreateFileW E real a = record real a := by
  unfold recordedCreateFileW wrapCreateFileW
  split
  · rfl
  · next name hname =>
      split
      · rfl
      · next hne =>
          split
          · next hcreate =>
              obtain ⟨hexisting, htruncate⟩ := (mayCreate_iff _).mp hcreate
              exact absurd ⟨hname, hne, hexisting, htruncate⟩ (h name)
          · rfl

end

/-- **`__wrap_CreateFileW`.**  For every name, disposition and other arguments,
the wrapper is one call of the real function exactly if the name, where it is
converted, fits. -/
theorem createFileW_transparent (E : Env) (real : CreateArgs → Prog Win (Option Handle))
    (a : CreateArgs) (s : Win) : Transparent E real a s ↔ Converts E a s := by
  by_cases hcreates : ∃ name, Creates a name
  · obtain ⟨name, hname⟩ := hcreates
    constructor
    · intro hsame name' hname'
      by_contra hlong
      exact aborts_notTransparent (createFileW_aborts hname' hlong) hsame
    · intro hconverts
      exact ⟨_, createFileW_passes hname (hconverts name hname)⟩
  · have hnone : ∀ name, ¬ Creates a name := fun name h => hcreates ⟨name, h⟩
    exact iff_of_true ⟨s.calls, congrFun (createFileW_skips hnone) _⟩
      fun name h => absurd h (hnone name)

/-- The real function always hands out handle 8. -/
def anyFile : CreateArgs → Prog Win (Option Handle) := fun _ => pure (some 8)

/-- A name of 300 characters. -/
def longName : WStr :=
  ⟨List.replicate 300 0x61, fun h => absurd (List.eq_of_mem_replicate h) (by decide)⟩

/-- A file with that name is to be created. -/
def createLong : CreateArgs where
  fileName := some longName
  desiredAccess := 0x40000000
  shareMode := 0
  securityAttributes := none
  creationDisposition := CREATE_ALWAYS
  flagsAndAttributes := 0
  templateFile := none

/-- The process ends, and the real function is not called. -/
theorem createLong_aborts :
    (∃ t, recordedCreateFileW aFolder anyFile createLong (aProcess, []) =
      .error .aborted (t, [])) ∧
      ¬ Transparent aFolder anyFile createLong aProcess := by
  have hlength : longName.chars.length = 300 := List.length_replicate
  have hlong : ¬ BytesFit aFolder (longName.chars ++ [0]) (PATH_MAX + 1) aProcess := by
    rintro ⟨-, hfits⟩
    simp only [aFolder, List.length_map, List.length_append, hlength, List.length_singleton,
      PATH_MAX] at hfits
    omega
  have hne : longName.chars ≠ [] := by
    intro hnil
    rw [hnil] at hlength
    cases hlength
  have haborts : ∃ t, recordedCreateFileW aFolder anyFile createLong (aProcess, []) =
      .error .aborted (t, []) :=
    createFileW_aborts ⟨rfl, hne, by decide, by decide⟩ hlong
  exact ⟨haborts, aborts_notTransparent haborts⟩

end LibcCompat.Winsup
