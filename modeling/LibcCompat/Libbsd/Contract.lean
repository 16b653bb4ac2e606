/-
# `LibcCompat.Libbsd.Contract` — exactly what `strlcpy` does

## What is proved

`strlcpy_iff` says for every source, destination and size when the call is
defined, what it returns and what each byte of the destination is afterwards:

* the source holds a string, and its length is the result;
* with a size of 0 the destination is not touched; otherwise the part of the
  string that fits and a terminator lie at its start, there is room for them, and
  the bytes behind are as they were.

The size may be larger than the destination, as long as the string is short
enough.  A result of at least the size means that something was cut off
(`strlcpy_fits_iff`).

## How

Each of the two ways to leave the first loop has a lemma that says where it is
left and with which destination; the third lemma says when it overruns the
destination.
-/
import LibcCompat.Lib.Overlay
import LibcCompat.Libbsd.Str

namespace LibcCompat.Libbsd

open LibcCompat.Lib

variable {cap : Nat} {src name : List UInt8}

/-! ## The first loop -/

theorem toList_set_splice (dst : Vector UInt8 cap) {i : Nat} (hi : i < cap) (c : UInt8)
    (bytes : List UInt8) :
    splice (dst.set i c).toList (i + 1) bytes = splice dst.toList i (c :: bytes) := by
  have hlen : i < dst.toList.length := by
    rw [Vector.length_toList]
    exact hi
  rw [Vector.toList_set, splice_set hlen]

theorem copyLoop_full_eq (hsrc : HoldsString src name) {n i : Nat} (dst : Vector UInt8 cap)
    (hroom : i + n ≤ name.length) (hcap : i + n ≤ cap) :
    ∃ dst', copyLoop src n i dst = some (dst', i + n, 0) ∧
      dst'.toList = splice dst.toList i ((name.drop i).take n) := by
  induction n generalizing i dst with
  | zero =>
      refine ⟨dst, rfl, ?_⟩
      rw [List.take_zero, splice_nil]
  | succ n ih =>
      have hi : i < name.length := by omega
      have hicap : i < cap := by omega
      obtain ⟨dst', hloop, hdst'⟩ := ih (i := i + 1) (dst.set i name[i]) (by omega) (by omega)
      refine ⟨dst', ?_, ?_⟩
      · have hadd : i + (n + 1) = i + 1 + n := by omega
        rw [hadd, ← hloop]
        simp only [copyLoop, hsrc.getElem?_lt hi, dif_pos hicap, if_neg (hsrc.ne_zero hi)]
      · rw [hdst', toList_set_splice dst hicap, List.drop_eq_getElem_cons hi, List.take_succ_cons]

theorem copyLoop_ends_eq (hsrc : HoldsString src name) {n i : Nat} (dst : Vector UInt8 cap)
    (hi : i ≤ name.length) (hroom : name.length < i + n) (hcap : name.length < cap) :
    ∃ dst' left, copyLoop src n i dst = some (dst', name.length + 1, left) ∧ left ≠ 0 ∧
      dst'.toList = splice dst.toList i (name.drop i ++ [0]) := by
  induction n generalizing i dst with
  | zero => exact absurd hroom (by omega)
  | succ n ih =>
      have hicap : i < cap := by omega
      rcases Nat.lt_or_eq_of_le hi with hlt | rfl
      · obtain ⟨dst', left, hloop, hleft, hdst'⟩ :=
          ih (i := i + 1) (dst.set i name[i]) hlt (by omega)
        refine ⟨dst', left, ?_, hleft, ?_⟩
        · rw [← hloop]
          simp only [copyLoop, hsrc.getElem?_lt hlt, dif_pos hicap, if_neg (hsrc.ne_zero hlt)]
        · rw [hdst', toList_set_splice dst hicap, List.drop_eq_getElem_cons hlt, List.cons_append]
      · refine ⟨dst.set name.length 0, n + 1, ?_, by omega, ?_⟩
        · simp only [copyLoop, hsrc.getElem?_length, dif_pos hicap, if_true]
        · rw [List.drop_length, List.nil_append, ← toList_set_splice dst hicap, splice_nil]

theorem copyLoop_overruns (hsrc : HoldsString src name) {n i : Nat} {dst : Vector UInt8 cap}
    (hi : i ≤ cap) (hshort : cap ≤ name.length) (hcap : cap < i + n) :
    copyLoop src n i dst = none := by
  induction n generalizing i dst with
  | zero => exact absurd hcap (by omega)
  | succ n ih =>
      rcases Nat.lt_or_eq_of_le hi with hlt | rfl
      · have hname : i < name.length := by omega
        have hrest : copyLoop src n (i + 1) (dst.set i name[i]) = none := ih hlt (by omega)
        simp only [copyLoop, hsrc.getElem?_lt hname, dif_pos hlt, if_neg (hsrc.ne_zero hname),
          hrest]
      · have hsome : ∃ c, src[i]? = some c := by
          rcases Nat.lt_or_eq_of_le hshort with hname | hend
          · exact ⟨_, hsrc.getElem?_lt hname⟩
          · rw [hend]
            exact ⟨_, hsrc.getElem?_length⟩
        obtain ⟨c, hc⟩ := hsome
        simp only [copyLoop, hc, dif_neg (Nat.lt_irrefl i)]

/-! ## Without a terminator in the source -/

theorem copyLoop_no_string (hnone : 0 ∉ src) {n i j left : Nat} {dst dst' : Vector UInt8 cap}
    (h : copyLoop src n i dst = some (dst', j, left)) : left = 0 := by
  induction n generalizing i dst with
  | zero =>
      cases h
      rfl
  | succ n ih =>
      rw [copyLoop] at h
      cases hc : src[i]? with
      | none =>
          rw [hc] at h
          cases h
      | some c =>
          rw [hc] at h
          have hne : c ≠ 0 := by
            rintro rfl
            exact hnone (List.mem_of_getElem? hc)
          simp only [if_neg hne] at h
          split at h
          · exact ih h
          · cases h

theorem skipLoop_no_string (hnone : 0 ∉ src) (i : Nat) : skipLoop src i = none := by
  induction src generalizing i with
  | nil => rfl
  | cons c cs ih =>
      obtain ⟨hc, hcs⟩ := List.ne_and_not_mem_of_not_mem_cons hnone
      rw [skipLoop, if_neg (Ne.symm hc)]
      exact ih hcs (i + 1)

/-- The second loop then runs out of the source. -/
theorem strlcpy_no_string (hnone : 0 ∉ src) (dst : Vector UInt8 cap) (siz : Nat) :
    strlcpy dst src siz = none := by
  unfold strlcpy
  cases hloop : copyLoop src (siz - 1) 0 dst with
  | none => rfl
  | some res =>
      obtain ⟨dst', i, left⟩ := res
      obtain rfl := copyLoop_no_string hnone hloop
      have hskip : skipLoop (src.drop i) i = none :=
        skipLoop_no_string (fun hmem => hnone (List.mem_of_mem_drop hmem)) i
      simp only [Option.bind_eq_bind, Option.bind_some, if_true, hskip, Option.bind_none,
        Option.bind_fun_none]

theorem exists_holdsString (h : 0 ∈ src) : ∃ name, HoldsString src name := by
  induction src with
  | nil => cases h
  | cons c cs ih =>
      by_cases hc : c = 0
      · exact ⟨[], hc ▸ ⟨cs, rfl⟩, List.not_mem_nil⟩
      · obtain ⟨name, hname⟩ := ih ((List.mem_cons.mp h).resolve_left (Ne.symm hc))
        refine ⟨c :: name, List.cons_prefix_cons.mpr ⟨rfl, hname.bytes⟩, ?_⟩
        rw [List.mem_cons, not_or]
        exact ⟨Ne.symm hc, hname.nonzero⟩

/-! ## The contract -/

/-- What a copy with room for `siz` bytes makes of the destination. -/
def Copied (name : List UInt8) : Nat → List UInt8 → List UInt8 → Prop
  | 0, old, new => new = old
  | n + 1, old, new =>
      min name.length n < old.length ∧ new = splice old 0 (name.take n ++ [0])

theorem strlcpy_room (hsrc : HoldsString src name) (dst : Vector UInt8 cap) (n : Nat) :
    if min name.length n < cap then
      ∃ dst', strlcpy dst src (n + 1) = some (dst', name.length) ∧
        dst'.toList = splice dst.toList 0 (name.take n ++ [0])
    else strlcpy dst src (n + 1) = none := by
  rcases Nat.lt_or_ge name.length n with hlt | hge
  · rw [Nat.min_eq_left (Nat.le_of_lt hlt), List.take_of_length_le (Nat.le_of_lt hlt)]
    split
    · next hcap =>
        obtain ⟨dst', left, hloop, hleft, hdst'⟩ :=
          copyLoop_ends_eq hsrc (n := n) dst (Nat.zero_le _) (by omega) hcap
        refine ⟨dst', ?_, hdst'⟩
        simp only [strlcpy, Nat.add_sub_cancel, hloop, Option.bind_eq_bind, Option.bind_some,
          if_neg hleft]
        rfl
    · next hcap =>
        have hloop : copyLoop src n 0 dst = none :=
          copyLoop_overruns hsrc (Nat.zero_le _) (by omega) (by omega)
        simp only [strlcpy, Nat.add_sub_cancel, hloop, Option.bind_eq_bind, Option.bind_none]
  · rw [Nat.min_eq_right hge]
    rcases Nat.lt_or_ge cap n with hover | hcap
    · rw [if_neg (by omega)]
      have hloop : copyLoop src n 0 dst = none :=
        copyLoop_overruns hsrc (Nat.zero_le _) (by omega) (by omega)
      simp only [strlcpy, Nat.add_sub_cancel, hloop, Option.bind_eq_bind, Option.bind_none]
    · obtain ⟨dst', hloop, hdst'⟩ :=
        copyLoop_full_eq hsrc (n := n) (i := 0) dst (by omega) (by omega)
      rw [Nat.zero_add] at hloop
      have hskip := skipLoop_drop hsrc hge
      split
      · next hn =>
          refine ⟨dst'.set n 0, ?_, ?_⟩
          · simp only [strlcpy, Nat.add_sub_cancel, hloop, Option.bind_eq_bind, Option.bind_some,
              if_true, terminate, Nat.add_one_ne_zero, if_false, dif_pos hn, hskip]
            rfl
          · have hlen : (name.take n).length = n := by rw [List.length_take, Nat.min_eq_left hge]
            have hin : n < dst.toList.length := by
              rw [Vector.length_toList]
              exact hn
            rw [Vector.toList_set, hdst', List.drop_zero]
            exact splice_snoc hlen hin 0
      · next hn =>
          simp only [strlcpy, Nat.add_sub_cancel, hloop, Option.bind_eq_bind, Option.bind_some,
            if_true, terminate, Nat.add_one_ne_zero, if_false, dif_neg hn, Option.bind_none]

theorem strlcpy_of_string (hsrc : HoldsString src name) {dst dst' : Vector UInt8 cap}
    {siz r : Nat} : strlcpy dst src siz = some (dst', r) ↔
      r = name.length ∧ Copied name siz dst.toList dst'.toList := by
  cases siz with
  | zero =>
      rw [strlcpy_zero hsrc, Option.some.injEq, Prod.mk.injEq, and_comm, Copied,
        Vector.toList_inj, eq_comm, @eq_comm _ dst]
  | succ n =>
      rw [Copied, Vector.length_toList]
      have hroom := strlcpy_room hsrc dst n
      split at hroom
      · next hcap =>
          obtain ⟨new, hrun, hnew⟩ := hroom
          rw [hrun, Option.some.injEq, Prod.mk.injEq, ← hnew, Vector.toList_inj]
          constructor
          · rintro ⟨rfl, rfl⟩
            exact ⟨rfl, hcap, rfl⟩
          · rintro ⟨rfl, -, rfl⟩
            exact ⟨rfl, rfl⟩
      · next hcap =>
          rw [hroom]
          exact iff_of_false nofun fun h => hcap h.2.1

/-- **`strlcpy`.**  When it is defined, what it returns and what it leaves. -/
theorem strlcpy_iff {dst dst' : Vector UInt8 cap} {siz r : Nat} :
    strlcpy dst src siz = some (dst', r) ↔
      ∃ name, HoldsString src name ∧ r = name.length ∧
        Copied name siz dst.toList dst'.toList := by
  by_cases hsome : 0 ∈ src
  · obtain ⟨name, hsrc⟩ := exists_holdsString hsome
    rw [strlcpy_of_string hsrc]
    constructor
    · exact fun h => ⟨name, hsrc, h⟩
    · rintro ⟨name', hsrc', h⟩
      rwa [hsrc.unique hsrc']
  · rw [strlcpy_no_string hsome]
    refine iff_of_false nofun ?_
    rintro ⟨name, hsrc, -⟩
    exact hsome (hsrc.bytes.subset (List.mem_append_right _ List.mem_cons_self))

/-- **Truncation.**  The whole string is in the destination exactly if the result
is less than the size. -/
theorem strlcpy_fits_iff {dst dst' : Vector UInt8 cap} {n r : Nat} (hsrc : HoldsString src name)
    (h : strlcpy dst src (n + 1) = some (dst', r)) :
    HoldsString dst'.toList name ↔ r < n + 1 := by
  obtain ⟨rfl, -, hdst'⟩ := (strlcpy_of_string hsrc).mp h
  have hcut : HoldsString dst'.toList (name.take n) := by
    refine ⟨?_, fun hmem => hsrc.nonzero (List.mem_of_mem_take hmem)⟩
    rw [hdst']
    exact splice_prefix _ _
  constructor
  · intro hall
    have hsame : name = name.take n := hall.unique hcut
    have hlen : name.length = min n name.length := by
      rw [← List.length_take, ← hsame]
    omega
  · intro hlt
    rwa [List.take_of_length_le (Nat.le_of_lt_succ hlt)] at hcut

/-- A destination of four bytes. -/
def fourBytes : Vector UInt8 4 := #v[0x78, 0x78, 0x78, 0x78]

/-- `ab` fits, whatever size is passed; `abcd` does not. -/
example : (strlcpy fourBytes [0x61, 0x62, 0] 9).map (fun r => (r.1.toList, r.2)) =
      some ([0x61, 0x62, 0, 0x78], 2) ∧
    (strlcpy fourBytes [0x61, 0x62, 0x63, 0x64, 0] 4).map (fun r => (r.1.toList, r.2)) =
      some ([0x61, 0x62, 0x63, 0], 4) := by decide

end LibcCompat.Libbsd
