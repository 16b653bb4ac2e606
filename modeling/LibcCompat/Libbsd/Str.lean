/-
# `LibcCompat.Libbsd.Str` — `strlcpy` of `libbsd/str.c`

Both loops walk over memory that need not hold a string, and the destination has
a capacity; a byte read or written outside is undefined, which is `none`.

For a source that holds a string the result is its length, and what fits in
`siz` with a terminator is copied (`strlcpy_succ`).
-/
import LibcCompat.Lib.CString

namespace LibcCompat.Libbsd

open LibcCompat.Lib

variable {cap : Nat}

/-- The first loop, with `n` bytes of room left and both strings at `i`: the
destination, where it ends, and what is left of `n`. -/
def copyLoop (src : List UInt8) : Nat → Nat → Vector UInt8 cap →
    Option (Vector UInt8 cap × Nat × Nat)
  | 0, i, dst => some (dst, i, 0)
  | n + 1, i, dst =>
      match src[i]? with
      | none => none
      | some c =>
          if h : i < cap then
            if c = 0 then some (dst.set i c, i + 1, n + 1)
            else copyLoop src n (i + 1) (dst.set i c)
          else none

/-- `while (*s++);`, with `s` at `i` and the source from there on. -/
def skipLoop : List UInt8 → Nat → Option Nat
  | [], _ => none
  | c :: cs, i => if c = 0 then some (i + 1) else skipLoop cs (i + 1)

/-- `*d = 0`, unless `siz` is 0. -/
def terminate (siz i : Nat) (dst : Vector UInt8 cap) : Option (Vector UInt8 cap) :=
  if siz = 0 then some dst
  else if h : i < cap then some (dst.set i 0)
  else none

/-- `strlcpy`: the destination and the result. -/
def strlcpy (dst : Vector UInt8 cap) (src : List UInt8) (siz : Nat) :
    Option (Vector UInt8 cap × Nat) := do
  let (dst, i, n) ← copyLoop src (siz - 1) 0 dst
  if n = 0 then
    let dst ← terminate siz i dst
    let s ← skipLoop (src.drop i) i
    return (dst, s - 1)
  else
    return (dst, i - 1)

/-! ## On a string -/

variable {src name : List UInt8}

theorem copyLoop_step (hsrc : HoldsString src name) {n i : Nat} {dst : Vector UInt8 cap}
    (hi : i < name.length) (hcap : i < cap) (hdst : dst.toList.take i = name.take i) :
    copyLoop src (n + 1) i dst = copyLoop src n (i + 1) (dst.set i name[i]) ∧
      (dst.set i name[i]).toList.take (i + 1) = name.take (i + 1) := by
  have hlen : i < dst.toList.length := by rw [Vector.length_toList]; exact hcap
  constructor
  · simp only [copyLoop, hsrc.getElem?_lt hi, dif_pos hcap, if_neg (hsrc.ne_zero hi)]
  · rw [Vector.toList_set, take_set_succ hlen, hdst, List.take_append_getElem hi]

theorem copyLoop_full (hsrc : HoldsString src name) {n i : Nat} {dst : Vector UInt8 cap}
    (hroom : i + n ≤ name.length) (hcap : i + n ≤ cap)
    (hdst : dst.toList.take i = name.take i) :
    ∃ dst', copyLoop src n i dst = some (dst', i + n, 0) ∧
      dst'.toList.take (i + n) = name.take (i + n) := by
  induction n generalizing i dst with
  | zero => exact ⟨dst, rfl, hdst⟩
  | succ n ih =>
      obtain ⟨hstep, htaken⟩ :=
        copyLoop_step hsrc (n := n) (i := i) (by omega) (by omega) hdst
      have hadd : i + (n + 1) = i + 1 + n := by omega
      rw [hadd, hstep]
      exact ih (by omega) (by omega) htaken

theorem copyLoop_ends (hsrc : HoldsString src name) {n i : Nat} {dst : Vector UInt8 cap}
    (hi : i ≤ name.length) (hroom : name.length < i + n) (hcap : i + n ≤ cap)
    (hdst : dst.toList.take i = name.take i) :
    ∃ dst' left, copyLoop src n i dst = some (dst', name.length + 1, left) ∧ left ≠ 0 ∧
      HoldsString dst'.toList name := by
  induction n generalizing i dst with
  | zero => exact absurd hroom (by omega)
  | succ n ih =>
      have hicap : i < cap := by omega
      rcases Nat.lt_or_eq_of_le hi with hlt | rfl
      · obtain ⟨hstep, htaken⟩ := copyLoop_step hsrc (n := n) hlt hicap hdst
        rw [hstep]
        exact ih hlt (by omega) (by omega) htaken
      · have hlen : name.length < dst.toList.length := by
          rw [Vector.length_toList]
          exact hicap
        refine ⟨dst.set name.length 0, n + 1, ?_, by omega, ?_⟩
        · simp only [copyLoop, hsrc.getElem?_length, dif_pos hicap, if_true]
        · rw [Vector.toList_set]
          exact .of_set hlen (by rw [hdst, List.take_length]) hsrc.nonzero

theorem skipLoop_eq {mem s : List UInt8} (h : HoldsString mem s) (i : Nat) :
    skipLoop mem i = some (i + s.length + 1) := by
  induction s generalizing mem i with
  | nil =>
      obtain ⟨rest, rfl⟩ := h.bytes
      rfl
  | cons c s ih =>
      cases mem with
      | nil => exact absurd h.bytes.length_le (by simp)
      | cons c' mem =>
          obtain rfl := (List.cons_prefix_cons.mp h.bytes).1
          have hc : c ≠ 0 := fun hc => h.nonzero (hc ▸ List.mem_cons_self)
          rw [skipLoop, if_neg hc, ih h.tail, List.length_cons]
          congr 1
          omega

theorem skipLoop_drop (hsrc : HoldsString src name) {i : Nat} (hi : i ≤ name.length) :
    skipLoop (src.drop i) i = some (name.length + 1) := by
  have hrest : HoldsString (src.drop i) (name.drop i) := by
    refine ⟨?_, fun hmem => hsrc.nonzero (List.mem_of_mem_drop hmem)⟩
    obtain ⟨rest, rfl⟩ := hsrc.bytes
    rw [List.append_assoc, List.drop_append_of_le_length hi, ← List.append_assoc]
    exact List.prefix_append _ rest
  rw [skipLoop_eq hrest, List.length_drop]
  congr 1
  omega

theorem strlcpy_zero (hsrc : HoldsString src name) (dst : Vector UInt8 cap) :
    strlcpy dst src 0 = some (dst, name.length) := by
  have hskip := skipLoop_drop hsrc (Nat.zero_le _)
  simp only [strlcpy, Nat.zero_sub, copyLoop, terminate, Option.bind_eq_bind, Option.bind_some,
    if_true, hskip]
  rfl

/-- `strlcpy` of a string gives its length; the destination, which has room for
`n` bytes and a terminator, then holds the first `n` bytes of the string. -/
theorem strlcpy_succ (hsrc : HoldsString src name) (dst : Vector UInt8 cap) {n : Nat}
    (hcap : n < cap) :
    ∃ dst', strlcpy dst src (n + 1) = some (dst', name.length) ∧
      HoldsString dst'.toList (name.take n) := by
  rcases Nat.lt_or_ge name.length n with hlt | hge
  · have hends : ∃ dst' left, copyLoop src n 0 dst = some (dst', name.length + 1, left) ∧
        left ≠ 0 ∧ HoldsString dst'.toList name :=
      copyLoop_ends hsrc (Nat.zero_le _) (by omega) (by omega) rfl
    obtain ⟨dst', left, hloop, hleft, hset⟩ := hends
    refine ⟨dst', ?_, ?_⟩
    · simp only [strlcpy, Nat.add_sub_cancel, hloop, Option.bind_eq_bind, Option.bind_some,
        if_neg hleft]
      rfl
    · rw [List.take_of_length_le (Nat.le_of_lt hlt)]
      exact hset
  · have hfull : ∃ dst', copyLoop src n 0 dst = some (dst', 0 + n, 0) ∧
        dst'.toList.take (0 + n) = name.take (0 + n) :=
      copyLoop_full hsrc (by omega) (by omega) rfl
    obtain ⟨dst', hloop, htake⟩ := hfull
    rw [Nat.zero_add] at hloop htake
    have hskip := skipLoop_drop hsrc hge
    have hlen : n < dst'.toList.length := by
      rw [Vector.length_toList]
      exact hcap
    refine ⟨dst'.set n 0, ?_, ?_⟩
    · simp only [strlcpy, Nat.add_sub_cancel, hloop, Option.bind_eq_bind, Option.bind_some,
        if_true, terminate, Nat.add_one_ne_zero, if_false, dif_pos hcap, hskip]
      rfl
    · rw [Vector.toList_set]
      exact .of_set hlen htake fun hmem => hsrc.nonzero (List.mem_of_mem_take hmem)

end LibcCompat.Libbsd
