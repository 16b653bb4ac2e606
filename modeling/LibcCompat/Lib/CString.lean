/-
# `LibcCompat.Lib.CString` — strings in memory

Memory is a list of bytes.  It holds a string if it starts with the bytes of the
string and a NUL, and the string itself has no NUL (`HoldsString`); then the
string is determined by the memory, and `strlen` finds its length.
-/
import Mathlib.Data.List.Basic

namespace LibcCompat.Lib

/-- The memory starts with the string `s` and its terminator. -/
structure HoldsString (mem s : List UInt8) : Prop where
  bytes : s ++ [0] <+: mem
  nonzero : 0 ∉ s

/-- `strlen`, where there is a terminator. -/
def strlen : List UInt8 → Option Nat
  | [] => none
  | c :: cs => if c = 0 then some 0 else (strlen cs).map (· + 1)

theorem HoldsString.tail {c : UInt8} {mem s : List UInt8} (h : HoldsString (c :: mem) (c :: s)) :
    HoldsString mem s :=
  ⟨(List.cons_prefix_cons.mp h.bytes).2, fun hmem => h.nonzero (List.mem_cons_of_mem c hmem)⟩

theorem HoldsString.strlen_eq {mem s : List UInt8} (h : HoldsString mem s) :
    strlen mem = some s.length := by
  induction s generalizing mem with
  | nil =>
      obtain ⟨rest, rfl⟩ := h.bytes
      rfl
  | cons c s ih =>
      cases mem with
      | nil => exact absurd h.bytes.length_le (by simp)
      | cons c' mem =>
          obtain rfl := (List.cons_prefix_cons.mp h.bytes).1
          have hc : c ≠ 0 := fun hc => h.nonzero (hc ▸ List.mem_cons_self)
          rw [strlen, if_neg hc, ih h.tail, Option.map_some, List.length_cons]

theorem HoldsString.unique {mem s t : List UInt8} (hs : HoldsString mem s)
    (ht : HoldsString mem t) : s = t := by
  have hlen : s.length = t.length := by
    have := hs.strlen_eq.symm.trans ht.strlen_eq
    exact Option.some.inj this
  have hs' : s <+: mem := (List.prefix_append s [0]).trans hs.bytes
  have ht' : t <+: mem := (List.prefix_append t [0]).trans ht.bytes
  exact (List.prefix_of_prefix_length_le hs' ht' (Nat.le_of_eq hlen)).eq_of_length hlen

theorem HoldsString.getElem?_lt {mem s : List UInt8} (h : HoldsString mem s) {i : Nat}
    (hi : i < s.length) : mem[i]? = some s[i] := by
  obtain ⟨rest, rfl⟩ := h.bytes
  rw [List.getElem?_append_left (by simp; omega), List.getElem?_append_left hi,
    List.getElem?_eq_getElem hi]

theorem HoldsString.getElem?_length {mem s : List UInt8} (h : HoldsString mem s) :
    mem[s.length]? = some 0 := by
  obtain ⟨rest, rfl⟩ := h.bytes
  rw [List.getElem?_append_left (by simp), List.getElem?_append_right (Nat.le_refl _)]
  simp

theorem HoldsString.ne_zero {mem s : List UInt8} (h : HoldsString mem s) {i : Nat}
    (hi : i < s.length) : s[i] ≠ 0 :=
  fun hzero => h.nonzero (hzero ▸ List.getElem_mem hi)

/-- A string is written by its bytes and a terminator after them. -/
theorem HoldsString.of_set {mem s : List UInt8} {i : Nat} (hi : i < mem.length)
    (hbytes : mem.take i = s) (hnonzero : 0 ∉ s) : HoldsString (mem.set i 0) s where
  bytes := by
    rw [List.set_eq_take_append_cons_drop, if_pos hi, hbytes]
    exact ⟨mem.drop (i + 1), by simp⟩
  nonzero := hnonzero

/-- The string at the start of memory, if it ends there. -/
def cString (mem : List UInt8) : Option (List UInt8) := (strlen mem).map mem.take

theorem holdsString_of_strlen {mem : List UInt8} {n : Nat} (h : strlen mem = some n) :
    HoldsString mem (mem.take n) := by
  induction mem generalizing n with
  | nil => cases h
  | cons c mem ih =>
      rw [strlen] at h
      split at h
      · next hc =>
          obtain rfl := Option.some.inj h
          exact ⟨hc ▸ ⟨mem, rfl⟩, List.not_mem_nil⟩
      · next hc =>
          obtain ⟨m, hm, rfl⟩ := Option.map_eq_some_iff.mp h
          refine ⟨List.cons_prefix_cons.mpr ⟨rfl, (ih hm).bytes⟩, ?_⟩
          rw [List.take_succ_cons, List.mem_cons, not_or]
          exact ⟨Ne.symm hc, (ih hm).nonzero⟩

theorem holdsString_of_cString {mem s : List UInt8} (h : cString mem = some s) :
    HoldsString mem s := by
  obtain ⟨n, hn, rfl⟩ := Option.map_eq_some_iff.mp h
  exact holdsString_of_strlen hn

theorem take_set_succ {mem : List UInt8} {i : Nat} (hi : i < mem.length) (c : UInt8) :
    (mem.set i c).take (i + 1) = mem.take i ++ [c] := by
  have hlen : (mem.take i ++ [c]).length = i + 1 := by
    rw [List.length_append, List.length_take, Nat.min_eq_left (Nat.le_of_lt hi)]
    rfl
  rw [List.set_eq_take_append_cons_drop, if_pos hi, List.append_cons, ← hlen]
  exact List.take_left

end LibcCompat.Lib
