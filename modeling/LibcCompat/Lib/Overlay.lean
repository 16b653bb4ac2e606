/-
# `LibcCompat.Lib.Overlay` — a stretch of a function taken from another one

Contents that are addressed by number, the memory or a file, are a function of
the number.  `overlay old start len new` is `old` with the `len` places from
`start` taken over from `new`, which counts from 0: what a copy of `len` places
leaves behind.  `pour old places new` is `old` after the values `new` were put at
`places`, one after the other.

For contents that are a list `splice old start new` has the list `new` in place of
what `old` has from `start` on.
-/
import Mathlib.Data.List.Nodup
import Mathlib.Logic.Function.Basic

namespace LibcCompat.Lib

variable {α : Type} {old new : Nat → α} {start len i : Nat}

def overlay (old : Nat → α) (start len : Nat) (new : Nat → α) : Nat → α := fun i =>
  if start ≤ i ∧ i < start + len then new (i - start) else old i

theorem overlay_inside (hi : i < len) : overlay old start len new (start + i) = new i := by
  have hin : start ≤ start + i ∧ start + i < start + len := by omega
  rw [overlay, if_pos hin, Nat.add_sub_cancel_left]

theorem overlay_outside (hi : i < start ∨ start + len ≤ i) :
    overlay old start len new i = old i := by
  have hout : ¬ (start ≤ i ∧ i < start + len) := by omega
  rw [overlay, if_neg hout]

/-! ## Values put at places -/

def pour (old : Nat → α) (places : List Nat) (new : List α) : Nat → α :=
  (places.zip new).foldl (fun f x => Function.update f x.1 x.2) old

variable {places l : List Nat} {vals : List α}

theorem pour_outside (hi : i ∉ places) : pour old places vals i = old i := by
  induction places generalizing old vals with
  | nil => rfl
  | cons j places ih =>
      obtain ⟨hne, hrest⟩ := List.ne_and_not_mem_of_not_mem_cons hi
      cases vals with
      | nil => rfl
      | cons v vals => exact (ih hrest).trans (Function.update_of_ne hne v old)

theorem map_pour_outside (h : ∀ j ∈ l, j ∉ places) : l.map (pour old places vals) = l.map old :=
  List.map_congr_left fun j hj => pour_outside (h j hj)

theorem map_pour (hnodup : places.Nodup) (hlen : places.length = vals.length) :
    places.map (pour old places vals) = vals := by
  induction places generalizing old vals with
  | nil => exact (List.eq_nil_of_length_eq_zero hlen.symm).symm
  | cons j places ih =>
      cases vals with
      | nil => cases hlen
      | cons v vals =>
          obtain ⟨hj, hrest⟩ := List.nodup_cons.mp hnodup
          have hhead : pour old (j :: places) (v :: vals) j = v :=
            (pour_outside hj).trans (Function.update_self j v old)
          have htail : places.map (pour old (j :: places) (v :: vals)) = vals :=
            ih hrest (Nat.succ.inj hlen)
          rw [List.map_cons, hhead, htail]

/-! ## Lists -/

section
variable {mem bytes : List α} {n : Nat}

def splice (mem : List α) (start : Nat) (bytes : List α) : List α :=
  mem.take start ++ bytes ++ mem.drop (start + bytes.length)

theorem splice_nil (mem : List α) (start : Nat) : splice mem start [] = mem := by
  rw [splice, List.append_nil, List.length_nil, Nat.add_zero, List.take_append_drop]

theorem splice_prefix (mem bytes : List α) : bytes <+: splice mem 0 bytes := by
  rw [splice, List.take_zero, List.nil_append]
  exact List.prefix_append _ _

theorem splice_set (hstart : start < mem.length) (c : α) (bytes : List α) :
    splice (mem.set start c) (start + 1) bytes = splice mem start (c :: bytes) := by
  have hlen : (mem.take start ++ [c]).length = start + 1 := by
    rw [List.length_append, List.length_take, Nat.min_eq_left (Nat.le_of_lt hstart)]
    rfl
  have hset : mem.set start c = (mem.take start ++ [c]) ++ mem.drop (start + 1) := by
    rw [List.set_eq_take_append_cons_drop, if_pos hstart, List.append_cons]
  have hdrop : (mem.set start c).drop (start + 1 + bytes.length) =
      mem.drop (start + (c :: bytes).length) := by
    have hadd : start + 1 + bytes.length = (mem.take start ++ [c]).length + bytes.length := by
      rw [hlen]
    rw [hset, hadd, List.drop_length_add_append, List.drop_drop, List.length_cons]
    congr 1
    omega
  rw [splice, splice, hdrop, hset, List.take_left' hlen, List.append_assoc (mem.take start)]
  rfl

theorem splice_snoc (hlen : bytes.length = n) (hn : n < mem.length) (c : α) :
    (splice mem 0 bytes).set n c = splice mem 0 (bytes ++ [c]) := by
  rw [splice, splice, List.take_zero, List.nil_append, List.nil_append, Nat.zero_add, Nat.zero_add,
    List.length_append, hlen, List.set_append_right _ _ (Nat.le_of_eq hlen), hlen, Nat.sub_self,
    List.drop_eq_getElem_cons hn, List.set_cons_zero, List.append_assoc]
  rfl

end

end LibcCompat.Lib
