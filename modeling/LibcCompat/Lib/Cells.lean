/-
# `LibcCompat.Lib.Cells` — a buffer that may not have been filled

A cell of memory has a byte, and perhaps nobody stored it.  A program may move
such cells; once it looks at the byte of one, what it does depends on what
happens to be there (`Buffer.blank`).

The functions of the C library are here with the cells they look at and those
they store.  Where the buffer holds a string, they stay inside the buffer, and
look at no cell past the terminator.
-/
import LibcCompat.Lib.CString

namespace LibcCompat.Lib

/-- A byte of memory, and whether it was stored. -/
structure Cell where
  byte : UInt8
  written : Bool
deriving DecidableEq, Repr

/-- A buffer, and whether a byte of it was looked at that was never stored. -/
structure Buffer where
  cells : List Cell
  blank : Bool
deriving DecidableEq, Repr

namespace Buffer

variable (b : Buffer)

def bytes : List UInt8 := b.cells.map Cell.byte

/-- One of the first `n` cells was never stored. -/
def blankIn (n : Nat) : Bool := (b.cells.take n).any (!·.written)

/-- The program looks at the first `n` cells. -/
def look (n : Nat) : Buffer := { b with blank := b.blank || b.blankIn n }

/-- `strlen(b)`. -/
def strlen : Option (Nat × Buffer) := (Lib.strlen b.bytes).map fun n => (n, b.look (n + 1))

/-- Whether memory starts with the bytes `lit`, and how many of its bytes show it:
those up to the first that differs. -/
def compare : List UInt8 → List UInt8 → Option (Bool × Nat)
  | _, [] => some (true, 0)
  | [], _ :: _ => none
  | c :: mem, c' :: lit =>
      if c = c' then (compare mem lit).map fun r => (r.1, r.2 + 1) else some (false, 1)

/-- `strncmp(b, lit, n) == 0`, for the `n` bytes `lit`, none of which is NUL. -/
def startsWith (lit : List UInt8) : Option (Bool × Buffer) :=
  (compare b.bytes lit).map fun r => (r.1, b.look r.2)

/-- `memmove(b + dst, b + src, n)`: the ranges may overlap. -/
def memmove (dst src n : Nat) : Option Buffer :=
  if dst + n ≤ b.cells.length ∧ src + n ≤ b.cells.length then
    some { b with
      cells := b.cells.take dst ++ (b.cells.drop src).take n ++ b.cells.drop (dst + n) }
  else none

/-- `b[i] = c`. -/
def store (i : Nat) (c : UInt8) : Option Buffer :=
  if i < b.cells.length then some { b with cells := b.cells.set i ⟨c, true⟩ } else none

/-- The bytes `new` are stored at the start. -/
def fill (new : List UInt8) : Buffer :=
  { b with cells := new.map (fun c => ⟨c, true⟩) ++ b.cells.drop new.length }

variable {b} {s lit new : List UInt8} {n k : Nat}

@[simp] theorem look_bytes : (b.look n).bytes = b.bytes := rfl

theorem fill_bytes : (b.fill new).bytes = new ++ b.bytes.drop new.length := by
  simp only [fill, bytes, List.map_append, List.map_map, List.map_drop, Function.comp_def,
    List.map_id']

theorem fill_blankIn : (b.fill new).blankIn new.length = false := by
  have htake : (b.fill new).cells.take new.length = new.map fun c => ⟨c, true⟩ :=
    List.take_left' (List.length_map ..)
  rw [blankIn, htake, List.any_map]
  exact List.any_eq_false.mpr fun c _ => Bool.false_ne_true

theorem fill_length (h : new.length ≤ b.cells.length) :
    (b.fill new).cells.length = b.cells.length := by
  rw [fill, List.length_append, List.length_map, List.length_drop]
  omega

theorem fill_holds (hs : 0 ∉ s) : HoldsString (b.fill (s ++ [0])).bytes s where
  bytes := fill_bytes ▸ List.prefix_append _ _
  nonzero := hs

theorem look_look (h : k ≤ n) : (b.look n).look k = b.look n := by
  have hsub : b.blankIn k = true → b.blankIn n = true := by
    intro hk
    obtain ⟨c, hc, hblank⟩ := List.any_eq_true.mp hk
    exact List.any_eq_true.mpr ⟨c, (List.take_sublist_take_left h).subset hc, hblank⟩
  have hin : (b.look n).blankIn k = b.blankIn k := rfl
  rw [look, hin, look]
  cases hk : b.blankIn k with
  | false => rw [Bool.or_false]
  | true => rw [hsub hk, Bool.or_true, Bool.or_true]

theorem strlen_eq (h : HoldsString b.bytes s) :
    b.strlen = some (s.length, b.look (s.length + 1)) := by
  rw [strlen, h.strlen_eq, Option.map_some]

theorem compare_eq {mem : List UInt8} (h : HoldsString mem s) (hlit : 0 ∉ lit) :
    ∃ k, k ≤ s.length + 1 ∧ compare mem lit = some (decide (lit <+: s), k) := by
  induction lit generalizing mem s with
  | nil => exact ⟨0, Nat.zero_le _, by simp [compare]⟩
  | cons c' lit ih =>
      obtain ⟨hc', hlit'⟩ := not_or.mp (mt List.mem_cons.mpr hlit)
      cases s with
      | nil =>
          obtain ⟨rest, rfl⟩ := h.bytes
          refine ⟨1, Nat.le_refl _, ?_⟩
          simp [compare, hc']
      | cons c s =>
          cases mem with
          | nil => exact absurd h.bytes.length_le (by simp)
          | cons c₀ mem =>
              obtain rfl := (List.cons_prefix_cons.mp h.bytes).1
              by_cases hc : c = c'
              · obtain ⟨k, hk, heq⟩ := ih h.tail hlit'
                refine ⟨k + 1, Nat.succ_le_succ hk, ?_⟩
                simp [compare, hc, heq, List.cons_prefix_cons]
              · refine ⟨1, Nat.succ_le_succ (Nat.zero_le _), ?_⟩
                simp [compare, hc, List.cons_prefix_cons, Ne.symm hc]

/-- After `strlen` a comparison looks at nothing new. -/
theorem startsWith_look (h : HoldsString b.bytes s) (hlit : 0 ∉ lit) :
    (b.look (s.length + 1)).startsWith lit =
      some (decide (lit <+: s), b.look (s.length + 1)) := by
  obtain ⟨k, hk, heq⟩ := compare_eq h hlit
  rw [startsWith, look_bytes, heq, Option.map_some, look_look hk]

theorem take_moved {t : List UInt8} {dst src : Nat} (hdst : dst ≤ src) (hsrc : src ≤ s.length)
    (after : List UInt8) :
    ((s ++ t).take dst ++ ((s ++ t).drop src).take (s.length - src) ++ after).take
      (s.length - src + dst) = s.take dst ++ s.drop src := by
  have hlen : (s.take dst ++ s.drop src).length = s.length - src + dst := by
    rw [List.length_append, List.length_take, List.length_drop]
    omega
  have hhead : (s ++ t).take dst = s.take dst := List.take_append_of_le_length (by omega)
  rw [hhead, List.drop_append_of_le_length hsrc, List.take_left' List.length_drop]
  exact List.take_left' hlen

/-- The bytes between two positions are taken out of a string, in place: the rest is
moved down, and a terminator stored after it. -/
theorem cut (h : HoldsString b.bytes s) {dst src : Nat} (hdst : dst ≤ src)
    (hsrc : src ≤ s.length) :
    ∃ b₁ b₂, b.memmove dst src (s.length - src) = some b₁ ∧
      b₁.store (s.length - src + dst) 0 = some b₂ ∧
      HoldsString b₂.bytes (s.take dst ++ s.drop src) ∧
      b₂.cells.length = b.cells.length ∧ b₂.blank = b.blank := by
  obtain ⟨rest, hrest⟩ := h.bytes
  have hbytes : b.cells.map Cell.byte = s ++ ([0] ++ rest) := by
    rw [← List.append_assoc]
    exact hrest.symm
  have hroom : s.length < b.cells.length := by
    have hlen := h.bytes.length_le
    rw [List.length_append, bytes, List.length_map] at hlen
    exact hlen
  let cells := b.cells.take dst ++ (b.cells.drop src).take (s.length - src) ++
    b.cells.drop (dst + (s.length - src))
  have hcells : cells.length = b.cells.length := by
    simp only [cells, List.length_append, List.length_take, List.length_drop]
    omega
  have hindex : s.length - src + dst < cells.length := by omega
  have hkept : (cells.map Cell.byte).take (s.length - src + dst) = s.take dst ++ s.drop src := by
    simp only [cells, List.map_append, List.map_take, List.map_drop, hbytes]
    exact take_moved hdst hsrc _
  have hnonzero : 0 ∉ s.take dst ++ s.drop src := by
    intro hmem
    rcases List.mem_append.mp hmem with hmem | hmem
    · exact h.nonzero (List.mem_of_mem_take hmem)
    · exact h.nonzero (List.mem_of_mem_drop hmem)
  refine ⟨{ b with cells }, { b with cells := cells.set (s.length - src + dst) ⟨0, true⟩ },
    if_pos ⟨by omega, by omega⟩, if_pos hindex, ?_, List.length_set.trans hcells, rfl⟩
  rw [bytes, List.map_set]
  exact .of_set (by rw [List.length_map]; exact hindex) hkept hnonzero

end Buffer

end LibcCompat.Lib
