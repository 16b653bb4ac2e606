/-
# `LibcCompat.Lib.Segments` — a position in a list of segments

A list of segments stands for their concatenation.  A position in it is kept as
two cursors: how many segments lie before it, and an offset in the next one.
`position` is the position they stand for; moving on within a segment, and from
the end of one segment to the start of the next, are what is proved about it.

`reached` is how far one gets who stops at the first segment that is empty or is
not reached to its end, and `reached_iff` says when that is everything.
-/
import Mathlib.Data.List.Basic

namespace LibcCompat.Lib

variable {α β : Type} (f : α → List β) (l : List α)

/-- The position of offset `off` in segment `i`. -/
def position (i off : Nat) : Nat := ((l.take i).flatMap f).length + off

variable {f l} {i off n : Nat} {a : α}

theorem position_add : position f l i (off + n) = position f l i off + n := by
  simp only [position]
  omega

theorem split_segments (hi : l[i]? = some a) :
    l.flatMap f = (l.take i).flatMap f ++ (f a ++ (l.drop (i + 1)).flatMap f) := by
  obtain ⟨hlt, rfl⟩ := List.getElem?_eq_some_iff.mp hi
  rw [← List.flatMap_cons, ← List.flatMap_append, ← List.drop_eq_getElem_cons hlt,
    List.take_append_drop]

theorem take_position_add (hi : l[i]? = some a) (hn : off + n ≤ (f a).length) :
    (l.flatMap f).take (position f l i off + n) =
      (l.flatMap f).take (position f l i off) ++ ((f a).drop off).take n := by
  have hdrop : (l.flatMap f).drop (position f l i off) =
      (f a).drop off ++ (l.drop (i + 1)).flatMap f := by
    rw [split_segments hi, position, List.drop_append, List.drop_eq_nil_of_le (by omega),
      List.nil_append, Nat.add_sub_cancel_left, List.drop_append_of_le_length (by omega)]
  rw [List.take_add, hdrop, List.take_append_of_le_length (by rw [List.length_drop]; omega)]

theorem position_next (hi : l[i]? = some a) :
    position f l i (f a).length = position f l (i + 1) 0 := by
  obtain ⟨hlt, rfl⟩ := List.getElem?_eq_some_iff.mp hi
  rw [position, position, List.take_add_one, List.getElem?_eq_getElem hlt, List.flatMap_append,
    List.length_append]
  simp

theorem position_le (hi : l[i]? = some a) (hoff : off ≤ (f a).length) :
    position f l i off ≤ (l.flatMap f).length := by
  rw [split_segments hi, List.length_append, List.length_append, position]
  omega

/-! ## Segments one does not get past -/

section
variable (f) (reach : α → Nat)

/-- One gets past a segment that is not empty and reached to its end. -/
def Passable (a : α) : Prop := f a ≠ [] ∧ (f a).length ≤ reach a

instance (a : α) : Decidable (Passable f reach a) :=
  decidable_of_iff ((f a).isEmpty = false ∧ (f a).length ≤ reach a) <| by
    rw [Passable, List.isEmpty_eq_false_iff]

/-- What is reached of the concatenation: all segments one gets past, and as much of
the next as is reached of it. -/
def reached : List α → List β
  | [] => []
  | a :: l => if Passable f reach a then f a ++ reached l else (f a).take (reach a)

end

section
variable {reach : α → Nat}

theorem reached_eq_flatMap (h : ∀ a ∈ l, Passable f reach a) :
    reached f reach l = l.flatMap f := by
  induction l with
  | nil => rfl
  | cons a l ih =>
      obtain ⟨ha, hl⟩ := List.forall_mem_cons.mp h
      rw [reached, if_pos ha, ih hl, List.flatMap_cons]

/-- The first segment one does not get past is where it ends. -/
theorem reached_eq_take (h : ∀ a ∈ l.take i, Passable f reach a) (hi : l[i]? = some a)
    (hstop : ¬ Passable f reach a) (hle : reach a ≤ (f a).length) :
    reached f reach l = (l.flatMap f).take (position f l i (reach a)) := by
  induction l generalizing i with
  | nil => cases hi
  | cons b l ih =>
      cases i with
      | zero =>
          obtain rfl := Option.some.inj hi
          rw [reached, if_neg hstop, List.flatMap_cons, position, List.take_zero,
            List.flatMap_nil, List.length_nil, Nat.zero_add, List.take_append_of_le_length hle]
      | succ i =>
          rw [List.take_succ_cons] at h
          obtain ⟨hb, hl⟩ := List.forall_mem_cons.mp h
          have hpos : position f (b :: l) (i + 1) (reach a) =
              (f b).length + position f l i (reach a) := by
            rw [position, position, List.take_succ_cons, List.flatMap_cons, List.length_append,
              Nat.add_assoc]
          rw [reached, if_pos hb, ih hl hi, List.flatMap_cons, hpos, List.take_length_add_append]

/-- All is reached exactly if each segment is reached to its end and none that is
not empty comes after an empty one. -/
theorem reached_iff : reached f reach l = l.flatMap f ↔
    (l.Pairwise fun a b => f a = [] → f b = []) ∧ ∀ a ∈ l, (f a).length ≤ reach a := by
  induction l with
  | nil => exact iff_of_true rfl ⟨.nil, fun _ ha => absurd ha List.not_mem_nil⟩
  | cons a l ih =>
      rw [List.pairwise_cons, List.forall_mem_cons, List.flatMap_cons, reached]
      by_cases hnil : f a = []
      · have hstop : ¬ Passable f reach a := fun hpass => hpass.1 hnil
        rw [if_neg hstop, hnil, List.take_nil, List.nil_append, eq_comm, List.flatMap_eq_nil_iff]
        constructor
        · intro hall
          refine ⟨⟨fun b hb _ => hall b hb,
            List.pairwise_of_forall_mem_list fun _ _ b hb _ => hall b hb⟩, Nat.zero_le _, ?_⟩
          intro b hb
          rw [hall b hb]
          exact Nat.zero_le _
        · rintro ⟨⟨hall, -⟩, -⟩ b hb
          exact hall b hb rfl
      · by_cases hlen : (f a).length ≤ reach a
        · rw [if_pos ⟨hnil, hlen⟩, List.append_cancel_left_eq, ih]
          constructor
          · rintro ⟨hpair, hall⟩
            exact ⟨⟨fun b _ ha => absurd ha hnil, hpair⟩, hlen, hall⟩
          · rintro ⟨⟨-, hpair⟩, -, hall⟩
            exact ⟨hpair, hall⟩
        · -- not even this segment is reached to its end
          refine iff_of_false (fun heq => ?_) (fun h => hlen h.2.1)
          rw [if_neg fun hpass => hlen hpass.2] at heq
          have hlength := congrArg List.length heq
          rw [List.length_take, List.length_append] at hlength
          omega

end

end LibcCompat.Lib
