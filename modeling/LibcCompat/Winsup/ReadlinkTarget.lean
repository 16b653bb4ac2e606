/-
# `LibcCompat.Winsup.ReadlinkTarget` — the target `readlink` returns

`readlink` should return as much of the target as fits, and its length.  It hands
`WideCharToMultiByte` the length of the name in bytes, and one, where a number
of characters is expected: of a name of `n` characters it converts `2 * n + 1`.

What is proved: so for no link, buffer length or state does it return the target
(`readlink_neverTarget`); where it returns a length at all, that is at least
`2 * n`.  Where the bytes do not fit it aborts, as for a link to one character
and a buffer of one byte (`readlink_aLink`).
-/
import LibcCompat.Winsup.LstatReadlink

namespace LibcCompat.Winsup

open LibcCompat.Lib

/-- The first bytes of the target are stored, as many as fit, and their number is
returned. -/
structure ReadsTarget (target : List UInt8) (len : Nat) (a : Answer) : Prop where
  ret : a.ret = (min target.length len : Nat)
  buf : a.buf.take (min target.length len) = target.take (min target.length len)

variable {E : Env} {b : Build} {path : Path} {len : Nat} {s t : Win} {o : Object} {r : Reparse}
  {a : Answer}

theorem Reparse.converted_length (r : Reparse) (wsPtr n : Nat)
    (hsingle : (E.codePage.conv (r.chars wsPtr n)).length = n) :
    2 * n + 1 ≤ (E.codePage.conv (r.chars wsPtr (2 * n + 1))).length := by
  have hsplit : 2 * n + 1 = n + (n + 1) := by omega
  have hgrows := E.codePage.grows (r.chars wsPtr n)
    ((List.range (n + 1)).map fun i => r.pathBuffer (wsPtr / 2 + (n + i)))
  rw [← Reparse.chars_add, ← hsplit, List.length_map, List.length_range, hsingle] at hgrows
  omega

theorem convertName_ret {wsPtr wsLen : Nat} (hname : r.name = some (wsPtr, wsLen))
    (hrun : convertName E b r len s = .ok (some a) t) :
    a.ret = (E.codePage.conv (r.chars wsPtr (wsLen + 1))).length - 1 := by
  simp only [convertName, hname] at hrun
  obtain ⟨⟨buf, chars⟩, u, hconv, hrest⟩ := bind_ok hrun
  dsimp only at hrest
  split at hrest
  · cases hrest
  · next hchars =>
      cases hrest
      have hlen : chars = _ := (wideCharToMultiByte_result hconv).resolve_left hchars
      dsimp only
      rw [hlen]

theorem readReparse_ok {h : Handle} (hopen : s.handles h = some o) (hr : o.reparse = some r)
    (hrun : readReparse E b h len s = .ok a t) :
    a = failed ∨ ∃ u v, convertName E b r len u = .ok (some a) v := by
  cases hm : E.fails s.calls with
  | some e =>
      simp only [readReparse, bind_apply, malloc_fails hm] at hrun
      cases hrun
      exact .inl rfl
  | none =>
      have hopen' : ({ s with calls := s.calls + 1 } : Win).handles h = some o := hopen
      cases hask : E.fails (s.calls + 1) with
      | some e =>
          obtain ⟨u, hget⟩ := getReparsePoint_fails hopen' (.inl (by rw [hask]; rfl))
          simp only [readReparse, bind_apply, malloc_ok hm, if_true, hget] at hrun
          cases hrun
          exact .inl rfl
      | none =>
          have hget := getReparsePoint_ok hopen' hask hr
          simp only [readReparse, bind_apply, malloc_ok hm, if_true, hget] at hrun
          split at hrun
          · obtain ⟨found, u, hconv, hrest⟩ := bind_ok hrun
            cases found with
            | none =>
                cases hrest
                exact .inl rfl
            | some answer =>
                cases hrest
                exact .inr ⟨_, _, hconv⟩
          · cases hrun
            exact .inl rfl

theorem readlink_ok (hobject : E.object s.calls path = some o) (hr : o.reparse = some r)
    (hrun : readlink E b path len s = .ok a t) :
    a = failed ∨ ∃ u v, convertName E b r len u = .ok (some a) v := by
  rw [readlink] at hrun
  split at hrun
  · cases hrun
    exact .inl rfl
  · cases hopens : opens E path s with
    | false =>
        obtain ⟨u, hopen, -⟩ := openSymlinkFd_fails hopens
        rw [bind_apply, hopen] at hrun
        cases hrun
        exact .inl rfl
    | true =>
        obtain ⟨fd, o', u, hopen, hopened⟩ := openSymlinkFd_ok hopens
        obtain rfl : o' = o := Option.some_inj.mp (hopened.object.symm.trans hobject)
        rw [bind_apply, hopen] at hrun
        dsimp only at hrun
        rw [bind_apply, getOsfhandle_eq hopened.bound] at hrun
        exact readReparse_ok hopened.handle hr hrun

/-- **`readlink` never returns the target.**  For a link to `n` single-byte
characters, what it returns is a failure or at least `2 * n`, so it is never the
target cut to the buffer. -/
theorem readlink_neverTarget {wsPtr n : Nat} (hobject : E.object s.calls path = some o)
    (hr : o.reparse = some r) (hname : r.name = some (wsPtr, 2 * n)) (hn : 1 ≤ n)
    (hsingle : (E.codePage.conv (r.chars wsPtr n)).length = n) :
    (∀ a t, readlink E b path len s = .ok a t → a.ret = -1 ∨ 2 * n ≤ a.ret) ∧
      ¬ ∃ a t, readlink E b path len s = .ok a t ∧
        ReadsTarget (E.codePage.conv (r.chars wsPtr n)) len a := by
  have hret : ∀ a t, readlink E b path len s = .ok a t → a.ret = -1 ∨ 2 * n ≤ a.ret := by
    intro a t hrun
    rcases readlink_ok hobject hr hrun with rfl | ⟨u, v, hconv⟩
    · exact .inl rfl
    · have hlen := Reparse.converted_length (E := E) r wsPtr n hsingle
      rw [convertName_ret hname hconv]
      omega
  refine ⟨hret, ?_⟩
  rintro ⟨a, t, hrun, htarget⟩
  have hshort := htarget.ret
  rw [hsingle] at hshort
  rcases hret a t hrun with hfailed | hlong
  · omega
  · omega

theorem readlink_neverTarget_aLink :
    ¬ ∃ a t, readlink aFolder .debug [0x6C] PATH_MAX aProcess = .ok a t ∧
      ReadsTarget [0x61] PATH_MAX a :=
  (readlink_neverTarget (o := aLink) (n := 1) rfl rfl rfl (by decide) (by decide)).2

/-- Why a call stops, if it does. -/
def stopsWith {α : Type} (x : Prog Win α) (s : Win) : Option Stop :=
  match x s with
  | .ok _ _ => none
  | .error e _ => some e

/-- Of a link to `a` two bytes are reported, and without room for three nothing is. -/
theorem readlink_aLink :
    (∃ a t, readlink aFolder .debug [0x6C] PATH_MAX aProcess = .ok a t ∧ a.ret = 2 ∧
      ¬ ReadsTarget [0x61] PATH_MAX a) ∧
    stopsWith (readlink aFolder .debug [0x6C] 1) aProcess = some .aborted := by
  refine ⟨?_, by decide +kernel⟩
  obtain ⟨a, t, hrun, hret⟩ := after_iff.mp
    (show after (readlink aFolder .debug [0x6C] PATH_MAX) (fun a _ => decide (a.ret = 2))
      aProcess = true by decide +kernel)
  have htwo : a.ret = 2 := of_decide_eq_true hret
  refine ⟨a, t, hrun, htwo, fun htarget => ?_⟩
  have hone := htarget.ret
  rw [htwo] at hone
  exact absurd hone (by decide)

end LibcCompat.Winsup
