/-
# `LibcCompat.Winsup.Errno` — `internal/errno.c`

`__set_errno_via_winerr` looks a Windows error up in the table `__winerr_map`,
where 0 stands for an error without an `errno`.  An error that the table does not
have, or has no `errno` for, becomes -1; so nothing but success becomes 0.
-/
import LibcCompat.Winsup.Windows

namespace LibcCompat.Winsup

/-- The `errno` that `__set_errno_via_winerr` sets, from the table
`__winerr_map`. -/
def errnoViaWinerr (winerrMap : List Errno) (winerr : WinErr) : Errno :=
  if winerr = NO_ERROR then .other 0
  else
    match winerrMap[winerr]? with
    | some mappedErr => if mappedErr = .other 0 then .other (-1) else mappedErr
    | none => .other (-1)

theorem errnoViaWinerr_eq_zero {winerrMap : List Errno} {winerr : WinErr} :
    errnoViaWinerr winerrMap winerr = .other 0 ↔ winerr = NO_ERROR := by
  rw [errnoViaWinerr]
  split
  · next hsuccess => exact iff_of_true rfl hsuccess
  · next herror =>
      refine iff_of_false ?_ herror
      cases winerrMap[winerr]? with
      | none => decide
      | some mappedErr =>
          dsimp only
          split
          · decide
          · next hmapped => exact hmapped

/-- The outside, with the errors looked up in a table. -/
def Env.mapping (E : Env) (winerrMap : List Errno) : Env :=
  { E with errnoOf := errnoViaWinerr winerrMap }

end LibcCompat.Winsup
