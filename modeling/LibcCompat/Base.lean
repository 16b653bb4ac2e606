/-
# `LibcCompat.Base` — what the C files share

The two ways the files are compiled, descriptor numbers, and the error numbers
the files assign.
-/

namespace LibcCompat

/-- `debug` evaluates asserts; `ndebug` is built with `NDEBUG` defined, where
`assert(e)` expands to nothing and `e` is not evaluated. -/
inductive Build where
  | debug
  | ndebug
deriving DecidableEq, Repr

/-- How a call can end without returning: a failed assert or `abort()`, an
access that C leaves undefined, or a loop without end. -/
inductive Stop where
  | aborted
  | undefined
  | hung
deriving DecidableEq, Repr

/-- A file descriptor number, an `int`. -/
abbrev Fd := Int

/-- The values of `errno` that the files assign or compare with. -/
inductive Errno where
  | EBADF
  | EINTR
  | EINVAL
  | ENAMETOOLONG
  | ENOENT
  | ENOMEM
  | ENOTDIR
  | other (n : Int)
deriving DecidableEq, Repr

end LibcCompat
