/-
# `LibcCompat.Emsup.MmapHack` — `emsup/mmap_hack.c`

On Emscripten a shared writable file mapping is synced back through the
descriptor it was made from, so that descriptor must outlive the mapping.  The
file keeps a list `maps` of such mappings and delays `close` and `fclose` to the
last `munmap`.

The state has two parts.  `maps` is the static variable of the file; `world` is
the platform underneath: which descriptors are open, which streams have not
really been closed, and which mappings are live.  A descriptor number is
reused, so each opening of it has a number of its own; that number is not part
of the program and only serves to say *which* descriptor a mapping was made
from.

Every call the file makes to the platform is logged, with the list and the
world as they were when it was issued.  What the platform answers is part of
the operation (`Op`), so that `step` is a function; `Platform` says which
answers a platform may give.

`malloc` does not clear memory: `fp` is `none` until `fclose` assigns it.
-/
import LibcCompat.Base
import Mathlib.Logic.Function.Basic

namespace LibcCompat.Emsup

/-- An address, a `void *`. -/
abbrev Addr := Nat

/-- The address of a stream, a `FILE *`. -/
abbrev FilePtr := Nat

def PROT_WRITE : UInt32 := 0x2
def MAP_SHARED : UInt32 := 0x1
def MAP_ANONYMOUS : UInt32 := 0x20

def EOF : Int := -1

/-- `struct map_entry`, without `next`: the list is a `List`. -/
structure MapEntry where
  ptr : Addr
  len : Nat
  fd : Fd
  fp : Option FilePtr
  haveFp : Bool
  wantClose : Bool
deriving DecidableEq, Repr

/-! ## The platform -/

/-- A stream that has not really been closed. -/
structure Stream where
  fileno : Fd
  opening : Option Nat
deriving DecidableEq, Repr

/-- A live mapping and the opening of the descriptor it was made from. -/
structure Mapping where
  ptr : Addr
  len : Nat
  prot : UInt32
  flags : UInt32
  fildes : Fd
  opening : Option Nat
deriving DecidableEq, Repr

/-- The mappings the file is interested in. -/
def isTracked (prot flags : UInt32) (fildes : Fd) : Bool :=
  !(fildes < 0) && (prot &&& PROT_WRITE != 0 && flags &&& MAP_SHARED != 0)

def Mapping.tracked (m : Mapping) : Bool := isTracked m.prot m.flags m.fildes

/-- A file mapping, as opposed to an anonymous one. -/
def Mapping.isFile (m : Mapping) : Bool := m.flags &&& MAP_ANONYMOUS == 0

structure World where
  fds : Fd → Option Nat
  streams : FilePtr → Option Stream
  live : List Mapping
  openings : Nat

/-- A call to the platform, with its result. -/
inductive Call where
  | mmap (addr : Addr) (len : Nat) (prot flags : UInt32) (fildes : Fd) (off : Int)
      (res : Option Addr)
  | munmap (addr : Addr) (len : Nat) (res : Int)
  | close (fd : Fd) (res : Int)
  | fclose (fp : FilePtr) (res : Int)
  | fflush (fp : FilePtr) (res : Int)
deriving DecidableEq, Repr

/-- A logged call: the list and the world are those at the moment of the call. -/
structure Record where
  call : Call
  maps : List MapEntry
  world : World

structure State where
  maps : List MapEntry
  world : World
  errno : Option Errno
  log : List Record
  stopped : Option Stop

def State.issue (s : State) (c : Call) : State :=
  { s with log := s.log ++ [⟨c, s.maps, s.world⟩] }

def State.stop (s : State) (why : Stop) : State := { s with stopped := some why }

section
variable (s : State) (c : Call)

@[simp] theorem State.issue_maps : (s.issue c).maps = s.maps := rfl
@[simp] theorem State.issue_stopped : (s.issue c).stopped = s.stopped := rfl
@[simp] theorem State.issue_log : (s.issue c).log = s.log ++ [⟨c, s.maps, s.world⟩] := rfl

end

/-- `mmap`; `MAP_FAILED` is `none`. -/
def realMmap (s : State) (addr : Addr) (len : Nat) (prot flags : UInt32) (fildes : Fd)
    (off : Int) (res : Option Addr) : State :=
  { s.issue (.mmap addr len prot flags fildes off res) with
    world := { s.world with
      live := match res with
        | none => s.world.live
        | some ptr => ⟨ptr, len, prot, flags, fildes, s.world.fds fildes⟩ :: s.world.live } }

/-- `munmap`; a negative result leaves the mapping in place. -/
def realMunmap (s : State) (addr : Addr) (len : Nat) (res : Int) : State :=
  { s.issue (.munmap addr len res) with
    world := { s.world with
      live := if res < 0 then s.world.live else s.world.live.filter (·.ptr != addr) } }

@[simp] theorem realMunmap_maps (s : State) (addr : Addr) (len : Nat) (res : Int) :
    (realMunmap s addr len res).maps = s.maps := rfl

/-- `__real_close`: the descriptor is released whatever the result. -/
def realClose (s : State) (fd : Fd) (res : Int) : State :=
  { s.issue (.close fd res) with
    world := { s.world with fds := Function.update s.world.fds fd none } }

/-- `__real_fclose`: the stream and its descriptor are released whatever the
result.  An indeterminate pointer or a stream closed before is undefined. -/
def realFclose (s : State) (fp : Option FilePtr) (res : Int) : State :=
  match fp with
  | none => s.stop .undefined
  | some fp =>
      match s.world.streams fp with
      | none => s.stop .undefined
      | some st =>
          { s.issue (.fclose fp res) with
            world := { s.world with
              fds := Function.update s.world.fds st.fileno none
              streams := Function.update s.world.streams fp none } }

/-- The platform hands out descriptor number `fd`. -/
def handOutFd (s : State) (fd : Fd) : State :=
  { s with world := { s.world with
      fds := Function.update s.world.fds fd (some s.world.openings)
      openings := s.world.openings + 1 } }

/-- The platform opens a stream; a negative `fileno` is one without a descriptor. -/
def handOutStream (s : State) (fp : FilePtr) (fileno : Fd) : State :=
  { s with world := { s.world with
      streams := Function.update s.world.streams fp (some ⟨fileno, s.world.fds fileno⟩) } }

/-! ## The functions of the file -/

/-- `filter_map_by_key_or(fd, …)` with a handler that goes on to the next
match; `none` is the case without a match. -/
def markByFd (maps : List MapEntry) (fildes : Fd) (handler : MapEntry → MapEntry) :
    Option (List MapEntry) :=
  if maps.any (·.fd == fildes) then
    some (maps.map fun i => if i.fd = fildes then handler i else i)
  else none

theorem markByFd_eq_none {maps : List MapEntry} {fildes : Fd} {handler : MapEntry → MapEntry} :
    markByFd maps fildes handler = none ↔ ∀ i ∈ maps, i.fd ≠ fildes := by
  simp [markByFd]

theorem markByFd_entry {maps maps' : List MapEntry} {fildes : Fd}
    {handler : MapEntry → MapEntry} (h : markByFd maps fildes handler = some maps') :
    ¬ ∀ i ∈ maps, i.fd ≠ fildes := by
  intro hno
  rw [markByFd_eq_none.mpr hno] at h
  cases h

theorem markByFd_eq_some {maps maps' : List MapEntry} {fildes : Fd}
    {handler : MapEntry → MapEntry} (h : markByFd maps fildes handler = some maps') :
    maps' = maps.map fun i => if i.fd = fildes then handler i else i := by
  unfold markByFd at h
  split at h
  · exact (Option.some.inj h).symm
  · cases h

/-- `assert(cond)` followed by `k`. -/
def assertThen (b : Build) (cond : Bool) (s : State) (k : State → State) : State :=
  match b, cond with
  | .debug, false => s.stop .aborted
  | _, _ => k s

/-- `assert(!call())`: without asserts the call is not made. -/
def assertZero (b : Build) (res : Int) (call : State → State) (s : State) : State :=
  match b with
  | .debug => if res = 0 then call s else (call s).stop .aborted
  | .ndebug => s

theorem assertThen_cases {P : State → Prop} {b : Build} {cond : Bool} {s : State}
    {k : State → State} (hstop : P (s.stop .aborted)) (hk : P (k s)) :
    P (assertThen b cond s k) := by
  cases b <;> cases cond <;> assumption

theorem assertZero_cases {P : State → Prop} {b : Build} {res : Int} {call : State → State}
    {s : State} (hs : P s) (hcall : P (call s)) (hstop : P ((call s).stop .aborted)) :
    P (assertZero b res call s) := by
  cases b with
  | debug =>
      unfold assertZero
      by_cases hres : res = 0
      · simpa only [if_pos hres] using hcall
      · simpa only [if_neg hres] using hstop
  | ndebug => exact hs

/-- `_mmap_stub_impl`.  A failed `malloc` fails the assert; without asserts the
null pointer is written through. -/
def mmapStubImpl (b : Build) (s : State) (addr : Addr) (len : Nat) (prot flags : UInt32)
    (fildes : Fd) (off : Int) (res : Option Addr) (mallocOk : Bool) : Option Addr × State :=
  let s₁ := realMmap s addr len prot flags fildes off res
  match res with
  | none => (none, s₁)
  | some ptr =>
      if isTracked prot flags fildes then
        (some ptr, assertThen b mallocOk s₁ fun s₁ =>
          if mallocOk then { s₁ with maps := ⟨ptr, len, fildes, none, false, false⟩ :: s₁.maps }
          else s₁.stop .undefined)
      else (some ptr, s₁)

/-- `__wrap_close`. -/
def wrapClose (s : State) (fildes : Fd) (res : Int) : Int × State :=
  match s.world.fds fildes with
  | none => (-1, { s with errno := some .EBADF })
  | some _ =>
      match markByFd s.maps fildes fun i => { i with wantClose := true } with
      | some maps => (0, { s with maps })
      | none => (res, realClose s fildes res)

/-- `__wrap_fclose`.  The result of `fflush` is not used. -/
def wrapFclose (s : State) (stream : Option FilePtr) (flush res : Int) : Int × State :=
  match stream with
  | none => (EOF, { s with errno := some .EBADF })
  | some fp =>
      match s.world.streams fp with
      | none => (EOF, s.stop .undefined)
      | some st =>
          if st.fileno < 0 then (res, realFclose s (some fp) res)
          else
            match markByFd s.maps st.fileno
                fun i => { i with wantClose := true, fp := some fp, haveFp := true } with
            | some maps => (0, { s with maps }.issue (.fflush fp flush))
            | none => (res, realFclose s (some fp) res)

/-- `post_munmap_hook`, on an entry already taken out of the list. -/
def postMunmapHook (b : Build) (s : State) (map : MapEntry) (len : Nat) (res : Int) : State :=
  assertThen b (map.len == len) s fun s =>
    match s.maps.find? (·.fd == map.fd) with
    | some i => assertThen b i.wantClose s id
    | none =>
        if map.haveFp then assertZero b res (realFclose · map.fp res) s
        else assertZero b res (realClose · map.fd res) s

/-- `_munmap_stub_impl`.  `closeRes` is what a delayed close answers. -/
def munmapStubImpl (b : Build) (s : State) (addr : Addr) (len : Nat) (res closeRes : Int) :
    Int × State :=
  let s₁ := realMunmap s addr len res
  if res < 0 then (res, s₁)
  else
    match s₁.maps.find? (·.ptr == addr) with
    | none => (res, s₁)
    | some i =>
        let s₂ := { s₁ with maps := s₁.maps.eraseP (·.ptr == addr) }
        (res, if i.wantClose then postMunmapHook b s₂ i len closeRes else s₂)

/-! ## Runs -/

/-- One call to the file, or the platform handing out a descriptor or a stream
in between. -/
inductive Op where
  | openFd (fd : Fd)
  | openStream (fp : FilePtr) (fileno : Fd)
  | mmap (addr : Addr) (len : Nat) (prot flags : UInt32) (fildes : Fd) (off : Int)
      (res : Option Addr) (mallocOk : Bool)
  | close (fildes : Fd) (res : Int)
  | fclose (stream : Option FilePtr) (flush res : Int)
  | munmap (addr : Addr) (len : Nat) (res closeRes : Int)
deriving DecidableEq, Repr

/-- What an operation does while the program runs. -/
def Op.run (b : Build) (s : State) : Op → State
  | .openFd fd => handOutFd s fd
  | .openStream fp fileno => handOutStream s fp fileno
  | .mmap addr len prot flags fildes off res mallocOk =>
      (mmapStubImpl b s addr len prot flags fildes off res mallocOk).2
  | .close fildes res => (wrapClose s fildes res).2
  | .fclose stream flush res => (wrapFclose s stream flush res).2
  | .munmap addr len res closeRes => (munmapStubImpl b s addr len res closeRes).2

/-- A stopped program takes no further step. -/
def step (b : Build) (s : State) (op : Op) : State :=
  match s.stopped with
  | some _ => s
  | none => op.run b s

theorem step_running {b : Build} {s : State} (h : s.stopped = none) (op : Op) :
    step b s op = op.run b s := by
  simp only [step, h]

def init : State := ⟨[], ⟨fun _ => none, fun _ => none, [], 0⟩, none, [], none⟩

/-- What the platform may do and answer: it hands out free numbers; `mmap` never
returns the start of a live mapping, and maps a file only through an open
descriptor; `munmap` succeeds only for the exact start and length of a live
mapping.  A stream handed to `fclose` is null or not yet really closed. -/
def Platform (s : State) : Op → Prop
  | .openFd fd => 0 ≤ fd ∧ s.world.fds fd = none
  | .openStream fp fileno =>
      s.world.streams fp = none ∧ (0 ≤ fileno → (s.world.fds fileno).isSome)
  | .mmap _ _ _ _ _ _ none _ => True
  | .mmap _ _ _ flags fildes _ (some ptr) _ =>
      (∀ m ∈ s.world.live, m.ptr ≠ ptr) ∧
      (0 ≤ fildes → flags &&& MAP_ANONYMOUS = 0 → (s.world.fds fildes).isSome)
  | .close _ _ => True
  | .fclose none _ _ => True
  | .fclose (some fp) _ _ => (s.world.streams fp).isSome
  | .munmap addr len res _ =>
      0 ≤ res → ∃ m ∈ s.world.live, m.ptr = addr ∧ m.len = len

instance decPlatform (s : State) : ∀ op : Op, Decidable (Platform s op)
  | .openFd _ => instDecidableAnd
  | .openStream _ _ => instDecidableAnd
  | .mmap _ _ _ _ _ _ none _ => .isTrue trivial
  | .mmap _ _ _ _ _ _ (some _) _ => instDecidableAnd
  | .close _ _ => .isTrue trivial
  | .fclose none _ _ => .isTrue trivial
  | .fclose (some _) _ _ => instDecidableEqBool _ _
  | .munmap addr len res _ =>
      inferInstanceAs (Decidable (0 ≤ res → ∃ m ∈ s.world.live, m.ptr = addr ∧ m.len = len))

end LibcCompat.Emsup
