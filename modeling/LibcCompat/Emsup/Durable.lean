/-
# `LibcCompat.Emsup.Durable` — what is stored into a mapping reaches its file

## What is proved

The purpose of the file, in bytes.  On Emscripten `munmap` writes a shared
writable mapping back through the descriptor *number* it was made from: if that
number is closed by then, the stores are lost, and if it has been handed out
again they end up in another file.  With the calls of this file, neither
happens:

* every run is, byte for byte, a run over a platform that writes a mapping back
  to the file it was made from, as POSIX has it (`writesBack_iff`);
* a program that maps a file, goes on as it likes — closes the descriptor, opens
  others, maps the file again — and unmaps, finds in the file the last value it
  stored at each place, and the old contents where it stored nothing
  (`stores_reachFile`).

## How

Bytes are moved by the real `mmap` and `munmap` calls an operation logs, in the
world each of them finds; that there is one such call, and when, is `run_log`.
`Tracks` says that the number is still the opening the mapping was made from.
The rest is a frame argument: between `mmap` and `munmap` nothing but a store
changes the bytes of the mapping (`Session`).
-/
import LibcCompat.Emsup.Safety
import LibcCompat.Lib.Overlay

namespace LibcCompat.Emsup

open LibcCompat.Lib

/-! ## Bytes -/

/-- The program and the bytes under it: the memory, what each file holds, and
where in its file the mapping at an address begins. -/
structure Machine where
  prog : State
  mem : Addr → UInt8
  data : Nat → Nat → UInt8
  offset : Addr → Nat

/-- A call of the file, a store of the program, or a change to a file by other
means. -/
inductive Act where
  | call (op : Op)
  | store (a : Addr) (v : UInt8)
  | write (file i : Nat) (v : UInt8)
deriving DecidableEq, Repr

/-- The opening through which a platform writes a mapping back. -/
abbrev Through := World → Mapping → Option Nat

/-- Emscripten: whatever the number stands for now. -/
def throughNumber : Through := fun w p => w.fds p.fildes

/-- POSIX: the file the mapping was made from. -/
def throughOpening : Through := fun _ p => p.opening

variable (b : Build) (fileOf : Nat → Nat) (through : Through)

/-- The bytes of a mapping made in world `v`; an anonymous one is zero. -/
def Machine.source (m : Machine) (v : World) (flags : UInt32) (fildes : Fd) (off : Int)
    (i : Nat) : UInt8 :=
  if flags &&& MAP_ANONYMOUS = 0 then
    match v.fds fildes with
    | some o => m.data (fileOf o) (off.toNat + i)
    | none => 0
  else 0

/-- `munmap` writes the shared writable mapping `p` back. -/
def Machine.writeBack (m : Machine) (v : World) (p : Mapping) : Machine :=
  if p.tracked && p.isFile then
    match through v p with
    | some o =>
        { m with
          data := Function.update m.data (fileOf o)
            (overlay (m.data (fileOf o)) (m.offset p.ptr) p.len fun i => m.mem (p.ptr + i)) }
    | none => m
  else m

/-- The bytes a real call moves. -/
def Machine.moveBytes (m : Machine) (r : Record) : Machine :=
  match r.call with
  | .mmap _ len _ flags fildes off (some ptr) =>
      { m with
        mem := overlay m.mem ptr len (m.source fileOf r.world flags fildes off)
        offset := Function.update m.offset ptr off.toNat }
  | .munmap addr _ res =>
      if res < 0 then m
      else
        match r.world.live.find? (·.ptr == addr) with
        | some p => m.writeBack fileOf through r.world p
        | none => m
  | _ => m

/-- The calls made from `s` on. -/
def State.made (s s' : State) : List Record := s'.log.drop s.log.length

def Machine.act (m : Machine) : Act → Machine
  | .call op =>
      let prog := op.run b m.prog
      { (m.prog.made prog).foldl (Machine.moveBytes fileOf through) m with prog }
  | .store a v => { m with mem := Function.update m.mem a v }
  | .write file i v =>
      { m with data := Function.update m.data file (Function.update (m.data file) i v) }

/-- A stopped program takes no further step. -/
def byteStep (m : Machine) (a : Act) : Machine :=
  match m.prog.stopped with
  | some _ => m
  | none => m.act b fileOf through a

/-- A new mapping lies apart from those that are live, and does not begin before
its file does. -/
def Fits (s : State) : Op → Prop
  | .mmap _ len _ _ _ off (some ptr) _ =>
      0 ≤ off ∧ ∀ p ∈ s.world.live, ptr + len ≤ p.ptr ∨ p.ptr + p.len ≤ ptr
  | _ => True

/-- What the platform may do, with bytes. -/
def Allowed (m : Machine) : Act → Prop
  | .call op => Platform m.prog op ∧ Fits m.prog op
  | _ => True

instance decFits (s : State) : ∀ op : Op, Decidable (Fits s op)
  | .mmap _ _ _ _ _ _ (some _) _ => instDecidableAnd
  | .mmap _ _ _ _ _ _ none _ => .isTrue trivial
  | .openFd _ => .isTrue trivial
  | .openStream _ _ => .isTrue trivial
  | .close _ _ => .isTrue trivial
  | .fclose _ _ _ => .isTrue trivial
  | .munmap _ _ _ _ => .isTrue trivial

instance decAllowed (m : Machine) : ∀ a : Act, Decidable (Allowed m a)
  | .call _ => instDecidableAnd
  | .store _ _ => .isTrue trivial
  | .write _ _ _ => .isTrue trivial

/-- The action unmaps what is mapped at `ptr`. -/
def Act.Unmaps (ptr : Addr) : Act → Prop
  | .call (.munmap addr _ res _) => addr = ptr ∧ 0 ≤ res
  | _ => False

instance decUnmaps (ptr : Addr) : ∀ a : Act, Decidable (a.Unmaps ptr)
  | .call (.munmap _ _ _ _) => instDecidableAnd
  | .call (.mmap _ _ _ _ _ _ _ _) => .isFalse id
  | .call (.openFd _) => .isFalse id
  | .call (.openStream _ _) => .isFalse id
  | .call (.close _ _) => .isFalse id
  | .call (.fclose _ _ _) => .isFalse id
  | .store _ _ => .isFalse id
  | .write _ _ _ => .isFalse id

/-- What a place of the memory holds after the stores among `acts`. -/
def stored (acts : List Act) (a : Addr) (v : UInt8) : UInt8 :=
  acts.foldl (fun v act => match act with
    | .store a' v' => if a' = a then v' else v
    | _ => v) v

variable {b fileOf through}

theorem byteStep_running {m : Machine} (h : m.prog.stopped = none) (a : Act) :
    byteStep b fileOf through m a = m.act b fileOf through a := by
  simp only [byteStep, h]

theorem byteStep_stopped {m : Machine} {why : Stop} (h : m.prog.stopped = some why) (a : Act) :
    byteStep b fileOf through m a = m := by
  simp only [byteStep, h]

theorem running_of_step {m : Machine} {a : Act}
    (h : (byteStep b fileOf through m a).prog.stopped = none) : m.prog.stopped = none := by
  cases hs : m.prog.stopped with
  | none => rfl
  | some why => rwa [byteStep_stopped hs, hs] at h

theorem running_of_run {m t : Machine} {acts : List Act}
    (h : Run Allowed (byteStep b fileOf through) m acts t) :
    t.prog.stopped = none → m.prog.stopped = none := by
  induction h with
  | nil m => exact id
  | cons _ _ ih => exact fun ht => running_of_step (ih ht)

/-! ## The bytes change nothing for the program -/

theorem byteStep_inv {m : Machine} {a : Act} (h : Inv m.prog) (hok : Allowed m a) :
    Inv (byteStep b fileOf through m a).prog := by
  cases hs : m.prog.stopped with
  | some why => rwa [byteStep_stopped hs]
  | none =>
      rw [byteStep_running hs]
      cases a with
      | store a v => exact h
      | write file i v => exact h
      | call op =>
          have hstep := step_inv b h hok.1
          rwa [step_running hs] at hstep

theorem bytes_inv {m t : Machine} {acts : List Act}
    (h : Run Allowed (byteStep b fileOf through) m acts t) : Inv m.prog → Inv t.prog :=
  h.inv (P := fun m => Inv m.prog) fun _ _ hs hok => byteStep_inv hs hok

/-! ## The calls an operation makes -/

/-- A call that moves no bytes. -/
def Record.Still (r : Record) : Prop :=
  ∀ (fileOf : Nat → Nat) (through : Through) (m : Machine), m.moveBytes fileOf through r = m

theorem foldl_still {rs : List Record} (h : ∀ r ∈ rs, r.Still) (m : Machine) :
    rs.foldl (Machine.moveBytes fileOf through) m = m := by
  induction rs with
  | nil => rfl
  | cons r rs ih =>
      rw [List.forall_mem_cons] at h
      rw [List.foldl_cons, h.1, ih h.2]

/-- From `s` to `s'` no mapping comes or goes, and no bytes are moved. -/
structure Quiet (s s' : State) : Prop where
  live : s'.world.live = s.world.live
  log : ∃ rest, s'.log = s.log ++ rest ∧ ∀ r ∈ rest, r.Still

section
variable {s s' : State}

theorem Quiet.silent (hlive : s'.world.live = s.world.live) (hlog : s'.log = s.log) :
    Quiet s s' :=
  ⟨hlive, [], hlog.trans (List.append_nil _).symm, fun _ hr => absurd hr List.not_mem_nil⟩

theorem Quiet.one {r : Record} (hlive : s'.world.live = s.world.live)
    (hlog : s'.log = s.log ++ [r]) (hr : r.Still) : Quiet s s' :=
  ⟨hlive, [r], hlog, fun _ hr' => List.mem_singleton.mp hr' ▸ hr⟩

end

theorem realClose_quiet (s : State) (fd : Fd) (res : Int) : Quiet s (realClose s fd res) :=
  .one rfl rfl fun _ _ _ => rfl

theorem realFclose_quiet (s : State) (fp : Option FilePtr) (res : Int) :
    Quiet s (realFclose s fp res) := by
  unfold realFclose
  split
  · exact .silent rfl rfl
  · split
    · exact .silent rfl rfl
    · exact .one rfl rfl fun _ _ _ => rfl

theorem wrapClose_quiet (s : State) (fildes : Fd) (res : Int) :
    Quiet s (wrapClose s fildes res).2 := by
  unfold wrapClose
  split
  · exact .silent rfl rfl
  · split
    · exact .silent rfl rfl
    · exact realClose_quiet s fildes res

theorem wrapFclose_quiet (s : State) (stream : Option FilePtr) (flush res : Int) :
    Quiet s (wrapFclose s stream flush res).2 := by
  unfold wrapFclose
  split
  · exact .silent rfl rfl
  · next fp =>
      split
      · exact .silent rfl rfl
      · split
        · exact realFclose_quiet s (some fp) res
        · split
          · exact .one rfl rfl fun _ _ _ => rfl
          · exact realFclose_quiet s (some fp) res

theorem postMunmapHook_quiet (b : Build) (s : State) (map : MapEntry) (len : Nat) (res : Int) :
    Quiet s (postMunmapHook b s map len res) := by
  have hstop : ∀ {t : State}, Quiet s t → Quiet s (t.stop .aborted) := fun h => ⟨h.live, h.log⟩
  have hsame : Quiet s s := .silent rfl rfl
  refine assertThen_cases (P := Quiet s) (hstop hsame) ?_
  split
  · exact assertThen_cases (P := Quiet s) (hstop hsame) hsame
  · split
    · have hclosed := realFclose_quiet s map.fp res
      exact assertZero_cases (P := Quiet s) hsame hclosed (hstop hclosed)
    · have hclosed := realClose_quiet s map.fd res
      exact assertZero_cases (P := Quiet s) hsame hclosed (hstop hclosed)

/-- After the real `mmap` nothing is mapped any more. -/
theorem mmapStubImpl_quiet (b : Build) (s : State) (addr : Addr) (len : Nat)
    (prot flags : UInt32) (fildes : Fd) (off : Int) (res : Option Addr) (mallocOk : Bool) :
    Quiet (realMmap s addr len prot flags fildes off res)
      (mmapStubImpl b s addr len prot flags fildes off res mallocOk).2 := by
  cases res with
  | none => exact .silent rfl rfl
  | some ptr =>
      simp only [mmapStubImpl]
      split
      · dsimp only
        refine assertThen_cases
          (P := Quiet (realMmap s addr len prot flags fildes off (some ptr))) ?_ ?_
        · exact .silent rfl rfl
        · cases mallocOk with
          | true => exact .silent rfl rfl
          | false => exact .silent rfl rfl
      · exact .silent rfl rfl

theorem munmapStubImpl_quiet (b : Build) (s : State) (addr : Addr) (len : Nat)
    (res closeRes : Int) :
    Quiet (realMunmap s addr len res) (munmapStubImpl b s addr len res closeRes).2 := by
  simp only [munmapStubImpl]
  split
  · exact .silent rfl rfl
  · split
    · exact .silent rfl rfl
    · next i _ =>
      split
      · have hhook := postMunmapHook_quiet b
          { realMunmap s addr len res with
            maps := (realMunmap s addr len res).maps.eraseP (·.ptr == addr) } i len closeRes
        exact ⟨hhook.live, hhook.log⟩
      · exact .silent rfl rfl

/-- The call of an operation that moves bytes. -/
def Op.moving (s : State) : Op → List Record
  | .mmap addr len prot flags fildes off res _ =>
      [⟨.mmap addr len prot flags fildes off res, s.maps, s.world⟩]
  | .munmap addr len res _ => [⟨.munmap addr len res, s.maps, s.world⟩]
  | _ => []

/-- An operation that is to map or unmap really does so, first of all. -/
theorem run_log (b : Build) (s : State) (op : Op) :
    ∃ rest, (op.run b s).log = s.log ++ op.moving s ++ rest ∧ ∀ r ∈ rest, r.Still := by
  have hquiet : ∀ {s' : State}, Quiet s s' →
      ∃ rest, s'.log = s.log ++ [] ++ rest ∧ ∀ r ∈ rest, r.Still := by
    intro s' h
    rw [List.append_nil]
    exact h.log
  cases op with
  | openFd fd => exact hquiet (.silent rfl rfl)
  | openStream fp fileno => exact hquiet (.silent rfl rfl)
  | mmap addr len prot flags fildes off res mallocOk =>
      exact (mmapStubImpl_quiet b s addr len prot flags fildes off res mallocOk).log
  | close fildes res => exact hquiet (wrapClose_quiet s fildes res)
  | fclose stream flush res => exact hquiet (wrapFclose_quiet s stream flush res)
  | munmap addr len res closeRes => exact (munmapStubImpl_quiet b s addr len res closeRes).log

theorem act_call (m : Machine) (op : Op) :
    m.act b fileOf through (.call op) =
      { (op.moving m.prog).foldl (Machine.moveBytes fileOf through) m with
        prog := op.run b m.prog } := by
  obtain ⟨rest, hlog, hstill⟩ := run_log b m.prog op
  have hmade : m.prog.made (op.run b m.prog) = op.moving m.prog ++ rest := by
    rw [State.made, hlog, List.append_assoc, List.drop_left]
  simp only [Machine.act, hmade, List.foldl_append, foldl_still hstill]

/-! ## The platform writes to the right file -/

/-- A mapping that is written back is written to the file it was made from. -/
theorem writeBack_same {m : Machine} (h : Tracks m.prog) {p : Mapping}
    (hp : p ∈ m.prog.world.live) :
    m.writeBack fileOf throughNumber m.prog.world p =
      m.writeBack fileOf throughOpening m.prog.world p := by
  unfold Machine.writeBack
  by_cases hback : (p.tracked && p.isFile) = true
  · obtain ⟨htr, hf⟩ := (Bool.and_eq_true _ _).mp hback
    have hopen : throughNumber m.prog.world p = throughOpening m.prog.world p :=
      (h.opens p hp htr hf).2.symm
    rw [if_pos hback, if_pos hback, hopen]
  · rw [if_neg hback, if_neg hback]

theorem moving_same {m : Machine} (h : Tracks m.prog) (op : Op) :
    (op.moving m.prog).foldl (Machine.moveBytes fileOf throughNumber) m =
      (op.moving m.prog).foldl (Machine.moveBytes fileOf throughOpening) m := by
  cases op with
  | munmap addr len res closeRes =>
      simp only [Op.moving, List.foldl_cons, List.foldl_nil, Machine.moveBytes]
      split
      · rfl
      · split
        · next p hfind => exact writeBack_same h (List.mem_of_find?_eq_some hfind)
        · rfl
  | mmap addr len prot flags fildes off res mallocOk => cases res <;> rfl
  | openFd fd => rfl
  | openStream fp fileno => rfl
  | close fildes res => rfl
  | fclose stream flush res => rfl

theorem byteStep_same {m : Machine} (h : Inv m.prog) (a : Act) :
    byteStep b fileOf throughNumber m a = byteStep b fileOf throughOpening m a := by
  cases hs : m.prog.stopped with
  | some why => rw [byteStep_stopped hs, byteStep_stopped hs]
  | none =>
      rw [byteStep_running hs, byteStep_running hs]
      cases a with
      | store a v => rfl
      | write file i v => rfl
      | call op => rw [act_call, act_call, moving_same (h.tracks hs) op]

/-- **Write-back.**  The runs over Emscripten, which writes a mapping back
through its descriptor number, are the runs over a platform that writes it back
to its file. -/
theorem writesBack_iff {m t : Machine} {acts : List Act} (hm : m.prog = init) :
    Run Allowed (byteStep b fileOf throughNumber) m acts t ↔
      Run Allowed (byteStep b fileOf throughOpening) m acts t :=
  Run.step_congr_of_inv (P := fun m => Inv m.prog) (fun _ a h _ => byteStep_same h a)
    (fun _ _ h hok => byteStep_inv h hok) (hm ▸ init_inv)

/-- A platform with openings 0, 1, … of files 0, 1, …, each of which counts up. -/
def counting : Machine := ⟨init, fun _ => 0, fun _ i => UInt8.ofNat i, fun _ => 0⟩

def emscripten : Machine → Act → Machine := byteStep .ndebug id throughNumber

def opened : Machine := emscripten counting (.call (.openFd 3))

def mapSecond : Act := .call (.mmap 0 4 PROT_WRITE MAP_SHARED 3 1 (some 0x10000) true)

/-- The descriptor is closed and another file opened; the first place of the
mapping is stored to before and after that. -/
def storeTwice : List Act :=
  [.store 0x10000 7, .call (.close 3 0), .call (.openFd 4), .store 0x10000 42]

/-- From opening the file to unmapping it. -/
def untilUnmapped : List Act :=
  .call (.openFd 3) :: mapSecond :: storeTwice ++ [.call (.munmap 0x10000 4 0 0)]

/-- What is written back is in the file, over either platform. -/
theorem writesBack_storeTwice :
    Run Allowed (byteStep .ndebug id throughOpening) counting untilUnmapped
        (untilUnmapped.foldl emscripten counting) ∧
      (untilUnmapped.foldl emscripten counting).data 0 1 = 42 :=
  ⟨(writesBack_iff rfl).mp (Run.of_allOk (by decide)), by decide⟩

/-! ## What stays mapped -/

theorem run_keeps_mapping (b : Build) {s : State} {op : Op} {p : Mapping}
    (hp : p ∈ s.world.live) (hop : ¬ (Act.call op).Unmaps p.ptr) :
    p ∈ (op.run b s).world.live := by
  cases op with
  | openFd fd => exact hp
  | openStream fp fileno => exact hp
  | mmap addr len prot flags fildes off res mallocOk =>
      simp only [Op.run, (mmapStubImpl_quiet b s addr len prot flags fildes off res mallocOk).live]
      cases res with
      | none => exact hp
      | some ptr => exact List.mem_cons_of_mem _ hp
  | close fildes res => simpa only [Op.run, (wrapClose_quiet s fildes res).live] using hp
  | fclose stream flush res =>
      simpa only [Op.run, (wrapFclose_quiet s stream flush res).live] using hp
  | munmap addr len res closeRes =>
      simp only [Op.run, (munmapStubImpl_quiet b s addr len res closeRes).live, realMunmap]
      split
      · exact hp
      · next hres =>
          have hne : p.ptr ≠ addr := fun h => hop ⟨h.symm, Int.not_lt.mp hres⟩
          exact List.mem_filter.mpr ⟨hp, by simpa using hne⟩

/-! ## The bytes of a mapping while it is mapped -/

/-- The mapping `p` is live, begins at `off` in its file and holds `bytes`. -/
structure Session (m : Machine) (p : Mapping) (off : Nat) (bytes : Nat → UInt8) : Prop where
  live : p ∈ m.prog.world.live
  offset : m.offset p.ptr = off
  mem : ∀ i, i < p.len → m.mem (p.ptr + i) = bytes i

/-- A call that does not unmap the mapping moves none of its bytes. -/
theorem Session.moving {m : Machine} {p : Mapping} {off : Nat} {bytes : Nat → UInt8}
    (h : Session m p off bytes) (fileOf : Nat → Nat) (through : Through) {op : Op}
    (hok : Allowed m (.call op)) :
    let m' := (op.moving m.prog).foldl (Machine.moveBytes fileOf through) m
    m'.offset p.ptr = off ∧ ∀ i, i < p.len → m'.mem (p.ptr + i) = bytes i := by
  cases op with
  | openFd fd => exact ⟨h.offset, h.mem⟩
  | openStream fp fileno => exact ⟨h.offset, h.mem⟩
  | close fildes res => exact ⟨h.offset, h.mem⟩
  | fclose stream flush res => exact ⟨h.offset, h.mem⟩
  | mmap addr len prot flags fildes off' res mallocOk =>
      cases res with
      | none => exact ⟨h.offset, h.mem⟩
      | some ptr =>
          obtain ⟨⟨hfresh, -⟩, -, hapart⟩ := hok
          refine ⟨?_, fun i hi => ?_⟩
          · simp only [Op.moving, List.foldl_cons, List.foldl_nil, Machine.moveBytes,
              Function.update_of_ne (hfresh p h.live), h.offset]
          · have hout : p.ptr + i < ptr ∨ ptr + len ≤ p.ptr + i := by
              rcases hapart p h.live with hle | hle
              · exact .inr (Nat.le_trans hle (Nat.le_add_right _ _))
              · exact .inl (Nat.lt_of_lt_of_le (Nat.add_lt_add_left hi _) hle)
            simp only [Op.moving, List.foldl_cons, List.foldl_nil, Machine.moveBytes,
              overlay_outside hout, h.mem i hi]
  | munmap addr len res closeRes =>
      simp only [Op.moving, List.foldl_cons, List.foldl_nil, Machine.moveBytes]
      split
      · exact ⟨h.offset, h.mem⟩
      · split
        · unfold Machine.writeBack
          split
          · split
            · exact ⟨h.offset, h.mem⟩
            · exact ⟨h.offset, h.mem⟩
          · exact ⟨h.offset, h.mem⟩
        · exact ⟨h.offset, h.mem⟩

/-- Only a store changes what a live mapping holds. -/
theorem Session.step {m : Machine} {p : Mapping} {off : Nat} {bytes : Nat → UInt8}
    (h : Session m p off bytes) (hs : m.prog.stopped = none) {a : Act} (hok : Allowed m a)
    (ha : ¬ a.Unmaps p.ptr) :
    Session (byteStep b fileOf through m a) p off fun i => stored [a] (p.ptr + i) (bytes i) := by
  rw [byteStep_running hs]
  cases a with
  | store a' v =>
      refine ⟨h.live, h.offset, fun i hi => ?_⟩
      show Function.update m.mem a' v (p.ptr + i) = if a' = p.ptr + i then v else bytes i
      rw [Function.update_apply, h.mem i hi]
      simp only [eq_comm]
  | write file i v => exact ⟨h.live, h.offset, h.mem⟩
  | call op =>
      obtain ⟨hoff, hmem⟩ := h.moving fileOf through hok
      rw [act_call]
      exact ⟨run_keeps_mapping b h.live ha, hoff, hmem⟩

theorem Session.run {m t : Machine} {p : Mapping} {off : Nat} {acts : List Act}
    (hrun : Run Allowed (byteStep b fileOf through) m acts t) :
    ∀ {bytes : Nat → UInt8}, Session m p off bytes → (∀ a ∈ acts, ¬ a.Unmaps p.ptr) →
      t.prog.stopped = none →
      Session t p off fun i => stored acts (p.ptr + i) (bytes i) := by
  induction hrun with
  | nil m => exact fun h _ _ => h
  | @cons m t a acts hok hrest ih =>
      intro bytes h hacts ht
      have hs : m.prog.stopped = none := running_of_step (running_of_run hrest ht)
      exact ih (h.step hs hok (hacts a List.mem_cons_self))
        (fun a' ha' => hacts a' (List.mem_cons_of_mem _ ha')) ht

/-! ## From `mmap` to `munmap` -/

theorem Session.of_mmap (b : Build) (fileOf : Nat → Nat) (through : Through) {m : Machine}
    (hs : m.prog.stopped = none) (addr ptr : Addr) (len : Nat) (prot flags : UInt32)
    (fildes : Fd) (off : Int) (mallocOk : Bool) :
    Session (byteStep b fileOf through m
        (.call (.mmap addr len prot flags fildes off (some ptr) mallocOk)))
      ⟨ptr, len, prot, flags, fildes, m.prog.world.fds fildes⟩ off.toNat
      (m.source fileOf m.prog.world flags fildes off) := by
  rw [byteStep_running hs, act_call]
  refine ⟨?_, Function.update_self _ _ _, fun i hi => overlay_inside hi⟩
  simp only [Op.run, (mmapStubImpl_quiet b _ addr len prot flags fildes off _ mallocOk).live]
  exact List.mem_cons_self

/-- What a file holds after a mapping of it has been unmapped. -/
theorem Session.unmap {m : Machine} {p : Mapping} {off o : Nat} {bytes : Nat → UInt8}
    (h : Session m p off bytes) (b : Build) (fileOf : Nat → Nat) (hinv : Inv m.prog)
    (hs : m.prog.stopped = none) (htr : p.tracked = true) (hf : p.isFile = true)
    (ho : p.opening = some o) (len' : Nat) (closeRes : Int) {res : Int} (hres : 0 ≤ res) :
    (byteStep b fileOf throughNumber m (.call (.munmap p.ptr len' res closeRes))).data =
      Function.update m.data (fileOf o)
        (overlay (m.data (fileOf o)) off p.len fun i => m.mem (p.ptr + i)) := by
  have hfind : m.prog.world.live.find? (·.ptr == p.ptr) = some p :=
    find?_eq_some_of_nodup (hinv.tracks hs).starts h.live
  rw [byteStep_same hinv, byteStep_running hs, act_call]
  simp only [Op.moving, List.foldl_cons, List.foldl_nil, Machine.moveBytes,
    if_neg (Int.not_lt.mpr hres), hfind, Machine.writeBack, htr, hf, Bool.and_self, if_true,
    throughOpening, ho, h.offset]

/-- **Stores reach the file.**  A shared writable mapping of the file behind
`fildes` is made, the program goes on with `acts`, in which the mapping stays,
and unmaps it.  Then each byte of the file under the mapping is the last one
stored there or, without a store, the one it was; and `munmap` changes no other
byte of any file. -/
theorem stores_reachFile {m m₀ m₁ : Machine} {before acts : List Act} {addr ptr : Addr}
    {len len' : Nat} {prot flags : UInt32} {fildes : Fd} {off res closeRes : Int}
    {mallocOk : Bool} (hm : m.prog = init)
    (hbefore : Run Allowed (byteStep b fileOf throughNumber) m before m₀)
    (hacts : Run Allowed (byteStep b fileOf throughNumber) m₀
      (.call (.mmap addr len prot flags fildes off (some ptr) mallocOk) :: acts) m₁)
    (htr : isTracked prot flags fildes = true) (hfile : flags &&& MAP_ANONYMOUS = 0)
    (hstay : ∀ a ∈ acts, ¬ a.Unmaps ptr) (hrun : m₁.prog.stopped = none) (hres : 0 ≤ res) :
    ∃ o, m₀.prog.world.fds fildes = some o ∧
      let m₂ := byteStep b fileOf throughNumber m₁ (.call (.munmap ptr len' res closeRes))
      (∀ i, i < len → m₂.data (fileOf o) (off.toNat + i) =
        stored acts (ptr + i) (m₀.data (fileOf o) (off.toNat + i))) ∧
      ∀ file i, file ≠ fileOf o ∨ i < off.toNat ∨ off.toNat + len ≤ i →
        m₂.data file i = m₁.data file i := by
  obtain ⟨hmap, hrest⟩ := hacts.head
  have hs₀ : m₀.prog.stopped = none := running_of_run hacts hrun
  have hinv : Inv m₁.prog := bytes_inv hacts (bytes_inv hbefore (hm ▸ init_inv))
  have hfd : 0 ≤ fildes := by
    simp only [isTracked, Bool.and_eq_true, Bool.not_eq_true', decide_eq_false_iff_not] at htr
    exact Int.not_lt.mp htr.1
  obtain ⟨o, ho⟩ := Option.isSome_iff_exists.mp (hmap.1.2 hfd hfile)
  have hsession := (Session.of_mmap b fileOf throughNumber hs₀ addr ptr len prot flags fildes off
    mallocOk).run hrest hstay hrun
  have hdata := hsession.unmap b fileOf hinv hrun htr (by simpa [Mapping.isFile] using hfile) ho
    len' closeRes hres
  refine ⟨o, ho, fun i hi => ?_, fun file i hout => ?_⟩
  · simp only [hdata, Function.update_self, overlay_inside hi, hsession.mem i hi,
      Machine.source, if_pos hfile, ho]
  · rw [hdata]
    by_cases hff : file = fileOf o
    · subst hff
      rw [Function.update_self, overlay_outside (hout.resolve_left fun hne => hne rfl)]
    · rw [Function.update_of_ne hff]

theorem stores_reachFile_storeTwice :
    let m₁ := (mapSecond :: storeTwice).foldl emscripten opened
    let m₂ := emscripten m₁ (.call (.munmap 0x10000 4 0 0))
    m₂.data 0 1 = 42 ∧ m₂.data 0 2 = 2 ∧ m₂.data 0 0 = m₁.data 0 0 := by
  have hbefore : Run Allowed emscripten counting [.call (.openFd 3)] opened :=
    Run.of_allOk (by decide)
  have hacts : Run Allowed emscripten opened (mapSecond :: storeTwice) _ :=
    Run.of_allOk (by decide)
  obtain ⟨o, ho, hin, hout⟩ := stores_reachFile rfl hbefore hacts (by decide) (by decide)
    (by decide) (by decide) (Int.le_refl 0)
  obtain rfl : 0 = o := Option.some.inj ho
  exact ⟨hin 0 (by decide), hin 1 (by decide), hout 0 0 (by decide)⟩

end LibcCompat.Emsup
