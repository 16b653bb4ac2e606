/-
# `LibcCompat.Winsup.Descriptors` — the descriptor table a program sees

## What is proved

A POSIX program knows a descriptor table: each of its descriptors belongs to the
program, to a directory stream or to a stream, and leads to something.  `open`
adds a descriptor that was free, or fails and changes nothing; `fdopen` and
`fdopendir` hand one over, to a stream that was not there, or change nothing;
`close` and `closedir` take one away, and that one only (`FdOp.effect`).

The process with its two tables, its streams and its calls to Windows behaves as
such a table in every run (`process_refines`).  Only what a failed `fopen` loses
shows, as a descriptor that belongs to nobody.

What holds of the descriptor table holds of the process.  `leadsTo_stable` is
proved of the table alone: what is not closed leads where it led.  By the
refinement it is so in the process (`run_leadsTo`).

## How

The view of a process is made of the owners and the objects of its descriptors.
A call changes the owner of one descriptor at most; `Stable` has it that the
other descriptors lead to the same objects.
-/
import LibcCompat.Lib.Trace
import LibcCompat.Winsup.Stable

namespace LibcCompat.Winsup

open LibcCompat.Lib

/-! ## The descriptor table -/

/-- What a program sees: whom a descriptor belongs to, and what it leads to. -/
abbrev View := Fd → Option (Owner × Object)

/-- A stream belongs to one descriptor. -/
def Owner.IsStream : Owner → Prop
  | .dir _ => True
  | .stream _ => True
  | _ => False

/-- A stream that no descriptor belongs to yet. -/
def View.New (v : View) (owner : Owner) : Prop :=
  owner.IsStream → ∀ fd o, v fd ≠ some (owner, o)

/-- A descriptor that was free is opened, or none is. -/
def View.MayOpen (v w : View) (kind : Owner → Prop) : Prop :=
  w = v ∨ ∃ fd owner o, v fd = none ∧ kind owner ∧ v.New owner ∧
    w = Function.update v fd (some (owner, o))

/-- A descriptor of the program is handed over with what it leads to, or is not. -/
def View.MayPass (v w : View) (fd : Fd) (kind : Owner → Prop) : Prop :=
  w = v ∨ ∃ owner o, v fd = some (.client, o) ∧ kind owner ∧ v.New owner ∧
    w = Function.update v fd (some (owner, o))

/-- A descriptor is taken away. -/
def View.Drops (v w : View) (fd : Fd) (kind : Owner → Prop) : Prop :=
  ∃ owner o, v fd = some (owner, o) ∧ kind owner ∧ w = Function.update v fd none

/-- What a call does to the descriptor table. -/
def FdOp.effect : FdOp → View → View → Prop
  | .openFile _ _ _, v, w => v.MayOpen w (· = .client)
  | .creat _ _, v, w => v.MayOpen w (· = .client)
  | .openat _ _ _ _ _, v, w => v.MayOpen w (· = .client)
  | .close fd, v, w => v.Drops w fd (· = .client)
  | .fopen _ _, v, w => v.MayOpen w fun owner => owner = .lost ∨ ∃ fp, owner = .stream fp
  | .fdopen fd _, v, w => v.MayPass w fd fun owner => ∃ fp, owner = .stream fp
  | .opendir _, v, w => v.MayOpen w fun owner => ∃ p, owner = .dir p
  | .fdopendir fd, v, w => v.MayPass w fd fun owner => ∃ p, owner = .dir p
  | .closedir stub, v, w => v.Drops w stub.fd fun owner => ∃ p, stub.dirp = some p ∧ owner = .dir p
  | .inspect _, v, w => w = v

namespace View

variable {v w : View} {fd fd' : Fd} {kind : Owner → Prop} {o : Object}

/-- What a descriptor leads to, whoever has it. -/
def LeadsTo (v : View) (fd : Fd) (o : Object) : Prop := ∃ owner, v fd = some (owner, o)

theorem LeadsTo.mayOpen (h : v.LeadsTo fd o) (hopen : v.MayOpen w kind) : w.LeadsTo fd o := by
  rcases hopen with rfl | ⟨fd', owner', o', hfree, -, -, rfl⟩
  · exact h
  · obtain ⟨owner, hfd⟩ := h
    have hne : fd ≠ fd' := by
      rintro rfl
      rw [hfd] at hfree
      cases hfree
    exact ⟨owner, (Function.update_of_ne hne _ _).trans hfd⟩

theorem LeadsTo.mayPass (h : v.LeadsTo fd o) (hpass : v.MayPass w fd' kind) :
    w.LeadsTo fd o := by
  rcases hpass with rfl | ⟨owner', o', hclient, -, -, rfl⟩
  · exact h
  · obtain ⟨owner, hfd⟩ := h
    by_cases heq : fd = fd'
    · subst heq
      rw [hfd] at hclient
      cases hclient
      exact ⟨owner', Function.update_self _ _ _⟩
    · exact ⟨owner, (Function.update_of_ne heq _ _).trans hfd⟩

theorem LeadsTo.drops (h : v.LeadsTo fd o) (hdrops : v.Drops w fd' kind) (hne : fd' ≠ fd) :
    w.LeadsTo fd o := by
  obtain ⟨owner, hfd⟩ := h
  obtain ⟨-, -, -, -, rfl⟩ := hdrops
  exact ⟨owner, (Function.update_of_ne hne.symm _ _).trans hfd⟩

theorem LeadsTo.effect {op : FdOp} (hkeeps : op.releases ≠ some fd) (heffect : op.effect v w)
    (h : v.LeadsTo fd o) : w.LeadsTo fd o := by
  cases op with
  | openFile path oflag mode => exact h.mayOpen heffect
  | creat path mode => exact h.mayOpen heffect
  | openat m dirfd path flags mode => exact h.mayOpen heffect
  | close fd' => exact h.drops heffect fun heq => hkeeps (congrArg some heq)
  | fopen path mode => exact h.mayOpen heffect
  | fdopen fd' mode => exact h.mayPass heffect
  | opendir path => exact h.mayOpen heffect
  | fdopendir fd' => exact h.mayPass heffect
  | closedir stub => exact h.drops heffect fun heq => hkeeps (congrArg some heq)
  | inspect op =>
      obtain rfl : w = v := heffect
      exact h

end View

/-! ## The view of a process -/

def viewOf (owner : Owners) (s : Win) : View := fun fd =>
  (owner fd).bind fun o => (s.objectOf fd).map (o, ·)

def Process.view (x : Process) : View := viewOf x.owner x.host.win

section
variable {O : Outside} {b : Build} {D : Dirs Host} {base s t : Host} {owner owner' : Owners}
  {fd : Fd} {o : Owner} {obj : Object}

theorem viewOf_eq_some {s : Win} :
    viewOf owner s fd = some (o, obj) ↔ owner fd = some o ∧ s.objectOf fd = some obj := by
  simp only [viewOf, Option.bind_eq_some_iff, Option.map_eq_some_iff, Prod.mk.injEq]
  constructor
  · rintro ⟨o', howner, obj', hobject, rfl, rfl⟩
    exact ⟨howner, hobject⟩
  · rintro ⟨howner, hobject⟩
    exact ⟨o, howner, obj, hobject, rfl, rfl⟩

theorem viewOf_none {s : Win} (hnone : owner fd = none) : viewOf owner s fd = none := by
  rw [viewOf, hnone]
  rfl

theorem Accounted.viewOf (h : Accounted base s owner) (hown : owner fd = some o) :
    ∃ obj, Winsup.viewOf owner s.win fd = some (o, obj) := by
  have hsome : (owner fd).isSome := by
    rw [hown]
    rfl
  obtain ⟨handle, hbound⟩ := Option.isSome_iff_exists.mp (h.crt.bound fd hsome)
  obtain ⟨obj, hopen⟩ :=
    Option.isSome_iff_exists.mp (h.handles.bound handle ⟨fd, hsome, hbound⟩)
  exact ⟨obj, viewOf_eq_some.mpr ⟨hown, objectOf_eq_some.mpr ⟨handle, hbound, hopen⟩⟩⟩

/-- One descriptor at most has another owner, and the others lead where they led. -/
theorem viewOf_update {s t : Win} {new : Option Owner}
    (hstays : ∀ x, x ≠ fd → (owner x).isSome → t.objectOf x = s.objectOf x) :
    viewOf (Function.update owner fd new) t =
      Function.update (viewOf owner s) fd (new.bind fun o => (t.objectOf fd).map (o, ·)) := by
  funext x
  by_cases hx : x = fd
  · rw [hx, Function.update_self, viewOf, Function.update_self]
  · rw [Function.update_of_ne hx, viewOf, viewOf, Function.update_of_ne hx]
    cases howner : owner x with
    | none => rfl
    | some o =>
        rw [hstays x hx (by rw [howner]; rfl)]

theorem Moves.objectOf (hmoves : Moves s.win t.win none) (h : Accounted base s owner) (x : Fd)
    (hown : (owner x).isSome) : t.win.objectOf x = s.win.objectOf x :=
  (hmoves.stays h hown nofun nofun).object

theorem Moves.viewOf_same (hmoves : Moves s.win t.win none) (h : Accounted base s owner) :
    viewOf owner t.win = viewOf owner s.win := by
  funext x
  unfold viewOf
  cases howner : owner x with
  | none => rfl
  | some o => rw [hmoves.objectOf h x (by rw [howner]; rfl)]

/-- The stream that a descriptor gets is its own. -/
theorem Accounted.new (h : Accounted base t (Function.update owner fd (some o)))
    (hold : owner fd ≠ some o) (s : Win) : View.New (Winsup.viewOf owner s) o := by
  intro hstream x obj hx
  have hownx : owner x = some o := (viewOf_eq_some.mp hx).1
  have hne : x ≠ fd := by
    rintro rfl
    exact hold hownx
  have hx' : Function.update owner fd (some o) x = some o :=
    (Function.update_of_ne hne _ _).trans hownx
  have hfd' : Function.update owner fd (some o) fd = some o := Function.update_self _ _ _
  cases o with
  | client => exact hstream
  | lost => exact hstream
  | dir p => exact hne (h.ownDir x fd p hx' hfd')
  | stream fp =>
      have hfileno := (h.fileno x fp hx').symm.trans (h.fileno fd fp hfd')
      exact hne (Option.some.inj hfileno)

theorem Moves.mayOpen {kind : Owner → Prop} (hmoves : Moves s.win t.win none)
    (h : Accounted base s owner) (h' : Accounted base t (Function.update owner fd (some o)))
    (hfree : s.win.crt fd = none) (hkind : kind o) :
    View.MayOpen (viewOf owner s.win) (viewOf (Function.update owner fd (some o)) t.win) kind := by
  have hnone : owner fd = none := h.no_owner hfree
  obtain ⟨obj, hobj⟩ := h'.viewOf (Function.update_self fd (some o) owner)
  have hnew : View.New (viewOf owner s.win) o := h'.new (by rw [hnone]; nofun) s.win
  refine .inr ⟨fd, o, obj, viewOf_none hnone, hkind, hnew, ?_⟩
  rw [viewOf_update fun x _ hown => hmoves.objectOf h x hown, (viewOf_eq_some.mp hobj).2]
  rfl

theorem Moves.mayPass {kind : Owner → Prop} (hmoves : Moves s.win t.win none)
    (h : Accounted base s owner) (h' : Accounted base t (Function.update owner fd (some o)))
    (hfd : owner fd = some .client) (hstream : o.IsStream) (hkind : kind o) :
    View.MayPass (viewOf owner s.win) (viewOf (Function.update owner fd (some o)) t.win) fd
      kind := by
  have hold : owner fd ≠ some o := by
    rw [hfd]
    rintro ⟨⟩
    exact hstream
  obtain ⟨obj, hobj⟩ := h.viewOf hfd
  have hobject : t.win.objectOf fd = some obj := by
    rw [hmoves.objectOf h fd (by rw [hfd]; rfl)]
    exact (viewOf_eq_some.mp hobj).2
  refine .inr ⟨o, obj, hobj, hkind, h'.new hold s.win, ?_⟩
  rw [viewOf_update fun x _ hown => hmoves.objectOf h x hown, hobject]
  rfl

theorem Moves.drops {kind : Owner → Prop} (hmoves : Moves s.win t.win (some fd))
    (h : Accounted base s owner) (hfd : owner fd = some o) (hkind : kind o) :
    View.Drops (viewOf owner s.win) (viewOf (Function.update owner fd none) t.win) fd kind := by
  obtain ⟨obj, hobj⟩ := h.viewOf hfd
  have hothers : ∀ x, x ≠ fd → (owner x).isSome → t.win.objectOf x = s.win.objectOf x := by
    intro x hne hown
    refine (hmoves.stays h hown (fun heq => hne (Option.some.inj heq).symm) ?_).object
    rintro fd' ⟨⟩
    rw [hfd]
    rfl
  refine ⟨o, obj, hobj, hkind, ?_⟩
  rw [viewOf_update hothers]
  rfl

/-! ## One call -/

theorem gain_mayOpen {r : Option Fd} (hmoves : Moves s.win t.win none)
    (h : Accounted base s owner) (h' : Accounted base t (owner.gain r))
    (hfree : ∀ fd, r = some fd → s.win.crt fd = none) :
    View.MayOpen (viewOf owner s.win) (viewOf (owner.gain r) t.win) (· = .client) := by
  cases r with
  | none => exact .inl (hmoves.viewOf_same h)
  | some fd => exact hmoves.mayOpen h h' (hfree fd rfl) rfl

/-- What a call does is what the descriptor table says. -/
theorem FdOp.takes_effect {op : FdOp} (h : Accounted base s owner)
    (hentitled : Process.Entitled ⟨s, owner⟩ op) (hstays : op.opensLink O b s = false)
    (hrun : op.run O b D owner s = .ok owner' t) :
    op.effect (viewOf owner s.win) (viewOf owner' t.win) := by
  have h' : Accounted base t owner' := FdOp.accounted h hentitled hstays hrun
  have hmoves : Moves s.win t.win op.releases := FdOp.moves hstays hrun
  cases op with
  | openFile path oflag mode =>
      obtain ⟨r, u, hrun, hrest⟩ := bind_ok hrun
      cases hrest
      exact gain_mayOpen hmoves h h' fun fd hr => wrapOpen_free (hr ▸ hrun)
  | creat path mode =>
      obtain ⟨r, u, hrun, hrest⟩ := bind_ok hrun
      cases hrest
      exact gain_mayOpen hmoves h h' fun fd hr => wrapOpen_free (hr ▸ hrun)
  | openat m dirfd path flags mode =>
      obtain ⟨r, u, hrun, hrest⟩ := bind_ok hrun
      cases hrest
      exact gain_mayOpen hmoves h h' fun fd hr => openatFd_free hstays (hr ▸ hrun)
  | close fd =>
      obtain ⟨_, u, -, hrest⟩ := bind_ok hrun
      cases hrest
      exact hmoves.drops h hentitled rfl
  | fopen path mode =>
      obtain ⟨s', u, hget, hrest⟩ := bind_ok hrun
      cases hget
      obtain ⟨r, u, -, hrest⟩ := bind_ok hrest
      cases hfd : fopenFd O b path mode s with
      | none =>
          rw [hfd] at hrest
          cases hrest
          exact .inl (hmoves.viewOf_same h)
      | some fd =>
          obtain ⟨flags, v, -, hfirst⟩ := fopenFd_eq_some hfd
          rw [hfd] at hrest
          cases hrest
          refine hmoves.mayOpen h h' (wrapOpen_free hfirst) ?_
          cases r with
          | none => exact .inl rfl
          | some fp => exact .inr ⟨fp, rfl⟩
  | fdopen fd mode =>
      obtain ⟨r, u, -, hrest⟩ := bind_ok hrun
      cases r with
      | none =>
          cases hrest
          exact .inl (hmoves.viewOf_same h)
      | some fp =>
          cases hrest
          exact hmoves.mayPass h h' hentitled trivial ⟨fp, rfl⟩
  | opendir path =>
      obtain ⟨r, u, hrun, hrest⟩ := bind_ok hrun
      cases hrest
      rcases r with _ | ⟨_ | p, fd⟩
      · exact .inl (hmoves.viewOf_same h)
      · exact .inl (hmoves.viewOf_same h)
      · obtain ⟨-, v, hfirst⟩ := opendirStub_gets hrun
        exact hmoves.mayOpen h h' (wrapOpen_free hfirst) ⟨p, rfl⟩
  | fdopendir fd =>
      obtain ⟨r, u, hrun, hrest⟩ := bind_ok hrun
      cases hrest
      cases r with
      | none => exact .inl (hmoves.viewOf_same h)
      | some stub =>
          obtain ⟨p, rfl⟩ := fdopendir_fd hrun
          exact hmoves.mayPass h h' hentitled trivial ⟨p, rfl⟩
  | closedir stub =>
      obtain ⟨r, u, -, hrest⟩ := bind_ok hrun
      cases hrest
      obtain ⟨p, hp, hfd⟩ := hentitled
      exact hmoves.drops h hfd ⟨p, hp, rfl⟩
  | inspect op =>
      obtain ⟨answer, u, -, hrest⟩ := bind_ok hrun
      cases hrest
      exact hmoves.viewOf_same h

theorem processStep_effect {x : Process} {op : FdOp} (h : Accounted base x.host x.owner)
    (hok : x.Allows O b D op) : op.effect x.view (processStep O b D x op).view := by
  obtain ⟨owner, t, hrun, -⟩ := after_iff.mp hok.returns
  simp only [processStep, hrun]
  exact FdOp.takes_effect h hok.entitled hok.stays hrun

/-! ## Runs -/

theorem run_effect {ops : List FdOp} {x y : Process} (hx : Accounted base x.host x.owner)
    (h : Run (Process.Allows O b D) (processStep O b D) x ops y) :
    Trace FdOp.effect x.view ops y.view :=
  h.refines (R := FdOp.effect) (P := fun x => Accounted base x.host x.owner)
    (fun _ _ hx hok => processStep_effect hx hok)
    (fun _ _ hx hok => processStep_accounted hx hok) hx

/-- **Refinement.**  In every run the process behaves as the descriptor table
says, which is empty at the start. -/
theorem process_refines {ops : List FdOp} {x : Process}
    (h : Run (Process.Allows O b D) (processStep O b D) ⟨base, fun _ => none⟩ ops x) :
    Trace FdOp.effect (fun _ => none) ops x.view :=
  run_effect (.start base) h

/-- The run that opens everything is one of the descriptor table. -/
theorem process_refines_openAll :
    Trace FdOp.effect (fun _ => none) openAll
      (openAll.foldl (processStep aProgram .debug noEntries) idle).view :=
  process_refines (Run.of_allOk (by decide +kernel))

/-- Along every trace of the descriptor table, what is not closed leads where it
led. -/
theorem leadsTo_stable {v w : View} {ops : List FdOp} {o : Object}
    (h : Trace FdOp.effect v ops w) (hkeeps : ∀ op ∈ ops, op.releases ≠ some fd)
    (hv : v.LeadsTo fd o) : w.LeadsTo fd o :=
  h.inv (P := fun v => v.LeadsTo fd o) (fun _ _ _ hop heffect => View.LeadsTo.effect hop heffect)
    hkeeps hv

/-- So it is in the process, from any state of a run on. -/
theorem run_leadsTo {got more : List FdOp} {x y : Process} {o : Object}
    (h : Run (Process.Allows O b D) (processStep O b D) ⟨base, fun _ => none⟩ got x)
    (h' : Run (Process.Allows O b D) (processStep O b D) x more y)
    (hkeeps : ∀ op ∈ more, op.releases ≠ some fd) (hv : x.view.LeadsTo fd o) :
    y.view.LeadsTo fd o :=
  leadsTo_stable (run_effect (run_accounted h) h') hkeeps hv

end

end LibcCompat.Winsup
