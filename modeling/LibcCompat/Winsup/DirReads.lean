/-
# `LibcCompat.Winsup.DirReads` — several directories read at a time

## What is proved

Many stub directories are open, and read, rewound, told and sought in any order,
in the build without asserts; with asserts the first entry that is read ends the
program.  All of them share the static variable that `_readdir_stub` returns.

What each directory answers is what a directory of its own would have answered
to the calls that were made on it, but for the names, which are cut, and the
types (`streams_apart`).  So a directory that is read to its end gives each entry
once and in order, whatever is done to the others in between (`readdir_lists`),
and a position that `telldir` gave is found again by `seekdir` (`seekdir_found`).

What is shared shows in the pointers: all that were ever returned point to the
last entry that was read, of whichever directory (`Apart.static`).

## How

A call on one directory leaves the positions of the others as they are; the rest
is an induction over the run.
-/
import LibcCompat.Winsup.DirPosition
import Mathlib.Data.List.Forall2

namespace LibcCompat.Winsup

open LibcCompat.Lib

/-! ## The directories -/

/-- A directory stream: its entries, and how many of them it has consumed. -/
structure Cursor where
  entries : List Dirent
  pos : Nat

/-- The open streams, and the static variable of `_readdir_stub`. -/
structure DirTable where
  cursors : DirPtr → Option Cursor
  res : DirentStub
  errno : Errno

def DirTable.put (s : DirTable) (p : DirPtr) (c : Cursor) : DirTable :=
  { s with cursors := Function.update s.cursors p (some c) }

/-- A function of the C runtime on an open stream; another one is undefined. -/
def onCursor {α : Type} (p : DirPtr) (f : Cursor → α × Cursor) : Prog DirTable α := fun s =>
  match s.cursors p with
  | none => .error .undefined s
  | some c => .ok (f c).1 (s.put p (f c).2)

def Cursor.read (c : Cursor) : Option Dirent × Cursor :=
  match c.entries[c.pos]? with
  | some d => (some d, { c with pos := c.pos + 1 })
  | none => (none, c)

def Cursor.rewind (c : Cursor) : Cursor := { c with pos := 0 }

def Cursor.seek (c : Cursor) (loc : Int) : Cursor :=
  { c with pos := min loc.toNat c.entries.length }

/-- The functions under the stubs, as POSIX describes them.  Without asserts,
`lseek` and `fstatat` are not called. -/
def tableDirs : Dirs DirTable where
  malloc := pure true
  opendir _ := pure none
  readdir p := onCursor p Cursor.read
  rewinddir p := onCursor p fun c => (⟨⟩, c.rewind)
  telldir p := onCursor p fun c => ((c.pos : Int), c)
  seekdir p loc := onCursor p fun c => (⟨⟩, c.seek loc)
  lseek _ offset _ := pure offset
  fstatat _ _ _ := pure failed
  setErrno e s := { s with errno := e }

/-! ## The calls -/

/-- A call, with what the local `buf` of `_readdir_stub` held before. -/
inductive DirCall where
  | readdir (buf : Stat)
  | rewinddir
  | telldir
  | seekdir (loc : Int)
deriving DecidableEq, Repr

inductive DirAnswer where
  | entry (e : Option DirentStub)
  | done
  | loc (n : Int)

/-- What a call answers; the entry is in the static variable. -/
def DirCall.run (dirp : DirStub) : DirCall → Prog DirTable DirAnswer
  | .readdir buf => fun s =>
      (do match ← readdirStub tableDirs .ndebug s.res buf (some dirp) with
        | none => return .entry none
        | some e =>
            modify fun t => { t with res := e }
            return .entry (some e) : Prog DirTable DirAnswer) s
  | .rewinddir => do
      rewinddirStub tableDirs .ndebug (some dirp)
      return .done
  | .telldir => do return .loc (← telldirStub tableDirs (some dirp))
  | .seekdir loc => do
      seekdirStub tableDirs .ndebug (some dirp) loc
      return .done

/-- The directories, with what they have answered so far and whether the program
has ended. -/
structure DirHistory where
  table : DirTable
  answers : List (DirPtr × DirAnswer)
  stopped : Option Stop

/-- A call on the stub directory of stream `p` and descriptor `fd`. -/
structure DirUse where
  p : DirPtr
  fd : Fd
  call : DirCall
deriving DecidableEq, Repr

def useStep (h : DirHistory) (u : DirUse) : DirHistory :=
  match h.stopped with
  | some _ => h
  | none =>
      match u.call.run ⟨some u.p, u.fd⟩ h.table with
      | .ok a table => ⟨table, h.answers ++ [(u.p, a)], none⟩
      | .error why table => ⟨table, h.answers, some why⟩

/-- The stub directory is open. -/
def IsOpen (h : DirHistory) (u : DirUse) : Prop := 0 ≤ u.fd ∧ (h.table.cursors u.p).isSome

instance decIsOpen (h : DirHistory) (u : DirUse) : Decidable (IsOpen h u) := instDecidableAnd

/-! ## A directory of its own -/

/-- What one directory answers; an entry comes with its type. -/
inductive OwnAnswer where
  | entry (d : Option (Dirent × UInt8))
  | done
  | loc (n : Int)

def Cursor.step (c : Cursor) : DirCall → OwnAnswer × Cursor
  | .readdir buf => (.entry (c.read.1.map fun d => (d, typeOf buf.mode)), c.read.2)
  | .rewinddir => (.done, c.rewind)
  | .telldir => (.loc c.pos, c)
  | .seekdir loc => (.done, c.seek loc)

def Cursor.run (c : Cursor) : List DirCall → List OwnAnswer × Cursor
  | [] => ([], c)
  | call :: calls =>
      let r := (c.step call).2.run calls
      ((c.step call).1 :: r.1, r.2)

/-- What the clone shows of an entry: all but the end of its name. -/
structure Shows (d : Dirent) (type : UInt8) (e : DirentStub) : Prop where
  ino : e.ino = d.ino
  reclen : e.reclen = d.reclen
  type : e.type = type
  name : d.namlen ≠ 0 →
    HoldsString e.name.toList (d.text.take (min FILENAME_MAX d.namlen.toNat - 1))

inductive Matches : OwnAnswer → DirAnswer → Prop
  | entry {d : Dirent} {type : UInt8} {e : DirentStub} :
      Shows d type e → Matches (.entry (some (d, type))) (.entry (some e))
  | ended : Matches (.entry none) (.entry none)
  | done : Matches .done .done
  | loc (n : Int) : Matches (.loc n) (.loc n)

def callsOf (p : DirPtr) (us : List DirUse) : List DirCall :=
  us.filterMap fun u => if u.p = p then some u.call else none

def answersOf (p : DirPtr) (as : List (DirPtr × DirAnswer)) : List DirAnswer :=
  as.filterMap fun a => if a.1 = p then some a.2 else none

/-- The last entry that was answered, or what the variable held before. -/
def lastEntry (as : List (DirPtr × DirAnswer)) (res : DirentStub) : DirentStub :=
  as.foldl (fun res a => match a.2 with
    | .entry (some e) => e
    | _ => res) res

/-- From `h` to `t`, each directory has answered as one of its own would have. -/
structure Apart (h t : DirHistory) (us : List DirUse) (new : List (DirPtr × DirAnswer)) :
    Prop where
  running : t.stopped = none
  answers : t.answers = h.answers ++ new
  own : ∀ p c, h.table.cursors p = some c →
    t.table.cursors p = some (c.run (callsOf p us)).2 ∧
      List.Forall₂ Matches (c.run (callsOf p us)).1 (answersOf p new)
  static : t.table.res = lastEntry new h.table.res

/-! ## One call -/

section
variable {s : DirTable} {p : DirPtr} {fd : Fd} {c : Cursor} {h t : DirHistory}

theorem onCursor_run {α : Type} (hc : s.cursors p = some c) (f : Cursor → α × Cursor) :
    onCursor p f s = .ok (f c).1 (s.put p (f c).2) := by
  simp only [onCursor, hc]

theorem readdir_call (hfd : 0 ≤ fd) (hc : s.cursors p = some c) (buf : Stat) :
    ∃ a res, (DirCall.readdir buf).run ⟨some p, fd⟩ s = .ok a { s.put p c.read.2 with res } ∧
      Matches (c.step (.readdir buf)).1 a ∧ res = lastEntry [(p, a)] s.res := by
  have hread : tableDirs.readdir p s = .ok c.read.1 (s.put p c.read.2) := onCursor_run hc _
  cases hd : c.read.1 with
  | none =>
      rw [hd] at hread
      refine ⟨.entry none, s.res, ?_, ?_, rfl⟩
      · simp only [DirCall.run, bind_apply, readdirStub_none hfd hread, pure_apply]
        rfl
      · simp only [Cursor.step, hd]
        exact .ended
  | some d =>
      rw [hd] at hread
      obtain ⟨name, hclone, hname⟩ := cloneEntry_eq s.res d (typeOf buf.mode)
      let e : DirentStub :=
        { ino := d.ino, type := typeOf buf.mode, reclen := d.reclen
          namlen := UInt16.ofNat d.text.length, name }
      have hshows : Shows d (typeOf buf.mode) e := ⟨rfl, rfl, rfl, hname⟩
      refine ⟨.entry (some e), e, ?_, ?_, rfl⟩
      · simp only [DirCall.run, bind_apply, readdirStub_some hfd hread, assertStat, pure_apply,
          hclone, assertLseek]
        rfl
      · simp only [Cursor.step, hd]
        exact .entry hshows

/-- A call answers as the directory's own, and moves no other. -/
theorem DirCall.run_own (hfd : 0 ≤ fd) (hc : s.cursors p = some c) (call : DirCall) :
    ∃ a res, call.run ⟨some p, fd⟩ s = .ok a { s.put p (c.step call).2 with res } ∧
      Matches (c.step call).1 a ∧ res = lastEntry [(p, a)] s.res := by
  cases call with
  | readdir buf => exact readdir_call hfd hc buf
  | rewinddir =>
      have hrun : tableDirs.rewinddir p s = .ok ⟨⟩ (s.put p c.rewind) := onCursor_run hc _
      refine ⟨.done, s.res, ?_, .done, rfl⟩
      simp only [DirCall.run, rewinddirStub, moveBoth_open hfd, bind_apply, hrun]
      rfl
  | telldir =>
      have hrun : tableDirs.telldir p s = .ok (c.pos : Int) (s.put p c) := onCursor_run hc _
      refine ⟨.loc c.pos, s.res, ?_, .loc _, rfl⟩
      simp only [DirCall.run, telldirStub, bind_apply, hrun]
      rfl
  | seekdir loc =>
      have hrun : tableDirs.seekdir p loc s = .ok ⟨⟩ (s.put p (c.seek loc)) := onCursor_run hc _
      refine ⟨.done, s.res, ?_, .done, rfl⟩
      simp only [DirCall.run, seekdirStub, moveBoth_open hfd, bind_apply, hrun]
      rfl

end

/-! ## Runs -/

section
variable {h t : DirHistory}

theorem useStep_own (hs : h.stopped = none) {u : DirUse} {c : Cursor} (hok : IsOpen h u)
    (hc : h.table.cursors u.p = some c) :
    ∃ a res, useStep h u =
        ⟨{ h.table.put u.p (c.step u.call).2 with res }, h.answers ++ [(u.p, a)], none⟩ ∧
      Matches (c.step u.call).1 a ∧ res = lastEntry [(u.p, a)] h.table.res := by
  obtain ⟨a, res, hrun, hmatches, hres⟩ := DirCall.run_own hok.1 hc u.call
  refine ⟨a, res, ?_, hmatches, hres⟩
  simp only [useStep, hs, hrun]

theorem Apart.refl (hs : h.stopped = none) : Apart h h [] [] where
  running := hs
  answers := (List.append_nil _).symm
  own := fun _ _ hc => ⟨hc, .nil⟩
  static := rfl

theorem Apart.cons {u : DirUse} {us : List DirUse} {new : List (DirPtr × DirAnswer)}
    {a : DirAnswer} {c : Cursor} {res : DirentStub} (hc : h.table.cursors u.p = some c)
    (hmatches : Matches (c.step u.call).1 a) (hres : res = lastEntry [(u.p, a)] h.table.res)
    (hrest : Apart ⟨{ h.table.put u.p (c.step u.call).2 with res }, h.answers ++ [(u.p, a)], none⟩
      t us new) : Apart h t (u :: us) ((u.p, a) :: new) where
  running := hrest.running
  answers := by
    rw [hrest.answers, List.append_assoc]
    rfl
  own := by
    intro p c' hc'
    by_cases hp : u.p = p
    · subst hp
      obtain rfl : c = c' := Option.some.inj (hc.symm.trans hc')
      obtain ⟨hcursor, hanswers⟩ := hrest.own u.p (c.step u.call).2 (Function.update_self _ _ _)
      have hcalls : callsOf u.p (u :: us) = u.call :: callsOf u.p us := by
        simp only [callsOf, List.filterMap_cons, if_pos]
      have hnew : answersOf u.p ((u.p, a) :: new) = a :: answersOf u.p new := by
        simp only [answersOf, List.filterMap_cons, if_pos]
      rw [hcalls, hnew]
      exact ⟨hcursor, .cons hmatches hanswers⟩
    · have hother : (h.table.put u.p (c.step u.call).2).cursors p = some c' :=
        (Function.update_of_ne (Ne.symm hp) _ _).trans hc'
      have hcalls : callsOf p (u :: us) = callsOf p us := by
        simp only [callsOf, List.filterMap_cons, if_neg hp]
      have hnew : answersOf p ((u.p, a) :: new) = answersOf p new := by
        simp only [answersOf, List.filterMap_cons, if_neg hp]
      rw [hcalls, hnew]
      exact hrest.own p c' hother
  static := by
    rw [hrest.static, hres]
    rfl

/-- The invariant of the runs on open stub directories. -/
theorem run_apart {us : List DirUse} (hrun : Run IsOpen useStep h us t)
    (hs : h.stopped = none) : ∃ new, Apart h t us new := by
  induction hrun with
  | nil h => exact ⟨[], .refl hs⟩
  | @cons h t u us hok _ ih =>
      obtain ⟨c, hc⟩ := Option.isSome_iff_exists.mp hok.2
      obtain ⟨a, res, hstep, hmatches, hres⟩ := useStep_own hs hok hc
      rw [hstep] at ih
      obtain ⟨new, hnew⟩ := ih rfl
      exact ⟨_, .cons hc hmatches hres hnew⟩

/-- Two answers to the same question. -/
def Alike (a a' : DirAnswer) : Prop := ∃ o, Matches o a ∧ Matches o a'

theorem Matches.alike {os : List OwnAnswer} {as as' : List DirAnswer}
    (h : List.Forall₂ Matches os as) (h' : List.Forall₂ Matches os as') :
    List.Forall₂ Alike as as' := by
  induction h generalizing as' with
  | nil =>
      cases h'
      exact .nil
  | cons hx _ ih =>
      cases h' with
      | cons hx' hrest => exact .cons ⟨_, hx, hx'⟩ (ih hrest)

/-- **Apart.**  Along every run on open stub directories no call stops the
program, each directory answers as one of its own would, and what was returned
points to the last entry that any of them answered.  So where two runs make the
same calls on a directory, whatever they do to others in between, it is left at
the same position and has answered alike. -/
theorem streams_apart {t' : DirHistory} {us us' : List DirUse} (hrun : Run IsOpen useStep h us t)
    (hrun' : Run IsOpen useStep h us' t') (hs : h.stopped = none) :
    ∃ new new', Apart h t us new ∧ Apart h t' us' new' ∧
      ∀ p, (h.table.cursors p).isSome → callsOf p us = callsOf p us' →
        t.table.cursors p = t'.table.cursors p ∧
          List.Forall₂ Alike (answersOf p new) (answersOf p new') := by
  obtain ⟨new, hnew⟩ := run_apart hrun hs
  obtain ⟨new', hnew'⟩ := run_apart hrun' hs
  refine ⟨new, new', hnew, hnew', fun p hp hcalls => ?_⟩
  obtain ⟨c, hc⟩ := Option.isSome_iff_exists.mp hp
  obtain ⟨hcursor, hown⟩ := hnew.own p c hc
  obtain ⟨hcursor', hown'⟩ := hnew'.own p c hc
  rw [← hcalls] at hcursor' hown'
  exact ⟨hcursor.trans hcursor'.symm, Matches.alike hown hown'⟩

end

/-! ## A directory that is read to its end -/

/-- Reads give the entries from the position on, and then the end. -/
theorem Cursor.run_reads (bufs : List Stat) : ∀ c : Cursor,
    (c.run (bufs.map .readdir)).1 =
      ((c.entries.drop c.pos).zip bufs).map (fun x => .entry (some (x.1, typeOf x.2.mode))) ++
        List.replicate (bufs.length - (c.entries.length - c.pos)) (.entry none) := by
  induction bufs with
  | nil =>
      intro c
      simp [Cursor.run]
  | cons buf bufs ih =>
      intro c
      rw [List.map_cons, Cursor.run, ih]
      rcases Nat.lt_or_ge c.pos c.entries.length with hlt | hge
      · have hread : c.read = (some c.entries[c.pos], { c with pos := c.pos + 1 }) := by
          simp only [Cursor.read, List.getElem?_eq_getElem hlt]
        have hleft : bufs.length - (c.entries.length - (c.pos + 1)) =
            (buf :: bufs).length - (c.entries.length - c.pos) := by
          rw [List.length_cons]
          omega
        simp only [Cursor.step, hread, hleft, List.drop_eq_getElem_cons hlt, List.zip_cons_cons,
          List.map_cons, Option.map_some, List.cons_append]
      · have hread : c.read = (none, c) := by
          simp only [Cursor.read, List.getElem?_eq_none hge]
        have hleft : c.entries.length - c.pos = 0 := by omega
        simp only [Cursor.step, hread, hleft, List.drop_eq_nil_of_le hge, List.zip_nil_left,
          List.map_nil, List.nil_append, Option.map_none, Nat.sub_zero, List.length_cons,
          List.replicate_succ]

theorem Matches.all_ended : ∀ {n : Nat} {as : List DirAnswer},
    List.Forall₂ Matches (List.replicate n (.entry none)) as →
      as = List.replicate n (.entry none) := by
  intro n
  induction n with
  | zero =>
      intro as h
      exact List.forall₂_nil_left_iff.mp h
  | succ n ih =>
      intro as h
      cases h with
      | cons hx hrest =>
          cases hx with
          | ended => rw [ih hrest, List.replicate_succ]

theorem Matches.listing {n : Nat} : ∀ {l : List (Dirent × UInt8)} {as : List DirAnswer},
    List.Forall₂ Matches (l.map (fun x => .entry (some x)) ++ List.replicate n (.entry none)) as →
      ∃ shown, as = shown.map (fun e => .entry (some e)) ++ List.replicate n (.entry none) ∧
        List.Forall₂ (fun x e => Shows x.1 x.2 e) l shown := by
  intro l
  induction l with
  | nil =>
      intro as h
      exact ⟨[], Matches.all_ended h, .nil⟩
  | cons x l ih =>
      intro as h
      cases h with
      | cons hx hrest =>
          obtain ⟨shown, rfl, hshown⟩ := ih hrest
          cases hx with
          | entry hshows => exact ⟨_ :: shown, rfl, .cons hshows hshown⟩

/-- **A listing.**  In a run from a freshly opened directory `p`, on which only
reads are made, `p` answers each of its entries once, in order and as far as the
reads go, and then the end, whatever is done to other directories in between. -/
theorem readdir_lists {h t : DirHistory} {us : List DirUse} (hrun : Run IsOpen useStep h us t)
    (hs : h.stopped = none) {p : DirPtr} {entries : List Dirent}
    (hp : h.table.cursors p = some ⟨entries, 0⟩) {bufs : List Stat}
    (hcalls : callsOf p us = bufs.map .readdir) :
    ∃ new shown, t.answers = h.answers ++ new ∧
      answersOf p new = shown.map (fun e => .entry (some e)) ++
        List.replicate (bufs.length - entries.length) (.entry none) ∧
      List.Forall₂ (fun x e => Shows x.1 (typeOf x.2.mode) e) (entries.zip bufs) shown := by
  obtain ⟨new, hnew⟩ := run_apart hrun hs
  have hown := (hnew.own p _ hp).2
  rw [hcalls, Cursor.run_reads] at hown
  have hmap : ((entries.drop 0).zip bufs).map
        (fun x => OwnAnswer.entry (some (x.1, typeOf x.2.mode))) =
      ((entries.zip bufs).map fun x => (x.1, typeOf x.2.mode)).map fun x => .entry (some x) := by
    rw [List.drop_zero, List.map_map]
    rfl
  rw [hmap] at hown
  obtain ⟨shown, hanswers, hshown⟩ := Matches.listing hown
  exact ⟨new, shown, hnew.answers, hanswers, List.forall₂_map_left_iff.mp hshown⟩

/-! ## A position that was told -/

theorem Cursor.run_append (as bs : List DirCall) : ∀ c : Cursor,
    c.run (as ++ bs) =
      ((c.run as).1 ++ ((c.run as).2.run bs).1, ((c.run as).2.run bs).2) := by
  induction as with
  | nil =>
      intro c
      rfl
  | cons a as ih =>
      intro c
      simp only [List.cons_append, Cursor.run, ih]

theorem Cursor.length_run (as : List DirCall) : ∀ c : Cursor, (c.run as).1.length = as.length := by
  induction as with
  | nil =>
      intro c
      rfl
  | cons a as ih =>
      intro c
      rw [Cursor.run, List.length_cons, ih, List.length_cons]

/-- The position is one in the directory. -/
def Cursor.Inside (c : Cursor) : Prop := c.pos ≤ c.entries.length

theorem Cursor.step_inside {c : Cursor} (hc : c.Inside) (call : DirCall) :
    (c.step call).2.entries = c.entries ∧ (c.step call).2.Inside := by
  cases call with
  | readdir buf =>
      simp only [Cursor.step, Cursor.read]
      split
      · next hget => exact ⟨rfl, (List.getElem?_eq_some_iff.mp hget).1⟩
      · exact ⟨rfl, hc⟩
  | rewinddir => exact ⟨rfl, Nat.zero_le _⟩
  | telldir => exact ⟨rfl, hc⟩
  | seekdir loc => exact ⟨rfl, Nat.min_le_right _ _⟩

theorem Cursor.run_inside (as : List DirCall) : ∀ {c : Cursor}, c.Inside →
    (c.run as).2.entries = c.entries ∧ (c.run as).2.Inside := by
  induction as with
  | nil =>
      intro c hc
      exact ⟨rfl, hc⟩
  | cons a as ih =>
      intro c hc
      obtain ⟨hentries, hinside⟩ := Cursor.step_inside hc a
      obtain ⟨hentries', hinside'⟩ := ih hinside
      exact ⟨hentries'.trans hentries, hinside'⟩

/-- **A told position is found again.**  In a run in which `p` is told after the
calls `before`, and sought where it was told after others, it answers from then
on as it would have where it was told. -/
theorem seekdir_found {h t : DirHistory} {us : List DirUse} (hrun : Run IsOpen useStep h us t)
    (hs : h.stopped = none) {p : DirPtr} {c : Cursor} (hp : h.table.cursors p = some c)
    (hinside : c.Inside) {before between after : List DirCall} {loc : Int}
    (hcalls : callsOf p us = before ++ .telldir :: (between ++ .seekdir loc :: after)) :
    ∃ new, t.answers = h.answers ++ new ∧
      ((answersOf p new)[before.length]? = some (.loc loc) →
        List.Forall₂ Matches ((c.run before).2.run after).1
          ((answersOf p new).drop (before.length + 1 + between.length + 1))) := by
  obtain ⟨new, hnew⟩ := run_apart hrun hs
  have hown := (hnew.own p _ hp).2
  refine ⟨new, hnew.answers, fun htold => ?_⟩
  rw [hcalls, Cursor.run_append] at hown
  -- the answer that was told
  have hlen : (c.run before).1.length = before.length := Cursor.length_run before c
  have hloc : Matches (.loc (c.run before).2.pos) (.loc loc) := by
    obtain ⟨hlt, hget⟩ := List.getElem?_eq_some_iff.mp htold
    have hmatch := hown.get (i := before.length) (by simp [Cursor.run, hlen]) hlt
    simpa [List.getElem_append_right, hlen, hget, Cursor.run, Cursor.step] using hmatch
  have hback : (((c.run before).2.run between).2).seek loc = (c.run before).2 := by
    obtain ⟨hentries, hpos⟩ := Cursor.run_inside before hinside
    obtain ⟨hentries', -⟩ := Cursor.run_inside between hpos
    cases hloc
    rw [Cursor.seek, hentries', Int.toNat_natCast, Nat.min_eq_left hpos]
  have hlater : ((c.run before).2.run (.telldir :: (between ++ .seekdir loc :: after))).1 =
      .loc (c.run before).2.pos :: (((c.run before).2.run between).1 ++
        .done :: ((c.run before).2.run after).1) := by
    simp only [Cursor.run, Cursor.run_append, Cursor.step, hback]
  have hsplit : ∀ (X Y Z : List OwnAnswer) (l d : OwnAnswer),
      X ++ l :: (Y ++ d :: Z) = (X ++ [l] ++ Y ++ [d]) ++ Z := by simp
  have hdrop := List.forall₂_drop (before.length + 1 + between.length + 1) hown
  rw [hlater, hsplit, List.drop_left'] at hdrop
  · exact hdrop
  · simp only [List.length_append, List.length_singleton, Cursor.length_run]

/-- Two directories with an entry each, opened as streams 1 and 2. -/
def twoDirs : DirHistory where
  table :=
    { cursors := fun p =>
        if p = 1 then some ⟨oneEntry, 0⟩
        else if p = 2 then some ⟨[.named [0x62] (by decide) (by decide)], 0⟩
        else none
      res := zeroStub
      errno := .EBADF }
  answers := []
  stopped := none

/-- They are read in turns; the first is told at its start, and sought there. -/
def inTurns : List DirUse :=
  [⟨1, 3, .telldir⟩, ⟨1, 3, .readdir {}⟩, ⟨2, 4, .readdir {}⟩, ⟨1, 3, .seekdir 0⟩,
   ⟨2, 4, .readdir {}⟩, ⟨1, 3, .readdir {}⟩]

/-- The same calls, on one after the other. -/
def oneByOne : List DirUse :=
  [⟨2, 4, .readdir {}⟩, ⟨2, 4, .readdir {}⟩, ⟨1, 3, .telldir⟩, ⟨1, 3, .readdir {}⟩,
   ⟨1, 3, .seekdir 0⟩, ⟨1, 3, .readdir {}⟩]

theorem streams_apart_inTurns :
    ∃ new new', Apart twoDirs (inTurns.foldl useStep twoDirs) inTurns new ∧
      Apart twoDirs (oneByOne.foldl useStep twoDirs) oneByOne new' ∧
      ∀ p, (twoDirs.table.cursors p).isSome → callsOf p inTurns = callsOf p oneByOne →
        (inTurns.foldl useStep twoDirs).table.cursors p =
            (oneByOne.foldl useStep twoDirs).table.cursors p ∧
          List.Forall₂ Alike (answersOf p new) (answersOf p new') :=
  streams_apart (Run.of_allOk (by decide +kernel)) (Run.of_allOk (by decide +kernel)) rfl

theorem readdir_lists_inTurns :
    ∃ (new : List (DirPtr × DirAnswer)) (shown : List DirentStub),
      (inTurns.foldl useStep twoDirs).answers = twoDirs.answers ++ new ∧
      answersOf 2 new = shown.map (fun e => .entry (some e)) ++ [.entry none] ∧
      shown.length = 1 := by
  have hcalls : callsOf 2 inTurns = [({} : Stat), {}].map .readdir := by decide +kernel
  obtain ⟨new, shown, hnew, hanswers, hshown⟩ := readdir_lists
    (Run.of_allOk (by decide +kernel) : Run IsOpen useStep twoDirs inTurns _) rfl rfl hcalls
  exact ⟨new, shown, hnew, hanswers, hshown.length_eq.symm⟩

theorem seekdir_found_inTurns :
    ∃ new, (inTurns.foldl useStep twoDirs).answers = twoDirs.answers ++ new ∧
      (answersOf 1 new)[0]? = some (.loc 0) ∧
      List.Forall₂ Matches ((⟨oneEntry, 0⟩ : Cursor).run [.readdir {}]).1
        ((answersOf 1 new).drop 3) := by
  have hrun : Run IsOpen useStep twoDirs inTurns (inTurns.foldl useStep twoDirs) :=
    Run.of_allOk (by decide +kernel)
  have hcalls : callsOf 1 inTurns =
      [] ++ .telldir :: ([.readdir {}] ++ .seekdir 0 :: [.readdir {}]) := by decide +kernel
  obtain ⟨new, hanswers, hfound⟩ :=
    seekdir_found hrun rfl (c := ⟨oneEntry, 0⟩) rfl (Nat.zero_le _) hcalls
  have htold : (answersOf 1 new)[0]? = some (.loc 0) := by
    obtain rfl : (inTurns.foldl useStep twoDirs).answers = new := hanswers
    rfl
  exact ⟨new, hanswers, htold, hfound htold⟩

end LibcCompat.Winsup
