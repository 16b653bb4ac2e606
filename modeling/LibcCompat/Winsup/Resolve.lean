/-
# `LibcCompat.Winsup.Resolve` — which paths the `*at` functions act on

`resolve` says what a name stands for: itself if it is absolute, and otherwise
the path of the directory, a slash and the name, whole, if that fits.
`AtCall.asked` says which call of a path function is asked for.  What is proved,
over any system (`at_handsOver`): a function makes exactly the call asked for,
on the resolved names, and makes none and returns -1 when a name does not
resolve, except

* `openat`, which opens a relative name as it stands;
* `linkat` and `renameat`, when the copy of an absolute name fails.
-/
import LibcCompat.Winsup.At

namespace LibcCompat.Winsup

open LibcCompat.Lib

variable {σ : Type}

/-! ## What is asked for -/

/-- The path of the directory, a slash and the name. -/
def joinAt (S : Sys σ) (mallocOk : Bool) (dirfd : Fd) (name : Path) : Prog σ (Option Path) := do
  if ← isDirfd S dirfd then
    match ← S.fdGetPath dirfd with
    | none =>
        modify S.setErrnoViaWinerr
        return none
    | some parent =>
        if parent.length + 1 + name.length ≤ PATH_MAX then
          if mallocOk then return some (parent ++ 0x2f :: name)
          else
            modify (S.setErrno .ENOMEM)
            return none
        else
          modify (S.setErrno .ENAMETOOLONG)
          return none
  else
    return none

/-- What a name stands for. -/
def resolve (S : Sys σ) (m : Heap) (dirfd : Fd) (name : Path) : Prog σ (Option Path) :=
  if S.pathIsRelative name then joinAt S m.malloc dirfd name else return some name

/-- The call asked for, up to the resolution of its names. -/
inductive Asked where
  | rejected
  | one (dirfd : Fd) (name : Path) (callee : Path → PathCall)
  | two (dirfd1 : Fd) (name1 : Path) (dirfd2 : Fd) (name2 : Path)
      (callee : Path → Path → PathCall)

def AtCall.asked : AtCall → Asked
  | .readlinkat dirfd path len => .one dirfd path (.readlink · len)
  | .symlinkat oldpath newdirfd newpath => .one newdirfd newpath (.symlink oldpath ·)
  | .linkat dirfd1 path1 dirfd2 path2 _ =>
      .two dirfd1 path1 dirfd2 path2 fun p q => .link (some p) q
  | .unlinkat dirfd pathname flags =>
      if flags = AT_REMOVEDIR then .one dirfd pathname .rmdir
      else if flags = 0 then .one dirfd pathname .unlink
      else .rejected
  | .openat dirfd pathname flags mode =>
      .one dirfd pathname
        (.open · flags (if flags &&& O_CREAT != 0 then some mode.toUInt16 else none))
  | .faccessat dirfd path mode flags =>
      if flags = AT_SYMLINK_NOFOLLOW then .one dirfd path .lstat
      else if flags = 0 then .one dirfd path (.access · mode)
      else .rejected
  | .fstatat dirfd pathname flags =>
      if flags = AT_SYMLINK_NOFOLLOW then .one dirfd pathname .lstat
      else if flags = 0 then .one dirfd pathname .stat
      else .rejected
  | .mkdirat dirfd pathname mode => .one dirfd pathname (.mkdirStub · mode)
  | .renameat olddirfd oldpath newdirfd newpath =>
      .two olddirfd oldpath newdirfd newpath fun p q => .rename (some p) q

/-- The call asked for; none if the flags are not known or a name does not
resolve. -/
def Asked.call (S : Sys σ) (m₁ m₂ : Heap) : Asked → Prog σ (Option PathCall)
  | .rejected => do
      modify (S.setErrno .EINVAL)
      return none
  | .one dirfd name callee => do
      match ← resolve S m₁ dirfd name with
      | none => return none
      | some path => return some (callee path)
  | .two dirfd1 name1 dirfd2 name2 callee => do
      match ← resolve S m₁ dirfd1 name1 with
      | none => return none
      | some path1 =>
          match ← resolve S m₂ dirfd2 name2 with
          | none => return none
          | some path2 => return some (callee path1 path2)

/-- The program, started in `s`, makes exactly the wanted call.  It makes none
and returns -1 when there is no call to make, and none either when the process
stops while the names are being resolved. -/
def Hands (x : Prog (σ × List PathCall) Answer) (want : Prog σ (Option PathCall)) (s : σ) :
    Prop :=
  match want s with
  | .ok (some call) _ => requests x s = [call]
  | .ok none t => ∃ a, x (s, []) = .ok a (t, []) ∧ a.ret = -1
  | .error _ _ => requests x s = []

/-- The function acts on the resolved names. -/
def HandsOver (S : Sys σ) (b : Build) (m₁ m₂ : Heap) (c : AtCall) (s : σ) : Prop :=
  Hands (c.run S.recorded b m₁ m₂) (c.asked.call S m₁ m₂) s

/-! ## One name -/

/-- `__get_path_at` cuts nothing off. -/
theorem getPathAt_eq (S : Sys σ) (mallocOk : Bool) (dirfd : Fd) (name : Path) :
    getPathAt S mallocOk dirfd name = joinAt S mallocOk dirfd name := by
  unfold getPathAt joinAt
  refine congrArg (isDirfd S dirfd >>= ·) (funext fun ok => ?_)
  cases ok with
  | false => rfl
  | true =>
      refine congrArg (S.fdGetPath dirfd >>= ·) (funext fun r => ?_)
      cases r with
      | none => rfl
      | some parent =>
          rcases Nat.lt_or_ge PATH_MAX (parent.length + 1 + name.length) with hlong | hfits
          · simp only [if_pos hlong, if_neg (Nat.not_le.mpr hlong)]
          · simp only [if_neg (Nat.not_lt.mpr hfits), if_pos hfits, snprintfPath_eq hfits]

theorem resolve_absolute {S : Sys σ} {name : Path} (h : S.pathIsRelative name = false)
    (m : Heap) (dirfd : Fd) : resolve S m dirfd name = pure (some name) := by
  simp only [resolve, h, Bool.false_eq_true, if_false]

theorem resolve_relative {S : Sys σ} {name : Path} (h : S.pathIsRelative name = true)
    (m : Heap) (dirfd : Fd) : resolve S m dirfd name = getPathAt S m.malloc dirfd name := by
  simp only [resolve, h, if_true, getPathAt_eq]

theorem resolve_ne {S : Sys σ} {m : Heap} {dirfd : Fd} {name path : Path} {s t : σ}
    (h : S.pathIsRelative name = true) (hr : resolve S m dirfd name s = .ok (some path) t) :
    path ≠ name := by
  simp only [resolve, h, if_true, joinAt, bind_apply] at hr
  cases hd : isDirfd S dirfd s with
  | error e t => exact nomatch hd ▸ hr
  | ok isdir t =>
      cases isdir with
      | false => simp [hd] at hr
      | true =>
          simp only [hd, if_true, bind_apply] at hr
          cases hp : S.fdGetPath dirfd t with
          | error e t => exact nomatch hp ▸ hr
          | ok r t =>
              cases r with
              | none => simp [hp, bind_apply] at hr
              | some parent =>
                  simp only [hp] at hr
                  split at hr
                  · split at hr
                    · cases hr
                      intro he
                      have hlen := congrArg List.length he
                      rw [List.length_append, List.length_cons] at hlen
                      omega
                    · simp [bind_apply] at hr
                  · simp [bind_apply] at hr

theorem resolveThen_some {S : Sys σ} {m : Heap} {dirfd : Fd} {name path : Path}
    {callee : Path → PathCall} {s t : σ} (h : resolve S m dirfd name s = .ok (some path) t) :
    resolveThen S m dirfd name callee s = S.call (callee path) t := by
  unfold resolveThen
  cases hrel : S.pathIsRelative name with
  | true =>
      rw [resolve_relative hrel] at h
      rw [if_pos rfl, bind_apply, h]
  | false =>
      rw [resolve_absolute hrel] at h
      cases h
      rfl

theorem resolveThen_unresolved {S : Sys σ} {m : Heap} {dirfd : Fd} {name : Path}
    {callee : Path → PathCall} {s t : σ} (h : resolve S m dirfd name s = .ok none t) :
    resolveThen S m dirfd name callee s = .ok failed t := by
  unfold resolveThen
  cases hrel : S.pathIsRelative name with
  | true =>
      rw [resolve_relative hrel] at h
      rw [if_pos rfl, bind_apply, h]
      rfl
  | false =>
      rw [resolve_absolute hrel] at h
      cases h

/-! ## The rules -/

theorem hands_call (S : Sys σ) (call call' : PathCall) (s : σ) :
    Hands (record S.call call) (pure (some call')) s ↔ call = call' := by
  simp [Hands, requests]

theorem hands_throw {e : Stop} {want : Prog σ (Option PathCall)} {s : σ} :
    Hands (throw e) want s ↔ ∃ e' t, want s = .error e' t := by
  unfold Hands
  cases want s with
  | error e' t => exact ⟨fun _ => ⟨e', t, rfl⟩, fun _ => rfl⟩
  | ok r t =>
      cases r with
      | none =>
          constructor
          · rintro ⟨a, ha, -⟩
            cases ha
          · rintro ⟨e', t', he⟩
            cases he
      | some call =>
          constructor
          · intro h
            cases h
          · rintro ⟨e', t', he⟩
            cases he

/-- A program that resolves a name, gives up if it does not resolve, and goes on
with the path. -/
theorem hands_resolve {r : Prog σ (Option Path)}
    {k : Option Path → Prog (σ × List PathCall) Answer}
    {w : Path → Prog σ (Option PathCall)} (hk : k none = pure failed) {s : σ} :
    Hands (onState r >>= k) (r >>= fun
        | none => pure none
        | some path => w path) s ↔
      ∀ path t, r s = .ok (some path) t → Hands (k (some path)) (w path) t := by
  simp only [Hands, requests, bind_apply, onState_apply]
  cases r s with
  | error e t => simp [finalState]
  | ok o t =>
      cases o with
      | none => simp [hk, failed, Answer.of]
      | some path =>
          constructor
          · intro h path' t' heq
            cases heq
            exact h
          · intro h
            exact h path t rfl

theorem Hands.map {x : Prog (σ × List PathCall) Answer} {want : Prog σ (Option PathCall)}
    {f : Answer → Answer} {s : σ} (h : Hands x want s)
    (hf : ∀ a, a.ret = -1 → (f a).ret = -1) : Hands (x >>= fun a => pure (f a)) want s := by
  unfold Hands at h ⊢
  simp only [requests, bind_apply] at h ⊢
  cases hw : want s with
  | error e t =>
      simp only [hw] at h ⊢
      cases hx : x (s, []) with
      | ok a u => simpa [hx, finalState] using h
      | error e u => simpa [hx, finalState] using h
  | ok o t =>
      cases o with
      | none =>
          simp only [hw] at h ⊢
          obtain ⟨a, hx, ha⟩ := h
          exact ⟨f a, by rw [hx]; rfl, hf a ha⟩
      | some call =>
          simp only [hw] at h ⊢
          cases hx : x (s, []) with
          | ok a u => simpa [hx, finalState] using h
          | error e u => simpa [hx, finalState] using h

/-! ## The functions -/

theorem hands_resolveThen (S : Sys σ) (m₁ m₂ : Heap) (dirfd : Fd) (name : Path)
    (callee : Path → PathCall) (s : σ) :
    Hands (resolveThen S.recorded m₁ dirfd name callee)
      ((Asked.one dirfd name callee).call S m₁ m₂) s := by
  cases hrel : S.pathIsRelative name with
  | true =>
      have hrun : resolveThen S.recorded m₁ dirfd name callee =
          onState (resolve S m₁ dirfd name) >>= fun
            | none => pure failed
            | some path => record S.call (callee path) := by
        have hrel' : S.recorded.pathIsRelative name = true := hrel
        rw [resolve_relative hrel, ← getPathAt_recorded]
        exact if_pos hrel'
      rw [hrun]
      exact (hands_resolve rfl).mpr fun path t _ => (hands_call S _ _ t).mpr rfl
  | false =>
      have hrel' : S.recorded.pathIsRelative name = false := hrel
      simp only [resolveThen, hrel', Asked.call, resolve_absolute hrel, pure_bind,
        Bool.false_eq_true, if_false]
      exact (hands_call S _ _ s).mpr rfl

theorem hands_rejectFlags (S : Sys σ) (m₁ m₂ : Heap) (s : σ) :
    Hands (rejectFlags S.recorded) (Asked.rejected.call S m₁ m₂) s :=
  ⟨failed, rfl, rfl⟩

/-- The copy of an absolute second name succeeds. -/
def copied (b : Build) (m : Heap) : Bool :=
  match b, m.strdup with
  | _, some 0 => true
  | .debug, _ => false
  | .ndebug, r => r.isSome

theorem dupSecond_cases (b : Build) (m : Heap) (name : Path) :
    (copied b m = true ∧ (dupSecond b m name : Prog σ Path) = pure name) ∨
      (copied b m = false ∧ ∃ e, (dupSecond b m name : Prog σ Path) = throw e) := by
  obtain ⟨malloc, strdup⟩ := m
  cases strdup with
  | none =>
      cases b with
      | debug => exact Or.inr ⟨rfl, .aborted, rfl⟩
      | ndebug => exact Or.inr ⟨rfl, .hung, rfl⟩
  | some k =>
      cases k with
      | zero =>
          cases b with
          | debug => exact Or.inl ⟨rfl, rfl⟩
          | ndebug => exact Or.inl ⟨rfl, rfl⟩
      | succ k =>
          cases b with
          | debug => exact Or.inr ⟨rfl, .aborted, rfl⟩
          | ndebug => exact Or.inl ⟨rfl, rfl⟩

/-- The second half of a function with two names makes the call asked for, where
`callee'` is the call it has in mind. -/
theorem hands_second (S : Sys σ) (b : Build) (m : Heap) (dirfd : Fd) (name : Path)
    (callee callee' : Path → PathCall) (s : σ) :
    Hands (resolveSecondThen S.recorded b m dirfd name callee')
      (resolve S m dirfd name >>= fun
        | none => pure none
        | some path => pure (some (callee path))) s ↔
      (S.pathIsRelative name = false → copied b m = true) ∧
        ∀ path t, resolve S m dirfd name s = .ok (some path) t → callee' path = callee path := by
  cases hrel : S.pathIsRelative name with
  | true =>
      have hrun : resolveSecondThen S.recorded b m dirfd name callee' =
          onState (resolve S m dirfd name) >>= fun
            | none => pure failed
            | some path => record S.call (callee' path) := by
        have hrel' : S.recorded.pathIsRelative name = true := hrel
        rw [resolve_relative hrel, ← getPathAt_recorded]
        exact if_pos hrel'
      rw [hrun, hands_resolve rfl]
      simp [hands_call]
  | false =>
      have hrel' : S.recorded.pathIsRelative name = false := hrel
      simp only [resolveSecondThen, hrel', resolve_absolute hrel, pure_bind, forall_const,
        Bool.false_eq_true, if_false, pure_apply]
      rcases dupSecond_cases b m name with ⟨hc, hdup⟩ | ⟨hc, e, hdup⟩
      · rw [hdup, hc, pure_bind]
        refine (hands_call S _ _ s).trans ⟨fun h => ⟨rfl, ?_⟩, fun h => h.2 name s rfl⟩
        intro path t heq
        cases heq
        exact h
      · have hthrow : (dupSecond b m name >>= fun path => S.recorded.call (callee' path)) =
            throw e := by
          rw [hdup]
          rfl
        rw [hthrow, hands_throw, hc]
        constructor
        · rintro ⟨e', t, h⟩
          cases h
        · rintro ⟨h, -⟩
          cases h

/-- A second half whose call is never the one asked for is right only where the
name does not resolve. -/
theorem hands_otherCall (S : Sys σ) (m : Heap) (dirfd : Fd) (name : Path)
    {callee callee' : Path → PathCall} (hne : ∀ path, callee' path ≠ callee path) (s : σ) :
    Hands (resolveSecondThen S.recorded .ndebug m dirfd name callee')
      (resolve S m dirfd name >>= fun
        | none => pure none
        | some path => pure (some (callee path))) s ↔
      ∀ path t, resolve S m dirfd name s ≠ .ok (some path) t := by
  refine (hands_second S .ndebug m dirfd name callee callee' s).trans ?_
  constructor
  · intro h path t hr
    exact hne path (h.2 path t hr)
  · intro h
    refine ⟨?_, fun path t hr => absurd hr (h path t)⟩
    intro hrel
    exact absurd (by rw [resolve_absolute hrel]; rfl) (h name s)

/-- A call that stops at the first name is right only where the second stops too. -/
theorem hands_stopped (S : Sys σ) (m : Heap) (dirfd : Fd) (name : Path)
    (callee : Path → PathCall) {e : Stop} (s : σ) :
    Hands (throw e) (resolve S m dirfd name >>= fun
        | none => pure none
        | some path => pure (some (callee path))) s ↔
      ∃ e' t, resolve S m dirfd name s = .error e' t := by
  refine hands_throw.trans ?_
  rw [bind_apply]
  cases resolve S m dirfd name s with
  | error e' t => exact iff_of_true ⟨e', t, rfl⟩ ⟨e', t, rfl⟩
  | ok o t =>
      cases o with
      | none => exact iff_of_false (by rintro ⟨_, _, h⟩; cases h) (by rintro ⟨_, _, h⟩; cases h)
      | some path =>
          exact iff_of_false (by rintro ⟨_, _, h⟩; cases h) (by rintro ⟨_, _, h⟩; cases h)

theorem dupFirst_copied {m : Heap} (h : m.strdup = some 0) (b : Build) (name : Path) :
    (dupFirst b m name : Prog σ (Option Path)) = pure (some name) := by
  cases b with
  | debug => simp only [dupFirst, h]
  | ndebug => simp only [dupFirst, h]

theorem dupFirst_debug {m : Heap} (h : m.strdup ≠ some 0) (name : Path) :
    (dupFirst .debug m name : Prog σ (Option Path)) = throw .aborted := by
  unfold dupFirst
  split
  · next hm => exact absurd hm h
  · rfl
  · next hb _ => cases hb

theorem dupFirst_ndebug {m : Heap} (h : m.strdup ≠ some 0) (name : Path) :
    (dupFirst .ndebug m name : Prog σ (Option Path)) = pure none := by
  unfold dupFirst
  split
  · next hm => exact absurd hm h
  · next hb _ => cases hb
  · rfl

/-- The copies that `linkat` and `renameat` make succeed where it matters: the
second if the first name resolves, and the first unless the call ends before
its value is used. -/
def Copied (S : Sys σ) (b : Build) (m₁ m₂ : Heap) (dirfd1 : Fd) (name1 : Path) (dirfd2 : Fd)
    (name2 : Path) (s : σ) : Prop :=
  if S.pathIsRelative name1 = true ∨ m₁.strdup = some 0 then
    ∀ path t, resolve S m₁ dirfd1 name1 s = .ok (some path) t →
      S.pathIsRelative name2 = false → copied b m₂ = true
  else
    match b, resolve S m₂ dirfd2 name2 s with
    | _, .ok (some _) _ => False
    | .debug, .ok none _ => False
    | _, _ => True

/-- A function with two names acts on the resolved names if the copies succeed. -/
theorem hands_both (S : Sys σ) (b : Build) (m₁ m₂ : Heap) (dirfd1 : Fd) (name1 : Path)
    (dirfd2 : Fd) (name2 : Path) {callee : Option Path → Path → PathCall}
    (hnull : ∀ p q, callee none q ≠ callee (some p) q) (s : σ) :
    Hands (resolveBothThen S.recorded b m₁ m₂ dirfd1 name1 dirfd2 name2 callee)
      ((Asked.two dirfd1 name1 dirfd2 name2 fun p q => callee (some p) q).call S m₁ m₂) s ↔
      Copied S b m₁ m₂ dirfd1 name1 dirfd2 name2 s := by
  unfold Copied
  cases hrel : S.pathIsRelative name1 with
  | true =>
      have hrun : resolveBothThen S.recorded b m₁ m₂ dirfd1 name1 dirfd2 name2 callee =
          onState (resolve S m₁ dirfd1 name1) >>= fun
            | none => pure failed
            | some path =>
                resolveSecondThen S.recorded b m₂ dirfd2 name2 (callee (some path)) := by
        have hrel' : S.recorded.pathIsRelative name1 = true := hrel
        rw [resolve_relative hrel, ← getPathAt_recorded]
        exact if_pos hrel'
      rw [hrun, if_pos (Or.inl rfl)]
      refine (hands_resolve rfl).trans (forall_congr' fun path => forall_congr' fun t =>
        imp_congr_right fun _ => ?_)
      refine (hands_second S b m₂ dirfd2 name2 _ _ t).trans ⟨fun h => h.1, fun h => ⟨h, ?_⟩⟩
      intro _ _ _
      rfl
  | false =>
      have hrel' : S.recorded.pathIsRelative name1 = false := hrel
      simp only [resolveBothThen, hrel', Asked.call, resolve_absolute hrel, pure_bind,
        Bool.false_eq_true, if_false, false_or, pure_apply]
      by_cases hdup : m₁.strdup = some 0
      · rw [dupFirst_copied hdup, pure_bind, if_pos hdup]
        refine (hands_second S b m₂ dirfd2 name2 _ _ s).trans ⟨?_, ?_⟩
        · intro h _ _ _
          exact h.1
        · intro h
          exact ⟨h name1 s rfl, fun _ _ _ => rfl⟩
      · rw [if_neg hdup]
        cases b with
        | debug =>
            -- the assert stops the process before the second name is looked at
            rw [dupFirst_debug hdup]
            refine (hands_stopped S m₂ dirfd2 name2 _ s).trans ?_
            rcases resolve S m₂ dirfd2 name2 s with ⟨_ | path, t⟩ | ⟨e, t⟩
            · simp
            · simp
            · simp
        | ndebug =>
            -- the first path is null from here on
            rw [dupFirst_ndebug hdup, pure_bind]
            refine (hands_otherCall S m₂ dirfd2 name2 (hnull name1) s).trans ?_
            rcases resolve S m₂ dirfd2 name2 s with ⟨_ | path, t⟩ | ⟨e, t⟩
            · simp
            · simp
            · simp

/-! ## The nine functions -/

/-- When a call acts on the resolved names. -/
def Resolved (S : Sys σ) (b : Build) (m₁ m₂ : Heap) (s : σ) : AtCall → Prop
  | .openat dirfd pathname _ _ =>
      if S.pathIsRelative pathname = true then
        ∀ path t, resolve S m₁ dirfd pathname s ≠ .ok (some path) t
      else b = .ndebug ∨ m₁.strdup = some 0
  | .linkat dirfd1 path1 dirfd2 path2 _ => Copied S b m₁ m₂ dirfd1 path1 dirfd2 path2 s
  | .renameat olddirfd oldpath newdirfd newpath =>
      Copied S b m₁ m₂ olddirfd oldpath newdirfd newpath s
  | _ => True

theorem hands_openat (S : Sys σ) (b : Build) (m₁ m₂ : Heap) (dirfd : Fd) (pathname : Path)
    (flags mode : UInt32) (s : σ) :
    HandsOver S b m₁ m₂ (.openat dirfd pathname flags mode) s ↔
      Resolved S b m₁ m₂ s (.openat dirfd pathname flags mode) := by
  simp only [HandsOver, AtCall.run, AtCall.asked, Resolved]
  cases hrel : S.pathIsRelative pathname with
  | true =>
      have hrun : openat S.recorded b m₁ dirfd pathname flags mode =
          onState (resolve S m₁ dirfd pathname) >>= fun
            | none => pure failed
            | some _ => record S.call (.open pathname flags
                (if flags &&& O_CREAT != 0 then some mode.toUInt16 else none)) := by
        have hrel' : S.recorded.pathIsRelative pathname = true := hrel
        rw [resolve_relative hrel, ← getPathAt_recorded]
        exact if_pos hrel'
      rw [hrun, if_pos rfl]
      refine (hands_resolve rfl).trans (forall_congr' fun path => forall_congr' fun t =>
        imp_congr_right fun hr => ?_)
      rw [hands_call]
      exact iff_false_intro fun h => resolve_ne hrel hr (PathCall.open.inj h).1.symm
  | false =>
      have hrel' : S.recorded.pathIsRelative pathname = false := hrel
      simp only [openat, hrel', Asked.call, resolve_absolute hrel, pure_bind,
        Bool.false_eq_true, if_false]
      by_cases hdup : m₁.strdup = some 0
      · rw [dupFirst_copied hdup, pure_bind]
        exact iff_of_true ((hands_call S _ _ s).mpr rfl) (Or.inr hdup)
      · cases b with
        | debug =>
            rw [dupFirst_debug hdup]
            refine hands_throw.trans (iff_of_false ?_ (by simpa using hdup))
            rintro ⟨e, t, h⟩
            cases h
        | ndebug =>
            rw [dupFirst_ndebug hdup, pure_bind]
            exact iff_of_true ((hands_call S _ _ s).mpr rfl) (Or.inl rfl)

/-- **Path resolution of the `*at` family.**  A call makes exactly the call
asked for, on the resolved names, or none and returns -1, under the condition
`Resolved` and only then. -/
theorem at_handsOver (S : Sys σ) (b : Build) (m₁ m₂ : Heap) (c : AtCall) (s : σ) :
    HandsOver S b m₁ m₂ c s ↔ Resolved S b m₁ m₂ s c := by
  cases c with
  | readlinkat dirfd path len =>
      exact iff_of_true (hands_resolveThen S m₁ m₂ dirfd path _ s) trivial
  | symlinkat oldpath newdirfd newpath =>
      exact iff_of_true (hands_resolveThen S m₁ m₂ newdirfd newpath _ s) trivial
  | linkat dirfd1 path1 dirfd2 path2 flags =>
      exact hands_both S b m₁ m₂ dirfd1 path1 dirfd2 path2
        (fun _ _ h => nomatch (PathCall.link.inj h).1) s
  | unlinkat dirfd pathname flags =>
      refine iff_of_true ?_ trivial
      simp only [HandsOver, AtCall.run, unlinkat, AtCall.asked]
      split
      · exact hands_resolveThen S m₁ m₂ dirfd pathname _ s
      · split
        · exact hands_resolveThen S m₁ m₂ dirfd pathname _ s
        · exact hands_rejectFlags S m₁ m₂ s
  | openat dirfd pathname flags mode => exact hands_openat S b m₁ m₂ dirfd pathname flags mode s
  | faccessat dirfd path mode flags =>
      refine iff_of_true ?_ trivial
      simp only [HandsOver, AtCall.run, faccessat, AtCall.asked]
      split
      · refine (hands_resolveThen S m₁ m₂ dirfd path _ s).map fun a ha => ?_
        rw [accessOf, ha]
        rfl
      · split
        · exact hands_resolveThen S m₁ m₂ dirfd path _ s
        · exact hands_rejectFlags S m₁ m₂ s
  | fstatat dirfd pathname flags =>
      refine iff_of_true ?_ trivial
      simp only [HandsOver, AtCall.run, fstatat, AtCall.asked]
      split
      · exact hands_resolveThen S m₁ m₂ dirfd pathname _ s
      · split
        · exact hands_resolveThen S m₁ m₂ dirfd pathname _ s
        · exact hands_rejectFlags S m₁ m₂ s
  | mkdirat dirfd pathname mode =>
      exact iff_of_true (hands_resolveThen S m₁ m₂ dirfd pathname _ s) trivial
  | renameat olddirfd oldpath newdirfd newpath =>
      exact hands_both S b m₁ m₂ olddirfd oldpath newdirfd newpath
        (fun _ _ h => nomatch (PathCall.rename.inj h).1) s

/-- Every descriptor is open on the directory `C:\d`, and every call succeeds. -/
def oneDirectory : Sys (Option Errno) where
  pathIsRelative path := path.head? != some 0x5C && path[1]? != some 0x3A
  call _ := return .of 0
  fstat _ := return some { mode := S_IFDIR }
  fdGetPath _ := return some [0x43, 0x3A, 0x5C, 0x64]
  setErrno e _ := some e
  setErrnoViaWinerr s := s

/-- Opening `f` in `C:\d` opens `f`, not `C:\d/f`. -/
theorem openat_ignoresDirectory :
    requests (openat oneDirectory.recorded .debug ⟨true, some 0⟩ 3 [0x66] 0 0) none =
      [.open [0x66] 0 none] ∧
    ¬ HandsOver oneDirectory .debug ⟨true, some 0⟩ ⟨true, some 0⟩ (.openat 3 [0x66] 0 0) none := by
  constructor
  · decide
  · show ¬ requests (openat oneDirectory.recorded .debug ⟨true, some 0⟩ 3 [0x66] 0 0) none =
      [.open [0x43, 0x3A, 0x5C, 0x64, 0x2F, 0x66] 0 none]
    decide

end LibcCompat.Winsup
