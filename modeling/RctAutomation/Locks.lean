import Mathlib.Data.List.Pairwise
import Mathlib.Logic.Function.Basic
import Mathlib.Logic.Relation
import RctAutomation.Runs

/-!
# Programs that take locks

What a function does to the locks of a process is a program (`Prog`) of its
own: it takes and releases them, touches what they guard, waits for something
outside the process, and goes on in one way or another, as its data has it. A
lock is taken for a scope, which an exception ends too, or from one statement to
another.

`Checked` is what it means to keep to a `Discipline`: locks are taken in the
order of a rank, what is guarded is touched under its lock, an exception leaves
no lock taken but those of scopes, and while something outside is waited for,
only those locks are held that may be. Any number of threads that keep to it can
run in any order: no lock is lost (`Consistent`), two threads do not touch the
same at once (`Exclusive`), and one that wants a lock waits, in the end, for one
that can go on or that is kept waiting from outside (`DeadlockFree`).

Runs can be computed as well (`Process.follow`), from a list of who takes a step
and which way it goes.
-/

namespace Locks

variable {L D W T : Type}

/-! ## Programs -/

/-- **What a function does to locks `L`** and to what they guard, `D`. It may
also have to wait for something outside, `W`: another process, a signal.

Data is left out: where the function looks at it, the program is a choice. So
a program has all the runs that the function has, and may have more. -/
inductive Prog (L D W : Type)
  /-- Anything that has to do with none of these. -/
  | skip
  /-- A wait for something outside, which may never come. -/
  | wait (w : W)
  /-- Takes a lock, until it is released. -/
  | lock (l : L)
  /-- Releases a lock. -/
  | unlock (l : L)
  /-- Touches what a lock guards. -/
  | touch (d : D)
  /-- Throws an exception. -/
  | throw
  /-- One after the other. -/
  | seq (p q : Prog L D W)
  /-- One or the other. -/
  | choice (p q : Prog L D W)
  /-- Any number of times. -/
  | loop (p : Prog L D W)
  /-- Under a lock, which the end of `p` releases, and an exception too. -/
  | under (l : L) (p : Prog L D W)
  /-- With its exceptions caught. -/
  | attempt (p : Prog L D W)

namespace Prog

/-- One after the other, for any number of them. -/
def block : List (Prog L D W) → Prog L D W
  | [] => skip
  | p :: ps => seq p (block ps)

/-- One of several. -/
def oneOf : List (Prog L D W) → Prog L D W
  | [] => skip
  | [p] => p
  | p :: ps => choice p (oneOf ps)

/-- Something that may throw and does nothing else here. -/
def mayThrow : Prog L D W := choice skip throw

end Prog

/-- What is left to do when a program has ended: another program, or the end
of something that was begun around it. -/
inductive Frame (L D W : Type)
  /-- A program that comes next. -/
  | run (p : Prog L D W)
  /-- The end of a scope. -/
  | exit (l : L)
  /-- Where exceptions are caught. -/
  | handler

/-- A thread: whether an exception is on its way, and what is left to do. -/
structure Thread (L D W : Type) where
  /-- Whether an exception is on its way. -/
  raising : Bool
  /-- What is left to do, the next thing first. -/
  stack : List (Frame L D W)

/-- A thread that starts with a program. -/
def Thread.start (p : Prog L D W) : Thread L D W := ⟨false, [.run p]⟩

/-- What others see of a step: whether it takes or releases a lock, or
touches something. -/
inductive Event (L D : Type)
  | internal
  | lock (l : L)
  | unlock (l : L)
  | touch (d : D)

/-- **A step of a thread.** An exception drops what was left to run, releases
the locks of the scopes on its way, and ends where it is caught; a wait is
over with a step, whenever that is. -/
inductive Thread.Step : Thread L D W → Event L D → Thread L D W → Prop
  | skip (k) : Step ⟨false, .run .skip :: k⟩ .internal ⟨false, k⟩
  | wait (w k) : Step ⟨false, .run (.wait w) :: k⟩ .internal ⟨false, k⟩
  | lock (l k) : Step ⟨false, .run (.lock l) :: k⟩ (.lock l) ⟨false, k⟩
  | unlock (l k) : Step ⟨false, .run (.unlock l) :: k⟩ (.unlock l) ⟨false, k⟩
  | touch (d k) : Step ⟨false, .run (.touch d) :: k⟩ (.touch d) ⟨false, k⟩
  | throw (k) : Step ⟨false, .run .throw :: k⟩ .internal ⟨true, k⟩
  | seq (p q k) : Step ⟨false, .run (.seq p q) :: k⟩ .internal ⟨false, .run p :: .run q :: k⟩
  | left (p q k) : Step ⟨false, .run (.choice p q) :: k⟩ .internal ⟨false, .run p :: k⟩
  | right (p q k) : Step ⟨false, .run (.choice p q) :: k⟩ .internal ⟨false, .run q :: k⟩
  | again (p k) : Step ⟨false, .run (.loop p) :: k⟩ .internal ⟨false, .run p :: .run (.loop p) :: k⟩
  | done (p k) : Step ⟨false, .run (.loop p) :: k⟩ .internal ⟨false, k⟩
  | under (l p k) : Step ⟨false, .run (.under l p) :: k⟩ (.lock l) ⟨false, .run p :: .exit l :: k⟩
  | exit (b l k) : Step ⟨b, .exit l :: k⟩ (.unlock l) ⟨b, k⟩
  | attempt (p k) : Step ⟨false, .run (.attempt p) :: k⟩ .internal ⟨false, .run p :: .handler :: k⟩
  | handler (b k) : Step ⟨b, .handler :: k⟩ .internal ⟨false, k⟩
  | unwind (p k) : Step ⟨true, .run p :: k⟩ .internal ⟨true, k⟩

/-! ## Threads together -/

/-- The threads of a process, and who has taken a lock. What the locks guard
is not part of it; whether two threads touch it at once shows in what they
are about to do. -/
structure Process (T L D W : Type) where
  /-- What each thread is about to do. -/
  thread : T → Thread L D W
  /-- The thread that has taken a lock, if one has. -/
  holder : L → Option T

section Step

variable [DecidableEq T] [DecidableEq L]

/-- The holders after a step. Releasing a lock frees it, whoever has taken
it; a program that keeps the discipline only releases its own. -/
def Event.holder (i : T) (holder : L → Option T) : Event L D → L → Option T
  | .lock l => Function.update holder l (some i)
  | .unlock l => Function.update holder l none
  | _ => holder

/-- **A step of a process**: one of a thread, and it takes no lock that is
taken. A lock that is taken twice by one thread makes it wait for itself. -/
inductive Process.Step (s : Process T L D W) (i : T) : Process T L D W → Prop
  | mk {e : Event L D} {t : Thread L D W} (hstep : (s.thread i).Step e t)
      (hfree : ∀ l, e = .lock l → s.holder l = none) :
      Step s i ⟨Function.update s.thread i t, e.holder i s.holder⟩

end Step

/-! ## The discipline -/

/-- **A discipline for locks**: what a program has to keep to, for no lock to
be lost and none to be waited for in a circle. -/
structure Discipline (L D W : Type) where
  /-- The order of the locks: one is only taken above those that are held. -/
  rank : L → ℕ
  /-- The lock under which something is touched. -/
  guard : D → L
  /-- The locks that may be held while something outside is waited for. None may be if it
  need not come at all. -/
  mayHold : W → L → Prop

variable (disc : Discipline L D W)

section Checked

variable [DecidableEq L]

/-- **A program keeps the discipline** when it starts with the locks `held`,
of which those of `scopes` end with a scope, and it ends with the last ones.

Where it throws, all but those of scopes are lost, so `scopes` is what it may
have taken then; what comes after a `throw` is not reached, and any locks
will do. -/
inductive Checked : List L → List L → Prog L D W → List L → Prop
  | skip {scopes held : List L} : Checked scopes held .skip held
  | wait {scopes held : List L} {w : W} (h : ∀ l ∈ held, disc.mayHold w l) :
    Checked scopes held (.wait w) held
  | lock {scopes held : List L} {l : L} (h : ∀ l' ∈ held, disc.rank l' < disc.rank l) :
    Checked scopes held (.lock l) (l :: held)
  | unlock {scopes held : List L} {l : L} (h : l ∈ held) :
    Checked scopes held (.unlock l) (held.erase l)
  | touch {scopes held : List L} {d : D} (h : disc.guard d ∈ held) :
    Checked scopes held (.touch d) held
  | throw {scopes held : List L} : Checked scopes scopes .throw held
  | seq {scopes held held₁ held₂ : List L} {p q : Prog L D W} (hp : Checked scopes held p held₁)
    (hq : Checked scopes held₁ q held₂) : Checked scopes held (.seq p q) held₂
  | choice {scopes held held' : List L} {p q : Prog L D W} (hp : Checked scopes held p held')
    (hq : Checked scopes held q held') : Checked scopes held (.choice p q) held'
  | loop {scopes held : List L} {p : Prog L D W} (hp : Checked scopes held p held) :
    Checked scopes held (.loop p) held
  | under {scopes held : List L} {l : L} {p : Prog L D W}
    (h : ∀ l' ∈ held, disc.rank l' < disc.rank l)
    (hp : Checked (l :: scopes) (l :: held) p (l :: held)) :
    Checked scopes held (.under l p) held
  | attempt {scopes held : List L} {p : Prog L D W} (hp : Checked held held p held) :
    Checked scopes held (.attempt p) held

/-- **What is left to do keeps the discipline**, with the locks that are
held. It runs along the stack: a program hands its locks on to what comes
after it, and the end of a scope gives its lock back. -/
inductive Fits : List L → List L → List (Frame L D W) → Prop
  | nil : Fits [] [] []
  | run {scopes held held' : List L} {p : Prog L D W} {k : List (Frame L D W)}
    (hp : Checked disc scopes held p held') (hk : Fits scopes held' k) :
    Fits scopes held (.run p :: k)
  | exit {scopes held : List L} {l : L} {k : List (Frame L D W)} (hk : Fits scopes held k) :
    Fits (l :: scopes) (l :: held) (.exit l :: k)
  | handler {scopes held : List L} {k : List (Frame L D W)} (hk : Fits scopes held k) :
    Fits held held (.handler :: k)

/-- **A thread keeps the discipline** with the locks it holds. On the way of
an exception, these are those of scopes. -/
inductive Thread.Holds : Thread L D W → List L → Prop
  | running {scopes held : List L} {k : List (Frame L D W)} (h : Fits disc scopes held k) :
    Holds ⟨false, k⟩ held
  | raising {scopes held : List L} {k : List (Frame L D W)} (h : Fits disc scopes held k) :
    Holds ⟨true, k⟩ scopes

/-- What a step does to the locks that a thread holds, and what the
discipline asks of it. -/
inductive Event.Changes : Event L D → List L → List L → Prop
  | internal {held : List L} : Changes .internal held held
  | lock {held : List L} {l : L} (h : ∀ l' ∈ held, disc.rank l' < disc.rank l) :
    Changes (.lock l) held (l :: held)
  | unlock {held : List L} {l : L} (h : l ∈ held) : Changes (.unlock l) held (held.erase l)
  | touch {held : List L} {d : D} (h : disc.guard d ∈ held) : Changes (.touch d) held held

variable {disc}

/-- The lock that was taken last is released. -/
theorem Checked.unlock_head {scopes held : List L} {l : L} :
    Checked disc scopes (l :: held) (.unlock l : Prog L D W) held := by
  have hunlock : Checked disc scopes (l :: held) (.unlock l : Prog L D W) _ :=
    .unlock List.mem_cons_self
  rwa [List.erase_cons_head] at hunlock

/-- The lock that was taken before the last one is released, as scopes that
overlap do it. -/
theorem Checked.unlock_second {scopes held : List L} {l l' : L} (hne : l' ≠ l) :
    Checked disc scopes (l' :: l :: held) (.unlock l : Prog L D W) (l' :: held) := by
  have hunlock : Checked disc scopes (l' :: l :: held) (.unlock l : Prog L D W) _ :=
    .unlock (List.mem_cons_of_mem l' List.mem_cons_self)
  rwa [List.erase_cons_tail (by simpa using hne), List.erase_cons_head] at hunlock

/-- A program that is next keeps the discipline, and so does what comes after
it. -/
theorem Thread.Holds.of_run {p : Prog L D W} {k : List (Frame L D W)} {held : List L}
    (h : Thread.Holds disc ⟨false, .run p :: k⟩ held) :
    ∃ scopes held', Checked disc scopes held p held' ∧ Fits disc scopes held' k := by
  cases h with
  | running h =>
    cases h with
    | run hp hk => exact ⟨_, _, hp, hk⟩

/-- **A step of a thread keeps the discipline**, with the locks that its
event leaves it. There is a case for each kind of step. -/
theorem Thread.Holds.step {t t' : Thread L D W} {e : Event L D} {held : List L}
    (h : t.Holds disc held) (hstep : t.Step e t') :
    ∃ held', e.Changes disc held held' ∧ t'.Holds disc held' := by
  cases hstep with
  | skip k =>
    obtain ⟨scopes, held', ⟨⟩, hk⟩ := h.of_run
    exact ⟨held, .internal, .running hk⟩
  | wait w k =>
    obtain ⟨scopes, held', ⟨⟩, hk⟩ := h.of_run
    exact ⟨held, .internal, .running hk⟩
  | lock l k =>
    obtain ⟨scopes, held', hp, hk⟩ := h.of_run
    cases hp with
    | lock hrank => exact ⟨l :: held, .lock hrank, .running hk⟩
  | unlock l k =>
    obtain ⟨scopes, held', hp, hk⟩ := h.of_run
    cases hp with
    | unlock hmem => exact ⟨held.erase l, .unlock hmem, .running hk⟩
  | touch d k =>
    obtain ⟨scopes, held', hp, hk⟩ := h.of_run
    cases hp with
    | touch hmem => exact ⟨held, .touch hmem, .running hk⟩
  | throw k =>
    obtain ⟨scopes, held', ⟨⟩, hk⟩ := h.of_run
    exact ⟨held, .internal, .raising hk⟩
  | seq p q k =>
    obtain ⟨scopes, held', hp, hk⟩ := h.of_run
    cases hp with
    | seq hp hq => exact ⟨held, .internal, .running (.run hp (.run hq hk))⟩
  | left p q k =>
    obtain ⟨scopes, held', hp, hk⟩ := h.of_run
    cases hp with
    | choice hp hq => exact ⟨held, .internal, .running (.run hp hk)⟩
  | right p q k =>
    obtain ⟨scopes, held', hp, hk⟩ := h.of_run
    cases hp with
    | choice hp hq => exact ⟨held, .internal, .running (.run hq hk)⟩
  | again p k =>
    obtain ⟨scopes, held', hp, hk⟩ := h.of_run
    cases hp with
    | loop hp => exact ⟨held, .internal, .running (.run hp (.run (.loop hp) hk))⟩
  | done p k =>
    obtain ⟨scopes, held', hp, hk⟩ := h.of_run
    cases hp with
    | loop hp => exact ⟨held, .internal, .running hk⟩
  | under l p k =>
    obtain ⟨scopes, held', hp, hk⟩ := h.of_run
    cases hp with
    | under hrank hp => exact ⟨l :: held, .lock hrank, .running (.run hp (.exit hk))⟩
  | exit b l k =>
    -- an end of its program and an exception leave a scope alike
    cases h with
    | running h =>
      cases h with
      | exit hk =>
        refine ⟨_, .unlock List.mem_cons_self, ?_⟩
        rw [List.erase_cons_head]
        exact .running hk
    | raising h =>
      cases h with
      | exit hk =>
        refine ⟨_, .unlock List.mem_cons_self, ?_⟩
        rw [List.erase_cons_head]
        exact .raising hk
  | attempt p k =>
    obtain ⟨scopes, held', hp, hk⟩ := h.of_run
    cases hp with
    | attempt hp => exact ⟨held, .internal, .running (.run hp (.handler hk))⟩
  | handler b k =>
    cases h with
    | running h =>
      cases h with
      | handler hk => exact ⟨held, .internal, .running hk⟩
    | raising h =>
      cases h with
      | handler hk => exact ⟨held, .internal, .running hk⟩
  | unwind p k =>
    cases h with
    | raising h =>
      cases h with
      | run hp hk => exact ⟨held, .internal, .raising hk⟩

/-! ## Functions that leave the locks as they are -/

section Neutral

variable (disc)

/-- All locks are below a rank, so a lock of that rank can be taken. -/
def Below (r : ℕ) (held : List L) : Prop := ∀ l ∈ held, disc.rank l < r

omit disc in
/-- A lock was taken last, where the condition `C` held before. -/
def Inside (C : List L → Prop) (l : L) (held : List L) : Prop :=
  ∃ held', held = l :: held' ∧ C held'

/-- **A function leaves the locks as they are**, wherever a condition on them
holds, if it keeps the discipline there.

This is what is proved of each function, and it is enough for those that call
it: a function is looked at once, whatever locks its callers have taken. -/
def Neutral (C : List L → Prop) (p : Prog L D W) : Prop :=
  ∀ held, C held → Checked disc held held p held

end Neutral

variable {C C' : List L → Prop} {p q : Prog L D W} {l : L} {r : ℕ}

omit [DecidableEq L] in
theorem Inside.below {held : List L} (hC : ∀ held, C held → Below disc (disc.rank l) held)
    (hin : Inside C l held) (hr : disc.rank l < r) : Below disc r held := by
  obtain ⟨held', rfl, hheld⟩ := hin
  exact List.forall_mem_cons.mpr ⟨hr, fun l' hl' => Nat.lt_trans (hC held' hheld l' hl') hr⟩

namespace Neutral

theorem mono (h : Neutral disc C p) (hC : ∀ held, C' held → C held) :
    Neutral disc C' p := fun held hheld => h held (hC held hheld)

theorem skip : Neutral disc C (.skip : Prog L D W) := fun _ _ => .skip

theorem throw : Neutral disc C (.throw : Prog L D W) := fun _ _ => .throw

theorem seq (hp : Neutral disc C p) (hq : Neutral disc C q) :
    Neutral disc C (.seq p q) := fun held hheld => .seq (hp held hheld) (hq held hheld)

theorem choice (hp : Neutral disc C p) (hq : Neutral disc C q) :
    Neutral disc C (.choice p q) := fun held hheld => .choice (hp held hheld) (hq held hheld)

theorem loop (hp : Neutral disc C p) : Neutral disc C (.loop p) :=
  fun held hheld => .loop (hp held hheld)

theorem attempt (hp : Neutral disc C p) : Neutral disc C (.attempt p) :=
  fun held hheld => .attempt (hp held hheld)

theorem touch {d : D} (h : ∀ held, C held → disc.guard d ∈ held) : Neutral disc C (.touch d) :=
  fun held hheld => .touch (h held hheld)

theorem wait {w : W} (h : ∀ held, C held → ∀ l ∈ held, disc.mayHold w l) :
    Neutral disc C (.wait w) := fun held hheld => .wait (h held hheld)

theorem block {ps : List (Prog L D W)} (h : ∀ p ∈ ps, Neutral disc C p) :
    Neutral disc C (.block ps) := by
  induction ps with
  | nil => exact skip
  | cons p ps ih =>
    obtain ⟨hp, hps⟩ := List.forall_mem_cons.mp h
    exact hp.seq (ih hps)

theorem oneOf {ps : List (Prog L D W)} (h : ∀ p ∈ ps, Neutral disc C p) :
    Neutral disc C (.oneOf ps) := by
  induction ps with
  | nil => exact skip
  | cons p ps ih =>
    obtain ⟨hp, hps⟩ := List.forall_mem_cons.mp h
    cases ps with
    | nil => exact hp
    | cons q ps => exact hp.choice (ih hps)

theorem mayThrow : Neutral disc C (.mayThrow : Prog L D W) := skip.choice throw

/-- **The scope of a lock.** The lock can be taken where all others are below
its rank, and what is under it is looked at where it has been taken. -/
theorem under (hC : ∀ held, C held → Below disc (disc.rank l) held)
    (hp : Neutral disc (Inside C l) p) : Neutral disc C (.under l p) :=
  fun held hheld => .under (hC held hheld) (hp _ ⟨held, rfl, hheld⟩)

end Neutral

end Checked

/-! ## What every run keeps -/

section Consistent

variable [DecidableEq T] [DecidableEq L]

/-- **The holders are who they should be**: a lock is taken by the thread
that holds it, and the threads keep the discipline with the locks they hold. -/
structure Process.Consistent (s : Process T L D W) (held : T → List L) : Prop where
  /-- Each thread keeps the discipline with the locks it holds. -/
  thread : ∀ i, (s.thread i).Holds disc (held i)
  /-- The locks were taken in the order of their ranks, the last one first. -/
  ordered : ∀ i, (held i).Pairwise fun l l' => disc.rank l' < disc.rank l
  /-- The holder of a lock is the thread that holds it, and nobody else. -/
  holder : ∀ l i, s.holder l = some i ↔ l ∈ held i

variable {disc}

omit [DecidableEq T] in
theorem Process.Consistent.nodup {s : Process T L D W} {held : T → List L}
    (h : s.Consistent disc held) (i : T) : (held i).Nodup :=
  (h.ordered i).imp fun hlt heq => absurd (congrArg disc.rank heq) (Nat.ne_of_gt hlt)

omit [DecidableEq T] in
/-- The order of the locks is kept. -/
theorem Event.Changes.ordered {e : Event L D} {held held' : List L}
    (h : e.Changes disc held held')
    (hordered : held.Pairwise fun l l' => disc.rank l' < disc.rank l) :
    held'.Pairwise fun l l' => disc.rank l' < disc.rank l := by
  cases h with
  | internal => exact hordered
  | lock hrank => exact List.pairwise_cons.mpr ⟨hrank, hordered⟩
  | unlock hmem => exact hordered.sublist List.erase_sublist
  | touch hmem => exact hordered

/-- The holders are who they should be, after a step that takes no lock that
is taken. A lock that is taken was free, and one that is released was the
thread's own; the locks of the other threads are as before. -/
theorem Event.Changes.holder {e : Event L D} {holder : L → Option T} {held : T → List L}
    {i : T} {held' : List L} (h : e.Changes disc (held i) held')
    (hnodup : (held i).Nodup) (hholder : ∀ l j, holder l = some j ↔ l ∈ held j)
    (hfree : ∀ l, e = .lock l → holder l = none) (l : L) (j : T) :
    e.holder i holder l = some j ↔ l ∈ Function.update held i held' j := by
  cases h with
  | internal => rw [Function.update_eq_self]; exact hholder l j
  | touch hmem => rw [Function.update_eq_self]; exact hholder l j
  | @lock _ l₁ hrank =>
    have hnone : ∀ j, l₁ ∉ held j := fun j hmem =>
      absurd ((hholder l₁ j).mpr hmem) (by rw [hfree l₁ rfl]; exact nofun)
    show Function.update holder l₁ (some i) l = some j ↔ _
    by_cases hl : l = l₁
    · subst hl
      rw [Function.update_self]
      by_cases hj : j = i
      · subst hj
        simp
      · rw [Function.update_of_ne hj]
        exact iff_of_false (fun heq => hj (Option.some.inj heq).symm) (hnone j)
    · rw [Function.update_of_ne hl]
      by_cases hj : j = i
      · subst hj
        simp [hl, hholder]
      · rw [Function.update_of_ne hj]
        exact hholder l j
  | @unlock _ l₁ hmem =>
    show Function.update holder l₁ none l = some j ↔ _
    by_cases hl : l = l₁
    · subst hl
      rw [Function.update_self]
      refine iff_of_false nofun ?_
      by_cases hj : j = i
      · subst hj
        rw [Function.update_self]
        exact hnodup.not_mem_erase
      · rw [Function.update_of_ne hj]
        intro hmem'
        have hsame := ((hholder l i).mpr hmem).symm.trans ((hholder l j).mpr hmem')
        exact hj (Option.some.inj hsame).symm
    · rw [Function.update_of_ne hl]
      by_cases hj : j = i
      · subst hj
        rw [Function.update_self, List.mem_erase_of_ne hl]
        exact hholder l j
      · rw [Function.update_of_ne hj]
        exact hholder l j

/-- **A step keeps them.** Only the locks of the thread that takes it change,
and a lock that it takes was free. -/
theorem Process.Consistent.step {s s' : Process T L D W} {held : T → List L}
    (h : s.Consistent disc held) {i : T} (hstep : s.Step i s') :
    ∃ held', s'.Consistent disc held' := by
  obtain ⟨hthread, hfree⟩ := hstep
  obtain ⟨held', hchanges, hholds⟩ := (h.thread i).step hthread
  refine ⟨Function.update held i held', fun j => ?_, fun j => ?_,
    hchanges.holder (h.nodup i) h.holder hfree⟩
  · by_cases hj : j = i
    · subst hj
      simpa using hholds
    · simpa [hj] using h.thread j
  · by_cases hj : j = i
    · subst hj
      simpa using hchanges.ordered (h.ordered j)
    · simpa [hj] using h.ordered j

/-- A process in which nothing has run yet, and no lock is taken. -/
def Process.start (p : T → Prog L D W) : Process T L D W := ⟨fun i => .start (p i), fun _ => none⟩

/-- **And so does every run**, of programs that keep the discipline. Any
number of threads may take part in it, in any order. -/
theorem Process.consistent_of_run {p : T → Prog L D W} (hp : ∀ i, Checked disc [] [] (p i) [])
    {trace : List (Process T L D W × T)} {s : Process T L D W}
    (hrun : Transitions.Run Process.Step (Process.start p) trace s) :
    ∃ held, s.Consistent disc held := by
  induction hrun with
  | nil =>
    exact ⟨fun _ => [], fun i => .running (.run (hp i) .nil), fun _ => .nil,
      fun l i => iff_of_false nofun List.not_mem_nil⟩
  | snoc hrun hstep ih =>
    obtain ⟨held, h⟩ := ih
    exact h.step hstep

/-! ## Mutual exclusion -/

/-- The thread is about to touch something: that is its next step. -/
def Thread.Touches (t : Thread L D W) (d : D) : Prop :=
  t.raising = false ∧ t.stack.head? = some (.run (.touch d))

/-- A thread that touches something holds the lock of it. -/
theorem Thread.Holds.mem_of_touches {t : Thread L D W} {held : List L} (h : t.Holds disc held)
    {d : D} (htouch : t.Touches d) : disc.guard d ∈ held := by
  obtain ⟨raising, stack⟩ := t
  obtain ⟨rfl, hhead⟩ := htouch
  obtain ⟨k, rfl⟩ := List.head?_eq_some_iff.mp hhead
  obtain ⟨scopes, held', hp, -⟩ := h.of_run
  cases hp with
  | touch hmem => exact hmem

/-- **Two threads are not about to touch what the same lock guards.** Both
holding the lock, they would be one. -/
def Process.Exclusive (guard : D → L) (s : Process T L D W) : Prop :=
  ∀ i j d d', (s.thread i).Touches d → (s.thread j).Touches d' → guard d = guard d' → i = j

omit [DecidableEq T] in
theorem Process.Consistent.exclusive {s : Process T L D W} {held : T → List L}
    (h : s.Consistent disc held) : s.Exclusive disc.guard := by
  intro i j d d' hi hj hguard
  have hholder := (h.holder _ _).mpr ((h.thread i).mem_of_touches hi)
  have hholder' := (h.holder _ _).mpr ((h.thread j).mem_of_touches hj)
  rw [hguard] at hholder
  exact Option.some.inj (hholder.symm.trans hholder')

/-! ## No deadlock -/

/-- The thread wants to take a lock, which may be free: that is its next
step. -/
def Thread.Wants (t : Thread L D W) (l : L) : Prop :=
  t.raising = false
    ∧ (t.stack.head? = some (.run (.lock l)) ∨ ∃ p, t.stack.head? = some (.run (.under l p)))

/-- The thread waits for something outside. -/
def Thread.Rests (t : Thread L D W) (w : W) : Prop :=
  t.raising = false ∧ t.stack.head? = some (.run (.wait w))

omit [DecidableEq L] in
/-- A thread that wants a lock can take it. -/
theorem Thread.Wants.step {t : Thread L D W} {l : L} (h : t.Wants l) :
    ∃ t', t.Step (.lock l) t' := by
  obtain ⟨raising, stack⟩ := t
  obtain ⟨rfl, hhead | ⟨p, hhead⟩⟩ := h
  · obtain ⟨k, rfl⟩ := List.head?_eq_some_iff.mp hhead
    exact ⟨_, .lock l k⟩
  · obtain ⟨k, rfl⟩ := List.head?_eq_some_iff.mp hhead
    exact ⟨_, .under l p k⟩

/-- The lock that a thread wants is above those it holds. -/
theorem Thread.Holds.lt_of_wants {t : Thread L D W} {held : List L}
    (h : t.Holds disc held) {l : L} (hwants : t.Wants l) :
    ∀ l' ∈ held, disc.rank l' < disc.rank l := by
  obtain ⟨t', hstep⟩ := hwants.step
  obtain ⟨held', hchanges, -⟩ := h.step hstep
  cases hchanges with
  | lock hrank => exact hrank

omit [DecidableEq L] in
/-- A thread that has not ended wants a lock, or has a step that takes none.
So the only thing that can stop it is a lock that is taken. -/
theorem Thread.wants_or_step {t : Thread L D W} (h : t.stack ≠ []) :
    (∃ l, t.Wants l) ∨ ∃ e t', t.Step e t' ∧ ∀ l, e ≠ .lock l := by
  obtain ⟨raising, stack⟩ := t
  cases stack with
  | nil => exact absurd rfl h
  | cons f k =>
    cases f with
    | exit l => exact Or.inr ⟨_, _, .exit raising l k, nofun⟩
    | handler => exact Or.inr ⟨_, _, .handler raising k, nofun⟩
    | run p =>
      cases raising with
      | true => exact Or.inr ⟨_, _, .unwind p k, nofun⟩
      | false =>
        cases p with
        | skip => exact Or.inr ⟨_, _, .skip k, nofun⟩
        | wait w => exact Or.inr ⟨_, _, .wait w k, nofun⟩
        | lock l => exact Or.inl ⟨l, rfl, Or.inl rfl⟩
        | unlock l => exact Or.inr ⟨_, _, .unlock l k, nofun⟩
        | touch d => exact Or.inr ⟨_, _, .touch d k, nofun⟩
        | throw => exact Or.inr ⟨_, _, .throw k, nofun⟩
        | seq p q => exact Or.inr ⟨_, _, .seq p q k, nofun⟩
        | choice p q => exact Or.inr ⟨_, _, .left p q k, nofun⟩
        | loop p => exact Or.inr ⟨_, _, .done p k, nofun⟩
        | under l p => exact Or.inl ⟨l, rfl, Or.inr ⟨p, rfl⟩⟩
        | attempt p => exact Or.inr ⟨_, _, .attempt p k, nofun⟩

/-- A thread that holds a lock has not ended. -/
theorem Thread.Holds.active {t : Thread L D W} {held : List L} (h : t.Holds disc held) {l : L}
    (hl : l ∈ held) : t.stack ≠ [] := by
  intro hnil
  obtain ⟨raising, stack⟩ := t
  obtain rfl : stack = [] := hnil
  rcases h with h | h <;> cases h <;> exact absurd hl List.not_mem_nil

/-- A thread that waits for something outside holds no lock but those that may be held. -/
theorem Thread.Holds.mayHold_of_rests {t : Thread L D W} {held : List L} (h : t.Holds disc held)
    {w : W} (hrests : t.Rests w) : ∀ l ∈ held, disc.mayHold w l := by
  obtain ⟨raising, stack⟩ := t
  obtain ⟨rfl, hhead⟩ := hrests
  obtain ⟨k, rfl⟩ := List.head?_eq_some_iff.mp hhead
  obtain ⟨scopes, held', hp, -⟩ := h.of_run
  cases hp with
  | wait hmay => exact hmay

/-- A thread waits for the one that has taken the lock it wants. -/
def Process.WaitsFor (s : Process T L D W) (i j : T) : Prop :=
  ∃ l, (s.thread i).Wants l ∧ s.holder l = some j

/-- A thread can go on by itself: it has a step, and does not wait for
something outside. -/
def Process.GoesOn (s : Process T L D W) (i : T) : Prop :=
  (∃ s', s.Step i s') ∧ ∀ w, ¬(s.thread i).Rests w

/-- **A thread that waits for something outside with locks taken**, all of
which may be held meanwhile. Where the discipline allows for no lock, there
is no such thread. -/
structure Process.KeptWaiting (mayHold : W → L → Prop) (s : Process T L D W) (i : T) (w : W) :
    Prop where
  /-- It waits for something outside. -/
  rests : (s.thread i).Rests w
  /-- It has taken a lock, so others may wait for it. -/
  holds : ∃ l, s.holder l = some i
  /-- All that it has taken may be held while this is waited for. -/
  allowed : ∀ l, s.holder l = some i → mayHold w l

/-- **No deadlock**: a thread that wants a lock waits, directly or through others, for one
that goes on, or that something outside keeps waiting while it may.

So locks alone never stop a process: there is no cycle among those who wait, and the thread
at the end of each chain is not waiting for a lock. -/
def Process.DeadlockFree (mayHold : W → L → Prop) (s : Process T L D W) : Prop :=
  ∀ i l, (s.thread i).Wants l → ∃ j, Relation.ReflTransGen s.WaitsFor i j
    ∧ (s.GoesOn j ∨ ∃ w, s.KeptWaiting mayHold j w)

/-- **A process whose holders are who they should be has no deadlock**, if
the ranks are bounded. A thread that waits for another one holds nothing
above what it wants, so the chain goes up the ranks, and ends. -/
theorem Process.Consistent.deadlockFree {s : Process T L D W} {held : T → List L}
    (h : s.Consistent disc held) {bound : ℕ} (hbound : ∀ l, disc.rank l < bound) :
    s.DeadlockFree disc.mayHold := by
  intro i l hwants
  induction hn : bound - disc.rank l using Nat.strongRecOn generalizing i l with
  | ind n ih =>
    cases hholder : s.holder l with
    | none =>
      obtain ⟨t', hstep⟩ := hwants.step
      refine ⟨i, .refl, Or.inl ⟨⟨_, .mk hstep fun l' heq => ?_⟩, ?_⟩⟩
      · rw [← Event.lock.inj heq, hholder]
      · rintro w ⟨-, hrests⟩
        rcases hwants.2 with hhead | ⟨p, hhead⟩
        · cases hhead.symm.trans hrests
        · cases hhead.symm.trans hrests
    | some j =>
      have hmem := (h.holder l j).mp hholder
      have hactive := (h.thread j).active hmem
      rcases Thread.wants_or_step hactive with ⟨l', hwants'⟩ | ⟨e, t', hstep, hnone⟩
      · -- the holder wants a lock above the one it holds
        have hlt := (h.thread j).lt_of_wants hwants' l hmem
        have hlt' := hbound l'
        obtain ⟨j', hwaits, hgoes⟩ := ih (bound - disc.rank l') (by omega) j l' hwants' rfl
        exact ⟨j', .head ⟨l, hwants, hholder⟩ hwaits, hgoes⟩
      · refine ⟨j, .single ⟨l, hwants, hholder⟩, ?_⟩
        by_cases hrests : ∃ w, (s.thread j).Rests w
        · obtain ⟨w, hw⟩ := hrests
          refine Or.inr ⟨w, hw, ⟨l, hholder⟩, fun l' hl' => ?_⟩
          exact (h.thread j).mayHold_of_rests hw l' ((h.holder l' j).mp hl')
        · exact Or.inl ⟨⟨_, .mk hstep fun l' heq => absurd heq (hnone l')⟩, not_exists.mp hrests⟩

end Consistent

/-! ## Runs that can be computed

What a thread does next is settled by one choice at most: which way it goes, and whether it
goes round a loop once more. So the steps of a run can be given by the threads that take
them and their choices, and `Process.follow` computes where they lead. -/

section Follow

/-- **The next step of a thread**, with the choice for it: the first way, or
once more round a loop. There is none for a thread that has ended. -/
def Thread.next (first : Bool) : Thread L D W → Option (Event L D × Thread L D W)
  | ⟨_, []⟩ => none
  | ⟨b, .exit l :: k⟩ => some (.unlock l, ⟨b, k⟩)
  | ⟨_, .handler :: k⟩ => some (.internal, ⟨false, k⟩)
  | ⟨true, .run _ :: k⟩ => some (.internal, ⟨true, k⟩)
  | ⟨false, .run p :: k⟩ =>
    match p with
    | .skip => some (.internal, ⟨false, k⟩)
    | .wait _ => some (.internal, ⟨false, k⟩)
    | .lock l => some (.lock l, ⟨false, k⟩)
    | .unlock l => some (.unlock l, ⟨false, k⟩)
    | .touch d => some (.touch d, ⟨false, k⟩)
    | .throw => some (.internal, ⟨true, k⟩)
    | .seq p q => some (.internal, ⟨false, .run p :: .run q :: k⟩)
    | .choice p q => some (.internal, ⟨false, .run (bif first then p else q) :: k⟩)
    | .loop p =>
      some (.internal, ⟨false, bif first then .run p :: .run (.loop p) :: k else k⟩)
    | .under l p => some (.lock l, ⟨false, .run p :: .exit l :: k⟩)
    | .attempt p => some (.internal, ⟨false, .run p :: .handler :: k⟩)

/-- What is computed is a step of the relation, with the event that was
computed. -/
theorem Thread.step_of_next {first : Bool} {t t' : Thread L D W} {e : Event L D}
    (h : t.next first = some (e, t')) : t.Step e t' := by
  obtain ⟨raising, stack⟩ := t
  cases stack with
  | nil => cases h
  | cons f k =>
    cases f with
    | exit l => cases h; exact .exit raising l k
    | handler => cases h; exact .handler raising k
    | run p =>
      cases raising with
      | true => cases h; exact .unwind p k
      | false =>
        cases p with
        | skip => cases h; exact .skip k
        | wait w => cases h; exact .wait w k
        | lock l => cases h; exact .lock l k
        | unlock l => cases h; exact .unlock l k
        | touch d => cases h; exact .touch d k
        | throw => cases h; exact .throw k
        | seq p q => cases h; exact .seq p q k
        | choice p q =>
          cases first with
          | true => cases h; exact .left p q k
          | false => cases h; exact .right p q k
        | loop p =>
          cases first with
          | true => cases h; exact .again p k
          | false => cases h; exact .done p k
        | under l p => cases h; exact .under l p k
        | attempt p => cases h; exact .attempt p k

/-- An event takes no lock that is taken. -/
def Event.free (holder : L → Option T) : Event L D → Bool
  | .lock l => (holder l).isNone
  | _ => true

variable [DecidableEq T] [DecidableEq L]

omit [DecidableEq T] [DecidableEq L] in
/-- No lock is taken that is taken. -/
theorem Event.eq_none_of_free {holder : L → Option T} {e : Event L D} (h : e.free holder = true)
    (l : L) (heq : e = .lock l) : holder l = none := by
  subst heq
  exact Option.isNone_iff_eq_none.mp h

/-- **Where the steps of a run lead**, each given by the thread that takes it and its
choice. There is no step for a thread that has ended, or that wants a lock which is
taken. -/
def Process.follow : List (T × Bool) → Process T L D W → Option (Process T L D W)
  | [], s => some s
  | (i, first) :: steps, s =>
    match (s.thread i).next first with
    | none => none
    | some (e, t) =>
      if e.free s.holder then
        follow steps ⟨Function.update s.thread i t, e.holder i s.holder⟩
      else none

/-- **The steps that are computed are a run.** -/
theorem Process.run_of_follow {steps : List (T × Bool)} {s₀ s s' : Process T L D W}
    {trace : List (Process T L D W × T)} (hrun : Transitions.Run Process.Step s₀ trace s)
    (h : s.follow steps = some s') : ∃ trace, Transitions.Run Process.Step s₀ trace s' := by
  induction steps generalizing s trace with
  | nil =>
    cases h
    exact ⟨trace, hrun⟩
  | cons step steps ih =>
    obtain ⟨i, first⟩ := step
    unfold follow at h
    cases hnext : (s.thread i).next first with
    | none => simp [hnext] at h
    | some next =>
      obtain ⟨e, t⟩ := next
      simp only [hnext] at h
      by_cases hfree : e.free s.holder = true
      · rw [if_pos hfree] at h
        exact ih (hrun.snoc (.mk (Thread.step_of_next hnext) (Event.eq_none_of_free hfree))) h
      · rw [if_neg hfree] at h
        cases h

end Follow

end Locks
