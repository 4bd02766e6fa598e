import Mathlib.Logic.Function.Basic
import RctAutomation.Sql.Program

/-!
# Threads that share a connection

A connection has one transaction at most, whichever thread opened it. When
several threads run programs on one connection, their calls interleave, and a
thread can meet – or end – the transaction of another one.

A program is *transactional* when it opens a transaction with its first call
and goes on until it has closed it (`Prog.Transactional`). `Shared.Step` is
one step of threads that run such programs, and `Shared.Collides` says that a
call meets another thread's transaction.

`Shared.isolated_of_exclusive` is the rule for interleavings: if no program
makes its first call while another one is under way, then no call of any run
collides.
-/

namespace Sql

variable {ι ε α O : Type}

/-! ## Transactional programs -/

namespace Prog

/-- The program makes no more calls: whatever it has to do with the database
is done. -/
inductive Ended : Prog ε α → Prop
  | ret (a : α) : Ended (.ret a)
  | raise (e : ε) : Ended (.raise e)
  | abort : Ended .abort

/-- **The program is inside its transaction**: it opens none, and it ends
only once it has closed the one that is open, or with the process. After a
commit that was refused it goes on, since the transaction is still open. -/
inductive Inside : Prog ε α → Prop
  | abort : Inside .abort
  | commit {next : Code → Prog ε α} (hok : Ended (next .ok))
      (hno : ∀ r, r ≠ .ok → Inside (next r)) : Inside (.call (.exec .commit) next)
  | rollback {next : Code → Prog ε α} (hok : Ended (next .ok)) :
      Inside (.call (.exec .rollback) next)
  | prepare {sql : List Token} {next : Option Prepared → Prog ε α} (h : ∀ r, Inside (next r)) :
      Inside (.call (.prepare sql) next)
  | step {p : Prepared} {next : Code → Prog ε α} (h : ∀ r, Inside (next r)) :
      Inside (.call (.step p) next)
  | lastInsertRowid {next : ℤ → Prog ε α} (h : ∀ r, Inside (next r)) :
      Inside (.call .lastInsertRowid next)

/-- **A transactional program**: it opens a transaction with its first call
and is inside it from there on, and it ends where it cannot open one. -/
inductive Transactional : Prog ε α → Prop
  | ended {p : Prog ε α} (h : Ended p) : Transactional p
  | begin {next : Code → Prog ε α} (hok : Inside (next .ok))
      (hno : ∀ r, r ≠ .ok → Ended (next r)) : Transactional (.call (.exec .begin) next)

theorem not_ended_call (k : Call) (next : k.Reply → Prog ε α) : ¬Ended (.call k next) := nofun

end Prog

/-! ## Threads -/

/-- What a thread does: nothing, a program of which it has made no call yet,
or one of which it has. Between entering a program and its first call a
thread is harmless, and the difference is what exclusive steps are about. -/
inductive Phase (ε α : Type)
  | idle
  | ready (p : Prog ε α)
  | busy (p : Prog ε α)

/-- The program a thread runs. -/
def Phase.prog? : Phase ε α → Option (Prog ε α)
  | idle => none
  | ready p => some p
  | busy p => some p

/-- The program of a thread is under way: it has made a call and has more to
make. One that has made its last call is not, although the thread has not
left it. -/
def Phase.UnderWay (ph : Phase ε α) : Prop := ∃ k next, ph = .busy (.call k next)

/-- A connection with the threads that use it, and the thread whose
transaction is open. The owner is not something SQLite knows; it is kept to
say whose transaction a call meets. -/
structure Shared (ι ε α : Type) where
  conn : Conn
  phase : ι → Phase ε α
  owner : Option ι

/-- What happens: a thread starts a program, makes its next call – to a
database that may be busy – or is done with it. -/
inductive Act (ι O : Type)
  | enter (i : ι) (o : O)
  | call (i : ι) (busy : Bool)
  | leave (i : ι)

/-- The owner of the open transaction after a call that was answered. Only
the statements about transactions change it, and only where they succeed. -/
def ownerAfter (i : ι) : (k : Call) → k.Reply → Option ι → Option ι
  | .exec .begin, .ok, _ => some i
  | .exec .commit, .ok, _ => none
  | .exec .rollback, .ok, _ => none
  | _, _, o => o

/-- A commit that is refused leaves the transaction to its owner. -/
theorem ownerAfter_commit (i : ι) {r : Code} (h : r ≠ .ok) (o : Option ι) :
    ownerAfter i (.exec .commit) r o = o := by
  cases r with
  | ok => exact absurd rfl h
  | _ => rfl

namespace Shared

variable [DecidableEq ι]

/-- No thread has aborted the process. Nothing happens any more once one has. -/
def Alive (s : Shared ι ε α) : Prop := ∀ i, (s.phase i).prog? ≠ some .abort

/-- The state after a call: the connection is the one that the call leaves,
and the thread goes on with what the answer selects. -/
def afterCall (cat : Catalog) (s : Shared ι ε α) (i : ι) (busy : Bool) (k : Call)
    (next : k.Reply → Prog ε α) : Shared ι ε α where
  conn := (Conn.answer cat busy k s.conn).2
  phase := Function.update s.phase i (.busy (next (Conn.answer cat busy k s.conn).1))
  owner := ownerAfter i k (Conn.answer cat busy k s.conn).1 s.owner

/-- **One step of the threads**, while the process lives. The threads take
turns in any order; nothing keeps one from making its call while another is
in the middle of its program. -/
inductive Step (cat : Catalog) (prog : O → Prog ε α) :
    Shared ι ε α → Act ι O → Shared ι ε α → Prop
  | enter {s : Shared ι ε α} {i : ι} (o : O) (ha : s.Alive) (hi : s.phase i = .idle) :
      Step cat prog s (.enter i o)
        { s with phase := Function.update s.phase i (.ready (prog o)) }
  | call {s : Shared ι ε α} {i : ι} (busy : Bool) {k : Call} {next : k.Reply → Prog ε α}
      (ha : s.Alive) (hi : (s.phase i).prog? = some (.call k next)) :
      Step cat prog s (.call i busy) (s.afterCall cat i busy k next)
  | leave {s : Shared ι ε α} {i : ι} {p : Prog ε α} (ha : s.Alive)
      (hi : (s.phase i).prog? = some p) (hp : p.Ended) :
      Step cat prog s (.leave i) { s with phase := Function.update s.phase i .idle }

/-- A run: its steps, each with the state it was taken in, and its end. The
last step is the last one of the list, as a run goes on at its end. -/
inductive Runs (cat : Catalog) (prog : O → Prog ε α) (s₀ : Shared ι ε α) :
    List (Shared ι ε α × Act ι O) → Shared ι ε α → Prop
  | nil : Runs cat prog s₀ [] s₀
  | snoc {trace : List (Shared ι ε α × Act ι O)} {s s' : Shared ι ε α} {a : Act ι O}
      (hrun : Runs cat prog s₀ trace s) (hstep : Step cat prog s a s') :
      Runs cat prog s₀ (trace ++ [(s, a)]) s'

omit [DecidableEq ι] in
/-- **A call meets a transaction that is not the thread's own**: it would
open one where one is open, or it acts while its own is not the one that is
open – because another thread's is, or because another thread has ended it. -/
def Collides (s : Shared ι ε α) : Act ι O → Prop
  | .call i _ => ∃ k next, (s.phase i).prog? = some (.call k next)
      ∧ if k = .exec .begin then s.conn.saved ≠ none else s.owner ≠ some i
  | _ => False

omit [DecidableEq ι] in
theorem collides_begin {s : Shared ι ε α} {i : ι} {busy : Bool} {next : Code → Prog ε α}
    (hi : (s.phase i).prog? = some (.call (.exec .begin) next)) (hs : s.conn.saved ≠ none) :
    s.Collides (.call i busy : Act ι O) :=
  ⟨_, next, hi, by rw [if_pos rfl]; exact hs⟩

omit [DecidableEq ι] in
/-- **A program makes its first call only while no other one is under way.**
It may be entered before that. This is a condition on the steps of a run, and
nothing that the connection itself enforces. -/
def Exclusive (s : Shared ι ε α) : Act ι O → Prop
  | .call i _ => (∃ p, s.phase i = .ready p) → ∀ j, j ≠ i → ¬(s.phase j).UnderWay
  | _ => True

/-- Nothing has started, and no transaction is open. The contents of the
database may be anything. -/
structure Initial (s : Shared ι ε α) : Prop where
  idle : ∀ i, s.phase i = .idle
  owner : s.owner = none
  saved : s.conn.saved = none

/-! ## The invariant -/

/-- What exclusive steps keep: the thread whose transaction is open is inside
it, and every other thread has ended or has made no call. The last clause
ties the owner to the connection: there is one exactly while a transaction is
open. -/
structure Isolated (s : Shared ι ε α) : Prop where
  ready : ∀ i p, s.phase i = .ready p → p.Transactional
  busy : ∀ i p, s.phase i = .busy p → p.Ended ∨ (p.Inside ∧ s.owner = some i)
  owner : ∀ i, s.owner = some i → ∃ p, s.phase i = .busy p ∧ p.Inside
  saved : s.conn.saved.isSome = s.owner.isSome

omit [DecidableEq ι] in
theorem Initial.isolated {s : Shared ι ε α} (h : s.Initial) : s.Isolated where
  ready i p hp := by
    rw [h.idle i] at hp
    cases hp
  busy i p hp := by
    rw [h.idle i] at hp
    cases hp
  owner i hi := by
    rw [h.owner] at hi
    cases hi
  saved := by rw [h.saved, h.owner]; rfl

end Shared

/-! ### Calls that leave the transaction open -/

theorem Conn.answer_commit (cat : Catalog) (busy : Bool) {c : Conn} {old : Db}
    (hs : c.saved = some old) :
    ((Conn.answer cat busy (.exec .commit) c).1 = .ok
        ∧ (Conn.answer cat busy (.exec .commit) c).2.saved = none)
    ∨ ((Conn.answer cat busy (.exec .commit) c).1 ≠ .ok
        ∧ (Conn.answer cat busy (.exec .commit) c).2.saved = some old) := by
  show ((Conn.exec cat busy .commit c).1 = Code.ok ∧ (Conn.exec cat busy .commit c).2.saved = none)
    ∨ ((Conn.exec cat busy .commit c).1 ≠ Code.ok
      ∧ (Conn.exec cat busy .commit c).2.saved = some old)
  unfold Conn.exec
  dsimp only
  rw [hs]
  dsimp only
  split
  · exact Or.inr ⟨nofun, hs⟩
  · split
    · exact Or.inr ⟨nofun, hs⟩
    · exact Or.inl ⟨rfl, rfl⟩

theorem Conn.answer_rollback (cat : Catalog) (busy : Bool) {c : Conn} {old : Db}
    (hs : c.saved = some old) :
    (Conn.answer cat busy (.exec .rollback) c).1 = .ok
      ∧ (Conn.answer cat busy (.exec .rollback) c).2.saved = none := by
  show (Conn.exec cat busy .rollback c).1 = Code.ok
    ∧ (Conn.exec cat busy .rollback c).2.saved = none
  unfold Conn.exec
  dsimp only
  rw [hs]
  exact ⟨rfl, rfl⟩

theorem Conn.step_saved (cat : Catalog) (p : Prepared) (c : Conn) :
    (Conn.step cat p c).2.saved = c.saved := by
  unfold Conn.step
  split
  · rfl
  · split <;> rfl

namespace Shared

variable [DecidableEq ι] {cat : Catalog} {prog : O → Prog ε α} {s s' : Shared ι ε α}

/-- The threads that have made no call, when one of them is at another point. -/
theorem Isolated.ready_update (h : s.Isolated) {i : ι} {ph : Phase ε α}
    (hph : ∀ p, ph = .ready p → p.Transactional) :
    ∀ j q, Function.update s.phase i ph j = .ready q → q.Transactional :=
  (Function.forall_update_iff s.phase
    (fun _ ph => ∀ q, ph = .ready q → q.Transactional)).mpr ⟨hph, fun j _ => h.ready j⟩

/-- And those that have. A thread that is not at another point is still inside
its transaction if it was. -/
theorem Isolated.busy_update (h : s.Isolated) {i : ι} {ph : Phase ε α} {owner : Option ι}
    (hph : ∀ p, ph = .busy p → p.Ended ∨ (p.Inside ∧ owner = some i))
    (howner : ∀ j, j ≠ i → s.owner = some j → owner = some j) :
    ∀ j q, Function.update s.phase i ph j = .busy q → q.Ended ∨ (q.Inside ∧ owner = some j) :=
  (Function.forall_update_iff s.phase
    (fun j ph => ∀ q, ph = .busy q → q.Ended ∨ (q.Inside ∧ owner = some j))).mpr
    ⟨hph, fun j hji q hq => (h.busy j q hq).imp_right (And.imp_right (howner j hji))⟩

/-- The thread goes on inside its transaction. -/
theorem Isolated.goOn (h : s.Isolated) {i : ι} (hown : s.owner = some i) {c : Conn}
    (hsaved : c.saved = s.conn.saved) {p : Prog ε α} (hp : p.Inside) :
    (⟨c, Function.update s.phase i (.busy p), s.owner⟩ : Shared ι ε α).Isolated where
  ready := h.ready_update nofun
  busy := h.busy_update (fun q hq => by cases hq; exact Or.inr ⟨hp, hown⟩) (fun _ _ hj => hj)
  owner j hj := by
    obtain rfl : i = j := Option.some.inj (hown.symm.trans hj)
    exact ⟨p, Function.update_self .., hp⟩
  saved := by
    show c.saved.isSome = s.owner.isSome
    rw [hsaved, h.saved]

/-- The thread has closed its transaction. -/
theorem Isolated.close (h : s.Isolated) {i : ι} (hown : s.owner = some i) {c : Conn}
    (hsaved : c.saved = none) {p : Prog ε α} (hp : p.Ended) :
    (⟨c, Function.update s.phase i (.busy p), none⟩ : Shared ι ε α).Isolated where
  ready := h.ready_update nofun
  -- no other thread was inside a transaction
  busy := h.busy_update (fun q hq => by cases hq; exact Or.inl hp)
    (fun j hji hj => absurd (Option.some.inj (hj.symm.trans hown)) hji)
  owner j hj := by cases hj
  saved := by
    show c.saved.isSome = false
    rw [hsaved]
    rfl

/-- **The step of a thread inside its transaction** keeps the invariant:
either it is still inside, or its call has closed the transaction and it has
ended. -/
theorem Isolated.afterCall_inside (h : s.Isolated) {i : ι} (busy : Bool) {k : Call}
    {next : k.Reply → Prog ε α} (hown : s.owner = some i) (hin : (Prog.call k next).Inside) :
    (s.afterCall cat i busy k next).Isolated := by
  obtain ⟨old, hs⟩ : ∃ old, s.conn.saved = some old :=
    Option.isSome_iff_exists.mp (by rw [h.saved, hown]; rfl)
  unfold afterCall
  cases hin with
  | commit hok hno =>
    rcases Conn.answer_commit cat busy hs with ⟨hr, hc⟩ | ⟨hr, hc⟩
    · rw [hr]
      exact h.close hown hc hok
    · rw [ownerAfter_commit i hr]
      exact h.goOn hown (hc.trans hs.symm) (hno _ hr)
  | rollback hok =>
    obtain ⟨hr, hc⟩ := Conn.answer_rollback cat busy hs
    rw [hr]
    exact h.close hown hc hok
  | prepare hin => exact h.goOn hown rfl (hin _)
  | step hin => exact h.goOn hown (Conn.step_saved ..) (hin _)
  | lastInsertRowid hin => exact h.goOn hown rfl (hin _)

/-- **The first call of a transactional program** opens its transaction,
since there is none, and the thread becomes its owner. Nobody else is in a
transaction, as none was open. -/
theorem Isolated.afterCall_begin (h : s.Isolated) {i : ι} (busy : Bool)
    {next : Code → Prog ε α} (hfree : s.owner = none) (hok : (next .ok).Inside) :
    (s.afterCall cat i busy (.exec .begin) next).Isolated := by
  have hs : s.conn.saved = none := by
    have := h.saved
    rw [hfree] at this
    exact Option.not_isSome_iff_eq_none.mp (by rw [this]; exact Bool.false_ne_true)
  have hanswer : Conn.answer cat busy (.exec .begin) s.conn
      = (.ok, { s.conn with saved := some s.conn.db }) := by
    show Conn.exec cat busy .begin s.conn = _
    unfold Conn.exec
    dsimp only
    rw [hs]
  unfold afterCall
  rw [hanswer]
  refine ⟨h.ready_update nofun, h.busy_update (fun q hq => ?_) (fun j _ hj => ?_),
    fun j hj => ?_, rfl⟩
  · cases hq
    exact Or.inr ⟨hok, rfl⟩
  · rw [hfree] at hj
    cases hj
  · obtain rfl : i = j := Option.some.inj hj
    exact ⟨_, Function.update_self .., hok⟩

omit [DecidableEq ι] in
/-- Nothing is open when a thread may make its first call. -/
theorem Isolated.owner_of_exclusive (h : s.Isolated) (ha : s.Alive) {i : ι} {p : Prog ε α}
    {busy : Bool} (hphase : s.phase i = .ready p)
    (hex : s.Exclusive (.call i busy : Act ι O)) : s.owner = none := by
  cases ho : s.owner with
  | none => rfl
  | some j =>
    obtain ⟨q, hq, hin⟩ := h.owner j ho
    have hji : j ≠ i := by
      rintro rfl
      rw [hphase] at hq
      cases hq
    cases q with
    | call k next => exact absurd ⟨k, next, hq⟩ (hex ⟨p, hphase⟩ j hji)
    | abort => exact absurd (show (s.phase j).prog? = some .abort by rw [hq]; rfl) (ha j)
    | ret a => cases hin
    | raise e => cases hin

/-- A thread that enters or leaves its program touches no transaction. -/
theorem Isolated.setPhase (h : s.Isolated) {i : ι} {ph : Phase ε α}
    (hready : ∀ p, ph = .ready p → p.Transactional) (hidle : ∀ p, ph ≠ .busy p)
    (hown : s.owner ≠ some i) :
    (⟨s.conn, Function.update s.phase i ph, s.owner⟩ : Shared ι ε α).Isolated where
  ready := h.ready_update hready
  busy := h.busy_update (fun p hp => absurd hp (hidle p)) (fun _ _ hj => hj)
  owner j hj := by
    have hji : j ≠ i := by
      rintro rfl
      exact hown hj
    dsimp only
    rw [Function.update_of_ne hji]
    exact h.owner j hj
  saved := h.saved

/-- **An exclusive step keeps the invariant and does not collide.** The cases
are those of the step: entering and leaving make no call, and a call is the
first one of its program or one inside its transaction. -/
theorem Isolated.step (hprog : ∀ o, (prog o).Transactional) (h : s.Isolated) {a : Act ι O}
    (hstep : Step cat prog s a s') (hex : s.Exclusive a) : s'.Isolated ∧ ¬s.Collides a := by
  cases hstep with
  | enter o ha hi =>
    refine ⟨h.setPhase (fun p hp => ?_) nofun (fun hown => ?_), nofun⟩
    · cases hp
      exact hprog o
    · obtain ⟨p, hp, -⟩ := h.owner _ hown
      rw [hi] at hp
      cases hp
  | @call i busy k next ha hi =>
    have hcollides : ∀ P : Prop, (if k = .exec .begin then s.conn.saved ≠ none
        else s.owner ≠ some i) = P → ¬P → ¬s.Collides (.call i busy : Act ι O) := by
      rintro P rfl hno ⟨k', next', hi', hmeets⟩
      cases hi.symm.trans hi'
      exact hno hmeets
    cases hph : s.phase i with
    | idle =>
      rw [hph] at hi
      cases hi
    | ready p =>
      rw [hph] at hi
      obtain rfl := Option.some.inj hi
      have hfree := h.owner_of_exclusive ha hph hex
      have htrans := h.ready i _ hph
      cases htrans with
      | ended hended => exact absurd hended (Prog.not_ended_call _ _)
      | begin hok hno =>
        refine ⟨h.afterCall_begin busy hfree hok, hcollides _ (if_pos rfl) (fun hne => hne ?_)⟩
        have := h.saved
        rw [hfree] at this
        exact Option.not_isSome_iff_eq_none.mp (by rw [this]; exact Bool.false_ne_true)
    | busy p =>
      rw [hph] at hi
      obtain rfl := Option.some.inj hi
      rcases h.busy i _ hph with hended | ⟨hin, hown⟩
      · exact absurd hended (Prog.not_ended_call _ _)
      · have hk : k ≠ .exec .begin := by
          rintro rfl
          cases hin
        exact ⟨h.afterCall_inside busy hown hin, hcollides _ (if_neg hk) (fun hne => hne hown)⟩
  | @leave i p ha hi hp =>
    refine ⟨h.setPhase nofun nofun (fun hown => ?_), nofun⟩
    obtain ⟨q, hq, hin⟩ := h.owner _ hown
    rw [hq] at hi
    obtain rfl := Option.some.inj hi
    cases hp with
    | ret a => cases hin
    | raise e => cases hin
    | abort => exact ha i (by rw [hq]; rfl)

/-- **A run of exclusive steps has no collision.** This is the invariant
carried along the run: it holds at its end, and wherever a step is taken,
where it says that the step does not collide. -/
theorem isolated_of_exclusive (hprog : ∀ o, (prog o).Transactional) {s₀ : Shared ι ε α}
    (h₀ : s₀.Initial) {trace : List (Shared ι ε α × Act ι O)} (hrun : Runs cat prog s₀ trace s)
    (hex : ∀ x ∈ trace, x.1.Exclusive x.2) :
    s.Isolated ∧ ∀ x ∈ trace, ¬x.1.Collides x.2 := by
  induction hrun with
  | nil => exact ⟨h₀.isolated, fun x hx => absurd hx List.not_mem_nil⟩
  | snoc hrun hstep ih =>
    obtain ⟨hiso, hold⟩ := ih (fun x hx => hex x (List.mem_append_left _ hx))
    obtain ⟨hiso', hno⟩ := hiso.step hprog hstep
      (hex _ (List.mem_append_right _ (List.mem_singleton_self _)))
    refine ⟨hiso', fun x hx => ?_⟩
    rcases List.mem_append.mp hx with hx | hx
    · exact hold x hx
    · rw [List.mem_singleton.mp hx]
      exact hno

/-! ## Programs that run one after the other -/

/-- What happens while a thread runs a program by itself, of so many calls:
it enters the program, makes the calls, and leaves. -/
def aloneActs (i : ι) (o : O) (busy : Bool) (calls : ℕ) : List (Act ι O) :=
  .enter i o :: (List.replicate calls (.call i busy) ++ [.leave i])

omit [DecidableEq ι] in
/-- A thread that is at a call while the others are idle may make it, and meets nobody. -/
theorem alive_of_others_idle {i : ι} {p : Prog ε α} (hi : (s.phase i).prog? = some p)
    (hp : p ≠ .abort) (hothers : ∀ j, j ≠ i → s.phase j = .idle) : s.Alive := by
  classical
  intro j
  by_cases hj : j = i
  · rw [hj, hi]
    exact fun h => hp (Option.some.inj h)
  · rw [hothers j hj]
    nofun

/-- The calls of a program that runs by itself, while the other threads are
idle, are those of its own run, one after the other to its end. By induction
on the program, from the run that has led there. -/
theorem Runs.calls_alone {s₀ : Shared ι ε α} {trace : List (Shared ι ε α × Act ι O)}
    (hrun : Runs cat prog s₀ trace s) {i : ι} (busy : Bool) {p : Prog ε α} {a : α}
    (hi : (s.phase i).prog? = some p) (hothers : ∀ j, j ≠ i → s.phase j = .idle)
    (hret : (p.run cat busy s.conn).outcome = .returned a) :
    ∃ trace' s', Runs cat prog s₀ (trace ++ trace') s'
      ∧ trace'.map Prod.snd = List.replicate (p.run cat busy s.conn).trace.length (.call i busy)
      ∧ (∀ x ∈ trace', x.1.Exclusive x.2) ∧ (s'.phase i).prog? = some (.ret a)
      ∧ (∀ j, j ≠ i → s'.phase j = .idle) ∧ s'.conn = (p.run cat busy s.conn).conn := by
  induction p generalizing s trace with
  | ret b =>
    cases hret
    refine ⟨[], s, by rwa [List.append_nil], rfl, fun x hx => absurd hx List.not_mem_nil, hi,
      hothers, rfl⟩
  | raise e => cases hret
  | abort => cases hret
  | call k next ih =>
    have halive : s.Alive := alive_of_others_idle hi nofun hothers
    have hphase : ((s.afterCall cat i busy k next).phase i).prog?
        = some (next (Conn.answer cat busy k s.conn).1) := by
      show (Function.update s.phase i _ i).prog? = _
      rw [Function.update_self]
      rfl
    obtain ⟨trace', s', hrun', hacts, hex, hend, hidle, hconn⟩ :=
      ih _ (hrun.snoc (.call busy halive hi)) hphase
        (fun j hj => (Function.update_of_ne hj ..).trans (hothers j hj)) hret
    refine ⟨(s, .call i busy) :: trace', s', by simpa using hrun', ?_, ?_, hend, hidle, hconn⟩
    · rw [Prog.run_call, List.map_cons, hacts]
      rfl
    · refine List.forall_mem_cons.mpr ⟨fun _ j hj => ?_, hex⟩
      rw [hothers j hj]
      rintro ⟨_, _, h⟩
      cases h

/-- **A program that runs by itself does not overlap with any other**: after
a run that has left all threads idle, one of them can run a program to its
end. The run goes on with exactly these steps, all of them exclusive, and
leaves the connection that the program leaves when it runs by itself. -/
theorem Runs.alone {s₀ : Shared ι ε α} {trace : List (Shared ι ε α × Act ι O)}
    (hrun : Runs cat prog s₀ trace s) (hidle : ∀ j, s.phase j = .idle) (i : ι) (o : O)
    (busy : Bool) {a : α} (hret : ((prog o).run cat busy s.conn).outcome = .returned a) :
    ∃ trace' s', Runs cat prog s₀ (trace ++ trace') s'
      ∧ trace'.map Prod.snd = aloneActs i o busy ((prog o).run cat busy s.conn).trace.length
      ∧ (∀ x ∈ trace', x.1.Exclusive x.2) ∧ (∀ j, s'.phase j = .idle)
      ∧ s'.conn = ((prog o).run cat busy s.conn).conn := by
  have halive : s.Alive := fun j => by rw [hidle j]; nofun
  have hready : (Function.update s.phase i (.ready (prog o)) i).prog? = some (prog o) := by
    rw [Function.update_self]
    rfl
  obtain ⟨calls, s₁, hrun₁, hacts, hex, hend, hothers, hconn⟩ :=
    (hrun.snoc (.enter o halive (hidle i))).calls_alone busy hready
      (fun j hj => (Function.update_of_ne hj ..).trans (hidle j)) hret
  have hleft := hrun₁.snoc (.leave (alive_of_others_idle hend nofun hothers) hend (.ret a))
  refine ⟨(s, .enter i o) :: (calls ++ [(s₁, .leave i)]),
    { s₁ with phase := Function.update s₁.phase i .idle }, by simpa using hleft, ?_, ?_, ?_, hconn⟩
  · rw [List.map_cons, List.map_append, hacts]
    rfl
  · refine List.forall_mem_cons.mpr ⟨trivial, fun x hx => ?_⟩
    rcases List.mem_append.mp hx with hx | hx
    · exact hex x hx
    · rw [List.mem_singleton.mp hx]
      trivial
  · intro j
    show Function.update s₁.phase i .idle j = .idle
    by_cases hj : j = i
    · rw [hj, Function.update_self]
    · rw [Function.update_of_ne hj, hothers j hj]

end Shared

end Sql
