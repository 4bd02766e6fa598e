import RctAutomation.Sql.File

/-!
# Transactions on connections of their own

A program in one transaction opens it first, returns once it has committed, raises an
exception once it has rolled back, and ends with the process otherwise
(`Prog.Transaction`). Any number of threads can run such programs at the same
time. When no two of them use the same connection, the file changes as if they ran
one after the other: a program takes effect when it returns, all at once, and as it
does when it is run alone on what the file holds then (`Users.serial_of_run`).

The reason is in two parts. Until a program has written something, nothing it was
answered depends on the contents, so they may be those of the moment when it writes.
From then on no other connection can change them.
-/

namespace Sql

variable {ε α κ ι O : Type}

/-! ## Programs in one transaction -/

namespace Prog

/-- **A program inside its transaction**: it returns if it commits, raises if
it rolls back, as it does when it cannot commit, and gives up if another
connection is writing. The constructors are those of `Prog.Inside`, with what
the program does next said of each. -/
inductive Working : Prog ε α → Prop
  | abort : Working .abort
  | commit {next : Code → Prog ε α} (a : α) (hok : next .ok = .ret a)
    (hno : ∀ r, r ≠ .ok →
      ∃ e next', next r = .call (.exec .rollback) next' ∧ next' .ok = .raise e) :
    Working (.call (.exec .commit) next)
  | rollback {next : Code → Prog ε α} (e : ε) (hok : next .ok = .raise e) :
    Working (.call (.exec .rollback) next)
  | prepare {sql : List Token} {next : Option Prepared → Prog ε α} (h : ∀ r, Working (next r)) :
    Working (.call (.prepare sql) next)
  | step {p : Prepared} {next : Code → Prog ε α} (hbusy : next .busy = .abort)
    (h : ∀ r, Working (next r)) : Working (.call (.step p) next)
  | lastInsertRowid {next : ℤ → Prog ε α} (h : ∀ r, Working (next r)) :
    Working (.call .lastInsertRowid next)

/-- **A program in one transaction**, or one that makes no calls. It gives up
where it cannot begin, so nothing it does lies outside of its transaction. -/
inductive Transaction : Prog ε α → Prop
  | ended {p : Prog ε α} (h : Ended p) : Transaction p
  | begin {next : Code → Prog ε α} (hok : Working (next .ok))
    (hno : ∀ r, r ≠ .ok → next r = .abort) : Transaction (.call (.exec .begin) next)

end Prog

variable {cat : Catalog} {busy : Bool}

namespace Conn

variable {c : Conn} {old : Db}

theorem exec_begin (hs : c.saved = none) :
    Conn.exec cat busy .begin c = (.ok, { c with saved := some c.db }) := by
  obtain ⟨db, saved, lastRowid⟩ := c
  subst hs
  rfl

/-- A transaction begins only where none is open. -/
theorem exec_begin_open (hs : c.saved = some old) :
    Conn.exec cat busy .begin c = (.error, c) := by
  obtain ⟨db, saved, lastRowid⟩ := c
  subst hs
  rfl

theorem exec_rollback (hs : c.saved = some old) :
    Conn.exec cat busy .rollback c = (.ok, { c with db := old, saved := none }) := by
  obtain ⟨db, saved, lastRowid⟩ := c
  subst hs
  rfl

/-- A commit is accepted as it is where no other connection is busy, or
leaves the connection as it was. It is refused for another one that is busy,
or for deferred keys that are not met. -/
theorem exec_commit (cat : Catalog) (busy : Bool) (hs : c.saved = some old) :
    (Conn.exec cat busy .commit c = (.ok, { c with saved := none })
        ∧ Conn.exec cat false .commit c = (.ok, { c with saved := none }))
      ∨ ((Conn.exec cat busy .commit c).1 ≠ .ok ∧ (Conn.exec cat busy .commit c).2 = c) := by
  obtain ⟨db, saved, lastRowid⟩ := c
  subst hs
  by_cases horphans : cat.orphans true old < cat.orphans true db
  · right
    unfold Conn.exec
    dsimp only
    rw [if_pos horphans]
    split <;> exact ⟨nofun, rfl⟩
  · cases busy with
    | true => exact Or.inr ⟨nofun, rfl⟩
    | false =>
      have hexec : Conn.exec cat false .commit ⟨db, some old, lastRowid⟩
          = (.ok, ⟨db, none, lastRowid⟩) := by
        unfold Conn.exec
        dsimp only
        rw [if_neg horphans]
        rfl
      exact Or.inl ⟨hexec, hexec⟩

end Conn

/-- **What is left of a program**: to run `p'` from `c'` is to go on with `p`
from `c`. Both come to the same end and leave the same connection, whether it
may commit or not. -/
def GoesOn (cat : Catalog) (p : Prog ε α) (c : Conn) (p' : Prog ε α) (c' : Conn) : Prop :=
  ∀ busy, (p.run cat busy c).outcome = (p'.run cat busy c').outcome
    ∧ (p.run cat busy c).conn = (p'.run cat busy c').conn

/-- It goes on with the answer to a call. That of a commit depends on the others. -/
theorem GoesOn.call {p : Prog ε α} {c c' : Conn} {k : Call} {next : k.Reply → Prog ε α}
    (h : GoesOn cat p c (.call k next) c') (hk : k ≠ .exec .commit) (busy : Bool) :
    GoesOn cat p c (next (Conn.answer cat busy k c').1) (Conn.answer cat busy k c').2 := by
  intro b
  have hsame : Conn.answer cat busy k c' = Conn.answer cat b k c' := by
    cases k with
    | exec t =>
      cases t with
      | commit => exact absurd rfl hk
      | _ => rfl
    | _ => rfl
  rw [hsame]
  exact h b

/-! ## Calls on other connections -/

namespace File

variable [DecidableEq κ] {f : File κ} {k k' : κ}

/-- A connection sees its own file. -/
theorem conn_of_begun (hbegun : f.begun k = true) (hwritten : f.written k = none) :
    f.conn k = ⟨f.db, some f.db, f.lastRowid k⟩ := by
  unfold conn
  rw [hbegun, hwritten]
  rfl

theorem conn_of_writer {db : Db} (h : f.writer = some (k, db)) :
    f.conn k = ⟨db, some f.db, f.lastRowid k⟩ := by
  unfold conn
  rw [written_of_writer h]
  simp

/-- A connection in a transaction leaves the contents of the file. -/
theorem put_db_of_open (f : File κ) {c : Conn} {old : Db} (hs : c.saved = some old)
    (writes : Bool) : (f.put k c writes).db = f.db := by
  show (if c.saved.isSome then f.db else c.db) = f.db
  rw [hs]
  rfl

/-- A connection in a transaction that is left as it was stays in it. -/
theorem put_saved (f : File κ) {old : Db} (hs : (f.conn k).saved = some old) :
    ((f.put k (f.conn k) false).conn k).saved = some (f.put k (f.conn k) false).db := by
  have hbegun : (f.put k (f.conn k) false).begun k = true := by
    show Function.update f.begun k (f.conn k).saved.isSome k = true
    rw [Function.update_self, hs]
    rfl
  show (if (f.put k (f.conn k) false).begun k || _ then _ else none) = _
  rw [hbegun]
  rfl

/-- **What a call on another connection leaves of this one**: all but the
contents of the file, and those too once this one has written something. -/
structure Frame (k : κ) (f f' : File κ) : Prop where
  begun : f'.begun k = f.begun k
  lastRowid : f'.lastRowid k = f.lastRowid k
  written : f'.written k = f.written k
  db : f.written k ≠ none → f'.db = f.db

theorem Frame.refl (k : κ) (f : File κ) : Frame k f f := ⟨rfl, rfl, rfl, fun _ => rfl⟩

/-- The connections that are not the one that is used have not written other
contents than before. -/
theorem written_put (hne : k' ≠ k) (c : Conn) {writes : Bool}
    (hnone : writes = true → f.written k = none) : (f.put k' c writes).written k = f.written k := by
  obtain ⟨db, saved, lastRowid⟩ := c
  have hfilter : (f.put k' ⟨db, none, lastRowid⟩ writes).written k = f.written k := by
    show ((f.writer.filter fun x => x.1 ≠ k').filter fun x => x.1 = k).map Prod.snd
      = (f.writer.filter fun x => x.1 = k).map Prod.snd
    rw [Option.filter_filter]
    congr 2
    funext x
    by_cases hx : x.1 = k
    · subst hx
      simp [hne.symm]
    · simp [hx]
  cases saved with
  | none => exact hfilter
  | some old =>
    cases writes with
    | false => rfl
    | true =>
      rw [hnone rfl]
      show (File.written _ k : Option Db) = none
      exact written_of_other rfl hne

/-- **A call on another connection.** What it is does not matter: where this
connection has written something, the other one finds the database busy; and
where it has not, it sees what the file has. -/
theorem frame_answer (hne : k' ≠ k) (c : Call) (f : File κ) :
    Frame k f (File.answer cat busy k' c f).2 := by
  cases c with
  | prepare sql => exact .refl k f
  | lastInsertRowid => exact .refl k f
  | exec t =>
    show Frame k f (f.put k' (Conn.exec cat busy t (f.conn k')).2 false)
    refine ⟨Function.update_of_ne hne.symm .., Function.update_of_ne hne.symm ..,
      written_put hne _ nofun, fun hwritten => ?_⟩
    obtain ⟨db, hdb⟩ := Option.ne_none_iff_exists'.mp hwritten
    -- this connection is writing, so the other one has not
    have hsame : (f.conn k').db = f.db := by
      show (f.written k').getD f.db = f.db
      rw [written_of_other (writer_of_written hdb) hne.symm]
      rfl
    show (if (Conn.exec cat busy t (f.conn k')).2.saved.isSome then f.db
      else (Conn.exec cat busy t (f.conn k')).2.db) = f.db
    rw [exec_db ((durable_conn f k').trans hsame.symm), hsame, ite_self]
  | step p =>
    show Frame k f (if f.locked k' then (Code.busy, f) else _ : Code × File κ).2
    split
    · exact .refl k f
    · rename_i hlocked
      have hnone : f.written k = none := by
        by_contra hwritten
        obtain ⟨db, hdb⟩ := Option.ne_none_iff_exists'.mp hwritten
        refine hlocked ?_
        unfold locked
        rw [writer_of_written hdb]
        exact decide_eq_true hne.symm
      exact ⟨Function.update_of_ne hne.symm .., Function.update_of_ne hne.symm ..,
        written_put hne _ fun _ => hnone, fun h => absurd hnone h⟩

/-- **The loss of other connections**, with whatever they have written. -/
theorem frame_lose (f : File κ) {lost : κ → Bool} (hk : lost k = false) :
    Frame k f (f.lose lost) := by
  refine ⟨?_, ?_, ?_, fun _ => rfl⟩
  · show (f.begun k && !lost k) = f.begun k
    rw [hk, Bool.not_false, Bool.and_true]
  · show (if lost k then 0 else f.lastRowid k) = f.lastRowid k
    rw [hk]
    rfl
  · show ((f.writer.filter fun x => !lost x.1).filter fun x => x.1 = k).map Prod.snd
      = (f.writer.filter fun x => x.1 = k).map Prod.snd
    rw [Option.filter_filter]
    congr 2
    funext x
    by_cases hx : x.1 = k
    · subst hx
      simp [hk]
    · simp [hx]

/-- **Other contents**, while no connection is writing. -/
theorem frame_load (hw : f.writer = none) (db : Db) : Frame k f (f.load db) := by
  have hnone : f.written k = none := by
    unfold written
    rw [hw]
    rfl
  exact ⟨rfl, rfl, rfl, fun h => absurd hnone h⟩

end File

/-- What a program that is over has returned. -/
def Prog.ret? : Prog ε α → Option α
  | .ret a => some a
  | _ => none

/-! ## Where the threads are -/

/-- **How far a thread has come with its program**: it has not begun, or has
ended; it has begun its transaction; it has written something; or it could
not commit.

A thread that has begun and not written anything could have begun on any
contents: this is what `hrest` says of it, for every `db`. Once it has
written, it is in the middle of a run from the contents that the file holds. -/
inductive Activity.At [DecidableEq κ] (cat : Catalog) (prog : O → Prog ε α) (f : File κ)
    (x : Activity κ O ε α) : Prop
  | ended (h : x.prog.Ended)
  | ready (h : x.prog = prog x.op)
  | begun (h : x.prog.Working) (hbegun : f.begun x.conn = true) (hwritten : f.written x.conn = none)
      (rowid : ℤ) (hrest : ∀ db, GoesOn cat (prog x.op) ⟨db, none, rowid⟩ x.prog
        ⟨db, some db, f.lastRowid x.conn⟩)
  | writing (h : x.prog.Working) (db : Db) (hwritten : f.written x.conn = some db) (rowid : ℤ)
      (hrest : GoesOn cat (prog x.op) ⟨f.db, none, rowid⟩ x.prog
        ⟨db, some f.db, f.lastRowid x.conn⟩)
  | refused {next : Code → Prog ε α} (h : x.prog = .call (.exec .rollback) next) (e : ε)
      (hok : next .ok = .raise e) (hopen : (f.conn x.conn).saved ≠ none)

/-- **What a program leaves when it is run alone** on some contents, and
returns. No transaction is open when it starts, and nothing keeps it from
committing. -/
def Prog.Leaves (cat : Catalog) (p : Prog ε α) (db : Db) (a : α) (db' : Db) : Prop :=
  ∃ rowid, (p.run cat false ⟨db, none, rowid⟩).outcome = .returned a
    ∧ (p.run cat false ⟨db, none, rowid⟩).conn.db = db'

/-- A call that a program has made: the file stays what it was, or the
program returned, and then it has done to the file at once what it does when
it is run alone on it. -/
def Activity.Done [DecidableEq κ] (cat : Catalog) (prog : O → Prog ε α) (f : File κ)
    (x : Activity κ O ε α) (f' : File κ) : Prop :=
  x.At cat prog f' ∧
    ((f'.db = f.db ∧ ∀ a, x.prog ≠ .ret a)
      ∨ ∃ a, x.prog = .ret a ∧ (prog x.op).Leaves cat f.db a f'.db)

namespace Activity

variable [DecidableEq κ] {prog : O → Prog ε α} {f f' : File κ} {x : Activity κ O ε α} {k : κ}
  {o : O}

/-- **A call on another connection** leaves a thread where it was, by the
cases of how far it has come: only one that has written depends on the
contents, and these do not change then. -/
theorem At.frame (h : x.At cat prog f) (hframe : File.Frame x.conn f f') : x.At cat prog f' := by
  cases h with
  | ended h => exact .ended h
  | ready h => exact .ready h
  | begun h hbegun hwritten rowid hrest =>
    exact .begun h (hframe.begun.trans hbegun) (hframe.written.trans hwritten) rowid
      (hframe.lastRowid ▸ hrest)
  | writing h db hwritten rowid hrest =>
    have hdb : f'.db = f.db := hframe.db (hwritten ▸ Option.some_ne_none db)
    refine .writing h db (hframe.written.trans hwritten) rowid ?_
    rw [hdb, hframe.lastRowid]
    exact hrest
  | refused h e hok hopen =>
    refine .refused h e hok ?_
    unfold File.conn at hopen ⊢
    dsimp only at hopen ⊢
    rw [hframe.begun, hframe.written]
    by_cases hcond : (f.begun x.conn || (f.written x.conn).isSome) = true
    · rw [if_pos hcond]
      exact Option.some_ne_none _
    · rw [if_neg hcond] at hopen
      exact absurd rfl hopen

/-- It did not return. -/
theorem Done.of_at {p : Prog ε α} (h : Activity.At cat prog f' ⟨k, o, p⟩) (hdb : f'.db = f.db)
    (hp : ∀ a, p ≠ .ret a) : Activity.Done cat prog f ⟨k, o, p⟩ f' :=
  ⟨h, Or.inl ⟨hdb, hp⟩⟩

theorem ne_ret_of_working {p : Prog ε α} (h : p.Working) (a : α) : p ≠ .ret a := by
  rintro rfl
  cases h

/-- **A program begins its transaction**, or gives up where one is open.
Nothing depends on the contents yet, so they may be any. What it does from
there on is done to the contents that it finds at its first write. -/
theorem Done.begin {next : Code → Prog ε α} (hprog : prog o = .call (.exec .begin) next)
    (hok : (next .ok).Working) (hno : ∀ r, r ≠ .ok → next r = .abort) :
    Activity.Done cat prog f ⟨k, o, next (File.answer cat busy k (.exec .begin) f).1⟩
      (File.answer cat busy k (.exec .begin) f).2 := by
  show Activity.Done cat prog f ⟨k, o, next (Conn.exec cat busy .begin (f.conn k)).1⟩
    (f.put k (Conn.exec cat busy .begin (f.conn k)).2 false)
  cases hsaved : (f.conn k).saved with
  | some old =>
    rw [Conn.exec_begin_open hsaved]
    refine .of_at (.ended ?_) (f.put_db_of_open hsaved false) fun a => ?_
    · exact (hno .error nofun).symm ▸ .abort
    · exact (hno .error nofun).symm ▸ nofun
  | none =>
    rw [Conn.exec_begin hsaved]
    have hnone : f.written k = none := by
      by_contra hw
      obtain ⟨db, hdb⟩ := Option.ne_none_iff_exists'.mp hw
      rw [File.conn_of_writer (File.writer_of_written hdb)] at hsaved
      cases hsaved
    refine .of_at (.begun hok (Function.update_self ..) hnone (f.lastRowid k) fun db => ?_) rfl
      (ne_ret_of_working hok)
    have hlast : Function.update f.lastRowid k (f.lastRowid k) k = f.lastRowid k :=
      Function.update_self ..
    show GoesOn cat (prog o) ⟨db, none, f.lastRowid k⟩ (next .ok)
      ⟨db, some db, Function.update f.lastRowid k (f.lastRowid k) k⟩
    rw [hlast, hprog]
    exact fun _ => ⟨rfl, rfl⟩

/-- **A program rolls back** and raises its exception. The file keeps what it
held, since only a commit writes into it. -/
theorem Done.rollback {next : Code → Prog ε α} {e : ε} (hok : next .ok = .raise e)
    (hopen : (f.conn k).saved ≠ none) :
    Activity.Done cat prog f ⟨k, o, next (File.answer cat busy k (.exec .rollback) f).1⟩
      (File.answer cat busy k (.exec .rollback) f).2 := by
  show Activity.Done cat prog f ⟨k, o, next (Conn.exec cat busy .rollback (f.conn k)).1⟩
    (f.put k (Conn.exec cat busy .rollback (f.conn k)).2 false)
  obtain ⟨old, hsaved⟩ := Option.ne_none_iff_exists'.mp hopen
  have hold : old = f.db := by
    rw [← File.durable_conn f k]
    unfold Conn.durable
    rw [hsaved]
    rfl
  rw [Conn.exec_rollback hsaved]
  refine .of_at (.ended ?_) hold fun a => ?_
  · exact hok.symm ▸ .raise e
  · exact hok.symm ▸ nofun

/-- **A program commits**, all at once, and returns; or it cannot, and has to
roll back. In the first case the file holds what the program leaves when it
is run alone on what the file held before. -/
theorem Done.commit {next : Code → Prog ε α} {a : α} (hok : next .ok = .ret a)
    (hno : ∀ r, r ≠ .ok →
      ∃ e next', next r = .call (.exec .rollback) next' ∧ next' .ok = .raise e)
    (hsaved : (f.conn k).saved = some f.db) {rowid : ℤ}
    (hrest : GoesOn cat (prog o) ⟨f.db, none, rowid⟩ (.call (.exec .commit) next) (f.conn k)) :
    Activity.Done cat prog f ⟨k, o, next (File.answer cat busy k (.exec .commit) f).1⟩
      (File.answer cat busy k (.exec .commit) f).2 := by
  show Activity.Done cat prog f ⟨k, o, next (Conn.exec cat busy .commit (f.conn k)).1⟩
    (f.put k (Conn.exec cat busy .commit (f.conn k)).2 false)
  rcases Conn.exec_commit cat busy hsaved with ⟨hexec, halone⟩ | ⟨hcode, hconn⟩
  · rw [hexec]
    refine ⟨.ended (hok.symm ▸ .ret a), Or.inr ⟨a, hok, rowid, ?_⟩⟩
    obtain ⟨houtcome, hconn⟩ := hrest false
    rw [houtcome, hconn]
    show ((next (Conn.exec cat false .commit (f.conn k)).1).run cat false
        (Conn.exec cat false .commit (f.conn k)).2).outcome = _
      ∧ ((next (Conn.exec cat false .commit (f.conn k)).1).run cat false
        (Conn.exec cat false .commit (f.conn k)).2).conn.db = _
    rw [halone, hok]
    exact ⟨rfl, rfl⟩
  · obtain ⟨e, next', hnext, hraise⟩ := hno _ hcode
    rw [hconn]
    refine .of_at (.refused hnext e hraise ?_) (f.put_db_of_open hsaved false) (hnext.symm ▸ nofun)
    rw [f.put_saved hsaved]
    exact Option.some_ne_none _

/-- **A program steps a statement** in its transaction, or gives up where
another connection is writing. From here on it is writing itself, so the
contents it has worked on are those of the file. -/
theorem Done.step {p : Prepared} {next : Code → Prog ε α} (hbusy : next .busy = .abort)
    (h : ∀ r, (next r).Working) (hsaved : (f.conn k).saved = some f.db) {rowid : ℤ}
    (hrest : GoesOn cat (prog o) ⟨f.db, none, rowid⟩ (.call (.step p) next) (f.conn k)) :
    Activity.Done cat prog f ⟨k, o, next (File.answer cat busy k (.step p) f).1⟩
      (File.answer cat busy k (.step p) f).2 := by
  by_cases hlocked : f.locked k = true
  · have hanswer : File.answer cat busy k (.step p) f = (.busy, f) := if_pos hlocked
    rw [hanswer]
    exact .of_at (.ended (hbusy.symm ▸ .abort)) rfl (hbusy.symm ▸ nofun)
  · have hanswer : File.answer cat busy k (.step p) f = ((Conn.step cat p (f.conn k)).1,
        f.put k (Conn.step cat p (f.conn k)).2 true) := if_neg hlocked
    have hopen : (Conn.step cat p (f.conn k)).2.saved = some f.db :=
      (Conn.step_saved cat p _).trans hsaved
    have hdb := f.put_db_of_open (k := k) hopen true
    rw [hanswer]
    refine .of_at (.writing (h _) (Conn.step cat p (f.conn k)).2.db ?_ rowid ?_) hdb
      (ne_ret_of_working (h _))
    · refine File.written_of_writer ?_
      show (if (Conn.step cat p (f.conn k)).2.saved.isSome then _ else _) = _
      rw [hopen]
      rfl
    · have hlast : (f.put k (Conn.step cat p (f.conn k)).2 true).lastRowid k
          = (Conn.step cat p (f.conn k)).2.lastRowid := Function.update_self ..
      rw [hdb, hlast, ← hopen]
      exact hrest.call nofun busy

/-- **A thread makes its next call**, where no one else uses its connection.
This puts the cases above together: how far the thread has come says which
calls it can make. -/
theorem At.call (hprog : ∀ o, (prog o).Transaction) {c : Call} {next : c.Reply → Prog ε α}
    (h : Activity.At cat prog f ⟨k, o, .call c next⟩) :
    Activity.Done cat prog f ⟨k, o, next (File.answer cat busy k c f).1⟩
      (File.answer cat busy k c f).2 := by
  cases h with
  | ended h => cases h
  | ready h =>
    have htransaction := hprog o
    rw [← (show Prog.call c next = prog o from h)] at htransaction
    cases htransaction with
    | ended h => cases h
    | begin hok hno => exact .begin h.symm hok hno
  | begun hworking hbegun hwritten rowid hrest =>
    have hconn := File.conn_of_begun hbegun hwritten
    have hrest' := hrest f.db
    rw [← hconn] at hrest'
    have hsaved : (f.conn k).saved = some f.db := hconn ▸ rfl
    cases hworking with
    | commit a hok hno => exact .commit hok hno hsaved hrest'
    | rollback e hok => exact .rollback hok (hsaved ▸ Option.some_ne_none _)
    | step hbusy h => exact .step hbusy h hsaved hrest'
    | prepare h =>
      exact .of_at (.begun (h _) hbegun hwritten rowid fun db => (hrest db).call nofun busy) rfl
        (ne_ret_of_working (h _))
    | lastInsertRowid h =>
      exact .of_at (.begun (h _) hbegun hwritten rowid fun db => (hrest db).call nofun busy) rfl
        (ne_ret_of_working (h _))
  | writing hworking db hwritten rowid hrest =>
    have hconn := File.conn_of_writer (File.writer_of_written hwritten)
    have hrest' := hrest
    rw [← hconn] at hrest'
    have hsaved : (f.conn k).saved = some f.db := hconn ▸ rfl
    cases hworking with
    | commit a hok hno => exact .commit hok hno hsaved hrest'
    | rollback e hok => exact .rollback hok (hsaved ▸ Option.some_ne_none _)
    | step hbusy h => exact .step hbusy h hsaved hrest'
    | prepare h =>
      exact .of_at (.writing (h _) db hwritten rowid (hrest.call nofun busy)) rfl
        (ne_ret_of_working (h _))
    | lastInsertRowid h =>
      exact .of_at (.writing (h _) db hwritten rowid (hrest.call nofun busy)) rfl
        (ne_ret_of_working (h _))
  | refused h e hok hopen =>
    cases h
    exact .rollback hok hopen

end Activity

/-! ## Runs -/

namespace Users

variable [DecidableEq ι] [DecidableEq κ] {prog : O → Prog ε α} {boot : Db → Db}
  {s s' : Users ι κ O ε α} {a : Act ι κ O} {trace : List (Users ι κ O ε α × Act ι κ O)}

/-- **No two threads that have calls to make use the same connection.** A
thread whose program has ended may still hold on to its connection. -/
def Apart (s : Users ι κ O ε α) : Prop :=
  ∀ i j x y, i ≠ j → s.doing i = some x → s.doing j = some y → ¬x.prog.Ended → ¬y.prog.Ended →
    x.conn ≠ y.conn

/-- **Threads that have connections of their own are apart**, wherever they
are in their programs. The connection of a thread is chosen when it enters a
program, so it is its own at all later steps. -/
theorem apart_of_own {own : ι → κ} (hinj : Function.Injective own) {db₀ : Db}
    (hrun : Transitions.Run (Step cat prog boot) (start db₀) trace s)
    (hown : ∀ x ∈ trace, ∀ i k o, x.2 = .enter i k o → k = own i) : ∀ x ∈ trace, x.1.Apart := by
  have hconn : ∀ x ∈ trace, ∀ i y, x.1.doing i = some y → y.conn = own i := by
    refine (hrun.invariant (fun s => ∀ i y, s.doing i = some y → y.conn = own i)
      (fun _ a => ∀ i k o, a = .enter i k o → k = own i) nofun (fun s a s' h hok hstep => ?_)
      hown).2
    have hupdate : ∀ j z, (∀ y, z = some y → y.conn = own j) →
        ∀ i y, Function.update s.doing j z i = some y → y.conn = own i := by
      intro j z hz i y hi
      by_cases hij : i = j
      · subst hij
        rw [Function.update_self] at hi
        exact hz y hi
      · rw [Function.update_of_ne hij] at hi
        exact h i y hi
    cases hstep with
    | @enter i k o hi =>
      refine hupdate i _ fun y hy => ?_
      obtain rfl := Option.some.inj hy
      exact hok i k o rfl
    | @call i busy k o c next hi =>
      refine hupdate i _ fun y hy => ?_
      obtain rfl := Option.some.inj hy
      exact (h i _ hi : k = own i)
    | leave hi hx => exact hupdate _ none nofun
    | die lost => exact fun i y hy => h i y (Option.filter_eq_some_iff.mp hy).1
    | boot hw => exact h
  intro x hx i j y z hij hi hj _ _ heq
  rw [hconn x hx i y hi, hconn x hx j z hj] at heq
  exact hij (hinj heq)

/-- Every thread is somewhere in its program. This is the invariant that a
run keeps while the threads are apart. -/
def Placed (cat : Catalog) (prog : O → Prog ε α) (s : Users ι κ O ε α) : Prop :=
  ∀ i x, s.doing i = some x → x.At cat prog s.file

/-- What took effect: an operation that returned something, or a start of a
process. An operation that raised or gave up, or whose process ended, is not
among them: it left no trace in the file. -/
inductive Effect (O α : Type)
  | returned (o : O) (a : α)
  | boot

/-- The effect of a step, if it has one: an operation takes effect with the
call after which it returns. -/
def effect (cat : Catalog) (s : Users ι κ O ε α) : Act ι κ O → Option (Effect O α)
  | .boot => some .boot
  | .call i busy =>
    match s.doing i with
    | some ⟨k, o, .call c next⟩ =>
      (next (File.answer cat busy k c s.file).1).ret?.map (.returned o)
    | _ => none
  | _ => none

omit [DecidableEq ι] in
theorem effect_call {i : ι} {k : κ} {o : O} {c : Call} {next : c.Reply → Prog ε α}
    (hi : s.doing i = some ⟨k, o, .call c next⟩) :
    effect cat s (.call i busy)
      = (next (File.answer cat busy k c s.file).1).ret?.map (.returned o) := by
  unfold effect
  dsimp only
  rw [hi]

/-- **One operation after the other**, each run alone from its first call to
its last, on the contents that the one before it left. -/
inductive Serial (cat : Catalog) (prog : O → Prog ε α) (boot : Db → Db) (db₀ : Db) :
    List (Effect O α) → Db → Prop
  | nil : Serial cat prog boot db₀ [] db₀
  | returned {es : List (Effect O α)} {db db' : Db} (h : Serial cat prog boot db₀ es db) (o : O)
      (a : α) (hrun : (prog o).Leaves cat db a db') :
      Serial cat prog boot db₀ (es ++ [.returned o a]) db'
  | boot {es : List (Effect O α)} {db : Db} (h : Serial cat prog boot db₀ es db) :
      Serial cat prog boot db₀ (es ++ [.boot]) (boot db)

/-- A thread goes to another place, and the others stay. -/
theorem Placed.update {f : File κ} {i : ι} {x : Option (Activity κ O ε α)}
    (hothers : ∀ j y, j ≠ i → s.doing j = some y → y.At cat prog f)
    (hx : ∀ y, x = some y → y.At cat prog f) :
    Placed cat prog ⟨f, Function.update s.doing i x⟩ := by
  intro j y hj
  replace hj : Function.update s.doing i x j = some y := hj
  by_cases hji : j = i
  · subst hji
    rw [Function.update_self] at hj
    exact hx y hj
  · rw [Function.update_of_ne hji] at hj
    exact hothers j y hji hj

/-- **A step of threads on connections of their own**: it takes effect as an
operation that is run alone, or leaves the contents of the file. Either way
every thread stays somewhere in its program. -/
theorem Placed.step (hprog : ∀ o, (prog o).Transaction) (h : s.Placed cat prog)
    (hapart : s.Apart) (hstep : Step cat prog boot s a s') :
    s'.Placed cat prog ∧ ∀ es db₀, Serial cat prog boot db₀ es s.file.db →
      Serial cat prog boot db₀ (es ++ (effect cat s a).toList) s'.file.db := by
  cases hstep with
  | @enter i k o hi =>
    refine ⟨.update (fun j y _ hj => h j y hj) fun y hy => ?_, fun es db₀ hserial => ?_⟩
    · obtain rfl := Option.some.inj hy
      exact .ready rfl
    · exact (List.append_nil es).symm ▸ hserial
  | @leave i x hi hx =>
    refine ⟨.update (fun j y _ hj => h j y hj) nofun, fun es db₀ hserial => ?_⟩
    exact (List.append_nil es).symm ▸ hserial
  | die lost =>
    refine ⟨fun i x hi => ?_, fun es db₀ hserial => (List.append_nil es).symm ▸ hserial⟩
    obtain ⟨hdoing, hkept⟩ := Option.filter_eq_some_iff.mp hi
    exact (h i x hdoing).frame (s.file.frame_lose (by simpa using hkept))
  | boot hw =>
    exact ⟨fun i x hi => (h i x hi).frame (File.frame_load hw _),
      fun es db₀ hserial => hserial.boot⟩
  | @call i busy k o c next hi =>
    have hdone : Activity.Done cat prog s.file
        ⟨k, o, next (File.answer cat busy k c s.file).1⟩ (File.answer cat busy k c s.file).2 :=
      (h i _ hi).call hprog
    have hothers : ∀ j y, j ≠ i → s.doing j = some y →
        y.At cat prog (File.answer cat busy k c s.file).2 := by
      intro j y hji hj
      by_cases hended : y.prog.Ended
      · exact .ended hended
      · have hne : k ≠ y.conn :=
          hapart i j _ y (Ne.symm hji) hi hj (Prog.not_ended_call c next) hended
        exact (h j y hj).frame (File.frame_answer hne c s.file)
    refine ⟨.update hothers fun y hy => ?_, fun es db₀ hserial => ?_⟩
    · obtain rfl := Option.some.inj hy
      exact hdone.1
    · rw [effect_call hi]
      rcases hdone.2 with ⟨hdb, hret⟩ | ⟨a, ha, hleaves⟩
      · dsimp only at hdb hret
        rw [hdb]
        cases hp : next (File.answer cat busy k c s.file).1 with
        | ret a => exact absurd hp (hret a)
        | raise e => exact (List.append_nil es).symm ▸ hserial
        | abort => exact (List.append_nil es).symm ▸ hserial
        | call c' next' => exact (List.append_nil es).symm ▸ hserial
      · dsimp only at ha
        rw [ha]
        exact hserial.returned o a hleaves

/-- **Threads on connections of their own change a file as if they ran one
after the other**: what it holds is what the operations that returned leave,
in the order in which they did, each run alone on what the one before left.
It includes runs in which databases are busy and processes end. -/
theorem serial_of_run (hprog : ∀ o, (prog o).Transaction) {db₀ : Db}
    (hrun : Transitions.Run (Step cat prog boot) (start db₀) trace s)
    (hapart : ∀ x ∈ trace, x.1.Apart) :
    Serial cat prog boot db₀ (trace.filterMap fun x => effect cat x.1 x.2) s.file.db := by
  have hwhole : s.Placed cat prog
      ∧ Serial cat prog boot db₀ (trace.filterMap fun x => effect cat x.1 x.2) s.file.db := by
    induction hrun with
    | nil => exact ⟨nofun, .nil⟩
    | @snoc trace s s' a hrun hstep ih =>
      obtain ⟨hplaced, hserial⟩ := ih fun x hx => hapart x (List.mem_append_left _ hx)
      obtain ⟨hnext, heffect⟩ := hplaced.step hprog
        (hapart (s, a) (List.mem_append_right _ (List.mem_singleton_self _))) hstep
      refine ⟨hnext, ?_⟩
      rw [List.filterMap_append]
      have hlast : [(s, a)].filterMap (fun x => effect cat x.1 x.2) = (effect cat s a).toList := by
        rw [List.filterMap_cons]
        cases effect cat s a <;> rfl
      rw [hlast]
      exact heffect _ _ hserial
  exact hwhole.2

end Users

end Sql
