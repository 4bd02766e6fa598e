import RctAutomation.Sql.Statement

/-!
# Connections and the programs that use them

A connection holds the contents it sees and, while a transaction is open, the
contents the transaction started from (`Conn.saved`). `Conn.answer` is what
SQLite answers to one call and how the call changes the connection: a
rollback restores what was saved, a commit is refused while it would leave
more orphans of a deferred key than the transaction found, and refusing it
leaves the transaction open.

A program is the tree of the calls it makes (`Prog`): each call is a node, and
the answer selects the subtree to go on with. The same tree can then be run by
itself (`Prog.run`) or one call at a time among the calls of others. A
program ends by returning, by raising an exception or by aborting the
process.
-/

namespace Sql

/-! ## Connections -/

/-- The statements about transactions. They are not prepared and bound like
the others, but executed at once. -/
inductive TxCmd
  | begin | commit | rollback
  deriving DecidableEq

/-- A call on a connection. Binding values is not among them, as it has no
effect outside the prepared statement. -/
inductive Call
  | exec (c : TxCmd)
  | prepare (sql : List Token)
  | step (p : Prepared)
  | lastInsertRowid
  deriving DecidableEq

/-- The type of the answer to a call. A text that does not prepare has no
statement for an answer. -/
abbrev Call.Reply : Call → Type
  | .exec _ => Code
  | .prepare _ => Option Prepared
  | .step _ => Code
  | .lastInsertRowid => ℤ

/-- A connection: the contents it sees, those it goes back to if the open
transaction is rolled back, and the key of the last row inserted. It has one
transaction at most, whoever opened it. -/
structure Conn where
  db : Db
  saved : Option Db
  lastRowid : ℤ

namespace Conn

variable (cat : Catalog)

/-- The effect of a statement about transactions. `busy` is whether another
connection keeps this one from committing. A commit that is refused leaves
the transaction open, for whatever reason it is refused. -/
def exec (busy : Bool) : TxCmd → Conn → Code × Conn
  | .begin, c =>
    match c.saved with
    | some _ => (.error, c)
    | none => (.ok, { c with saved := some c.db })
  | .commit, c =>
    match c.saved with
    | none => (.error, c)
    | some old =>
      if busy then (.busy, c)
      else if cat.orphans true old < cat.orphans true c.db then (.constraint, c)
      else (.ok, { c with saved := none })
  | .rollback, c =>
    match c.saved with
    | none => (.error, c)
    | some old => (.ok, { c with db := old, saved := none })

/-- The effect of one step of a statement that writes. Outside a transaction
the statement is its own, so the deferred keys are checked with it.

A row of a table with an integer key gives its key to `lastRowid`. Rows of other tables have
no number here, so they leave it as it is, where SQLite would give it a number of its own. -/
def step (p : Prepared) (c : Conn) : Code × Conn :=
  match cat.exec c.db p with
  | .error e => (e, c)
  | .ok (db', id) =>
    if c.saved.isNone && cat.orphans true c.db < cat.orphans true db' then (.constraint, c)
    else (.done, { c with db := db', lastRowid := id.getD c.lastRowid })

/-- **What SQLite answers to a call, and the connection after it.** This is
all that a program gets to know of the database while it writes. -/
def answer (busy : Bool) : (k : Call) → Conn → k.Reply × Conn
  | .exec t, c => exec cat busy t c
  | .prepare sql, c => (cat.prepare sql, c)
  | .step p, c => step cat p c
  | .lastInsertRowid, c => (c.lastRowid, c)

end Conn

/-- The code that finalizing or resetting a statement returns: the failure of
its last step, if it failed. So a failed statement is reported twice, and a
program that checks the second report can do so without having looked at the
first. -/
def finalizeCode : Code → Code
  | .ok | .row | .done => .ok
  | e => e

/-! ## Programs -/

/-- **A program over a connection**: it returns an `α`, raises an exception
carrying an `ε`, aborts the process, or makes a call and goes on with what
the answer selects. Only the calls are visible to others; what lies between
them is not. -/
inductive Prog (ε α : Type)
  | ret (a : α)
  | raise (e : ε)
  | abort
  | call (k : Call) (next : k.Reply → Prog ε α)

namespace Prog

variable {ε α β : Type}

/-- One program after another: the second gets what the first returns, and is
not run where the first raises or aborts. -/
protected def bind : Prog ε α → (α → Prog ε β) → Prog ε β
  | ret a, f => f a
  | raise e, _ => raise e
  | abort, _ => abort
  | call k next, f => call k (fun r => (next r).bind f)

instance : Monad (Prog ε) where
  pure := ret
  bind := Prog.bind

@[simp] theorem pure_eq (a : α) : (pure a : Prog ε α) = ret a := rfl

@[simp] theorem ret_bind (a : α) (f : α → Prog ε β) : (ret a >>= f) = f a := rfl

@[simp] theorem raise_bind (e : ε) (f : α → Prog ε β) : (raise e >>= f) = raise e := rfl

@[simp] theorem abort_bind (f : α → Prog ε β) : ((abort : Prog ε α) >>= f) = abort := rfl

@[simp] theorem call_bind (k : Call) (next : k.Reply → Prog ε α) (f : α → Prog ε β) :
    (call k next >>= f) = call k (fun r => next r >>= f) := rfl

/-- Sequencing is associative. -/
theorem bind_assoc {γ : Type} (p : Prog ε α) (f : α → Prog ε β) (g : β → Prog ε γ) :
    (p >>= f) >>= g = p >>= fun a => f a >>= g := by
  induction p with
  | ret a => rfl
  | raise e => rfl
  | abort => rfl
  | call k next ih =>
    simp only [call_bind]
    exact congrArg (call k) (funext ih)

/-- One call, returning its answer. -/
def ask (k : Call) : Prog ε k.Reply := call k ret

@[simp] theorem ask_bind (k : Call) (f : k.Reply → Prog ε β) : (ask k >>= f) = call k f := rfl

/-- The process aborts unless the condition holds, as a failed `CHECK` does:
no exception is raised and nothing is rolled back. -/
def check (b : Bool) : Prog ε Unit := if b then ret () else abort

@[simp] theorem check_true : (check true : Prog ε Unit) = ret () := rfl

@[simp] theorem check_false : (check false : Prog ε Unit) = abort := rfl

end Prog

/-- How a program ended. An exception can be caught by whoever called it; an
aborted process ends for everyone. -/
inductive Outcome (ε α : Type)
  | returned (a : α)
  | raised (e : ε)
  | aborted

/-- The program has come to its end. -/
def Outcome.isReturned {ε α : Type} : Outcome ε α → Bool
  | .returned _ => true
  | _ => false

theorem Outcome.exists_of_isReturned {ε α : Type} {o : Outcome ε α} (h : o.isReturned = true) :
    ∃ a, o = .returned a := by
  cases o with
  | returned a => exact ⟨a, rfl⟩
  | _ => cases h

/-- A call with the answer it got. -/
abbrev Event := (k : Call) × k.Reply

/-- A completed run: its end, the connection after it, and its calls with
their answers, in order. -/
structure Run (ε α : Type) where
  outcome : Outcome ε α
  conn : Conn
  trace : List Event

/-- **Running a program by itself on a connection.** No other thread uses the
connection meanwhile; whether another connection is in the way of a commit is
`busy`. -/
def Prog.run {ε α : Type} (cat : Catalog) (busy : Bool) : Prog ε α → Conn → Run ε α
  | .ret a, c => ⟨.returned a, c, []⟩
  | .raise e, c => ⟨.raised e, c, []⟩
  | .abort, c => ⟨.aborted, c, []⟩
  | .call k next, c =>
    let (r, c') := Conn.answer cat busy k c
    let rest := (next r).run cat busy c'
    { rest with trace := ⟨k, r⟩ :: rest.trace }

/-- A run continued from the end of another. Where the first did not return,
its end is the end of both. -/
def Run.andThen {ε α β : Type} (r : Run ε α) (f : α → Conn → Run ε β) : Run ε β :=
  match r.outcome with
  | .returned a => { f a r.conn with trace := r.trace ++ (f a r.conn).trace }
  | .raised e => ⟨.raised e, r.conn, r.trace⟩
  | .aborted => ⟨.aborted, r.conn, r.trace⟩

namespace Prog

variable {ε α β : Type} (cat : Catalog) (busy : Bool)

@[simp] theorem run_ret (a : α) (c : Conn) :
    (ret a : Prog ε α).run cat busy c = ⟨.returned a, c, []⟩ := rfl

@[simp] theorem run_raise (e : ε) (c : Conn) :
    (raise e : Prog ε α).run cat busy c = ⟨.raised e, c, []⟩ := rfl

@[simp] theorem run_abort (c : Conn) :
    (abort : Prog ε α).run cat busy c = ⟨.aborted, c, []⟩ := rfl

theorem run_call (k : Call) (next : k.Reply → Prog ε α) (c : Conn) :
    (call k next).run cat busy c
      = { (next (Conn.answer cat busy k c).1).run cat busy (Conn.answer cat busy k c).2 with
          trace := ⟨k, (Conn.answer cat busy k c).1⟩
            :: ((next (Conn.answer cat busy k c).1).run cat busy
              (Conn.answer cat busy k c).2).trace } := rfl

/-- **A program in sequence runs in sequence.** With it a run is taken apart
at the calls of one function by another, and what is known of the callee is
used as a lemma. -/
theorem run_bind (p : Prog ε α) (f : α → Prog ε β) (c : Conn) :
    (p >>= f).run cat busy c = (p.run cat busy c).andThen (fun a c' => (f a).run cat busy c') := by
  induction p generalizing c with
  | ret a => rfl
  | raise e => rfl
  | abort => rfl
  | call k next ih =>
    rw [call_bind, run_call, run_call, ih]
    unfold Run.andThen
    dsimp only
    split <;> rfl

end Prog

end Sql
