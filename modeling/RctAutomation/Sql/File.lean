import RctAutomation.Runs
import RctAutomation.Sql.Interleave

/-!
# Connections that share a file

A database is a file, and any number of connections are open to it. What a
connection writes in a transaction only it sees, until it commits. While it
has written something and not committed, no other connection can write: their
statements find the database busy (`File.answer`). So a file is its contents and
the contents that one connection is about to replace them by.

A property of contents is an *invariant* of some statements when none of them
breaks it (`Catalog.Invariant`). Then it holds of a file in every run of any
number of threads that step such statements, on any connections, whatever they
do to each other's transactions, and also if some of them end in the middle of one
(`Users.Sound.run`).
-/

namespace Sql

variable {ε α κ ι O : Type}

/-! ## The statements of a program -/

/-- **A program steps statements of a kind only**, whatever it is answered.
The statements are named as prepared and bound ones, so the kind may speak of
their texts and of their values. -/
inductive Prog.Steps (cat : Catalog) (P : Prepared → Prop) : Prog ε α → Prop
  | ret (a : α) : Steps cat P (.ret a)
  | raise (e : ε) : Steps cat P (.raise e)
  | abort : Steps cat P .abort
  | exec {t : TxCmd} {next : Code → Prog ε α} (h : ∀ r, Steps cat P (next r)) :
    Steps cat P (.call (.exec t) next)
  | prepare {sql : List Token} {next : Option Prepared → Prog ε α}
    (h : Steps cat P (next (cat.prepare sql))) : Steps cat P (.call (.prepare sql) next)
  | step {p : Prepared} {next : Code → Prog ε α} (hp : P p) (h : ∀ r, Steps cat P (next r)) :
    Steps cat P (.call (.step p) next)
  | lastInsertRowid {next : ℤ → Prog ε α} (h : ∀ r, Steps cat P (next r)) :
    Steps cat P (.call .lastInsertRowid next)

variable {cat : Catalog} {P : Prepared → Prop} {I : Db → Prop} {busy : Bool}

/-- **A program in sequence steps what its parts do.** With it the kind of a
long program is found along its parts. -/
theorem Prog.Steps.bind {β : Type} {p : Prog ε α} {f : α → Prog ε β} (hp : p.Steps cat P)
    (hf : ∀ a, (f a).Steps cat P) : (p >>= f).Steps cat P := by
  induction hp with
  | ret a => exact hf a
  | raise e => exact .raise e
  | abort => exact .abort
  | exec _ ih => exact .exec ih
  | prepare _ ih => exact .prepare ih
  | step hp _ ih => exact .step hp ih
  | lastInsertRowid _ ih => exact .lastInsertRowid ih

/-- A statement that is stepped is of the kind. -/
theorem Prog.Steps.of_step {c : Call} {next : c.Reply → Prog ε α}
    (h : (Prog.call c next).Steps cat P) : ∀ p, c = .step p → P p := by
  rintro p rfl
  cases h with
  | step hp _ => exact hp

/-! ## One connection -/

/-- **What the statements keep**: an accepted one does not break it. Nothing
is asked of one that is refused, since it changes nothing. -/
def Catalog.Invariant (cat : Catalog) (P : Prepared → Prop) (I : Db → Prop) : Prop :=
  ∀ db db' p id, P p → I db → cat.exec db p = .ok (db', id) → I db'

/-- A statement that is accepted makes no orphans of the keys it is checked
for: it is refused if it would. The keys that are deferred are only checked
when the transaction ends. -/
theorem Catalog.orphans_of_exec {db db' : Db} {p : Prepared} {id : Option ℤ}
    (h : cat.exec db p = .ok (db', id)) : cat.orphans false db' ≤ cat.orphans false db := by
  have hchecked : ∀ db'' id', cat.checked db db'' id' = .ok (db', id) →
      cat.orphans false db' ≤ cat.orphans false db := by
    intro db'' id' h
    obtain ⟨rfl, -⟩ := Catalog.checked_ok h
    unfold Catalog.checked at h
    split at h
    · cases h
    · rename_i hle
      exact Nat.le_of_not_lt hle
  unfold Catalog.exec at h
  cases hstmt : p.stmt with
  | select s w =>
    rw [hstmt] at h
    cases h
    exact Nat.le_refl _
  | insert oc name cols =>
    rw [hstmt] at h
    dsimp only at h
    cases ht : cat.table? name with
    | none =>
      rw [ht] at h
      cases h
    | some t =>
      rw [ht] at h
      dsimp only at h
      cases hi : t.insert oc (db name) (t.toStore cat.fp (TableDef.assigned cols p.params)) with
      | error e =>
        rw [hi] at h
        cases h
      | ok res =>
        rw [hi] at h
        exact hchecked _ _ h
  | update name set w =>
    rw [hstmt] at h
    dsimp only at h
    cases ht : cat.table? name with
    | none =>
      rw [ht] at h
      cases h
    | some t =>
      rw [ht] at h
      dsimp only at h
      cases hu : t.update cat.fp (db name) set p.params w (p.params.getD set.length .null) with
      | error e =>
        rw [hu] at h
        cases h
      | ok tab =>
        rw [hu] at h
        exact hchecked _ _ h

/-- The contents that are left if the connection is lost: those that its transaction
started from. -/
def Conn.durable (c : Conn) : Db := c.saved.getD c.db

/-- **The contents of a connection are sound**: those it sees, and those that
are left if it is lost, which have no orphans of the deferred keys either.
While its transaction is open it may see such orphans. -/
structure Conn.Sound (cat : Catalog) (I : Db → Prop) (c : Conn) : Prop where
  seen : I c.db
  durable : I c.durable
  deferred : cat.orphans true c.durable = 0

/-- **A call keeps them sound**, also one that is refused. A commit makes
what is seen durable, and is refused while deferred keys are not met; a
rollback makes what is durable seen. -/
theorem Conn.Sound.answer (hI : cat.Invariant P I) {c : Conn} (h : c.Sound cat I) {k : Call}
    (hk : ∀ p, k = .step p → P p) : (Conn.answer cat busy k c).2.Sound cat I := by
  obtain ⟨db, saved, lastRowid⟩ := c
  cases k with
  | prepare sql => exact h
  | lastInsertRowid => exact h
  | exec t =>
    show (Conn.exec cat busy t _).2.Sound cat I
    cases saved with
    | none =>
      cases t with
      | begin => exact ⟨h.seen, h.seen, h.deferred⟩
      | commit => exact h
      | rollback => exact h
    | some old =>
      cases t with
      | begin => exact h
      | rollback => exact ⟨h.durable, h.durable, h.deferred⟩
      | commit =>
        unfold Conn.exec
        dsimp only
        split
        · exact h
        · split
          · exact h
          · rename_i hle
            have hzero : cat.orphans true old = 0 := h.deferred
            exact ⟨h.seen, h.seen, Nat.le_zero.mp (hzero ▸ Nat.le_of_not_lt hle)⟩
  | step p =>
    show (Conn.step cat p _).2.Sound cat I
    unfold Conn.step
    split
    · exact h
    · rename_i db' id hexec
      have hseen : I db' := hI _ _ p id (hk p rfl) h.seen hexec
      split
      · exact h
      · rename_i hle
        cases saved with
        | some old => exact ⟨hseen, h.durable, h.deferred⟩
        | none =>
          have hzero : cat.orphans true db = 0 := h.deferred
          simp only [Option.isNone_none, Bool.true_and, decide_eq_true_eq, not_lt] at hle
          exact ⟨hseen, hseen, Nat.le_zero.mp (hzero ▸ hle)⟩

/-- **And so does a program**, however it ends: it may return, raise or abort
with its transaction open. -/
theorem Conn.Sound.run (hI : cat.Invariant P I) {p : Prog ε α} (hp : p.Steps cat P) {c : Conn}
    (h : c.Sound cat I) : (p.run cat busy c).conn.Sound cat I := by
  induction hp generalizing c with
  | ret a => exact h
  | raise e => exact h
  | abort => exact h
  | @exec t next _ ih =>
    have hcall : (Conn.answer cat busy (.exec t) c).2.Sound cat I := h.answer hI nofun
    exact ih _ hcall
  | prepare _ ih => exact ih h
  | @step p next hp _ ih =>
    have hcall : (Conn.answer cat busy (.step p) c).2.Sound cat I := by
      refine h.answer hI fun p' hp' => ?_
      obtain rfl := Call.step.inj hp'
      exact hp
    exact ih _ hcall
  | lastInsertRowid _ ih => exact ih _ h

/-- **What the statements add to**: an accepted one takes the contents to
ones that are related to them. The relation is meant to be an order, such as
that no row is lost. -/
def Catalog.Extends (cat : Catalog) (P : Prepared → Prop) (I : Db → Prop) (R : Db → Db → Prop) :
    Prop :=
  ∀ db db' p id, P p → I db → cat.exec db p = .ok (db', id) → R db db'

section Extends

variable {R : Db → Db → Prop} [IsPreorder Db R]

/-- **A call adds to the contents of a connection**, where those it sees
added to those that are left if it is lost. A rollback goes back to the
latter, so what is durable never loses anything. -/
theorem Conn.Sound.extends_answer (hR : cat.Extends P I R) {c : Conn} (h : c.Sound cat I)
    (hahead : R c.durable c.db) {k : Call} (hk : ∀ p, k = .step p → P p) :
    R (Conn.answer cat busy k c).2.durable (Conn.answer cat busy k c).2.db
      ∧ R c.durable (Conn.answer cat busy k c).2.durable := by
  obtain ⟨db, saved, lastRowid⟩ := c
  have hsame : R (Conn.durable ⟨db, saved, lastRowid⟩) db
      ∧ R (Conn.durable ⟨db, saved, lastRowid⟩) (Conn.durable ⟨db, saved, lastRowid⟩) :=
    ⟨hahead, refl _⟩
  cases k with
  | prepare sql => exact hsame
  | lastInsertRowid => exact hsame
  | exec t =>
    show R (Conn.exec cat busy t _).2.durable (Conn.exec cat busy t _).2.db
      ∧ R _ (Conn.exec cat busy t _).2.durable
    cases saved with
    | none =>
      cases t with
      | begin => exact ⟨refl _, refl _⟩
      | commit => exact hsame
      | rollback => exact hsame
    | some old =>
      cases t with
      | begin => exact hsame
      | rollback => exact ⟨refl _, refl _⟩
      | commit =>
        unfold Conn.exec
        dsimp only
        split
        · exact hsame
        · split
          · exact hsame
          · exact ⟨refl _, hahead⟩
  | step p =>
    show R (Conn.step cat p _).2.durable (Conn.step cat p _).2.db
      ∧ R _ (Conn.step cat p _).2.durable
    unfold Conn.step
    split
    · exact hsame
    · rename_i db' id hexec
      have hnext : R db db' := hR _ _ p id (hk p rfl) h.seen hexec
      split
      · exact hsame
      · cases saved with
        | some old => exact ⟨IsTrans.trans _ _ _ hahead hnext, refl _⟩
        | none => exact ⟨refl _, hnext⟩

end Extends

/-! ## A file -/

/-- **A file with its connections.** Only one of them can have written
something that is not committed, and what it has written is not in the file
yet. -/
structure File (κ : Type) where
  /-- The contents of the file. -/
  db : Db
  /-- The connection that has written something and not committed, with the contents it
  sees. -/
  writer : Option (κ × Db)
  /-- The connections that have begun a transaction. -/
  begun : κ → Bool
  lastRowid : κ → ℤ

/-- A file that no connection has begun to use. -/
def File.closed (db : Db) : File κ := ⟨db, none, fun _ => false, fun _ => 0⟩

namespace File

variable [DecidableEq κ] {f : File κ} {k k' : κ}

/-- The contents that a connection has written, if it has. -/
def written (f : File κ) (k : κ) : Option Db :=
  (f.writer.filter fun x => x.1 = k).map Prod.snd

/-- **A connection, as it is used**: it sees what it has written, and what
the file holds otherwise. A transaction that has begun and written nothing
follows the file. -/
def conn (f : File κ) (k : κ) : Conn where
  db := (f.written k).getD f.db
  saved := if f.begun k || (f.written k).isSome then some f.db else none
  lastRowid := f.lastRowid k

/-- Another connection keeps this one from writing, until it commits or rolls
back or is lost. -/
def locked (f : File κ) (k : κ) : Bool := f.writer.any fun x => x.1 ≠ k

/-- The file after a connection was used: it holds what the connection has
committed, and remembers what it has written and not committed. -/
def put (f : File κ) (k : κ) (c : Conn) (writes : Bool) : File κ where
  db := if c.saved.isSome then f.db else c.db
  writer := if c.saved.isSome then (if writes then some (k, c.db) else f.writer)
    else f.writer.filter fun x => x.1 ≠ k
  begun := Function.update f.begun k c.saved.isSome
  lastRowid := Function.update f.lastRowid k c.lastRowid

/-- **What SQLite answers to a call on a connection, and the file after it.**
A statement that writes finds the database busy while another connection is
writing; everything else is answered by the connection itself. -/
def answer (cat : Catalog) (busy : Bool) (k : κ) : (c : Call) → File κ → c.Reply × File κ
  | .step p, f =>
    if f.locked k then (.busy, f)
    else ((Conn.step cat p (f.conn k)).1, f.put k (Conn.step cat p (f.conn k)).2 true)
  | .exec t, f =>
    ((Conn.exec cat busy t (f.conn k)).1, f.put k (Conn.exec cat busy t (f.conn k)).2 false)
  | .prepare sql, f => (cat.prepare sql, f)
  | .lastInsertRowid, f => (f.lastRowid k, f)

/-- The file after some connections were lost, with their transactions. What
they had not committed is gone, and no one has to roll it back. -/
def lose (f : File κ) (lost : κ → Bool) : File κ where
  db := f.db
  writer := f.writer.filter fun x => !lost x.1
  begun k := f.begun k && !lost k
  lastRowid k := if lost k then 0 else f.lastRowid k

/-- The file after its contents were replaced while no connection was writing. -/
def load (f : File κ) (db : Db) : File κ := { f with db := db }

/-! ### What a connection sees -/

theorem written_of_writer {db : Db} (h : f.writer = some (k, db)) : f.written k = some db := by
  unfold written
  rw [h]
  simp [Option.filter]

theorem written_of_other {db : Db} (h : f.writer = some (k', db)) (hne : k' ≠ k) :
    f.written k = none := by
  unfold written
  rw [h]
  simp [Option.filter, hne]

theorem writer_of_written {db : Db} (h : f.written k = some db) : f.writer = some (k, db) := by
  obtain ⟨⟨k', db'⟩, hfilter, rfl⟩ := Option.map_eq_some_iff.mp h
  obtain ⟨hwriter, hk⟩ := Option.filter_eq_some_iff.mp hfilter
  obtain rfl : k' = k := of_decide_eq_true hk
  exact hwriter

/-- What is left if a connection is lost is what the file holds. -/
@[simp] theorem durable_conn (f : File κ) (k : κ) : (f.conn k).durable = f.db := by
  show (if _ then some f.db else none : Option Db).getD ((f.written k).getD f.db) = f.db
  split
  · rfl
  · rename_i hnone
    simp only [Bool.or_eq_true, not_or, Bool.not_eq_true, Option.isSome_eq_false_iff,
      Option.isNone_iff_eq_none] at hnone
    rw [hnone.2]
    rfl

/-- A statement about transactions changes nothing on a connection that has written
nothing. -/
theorem exec_db {c : Conn} (h : c.durable = c.db) (t : TxCmd) :
    (Conn.exec cat busy t c).2.db = c.db := by
  obtain ⟨db, saved, lastRowid⟩ := c
  cases saved with
  | none => cases t <;> rfl
  | some old =>
    obtain rfl : old = db := h
    cases t with
    | begin => rfl
    | rollback => rfl
    | commit =>
      unfold Conn.exec
      dsimp only
      split
      · rfl
      · split <;> rfl

/-! ### What is kept -/

/-- **The contents of a file are sound**: those on the disk, where the
deferred keys hold too, and those that are about to replace them. -/
structure Sound (cat : Catalog) (I : Db → Prop) (f : File κ) : Prop where
  disk : I f.db
  deferred : cat.orphans true f.db = 0
  written : ∀ k db, f.writer = some (k, db) → I db

omit [DecidableEq κ] in
theorem sound_closed {db : Db} (h : I db) (hdeferred : cat.orphans true db = 0) :
    (File.closed db : File κ).Sound cat I := ⟨h, hdeferred, nofun⟩

/-- A connection sees sound contents. -/
theorem Sound.conn (h : f.Sound cat I) (k : κ) : (f.conn k).Sound cat I := by
  refine ⟨?_, (durable_conn f k).symm ▸ h.disk, (durable_conn f k).symm ▸ h.deferred⟩
  show I ((f.written k).getD f.db)
  cases hw : f.written k with
  | none => exact h.disk
  | some db => exact h.written k db (writer_of_written hw)

/-- A connection that was left sound leaves the file sound. -/
theorem Sound.put (h : f.Sound cat I) {c : Conn} (hc : c.Sound cat I) (k : κ) (writes : Bool) :
    (f.put k c writes).Sound cat I := by
  obtain ⟨db, saved, lastRowid⟩ := c
  cases saved with
  | none =>
    exact ⟨hc.seen, hc.deferred, fun k' db' hw => h.written k' db'
      (Option.filter_eq_some_iff.mp hw).1⟩
  | some old =>
    refine ⟨h.disk, h.deferred, fun k' db' hw => ?_⟩
    cases writes with
    | false => exact h.written k' db' hw
    | true =>
      obtain ⟨rfl, rfl⟩ := Prod.mk.inj (Option.some.inj hw)
      exact hc.seen

/-- **A call keeps a file sound**, whichever connection makes it and whatever
transactions are open, because each connection by itself is sound. -/
theorem Sound.answer (hI : cat.Invariant P I) (h : f.Sound cat I) (k : κ) {c : Call}
    (hc : ∀ p, c = .step p → P p) : (File.answer cat busy k c f).2.Sound cat I := by
  have hcall : (Conn.answer cat busy c (f.conn k)).2.Sound cat I := (h.conn k).answer hI hc
  cases c with
  | prepare sql => exact h
  | lastInsertRowid => exact h
  | exec t => exact h.put hcall k false
  | step p =>
    show (if f.locked k then (Code.busy, f) else _ : Code × File κ).2.Sound cat I
    split
    · exact h
    · exact h.put hcall k true

omit [DecidableEq κ] in
/-- A file is sound without some of its connections. -/
theorem Sound.lose (h : f.Sound cat I) (lost : κ → Bool) : (f.lose lost).Sound cat I :=
  ⟨h.disk, h.deferred, fun k db hw => h.written k db (Option.filter_eq_some_iff.mp hw).1⟩

/-- **What a connection has written adds to the contents of the file.** So
when it commits the file only grows. -/
def Ahead (R : Db → Db → Prop) (f : File κ) : Prop := ∀ k db, f.writer = some (k, db) → R f.db db

section Extends

variable {R : Db → Db → Prop} [IsPreorder Db R]

theorem Ahead.conn (h : f.Ahead R) (k : κ) : R (f.conn k).durable (f.conn k).db := by
  rw [durable_conn]
  show R f.db ((f.written k).getD f.db)
  cases hw : f.written k with
  | none => exact refl _
  | some db => exact h k db (writer_of_written hw)

/-- A connection that adds to what it started from adds to the file, if no other one has
written anything that it would replace. -/
theorem Ahead.put (hahead : f.Ahead R) {c : Conn} (hdurable : R f.db c.durable)
    (hseen : R c.durable c.db) (k : κ) (writes : Bool)
    (hothers : ∀ k' db, k' ≠ k → f.writer = some (k', db) → R c.db db) :
    (f.put k c writes).Ahead R ∧ R f.db (f.put k c writes).db := by
  obtain ⟨db, saved, lastRowid⟩ := c
  cases saved with
  | none =>
    refine ⟨fun k' db' hw => ?_, hdurable⟩
    obtain ⟨hw, hne⟩ := Option.filter_eq_some_iff.mp hw
    exact hothers k' db' (of_decide_eq_true hne) hw
  | some old =>
    refine ⟨fun k' db' hw => ?_, refl _⟩
    cases writes with
    | false => exact hahead k' db' hw
    | true =>
      obtain ⟨rfl, rfl⟩ := Prod.mk.inj (Option.some.inj hw)
      exact IsTrans.trans _ _ _ hdurable hseen

/-- **A call adds to the contents of the file**, if anything. While a
connection has written something, the others have not, so what becomes
durable comes from one that has seen the contents there were. -/
theorem Ahead.answer (hR : cat.Extends P I R) (hahead : f.Ahead R) (h : f.Sound cat I) (k : κ)
    {c : Call} (hc : ∀ p, c = .step p → P p) :
    (File.answer cat busy k c f).2.Ahead R ∧ R f.db (File.answer cat busy k c f).2.db := by
  have hcall : R (Conn.answer cat busy c (f.conn k)).2.durable
      (Conn.answer cat busy c (f.conn k)).2.db
      ∧ R (f.conn k).durable (Conn.answer cat busy c (f.conn k)).2.durable :=
    (h.conn k).extends_answer hR (hahead.conn k) hc
  rw [durable_conn] at hcall
  cases c with
  | prepare sql => exact ⟨hahead, refl _⟩
  | lastInsertRowid => exact ⟨hahead, refl _⟩
  | exec t =>
    refine hahead.put hcall.2 hcall.1 k false fun k' db hne hw => ?_
    -- another connection has written something, so this one has not
    have hnone : (f.conn k).db = f.db := by
      show (f.written k).getD f.db = f.db
      rw [written_of_other hw hne]
      rfl
    show R (Conn.exec cat busy t (f.conn k)).2.db db
    rw [exec_db ((durable_conn f k).trans hnone.symm), hnone]
    exact hahead k' db hw
  | step p =>
    show (if f.locked k then (Code.busy, f) else _ : Code × File κ).2.Ahead R
      ∧ R f.db (if f.locked k then (Code.busy, f) else _ : Code × File κ).2.db
    split
    · exact ⟨hahead, refl _⟩
    · rename_i hlocked
      refine hahead.put hcall.2 hcall.1 k true fun k' db hne hw => absurd ?_ hlocked
      unfold locked
      rw [hw]
      exact decide_eq_true hne

end Extends

/-- What follows a call steps statements of the kind, too. -/
theorem steps_next {c : Call} {next : c.Reply → Prog ε α}
    (h : (Prog.call c next).Steps cat P) (f : File κ) (k : κ) :
    (next (File.answer cat busy k c f).1).Steps cat P := by
  cases h with
  | exec h => exact h _
  | prepare h => exact h
  | step _ h => exact h _
  | lastInsertRowid h => exact h _

end File

/-! ## Threads -/

/-- What a thread does: an operation, on a connection, of whose program there
is a rest. The operation is kept to say afterwards what has been done. -/
structure Activity (κ O ε α : Type) where
  conn : κ
  op : O
  prog : Prog ε α

/-- **Threads that use a file.** They may belong to one process or to
several, and may share connections or have connections of their own. -/
structure Users (ι κ O ε α : Type) where
  file : File κ
  doing : ι → Option (Activity κ O ε α)

namespace Users

/-- What happens: a thread starts an operation on a connection, makes its
next call, or is done; a process ends, wherever its threads are, and its
connections are lost; or one starts. -/
inductive Act (ι κ O : Type)
  | enter (i : ι) (k : κ) (o : O)
  | call (i : ι) (busy : Bool)
  | leave (i : ι)
  | die (lost : κ → Bool)
  | boot

/-- No thread has started anything. -/
def start (db : Db) : Users ι κ O ε α := ⟨.closed db, fun _ => none⟩

variable [DecidableEq ι] [DecidableEq κ]

/-- **One step of the threads.** They take turns in any order. A process that
ends may do so in the middle of a transaction, and one that starts does
`boot` to the contents, if no connection is writing. -/
inductive Step (cat : Catalog) (prog : O → Prog ε α) (boot : Db → Db) :
    Users ι κ O ε α → Act ι κ O → Users ι κ O ε α → Prop
  | enter {s : Users ι κ O ε α} {i : ι} (k : κ) (o : O) (hi : s.doing i = none) :
    Step cat prog boot s (.enter i k o)
      ⟨s.file, Function.update s.doing i (some ⟨k, o, prog o⟩)⟩
  | call {s : Users ι κ O ε α} {i : ι} (busy : Bool) {k : κ} {o : O} {c : Call}
    {next : c.Reply → Prog ε α} (hi : s.doing i = some ⟨k, o, .call c next⟩) :
    Step cat prog boot s (.call i busy)
      ⟨(File.answer cat busy k c s.file).2,
        Function.update s.doing i (some ⟨k, o, next (File.answer cat busy k c s.file).1⟩)⟩
  | leave {s : Users ι κ O ε α} {i : ι} {x : Activity κ O ε α} (hi : s.doing i = some x)
    (hx : x.prog.Ended) : Step cat prog boot s (.leave i) ⟨s.file, Function.update s.doing i none⟩
  | die {s : Users ι κ O ε α} (lost : κ → Bool) :
    Step cat prog boot s (.die lost)
      ⟨s.file.lose lost, fun i => (s.doing i).filter fun x => !lost x.conn⟩
  | boot {s : Users ι κ O ε α} (h : s.file.writer = none) :
    Step cat prog boot s .boot ⟨s.file.load (boot s.file.db), s.doing⟩

/-- The state after an action, if it can be taken. It computes what `Step`
relates, so that a run can be given by its actions. -/
def next (cat : Catalog) (prog : O → Prog ε α) (boot : Db → Db) (s : Users ι κ O ε α) :
    Act ι κ O → Option (Users ι κ O ε α)
  | .enter i k o =>
    match s.doing i with
    | none => some ⟨s.file, Function.update s.doing i (some ⟨k, o, prog o⟩)⟩
    | some _ => none
  | .call i busy =>
    match s.doing i with
    | some ⟨k, o, .call c next⟩ =>
      some ⟨(File.answer cat busy k c s.file).2,
        Function.update s.doing i (some ⟨k, o, next (File.answer cat busy k c s.file).1⟩)⟩
    | _ => none
  | .leave i =>
    match s.doing i with
    | none | some ⟨_, _, .call _ _⟩ => none
    | _ => some ⟨s.file, Function.update s.doing i none⟩
  | .die lost => some ⟨s.file.lose lost, fun i => (s.doing i).filter fun x => !lost x.conn⟩
  | .boot =>
    match s.file.writer with
    | none => some ⟨s.file.load (boot s.file.db), s.doing⟩
    | some _ => none

variable {prog : O → Prog ε α} {boot : Db → Db} {s s' : Users ι κ O ε α} {a : Act ι κ O}
  {trace : List (Users ι κ O ε α × Act ι κ O)}

/-- That is a step. The computed step function decides what the relation asks
for: who is working, on which connection, and whether the file is free. -/
theorem step_of_next (h : next cat prog boot s a = some s') : Step cat prog boot s a s' := by
  cases a with
  | die lost =>
    obtain rfl := Option.some.inj h
    exact .die lost
  | boot =>
    unfold next at h
    dsimp only at h
    cases hw : s.file.writer with
    | some x =>
      rw [hw] at h
      cases h
    | none =>
      rw [hw] at h
      obtain rfl := Option.some.inj h
      exact .boot hw
  | enter i k o =>
    unfold next at h
    dsimp only at h
    cases hi : s.doing i with
    | some x =>
      rw [hi] at h
      cases h
    | none =>
      rw [hi] at h
      obtain rfl := Option.some.inj h
      exact .enter k o hi
  | call i busy =>
    unfold next at h
    dsimp only at h
    split at h
    · rename_i k o c rest hi
      obtain rfl := Option.some.inj h
      exact .call busy hi
    · cases h
  | leave i =>
    unfold next at h
    dsimp only at h
    cases hi : s.doing i with
    | none =>
      rw [hi] at h
      cases h
    | some x =>
      obtain ⟨k, o, p⟩ := x
      rw [hi] at h
      cases p with
      | call c rest => cases h
      | ret a =>
        obtain rfl := Option.some.inj h
        exact .leave hi (.ret a)
      | raise e =>
        obtain rfl := Option.some.inj h
        exact .leave hi (.raise e)
      | abort =>
        obtain rfl := Option.some.inj h
        exact .leave hi .abort

/-- **Actions that can be taken one after the other are a run**, with these
actions in its trace. -/
theorem run_of_next {as : List (Act ι κ O)} (h : as.foldlM (next cat prog boot) s = some s') :
    ∃ trace, Transitions.Run (Step cat prog boot) s trace s' ∧ trace.map Prod.snd = as := by
  obtain ⟨trace, hrun, hacts⟩ := Transitions.Run.of_foldlM h
  exact ⟨trace, hrun.mono fun _ _ _ hnext => step_of_next hnext, hacts⟩

/-- The file is sound, and the threads step statements of a kind only. -/
structure Sound (cat : Catalog) (P : Prepared → Prop) (I : Db → Prop) (s : Users ι κ O ε α) :
    Prop where
  file : s.file.Sound cat I
  doing : ∀ i, ∀ x ∈ s.doing i, x.prog.Steps cat P

omit [DecidableEq κ] in
/-- The threads step statements of a kind after one of them went on. -/
theorem Sound.doing_update (h : s.Sound cat P I) {i : ι} {x : Option (Activity κ O ε α)}
    (hx : ∀ y ∈ x, y.prog.Steps cat P) :
    ∀ j, ∀ y ∈ Function.update s.doing i x j, y.prog.Steps cat P :=
  (Function.forall_update_iff s.doing fun _ x => ∀ y ∈ x, y.prog.Steps cat P).mpr
    ⟨hx, fun j _ => h.doing j⟩

omit [DecidableEq ι] [DecidableEq κ] in
theorem sound_start {db : Db} (hdb : I db) (hdeferred : cat.orphans true db = 0) :
    (start db : Users ι κ O ε α).Sound cat P I :=
  ⟨File.sound_closed hdb hdeferred, fun _ _ hx => nomatch hx⟩

/-- **A step keeps the file sound.** There is one case for each kind of
action; the call of a thread is the one where statements come in. -/
theorem Sound.step (hI : cat.Invariant P I) (hprog : ∀ o, (prog o).Steps cat P)
    (hboot : ∀ db, I db → cat.orphans true db = 0 →
      I (boot db) ∧ cat.orphans true (boot db) = 0)
    (h : s.Sound cat P I) (hstep : Step cat prog boot s a s') : s'.Sound cat P I := by
  cases hstep with
  | enter k o hi =>
    refine ⟨h.file, h.doing_update fun y hy => ?_⟩
    obtain rfl := Option.some.inj hy
    exact hprog o
  | @call i busy k o c next hi =>
    have hsteps : (Prog.call c next).Steps cat P := h.doing i _ hi
    refine ⟨h.file.answer hI k hsteps.of_step, h.doing_update fun y hy => ?_⟩
    obtain rfl := Option.some.inj hy
    exact File.steps_next hsteps s.file k
  | leave hi hx => exact ⟨h.file, h.doing_update nofun⟩
  | die lost =>
    exact ⟨h.file.lose lost, fun i y hy => h.doing i y (Option.filter_eq_some_iff.mp hy).1⟩
  | boot hw =>
    obtain ⟨hnew, hdeferred⟩ := hboot _ h.file.disk h.file.deferred
    exact ⟨⟨hnew, hdeferred, h.file.written⟩, h.doing⟩

/-- **And so does every run** of programs that step statements which keep the
property. Nothing is assumed of how the threads interleave, or of when
processes end and start. -/
theorem Sound.run (hI : cat.Invariant P I) (hprog : ∀ o, (prog o).Steps cat P)
    (hboot : ∀ db, I db → cat.orphans true db = 0 →
      I (boot db) ∧ cat.orphans true (boot db) = 0)
    (h : s.Sound cat P I) (hrun : Transitions.Run (Step cat prog boot) s trace s') :
    s'.Sound cat P I :=
  (hrun.invariant (Sound cat P I) (fun _ _ => True) h
    (fun _ _ _ h _ hstep => h.step hI hprog hboot hstep) (fun _ _ => trivial)).1

section Extends

variable {R : Db → Db → Prop} [IsPreorder Db R]

/-- **A step adds to the contents of the file**, unless a process starts,
which may clear a table. -/
theorem Sound.extends_step (hR : cat.Extends P I R) (h : s.Sound cat P I)
    (hahead : s.file.Ahead R) (hstep : Step cat prog boot s a s') :
    s'.file.Ahead R ∧ (a ≠ .boot → R s.file.db s'.file.db) := by
  cases hstep with
  | enter k o hi => exact ⟨hahead, fun _ => refl _⟩
  | @call i busy k o c next hi =>
    have hsteps : (Prog.call c next).Steps cat P := h.doing i _ hi
    obtain ⟨hnext, hdisk⟩ := hahead.answer hR h.file k hsteps.of_step
    exact ⟨hnext, fun _ => hdisk⟩
  | leave hi hx => exact ⟨hahead, fun _ => refl _⟩
  | die lost =>
    exact ⟨fun k db hw => hahead k db (Option.filter_eq_some_iff.mp hw).1, fun _ => refl _⟩
  | boot hw =>
    refine ⟨fun k db hw' => ?_, fun hne => absurd rfl hne⟩
    rw [show s.file.writer = some (k, db) from hw'] at hw
    cases hw

/-- **And so does every run** in which no process starts: what the file held
at its beginning is related to what it holds at its end. -/
theorem Sound.extends_run (hI : cat.Invariant P I) (hR : cat.Extends P I R)
    (hprog : ∀ o, (prog o).Steps cat P)
    (hboot : ∀ db, I db → cat.orphans true db = 0 →
      I (boot db) ∧ cat.orphans true (boot db) = 0)
    (h : s.Sound cat P I) (hahead : s.file.Ahead R)
    (hrun : Transitions.Run (Step cat prog boot) s trace s') :
    s'.file.Ahead R ∧ ((∀ x ∈ trace, x.2 ≠ .boot) → R s.file.db s'.file.db) := by
  induction hrun with
  | nil => exact ⟨hahead, fun _ => refl _⟩
  | snoc hrun hstep ih =>
    obtain ⟨hnext, hadds⟩ := (h.run hI hprog hboot hrun).extends_step hR ih.1 hstep
    refine ⟨hnext, fun hno => IsTrans.trans _ _ _ (ih.2 fun x hx => ?_) (hadds ?_)⟩
    · exact hno x (List.mem_append_left _ hx)
    · exact hno _ (List.mem_append_right _ (List.mem_singleton_self _))

end Extends

end Users

end Sql
