import RctAutomation.ReachableDatabases
import RctAutomation.Sql.Serial

/-!
# Stores on connections of their own

Each request of the web server opens the database for itself, and so does `acmd`, so
that several of them can store messages at the same time. A store is one
transaction (`insertOrReplace_transaction`), so when no two of them are under way on the
same connection, the database changes as if each had been made alone, in the
order in which they returned (`stores_serial`). What a store leaves is then what
`save` says of the contents that the one before it left.
-/

open Sql Prog

/-! ## A store is one transaction -/

section Working

variable {value : Message}

theorem working_check {b : Bool} {f : Unit → Prog Message (Code × Message)} (hf : (f ()).Working) :
    (check b >>= f).Working := by
  cases b with
  | true => exact hf
  | false => exact Working.abort

/-- Giving up ends with the exception, once the rollback is accepted. -/
theorem working_rollbackAndThrow :
    (rollbackAndThrow value : Prog Message (Code × Message)).Working :=
  .rollback value rfl

theorem working_storeChild {ps : Prepared} {local_id item : ℤ}
    {f : Unit → Prog Message (Code × Message)} (hf : (f ()).Working) :
    (storeChild value ps local_id item >>= f).Working := by
  refine .step rfl fun code => ?_
  cases code with
  | done => exact working_check hf
  | constraint => exact .abort
  | _ => exact .abort

theorem working_storeChildren {ps : Prepared} {local_id : ℤ} (items : List ℤ)
    {f : Unit → Prog Message (Code × Message)} (hf : (f ()).Working) :
    (storeChildren value ps local_id items >>= f).Working := by
  induction items with
  | nil => exact hf
  | cons item items ih =>
    show ((storeChild value ps local_id item >>= fun _ =>
      storeChildren value ps local_id items) >>= f).Working
    rw [bind_assoc]
    exact working_storeChild ih

theorem working_storeAllRepeated {cmd : StoreCmd} {local_id : ℤ} (fds : List FieldDescriptor)
    {f : Unit → Prog Message (Code × Message)} (hf : (f ()).Working) :
    (storeAllRepeated cmd value local_id fds >>= f).Working := by
  induction fds with
  | nil => exact hf
  | cons fd fds ih =>
    show ((storeRepeated cmd value local_id fd >>= fun _ =>
      storeAllRepeated cmd value local_id fds) >>= f).Working
    rw [bind_assoc]
    refine .prepare fun ps? => ?_
    cases ps? with
    | none => exact .abort
    | some ps =>
      dsimp only
      split
      · exact working_storeChildren _ ih
      · exact .abort

/-- The end of the transaction: it commits, or rolls back. -/
theorem working_commitOrThrow : (commitOrThrow value).Working := by
  refine .commit (.ok, value) rfl fun r hr => ?_
  refine ⟨value, fun r => check (r == .ok) >>= fun _ => .raise value, ?_, rfl⟩
  show (if r ≠ .ok then rollbackAndThrow value else _ : Prog Message (Code × Message)) = _
  rw [if_pos hr]
  rfl

theorem working_storeRest (cmd : StoreCmd) (local_id : ℤ) :
    (storeRest cmd value local_id).Working := by
  unfold storeRest writeBackId
  split
  · exact .lastInsertRowid fun rowid =>
      working_storeAllRepeated _ working_commitOrThrow
  · exact working_storeAllRepeated _ working_commitOrThrow

end Working

/-- **`InsertOrReplace` is one transaction.** What it returns, it returns
after its commit; when it raises the exception it has rolled back; and a
statement that finds the database busy ends the process. -/
theorem insertOrReplace_transaction (never_save : Bool) (value : Message) (cmd : StoreCmd) :
    (insertOrReplace never_save value cmd).Transaction := by
  unfold insertOrReplace
  split
  · exact .ended (.ret _)
  · refine .begin (working_check (working_check (.prepare fun ps? => ?_))) fun r hr => ?_
    · simp only [Prog.bind]
      cases ps?.bind (bindRoot cmd value) with
      | none => exact .abort
      | some ps =>
        refine .step rfl fun code => ?_
        cases code with
        | ok | done => exact working_storeRest cmd (localId value)
        | constraint => exact working_rollbackAndThrow
        | _ => exact .abort
    · show (check (r == .ok) >>= _ : Prog Message (Code × Message)) = .abort
      rw [beq_false_of_ne hr]
      rfl

/-! ## Stores in turn -/

variable {fp : FloatOps} {ch : Chance}

/-- **Stores that are made one after the other**, and starts of the
automation between them: each takes the contents that the one before left to
those that `save` says, and returns the message that it stored. -/
inductive StoredInTurn (fp : FloatOps) (ch : Chance) (db₀ : Db) :
    List (Users.Effect StoreCall (Code × Message)) → Db → Prop
  | nil : StoredInTurn fp ch db₀ [] db₀
  | stored {es : List (Users.Effect StoreCall (Code × Message))} {db db' : Db}
      (h : StoredInTurn fp ch db₀ es db) (o : StoreCall) (v : Message) (rowid : ℤ)
      (hsave : save (catalog fp ch) false o.cmd o.message.toMessage ⟨db, none, rowid⟩
        = .saved v db') :
      StoredInTurn fp ch db₀ (es ++ [.returned o (.ok, v)]) db'
  | boot {es : List (Users.Effect StoreCall (Code × Message))} {db : Db}
      (h : StoredInTurn fp ch db₀ es db) : StoredInTurn fp ch db₀ (es ++ [.boot]) (deleteLocks db)

/-- What a store leaves when it returns is what it saves. It returns only
when its transaction is committed. -/
theorem StoreCall.save_of_leaves {o : StoreCall} {db db' : Db} {res : Code × Message}
    (h : o.program.Leaves (catalog fp ch) db res db') :
    ∃ v rowid, res = (.ok, v)
      ∧ save (catalog fp ch) false o.cmd o.message.toMessage ⟨db, none, rowid⟩ = .saved v db' := by
  obtain ⟨rowid, houtcome, hdb⟩ := h
  have hrun : (save (catalog fp ch) false o.cmd o.message.toMessage ⟨db, none, rowid⟩).Describes
      o.message.toMessage.desc.name o.message.toMessage db
      ((insertOrReplace false o.message.toMessage o.cmd).run (catalog fp ch) false
        ⟨db, none, rowid⟩) :=
    run_insertOrReplace (catalog fp ch) false o.cmd o.message.toMessage rfl
  unfold StoreCall.program at houtcome hdb
  cases hsave : save (catalog fp ch) false o.cmd o.message.toMessage ⟨db, none, rowid⟩ with
  | aborted =>
    rw [hsave] at hrun
    exact absurd (hrun.1.symm.trans houtcome) nofun
  | rootRefused =>
    rw [hsave] at hrun
    exact absurd (hrun.1.symm.trans houtcome) nofun
  | commitRefused v =>
    rw [hsave] at hrun
    exact absurd (hrun.1.symm.trans houtcome) nofun
  | saved v db'' =>
    rw [hsave] at hrun
    obtain ⟨hreturned, hconn, -⟩ := hrun
    obtain rfl := Outcome.returned.inj (hreturned.symm.trans houtcome)
    exact ⟨v, rowid, rfl, by rw [hsave, ← hconn, hdb]⟩

theorem storedInTurn_of_serial {db₀ db : Db} {es : List (Users.Effect StoreCall (Code × Message))}
    (h : Users.Serial (catalog fp ch) StoreCall.program deleteLocks db₀ es db) :
    StoredInTurn fp ch db₀ es db := by
  induction h with
  | nil => exact .nil
  | returned h o a hrun ih =>
    obtain ⟨v, rowid, rfl, hsave⟩ := StoreCall.save_of_leaves hrun
    exact ih.stored o v rowid hsave
  | boot h ih => exact ih.boot

section Run

variable {ι κ : Type} [DecidableEq ι] [DecidableEq κ]

/-- **Stores that are under way on connections of their own change the
database as if each had been made alone**, one after the other in the order
in which they returned. It holds for any number of threads and processes, and
whatever becomes of the stores that did not return. -/
theorem stores_serial (fp : FloatOps) (ch : Chance)
    {trace : List (Program ι κ × Users.Act ι κ StoreCall)} {s : Program ι κ}
    (hrun : Transitions.Run (Program.Step fp ch) (Users.start emptyDb) trace s)
    (hapart : ∀ x ∈ trace, x.1.Apart) :
    StoredInTurn fp ch emptyDb (trace.filterMap fun x => Users.effect (catalog fp ch) x.1 x.2)
      s.file.db := by
  have hprog : ∀ o : StoreCall, o.program.Transaction := fun o =>
    insertOrReplace_transaction false o.message.toMessage o.cmd
  exact storedInTurn_of_serial (Users.serial_of_run hprog hrun hapart)

end Run

/-- A playlist, its lock and a track are stored by two threads, each of which
begins before the other one has committed. The steps are those of
`eveningActs` and `trackActs`. -/
theorem stores_serial_evening :
    ∃ trace, ∃ s : Program Bool Bool,
      Transitions.Run (Program.Step .whole .stored) (Users.start emptyDb) trace s
        ∧ (s.file.db "PlaylistLock").rows.length = 1 ∧ (s.file.db "PlayableItem").rows.length = 1
        ∧ StoredInTurn .whole .stored emptyDb
          (trace.filterMap fun x => Users.effect (catalog .whole .stored) x.1 x.2) s.file.db := by
  have hrows : ((eveningActs ++ trackActs).foldlM (Program.next .whole .stored)
      (Users.start emptyDb)).map (fun s =>
        ((s.file.db "PlaylistLock").rows.length, (s.file.db "PlayableItem").rows.length))
        = some (1, 1) := by decide +kernel
  obtain ⟨s, hs, hlengths⟩ := Option.map_eq_some_iff.mp hrows
  obtain ⟨hlocks, hitems⟩ := Prod.mk.inj hlengths
  obtain ⟨trace, hrun, hacts⟩ := Program.run_of_next hs
  refine ⟨trace, s, hrun, hlocks, hitems, stores_serial .whole .stored hrun ?_⟩
  -- each thread uses the connection that is named like it
  refine Users.apart_of_own Function.injective_id hrun fun x hx i k o henter => ?_
  have hmem : x.2 ∈ eveningActs ++ trackActs := hacts ▸ List.mem_map_of_mem hx
  rw [henter] at hmem
  simp only [eveningActs, trackActs, List.mem_append, List.mem_cons, List.not_mem_nil,
    Users.Act.enter.injEq, reduceCtorEq, false_or, or_false] at hmem
  rcases hmem with ⟨rfl, rfl, -⟩ | ⟨rfl, rfl, -⟩ | ⟨rfl, rfl, -⟩ <;> rfl
