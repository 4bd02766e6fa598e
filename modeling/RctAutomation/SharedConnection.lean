import RctAutomation.Sql.Interleave
import RctAutomation.StoreAtomic

/-!
# The connection of the automation

The main loop and the web thread use one connection. The main loop updates the
play count of a track before it plays it, the web thread saves the schedule
when a request changes it, and each is an `InsertOrReplace` of its own. The
objects have mutexes, and the connection has none.

`insertOrReplace_transactional` says that the store opens its transaction
first and has closed it when it ends, so that stores that do not overlap do
not meet each other's transactions (`stores_do_not_collide`). Nothing keeps
them from overlapping, and `stores_collide` is a run in which they do.
-/

open Sql Prog

/-! ## The store is transactional -/

section Transactional

variable {α : Type} {value : Message}

theorem inside_storeChild {ps : Prepared} {local_id item : ℤ} {f : Unit → Prog Message α}
    (hf : (f ()).Inside) : (storeChild value ps local_id item >>= f).Inside := by
  refine Inside.step (fun code => ?_)
  cases code with
  | done => exact hf
  | constraint => exact Inside.abort
  | _ => exact Inside.abort

theorem inside_storeChildren {ps : Prepared} {local_id : ℤ} (items : List ℤ)
    {f : Unit → Prog Message α} (hf : (f ()).Inside) :
    (storeChildren value ps local_id items >>= f).Inside := by
  induction items with
  | nil => exact hf
  | cons item items ih =>
    show ((storeChild value ps local_id item >>= fun _ =>
      storeChildren value ps local_id items) >>= f).Inside
    rw [bind_assoc]
    exact inside_storeChild ih

theorem inside_storeRepeated {cmd : StoreCmd} {local_id : ℤ} (fd : FieldDescriptor)
    {f : Unit → Prog Message α} (hf : (f ()).Inside) :
    (storeRepeated cmd value local_id fd >>= f).Inside := by
  refine Inside.prepare (fun ps? => ?_)
  cases ps? with
  | none => exact Inside.abort
  | some ps =>
    dsimp only
    split
    · exact inside_storeChildren _ hf
    · exact Inside.abort

theorem inside_storeAllRepeated {cmd : StoreCmd} {local_id : ℤ} (fds : List FieldDescriptor)
    {f : Unit → Prog Message α} (hf : (f ()).Inside) :
    (storeAllRepeated cmd value local_id fds >>= f).Inside := by
  induction fds with
  | nil => exact hf
  | cons fd fds ih =>
    show ((storeRepeated cmd value local_id fd >>= fun _ =>
      storeAllRepeated cmd value local_id fds) >>= f).Inside
    rw [bind_assoc]
    exact inside_storeRepeated fd ih

/-- The end of the transaction closes it, one way or the other. -/
theorem inside_commitOrThrow (value : Message) : (commitOrThrow value).Inside := by
  refine Inside.commit (Ended.ret _) (fun code hcode => ?_)
  show (if code ≠ .ok then rollbackAndThrow value else _ : Prog Message (Code × Message)).Inside
  rw [if_pos hcode]
  exact Inside.rollback (Ended.raise value)

theorem inside_storeRest (cmd : StoreCmd) (value : Message) (local_id : ℤ) :
    (storeRest cmd value local_id).Inside := by
  have hrest : ∀ res : ℤ × Message,
      (storeAllRepeated cmd res.2 res.1 (value.listFields.filter FieldDescriptor.repeated)
        >>= fun _ => commitOrThrow res.2).Inside :=
    fun res => inside_storeAllRepeated _ (inside_commitOrThrow res.2)
  unfold storeRest writeBackId
  split
  · exact Inside.lastInsertRowid (fun rowid =>
      hrest (toInt32 rowid, value.set value.desc.field0 (.int (toInt32 rowid))))
  · exact hrest (local_id, value)

end Transactional

/-- **`InsertOrReplace` opens a transaction first and closes it last**, in
every run that does not abort the process. It is by the shape of the program,
and says nothing of what the calls are answered. -/
theorem insertOrReplace_transactional (never_save : Bool) (value : Message) (cmd : StoreCmd) :
    (insertOrReplace never_save value cmd).Transactional := by
  unfold insertOrReplace
  split
  · exact Transactional.ended (Ended.ret _)
  · refine Transactional.begin ?_ (fun r hr => ?_)
    · show (check (!(cmd == .update) || localId value != -1) >>= _).Inside
      cases (!(cmd == .update) || localId value != -1) with
      | false => exact Inside.abort
      | true =>
        refine Inside.prepare (fun ps? => ?_)
        simp only [Prog.bind]
        cases ps?.bind (bindRoot cmd value) with
        | none => exact Inside.abort
        | some ps =>
          refine Inside.step (fun code => ?_)
          cases code with
          | ok | done => exact inside_storeRest cmd value (localId value)
          | constraint => exact Inside.rollback (Ended.raise value)
          | _ => exact Inside.abort
    · have hcheck : (r == Code.ok) = false := beq_false_of_ne hr
      show (check (r == .ok) >>= _).Ended
      rw [hcheck]
      exact Ended.abort

/-! ## The threads of the automation -/

/-- The threads that use the connection. The saves of the schedule hold the
mutex of the requirement engine, so they count as one thread, whichever
request makes them. -/
inductive Thread
  | main | web
  deriving DecidableEq

/-- What the threads store: `PlayableItem::Update` of a track with the play
count it is played with, and `RequirementEngine::Save` of the schedule. -/
inductive StoreOperation
  | update (item : PlayableItem)
  | save (data : Bytes)

/-- The program of an operation. The schedule is kept under the name of its
type, and a track without a play count is taken for one that was never
played. -/
def StoreOperation.program : StoreOperation → Prog Message (Code × Message)
  | update item =>
    insertOrReplace false
      (PlayableItem.toMessage { item with playcount := some (item.playcount.getD 0 + 1) }) .update
  | save data =>
    insertOrReplace false
      (ProtoTable.toMessage { label := some (ascii "automation.Schedule"), data := some data })
      .replace

/-- **Stores that do not overlap do not collide**: in every run in which none
makes its first call while another is under way, no transaction is begun
while one is open, and no call acts in the transaction of another thread.

It is the rule for interleavings, `Shared.isolated_of_exclusive`, with the
fact that both operations are transactional. -/
theorem stores_do_not_collide (cat : Catalog) (c : Conn) (hc : c.saved = none)
    {trace : List (Shared Thread Message (Code × Message) × Act Thread StoreOperation)}
    {s : Shared Thread Message (Code × Message)}
    (hrun : Shared.Runs cat StoreOperation.program ⟨c, fun _ => .idle, none⟩ trace s)
    (hex : ∀ x ∈ trace, x.1.Exclusive x.2) : ∀ x ∈ trace, ¬x.1.Collides x.2 := by
  have hprog : ∀ o : StoreOperation, o.program.Transactional := by
    intro o
    cases o with
    | update item => exact insertOrReplace_transactional false _ .update
    | save data => exact insertOrReplace_transactional false _ .replace
  exact (Shared.isolated_of_exclusive hprog ⟨fun _ => rfl, rfl, hc⟩ hrun hex).2

/-- A database with a track. -/
def trackDb : Db := databaseOf [.item { filename := some (ascii "a.ogg") }]

/-- The update of that track. -/
def trackUpdate : StoreOperation :=
  .update { playableItemID := some 1, filename := some (ascii "a.ogg") }

/-- The connection before anything happens. -/
def atRest : Shared Thread Message (Code × Message) :=
  ⟨⟨trackDb, none, 0⟩, fun _ => .idle, none⟩

/-- The main loop has started its update, and made no call yet. -/
def mainReady : Shared Thread Message (Code × Message) :=
  { atRest with phase := Function.update atRest.phase .main (.ready trackUpdate.program) }

/-- And so has the web thread. Here either of the two can make its first
call. -/
def bothReady : Shared Thread Message (Code × Message) :=
  { mainReady with
    phase := Function.update mainReady.phase .web (.ready (StoreOperation.save []).program) }

/-- The program has aborted the process. -/
def Sql.Prog.isAbort {ε α : Type} : Prog ε α → Bool
  | .abort => true
  | _ => false

theorem alive_of_phases {s : Shared Thread Message (Code × Message)}
    (hmain : (s.phase .main).prog?.any isAbort = false)
    (hweb : (s.phase .web).prog?.any isAbort = false) : s.Alive := by
  intro i hi
  cases i with
  | main =>
    rw [hi] at hmain
    cases hmain
  | web =>
    rw [hi] at hweb
    cases hweb

/-- **Two stores one after the other**: the main loop counts its track, and
then the web thread saves the schedule. Each opens a transaction and closes
it, and both are done. -/
theorem stores_do_not_collide_in_turn :
    ∃ trace s, Shared.Runs (catalog .whole .stored) StoreOperation.program atRest trace s
      ∧ trace.map Prod.snd = Shared.aloneActs .main trackUpdate false 4
          ++ Shared.aloneActs .web (.save []) false 5
      ∧ (s.conn.db "PlayableItem").rows.map (fun r => r "playcount") = [.integer 1]
      ∧ (s.conn.db "ProtoTable").rows.map (fun r => r "label")
          = [.text (ascii "automation.Schedule")]
      ∧ ∀ x ∈ trace, ¬x.1.Collides x.2 := by
  obtain ⟨a, ha⟩ := Outcome.exists_of_isReturned (show (trackUpdate.program.run
    (catalog .whole .stored) false atRest.conn).outcome.isReturned = true by decide +kernel)
  have hnil : Shared.Runs (catalog .whole .stored) StoreOperation.program atRest [] atRest := .nil
  obtain ⟨trace, s, hrun, hacts, hex, hidle, hconn⟩ :=
    hnil.alone (fun _ => rfl) .main trackUpdate false ha
  obtain ⟨b, hb⟩ := Outcome.exists_of_isReturned (show ((StoreOperation.save []).program.run
    (catalog .whole .stored) false s.conn).outcome.isReturned = true by
      rw [hconn]
      decide +kernel)
  obtain ⟨trace', s', hrun', hacts', hex', -, hconn'⟩ :=
    hrun.alone hidle .web (.save []) false hb
  refine ⟨_, s', hrun', ?_, ?_, ?_, ?_⟩
  · rw [List.map_append, List.nil_append, hacts, hacts', hconn]
    rfl
  · rw [hconn', hconn]
    decide +kernel
  · rw [hconn', hconn]
    decide +kernel
  · refine stores_do_not_collide (catalog .whole .stored) ⟨trackDb, none, 0⟩ rfl hrun'
      fun x hx => ?_
    rcases List.mem_append.mp hx with hx | hx
    · exact hex x hx
    · exact hex' x hx

/-- **Two stores that collide**: the web thread begins its transaction while
the one of the main loop is open, and the process aborts. Nothing in the
program keeps the threads from taking these steps. -/
theorem stores_collide :
    ∃ trace s, Shared.Runs (catalog .whole .stored) StoreOperation.program atRest trace s
      ∧ (∃ x ∈ trace, x.1.Collides x.2) ∧ s.phase .web = .busy .abort := by
  refine ⟨_, _, .snoc (.snoc (.snoc (.snoc .nil
    (.enter (i := .main) trackUpdate (alive_of_phases rfl rfl) rfl))
    (.enter (s := mainReady) (i := .web) (StoreOperation.save []) (alive_of_phases rfl rfl) rfl))
    (.call (s := bothReady) (i := .main) false (alive_of_phases rfl rfl) rfl))
    (.call (i := .web) false (alive_of_phases rfl rfl) rfl),
    ⟨_, List.mem_append_right _ (List.mem_singleton_self _),
      Shared.collides_begin rfl (Option.some_ne_none _)⟩, rfl⟩
