import RctAutomation.MessageStore

/-!
# What a run of the store does

`insertOrReplace` run by itself ends in one of four ways, and `save` computes
which, from the contents of the database alone: the process aborts, the root
statement is refused, the commit is refused, or the message is saved.
`run_insertOrReplace` says that the run is described by it
(`Save.Describes`), with the calls it made: a run that is not aborted leaves
no transaction open, and one that raises an exception leaves the contents as
they were.

The rows of the repeated fields are written inside the transaction and never
end it. `WorkRun` is what such a part of a run does, and it composes
(`WorkRun.bind`).
-/

open Sql Prog

/-! ## Calls that were refused -/

/-- A statement or a commit that SQLite refused. A database that is busy
refuses the commit; a statement that finds it busy ends the process, which is
no refusal. -/
def Sql.Event.refused : Event → Bool
  | ⟨.step _, code⟩ => code == .constraint
  | ⟨.exec .commit, code⟩ => code == .constraint || code == .busy
  | _ => false

/-- A refused statement about another table than the message's own, so one
for an element of a repeated field. -/
def Sql.Event.childRefused (table : String) : Event → Bool
  | ⟨.step p, code⟩ => code == .constraint && p.stmt.table != table
  | _ => false

/-- A refused commit. -/
def Sql.Event.commitRefused : Event → Bool
  | ⟨.exec .commit, code⟩ => code == .constraint || code == .busy
  | _ => false

/-- A call that works on another table than the message's own: it prepares a
statement or steps one. -/
def Sql.Event.isWork (table : String) : Event → Bool
  | ⟨.step p, _⟩ => p.stmt.table != table
  | ⟨.prepare _, _⟩ => true
  | _ => false

theorem Sql.Event.childRefused_of_isWork {table : String} {e : Event}
    (hw : e.isWork table = true) (hr : e.refused = true) : e.childRefused table = true := by
  obtain ⟨k, r⟩ := e
  cases k with
  | step p =>
    simp only [Event.refused, Event.isWork, Event.childRefused, Bool.and_eq_true] at hr hw ⊢
    exact ⟨hr, hw⟩
  | exec t => simp [Event.isWork] at hw
  | prepare s => simp [Event.refused] at hr
  | lastInsertRowid => simp [Event.isWork] at hw

theorem Sql.Event.refused_of_childRefused {table : String} {e : Event}
    (h : e.childRefused table = true) : e.refused = true := by
  obtain ⟨k, r⟩ := e
  cases k with
  | step p =>
    simp only [Event.refused, Event.childRefused, Bool.and_eq_true] at h ⊢
    exact h.1
  | exec t => simp [Event.childRefused] at h
  | prepare s => simp [Event.childRefused] at h
  | lastInsertRowid => simp [Event.childRefused] at h

/-! ## Steps inside a transaction -/

variable {cat : Catalog} {busy : Bool}

theorem Sql.Conn.step_ok {c : Conn} {old : Db} (hs : c.saved = some old) {p : Prepared} {db : Db}
    {id : Option ℤ} (h : cat.exec c.db p = .ok (db, id)) :
    Conn.step cat p c = (.done, { c with db := db, lastRowid := id.getD c.lastRowid }) := by
  unfold Conn.step
  rw [h, hs]
  rfl

theorem Sql.Conn.step_error {c : Conn} {p : Prepared} {e : Code}
    (h : cat.exec c.db p = .error e) : Conn.step cat p c = (e, c) := by
  unfold Conn.step
  rw [h]

/-- Giving up restores what the transaction started from. -/
theorem run_rollbackAndThrow {α : Type} {c : Conn} {old : Db} (hs : c.saved = some old)
    (value : Message) :
    (rollbackAndThrow value : Prog Message α).run cat busy c
      = ⟨.raised value, { c with db := old, saved := none }, [⟨.exec .rollback, .ok⟩]⟩ := by
  unfold rollbackAndThrow
  rw [ask_bind, run_call]
  simp only [Conn.answer, Conn.exec, hs]
  rfl

/-! ## The work inside a transaction -/

/-- **A part of a run that works inside a transaction**: it ends with the
contents `res` gives and the transaction still open, or it aborts the process
where there are none; and it works on other tables than `table`. The
transaction started from the contents `old`. -/
structure WorkRun (table : String) (old : Db) (res : Option Db) (r : Run Message Unit) : Prop where
  ok : ∀ db, res = some db → r.outcome = .returned () ∧ r.conn.db = db ∧ r.conn.saved = some old
    ∧ ∀ e ∈ r.trace, e.refused = false
  lost : res = none → r.outcome = .aborted
  calls : ∀ e ∈ r.trace, e.isWork table = true

theorem WorkRun.done {table : String} {old : Db} {c : Conn} (hs : c.saved = some old) :
    WorkRun table old (some c.db) ((ret () : Prog Message Unit).run cat busy c) where
  ok db h := by
    cases h
    exact ⟨rfl, rfl, hs, fun e he => absurd he (List.not_mem_nil)⟩
  lost h := by cases h
  calls e he := absurd he (List.not_mem_nil)

theorem WorkRun.aborted {table : String} {old : Db} {c : Conn} {trace : List Event}
    (h : ∀ e ∈ trace, e.isWork table = true) : WorkRun table old none ⟨.aborted, c, trace⟩ where
  ok db h := by cases h
  lost _ := rfl
  calls := h

/-- **Work after work is work.** The second part starts from the contents
that the first one ends with, and is not reached where the first aborts. The
transaction is the same in both. -/
theorem WorkRun.bind {table : String} {old : Db} {res : Option Db} {f : Db → Option Db}
    {p q : Prog Message Unit} {c : Conn} (hp : WorkRun table old res (p.run cat busy c))
    (hq : ∀ c', c'.saved = some old → WorkRun table old (f c'.db) (q.run cat busy c')) :
    WorkRun table old (res.bind f) ((p >>= fun _ => q).run cat busy c) := by
  rw [run_bind]
  unfold Run.andThen
  cases hres : res with
  | none =>
    rw [hp.lost hres]
    exact ⟨fun db h => (by cases h), fun _ => rfl, hp.calls⟩
  | some db =>
    obtain ⟨ho, hdb, hsv, hquiet⟩ := hp.ok db hres
    have hq' := hq (p.run cat busy c).conn hsv
    rw [ho]
    rw [hdb] at hq'
    refine ⟨fun db' h => ?_, fun h => hq'.lost h, fun e he => ?_⟩
    · obtain ⟨h₁, h₂, h₃, h₄⟩ := hq'.ok db' h
      refine ⟨h₁, h₂, h₃, fun e he => ?_⟩
      rcases List.mem_append.mp he with he | he
      · exact hquiet e he
      · exact h₄ e he
    · rcases List.mem_append.mp he with he | he
      · exact hp.calls e he
      · exact hq'.calls e he

/-- The contents after the row of one element; none where the row is refused,
since the process ends there. -/
def childDb (cat : Catalog) (ps : Prepared) (local_id item : ℤ) (db : Db) : Option Db :=
  match cat.exec db ((ps.bind 1 (.integer local_id)).bind 2 (.integer item)) with
  | .ok (db', _) => some db'
  | .error _ => none

/-- The contents after the rows of a repeated field. -/
def childrenDb (cat : Catalog) (ps : Prepared) (local_id : ℤ) : List ℤ → Db → Option Db
  | [], db => some db
  | item :: items, db => (childDb cat ps local_id item db).bind (childrenDb cat ps local_id items)

/-- The contents after one repeated field. There are none if its table does
not exist, or if it is not a field of integers, the only one that
`storeChild` binds. -/
def repeatedDb (cat : Catalog) (cmd : StoreCmd) (value : Message) (local_id : ℤ)
    (fd : FieldDescriptor) (db : Db) : Option Db :=
  match cat.prepare (childText cmd value.desc.name value.desc.field0.name fd.name) with
  | none => none
  | some ps =>
    match value.val fd.name with
    | .ints l => childrenDb cat ps local_id l db
    | _ => none

/-- The contents after the repeated fields, if all of their rows are
accepted. -/
def allRepeatedDb (cat : Catalog) (cmd : StoreCmd) (value : Message) (local_id : ℤ) :
    List FieldDescriptor → Db → Option Db
  | [], db => some db
  | fd :: fds, db =>
    (repeatedDb cat cmd value local_id fd db).bind (allRepeatedDb cat cmd value local_id fds)

theorem run_storeChild {table : String} {old : Db} {value : Message} {ps : Prepared}
    {local_id item : ℤ} (ht : ps.stmt.table ≠ table) {c : Conn} (hs : c.saved = some old) :
    WorkRun table old (childDb cat ps local_id item c.db)
      ((storeChild value ps local_id item).run cat busy c) := by
  unfold storeChild childDb
  rw [ask_bind, run_call]
  simp only [Conn.answer]
  have hwork : ∀ code : Code, ∀ e ∈ [(⟨.step ((ps.bind 1 (.integer local_id)).bind 2
      (.integer item)), code⟩ : Event)], Event.isWork table e = true := by
    intro code e he
    rw [List.mem_singleton.mp he]
    simpa [Event.isWork] using ht
  cases h : cat.exec c.db ((ps.bind 1 (.integer local_id)).bind 2 (.integer item)) with
  | ok res =>
    obtain ⟨db, id⟩ := res
    rw [Conn.step_ok hs h]
    refine ⟨fun db' h' => ?_, fun h' => (by cases h'), hwork .done⟩
    cases h'
    refine ⟨rfl, rfl, hs, fun e he => ?_⟩
    rw [List.mem_singleton.mp he]
    rfl
  | error e =>
    rw [Conn.step_error h]
    have hfail := Catalog.exec_error h
    clear h
    -- a refused statement fails again when it is finalized
    cases e with
    | constraint => exact WorkRun.aborted (hwork .constraint)
    | error => exact WorkRun.aborted (hwork .error)
    | full => exact WorkRun.aborted (hwork .full)
    | mismatch => exact WorkRun.aborted (hwork .mismatch)
    | ok | row | done | busy | misuse => exact absurd hfail Bool.false_ne_true

theorem run_storeChildren {table : String} {old : Db} {value : Message} {ps : Prepared}
    {local_id : ℤ} (ht : ps.stmt.table ≠ table) (items : List ℤ) {c : Conn}
    (hs : c.saved = some old) :
    WorkRun table old (childrenDb cat ps local_id items c.db)
      ((storeChildren value ps local_id items).run cat busy c) := by
  induction items generalizing c with
  | nil => exact WorkRun.done hs
  | cons item items ih => exact (run_storeChild ht hs).bind (fun c' hs' => ih hs')

/-- The statement for the elements of a repeated field is about the table of
the field. -/
theorem prepare_childText {cmd : StoreCmd} {table field0 field : String} {ps : Prepared}
    (h : cat.prepare (childText cmd table field0 field) = some ps) :
    ps.stmt = .insert (if cmd = .replace then .replace else .ignore) (table ++ "_" ++ field)
        [field0, field]
      ∧ ps.params = [.null, .null] := by
  have hp : ∀ oc, parseInto oc (intoText (table ++ "_" ++ field) [field0, field])
      = some (.insert oc (table ++ "_" ++ field) [field0, field]) :=
    fun oc => parseInto_text oc _ _ (List.cons_ne_nil _ _)
  have hparse : parse (childText cmd table field0 field)
      = some (.insert (if cmd = .replace then .replace else .ignore) (table ++ "_" ++ field)
        [field0, field]) := by
    cases cmd <;> exact hp _
  obtain ⟨s, hs, -, rfl⟩ := Catalog.of_prepare h
  obtain rfl := Option.some.inj (hs.symm.trans hparse)
  exact ⟨rfl, rfl⟩

theorem child_table_ne (table field : String) : table ++ "_" ++ field ≠ table := by
  intro h
  have := congrArg String.length h
  simp only [String.length_append] at this
  have h1 : ("_" : String).length = 1 := by decide
  omega

theorem run_storeRepeated {old : Db} {cmd : StoreCmd} {value : Message} {local_id : ℤ}
    (fd : FieldDescriptor) {c : Conn} (hs : c.saved = some old) :
    WorkRun value.desc.name old (repeatedDb cat cmd value local_id fd c.db)
      ((storeRepeated cmd value local_id fd).run cat busy c) := by
  unfold storeRepeated repeatedDb
  rw [ask_bind, run_call]
  simp only [Conn.answer]
  have hcall : ∀ (res : Option Db) (r : Run Message Unit) (p : Option Prepared) (sql : List Token),
      WorkRun value.desc.name old res r →
        WorkRun value.desc.name old res { r with trace := ⟨.prepare sql, p⟩ :: r.trace } := by
    intro res r p sql hr
    refine ⟨fun db h => ?_, hr.lost, fun e he => ?_⟩
    · obtain ⟨h₁, h₂, h₃, h₄⟩ := hr.ok db h
      refine ⟨h₁, h₂, h₃, fun e he => ?_⟩
      rcases List.mem_cons.mp he with rfl | he
      · rfl
      · exact h₄ e he
    · rcases List.mem_cons.mp he with rfl | he
      · rfl
      · exact hr.calls e he
  have habort : WorkRun value.desc.name old none
      ((Prog.abort : Prog Message Unit).run cat busy c) :=
    WorkRun.aborted (fun e he => absurd he (List.not_mem_nil))
  refine hcall _ _ _ _ ?_
  cases hp : cat.prepare (childText cmd value.desc.name value.desc.field0.name fd.name) with
  | none => exact habort
  | some ps =>
    have ht : ps.stmt.table ≠ value.desc.name := by
      rw [(prepare_childText hp).1]
      exact child_table_ne _ _
    dsimp only
    cases value.val fd.name with
    | ints l => exact run_storeChildren ht l hs
    | _ => exact habort

variable (cat busy) in
theorem run_storeAllRepeated {old : Db} (cmd : StoreCmd) (value : Message) (local_id : ℤ)
    (fds : List FieldDescriptor) {c : Conn} (hs : c.saved = some old) :
    WorkRun value.desc.name old (allRepeatedDb cat cmd value local_id fds c.db)
      ((storeAllRepeated cmd value local_id fds).run cat busy c) := by
  induction fds generalizing c with
  | nil => exact WorkRun.done hs
  | cons fd fds ih => exact (run_storeRepeated fd hs).bind (fun c' hs' => ih hs')

/-! ## A whole run -/

/-- The ID the rows of the repeated fields are written for: the message's
own, or the one that its row has got. -/
def idAfter (value : Message) (rowid : ℤ) : ℤ :=
  if localId value = -1 then toInt32 rowid else localId value

/-- The message once its row is written, with the ID that its row has got if
it had none. -/
def messageAfter (value : Message) (rowid : ℤ) : Message :=
  if localId value = -1 then value.set value.desc.field0 (.int (toInt32 rowid)) else value

/-- The root statement with everything bound, where it can be prepared. A
message without a scalar field has no statement. -/
def rootStatement (cat : Catalog) (cmd : StoreCmd) (value : Message) : Option Prepared :=
  (cat.prepare (rootText cmd value.desc.name (scalarNames value) value.desc.field0.name)).bind
    (bindRoot cmd value)

/-- The statement for the scalar fields, by what its text says. An update has
the ID in its condition. -/
def rootStmt (cmd : StoreCmd) (table : String) (field_names : List String) (field0 : String) :
    Stmt :=
  match cmd with
  | .insert => .insert .abort table field_names
  | .replace => .insert .replace table field_names
  | .update => .update table field_names field0

/-- **The text of the root statement**: with columns to name it is the
statement it is meant to be, and without any it is a syntax error. -/
theorem parse_rootText (cmd : StoreCmd) (table : String) (field_names : List String)
    (field0 : String) :
    parse (rootText cmd table field_names field0)
      = if field_names = [] then none else some (rootStmt cmd table field_names field0) := by
  by_cases h : field_names = []
  · subst h
    cases cmd <;> rfl
  · rw [if_neg h]
    cases cmd with
    | insert => exact parseInto_text .abort table field_names h
    | replace => exact parseInto_text .replace table field_names h
    | update =>
      unfold rootText parse
      dsimp only
      rw [assignList_commaSep field_names h _ (by simp)]
      rfl

/-- A root statement that can be prepared names a column. -/
theorem prepare_rootText {cmd : StoreCmd} {table : String} {field_names : List String}
    {field0 : String} {ps : Prepared}
    (h : cat.prepare (rootText cmd table field_names field0) = some ps) :
    field_names ≠ [] ∧ cat.resolves (rootStmt cmd table field_names field0) = true
      ∧ ps = ⟨rootStmt cmd table field_names field0,
        List.replicate (rootStmt cmd table field_names field0).marks .null⟩ := by
  obtain ⟨s, hs, hres, rfl⟩ := Catalog.of_prepare h
  rw [parse_rootText] at hs
  split at hs
  · cases hs
  · rename_i hne
    obtain rfl := Option.some.inj hs
    exact ⟨hne, hres, rfl⟩

theorem bindFromFields_stmt {value : Message} {ps ps' : Prepared} {n : ℕ}
    (h : bindFromFields value ps = some (ps', n)) : ps'.stmt = ps.stmt := by
  unfold bindFromFields at h
  generalize value.listFields = fds at h
  generalize hacc : ((ps, 1) : Prepared × ℕ) = acc at h
  have hstart : acc.1.stmt = ps.stmt := by rw [← hacc]
  clear hacc
  induction fds generalizing acc with
  | nil =>
    obtain rfl := Option.some.inj h
    exact hstart
  | cons fd fds ih =>
    rw [List.foldlM_cons] at h
    obtain ⟨acc', hacc', hrest⟩ := Option.bind_eq_some_iff.mp h
    refine ih acc' hrest ?_
    unfold bindField at hacc'
    split at hacc'
    · obtain rfl := Option.some.inj hacc'
      exact hstart
    · obtain ⟨v, -, rfl⟩ := Option.map_eq_some_iff.mp hacc'
      simpa using hstart

/-- The root statement is the one its text says. -/
theorem rootStatement_stmt {cmd : StoreCmd} {value : Message} {ps : Prepared}
    (h : rootStatement cat cmd value = some ps) :
    ps.stmt = rootStmt cmd value.desc.name (scalarNames value) value.desc.field0.name := by
  obtain ⟨ps₀, hps₀, hb⟩ := Option.bind_eq_some_iff.mp h
  obtain ⟨⟨ps₁, n⟩, hf, rfl⟩ := Option.map_eq_some_iff.mp hb
  have hstmt : ps₁.stmt = rootStmt cmd value.desc.name (scalarNames value)
      value.desc.field0.name := by
    rw [bindFromFields_stmt hf, (prepare_rootText hps₀).2.2]
  dsimp only
  split
  · exact (Prepared.bind_stmt ..).trans hstmt
  · exact hstmt

theorem rootStatement_table {cmd : StoreCmd} {value : Message} {ps : Prepared}
    (h : rootStatement cat cmd value = some ps) : ps.stmt.table = value.desc.name := by
  rw [rootStatement_stmt h]
  cases cmd <;> rfl

/-- How a save ends. A message that comes with the end is the one that the
caller has afterwards. -/
inductive Save
  | aborted
  | rootRefused
  | commitRefused (value : Message)
  | saved (value : Message) (db : Db)

/-- **How a save ends, by the contents it starts from.** This is the store
without its calls: what the root statement does, what the rows of the
repeated fields do after it, and whether the commit is accepted. -/
def save (cat : Catalog) (busy : Bool) (cmd : StoreCmd) (value : Message) (c : Conn) : Save :=
  if cmd = .update ∧ localId value = -1 then .aborted
  else
    match rootStatement cat cmd value with
    | none => .aborted
    | some ps =>
      match cat.exec c.db ps with
      | .error .constraint => .rootRefused
      | .error _ => .aborted
      | .ok (db₁, id) =>
        let rowid := id.getD c.lastRowid
        match allRepeatedDb cat cmd (messageAfter value rowid) (idAfter value rowid)
          (value.listFields.filter FieldDescriptor.repeated) db₁ with
        | none => .aborted
        | some db₂ =>
          if busy ∨ cat.orphans true c.db < cat.orphans true db₂ then
            .commitRefused (messageAfter value rowid)
          else .saved (messageAfter value rowid) db₂

/-- **A run that started from the contents `old` ends the way a save is said
to**, and so did the calls it made. The outcome, the contents and the open
transaction are those of the end; the trace says at which kind of call it was
refused, if it was. -/
def Save.Describes (table : String) (value : Message) (old : Db)
    (r : Run Message (Code × Message)) : Save → Prop
  | .aborted => r.outcome = .aborted
      ∧ ∀ e ∈ r.trace, e.refused = true → e.childRefused table = true
  | .rootRefused => r.outcome = .raised value ∧ r.conn.db = old ∧ r.conn.saved = none
      ∧ ∀ e ∈ r.trace, e.childRefused table = false ∧ e.commitRefused = false
  | .commitRefused value' => r.outcome = .raised value' ∧ r.conn.db = old ∧ r.conn.saved = none
      ∧ (∀ e ∈ r.trace, e.childRefused table = false) ∧ ∃ e ∈ r.trace, e.commitRefused = true
  | .saved value' db => r.outcome = .returned (.ok, value') ∧ r.conn.db = db
      ∧ r.conn.saved = none ∧ ∀ e ∈ r.trace, e.refused = false

theorem Sql.Event.refused_of_commitRefused {e : Event} (h : e.commitRefused = true) :
    e.refused = true := by
  obtain ⟨k, r⟩ := e
  cases k with
  | exec t =>
    cases t with
    | commit => exact h
    | begin => cases h
    | rollback => cases h
  | prepare s => cases h
  | step p => cases h
  | lastInsertRowid => cases h

/-- Calls that are not refused change nothing in how a run ends. So what is
said of the end of a program is said of the program, once its other calls
have been accepted. -/
theorem Save.Describes.prepend {table : String} {value : Message} {old : Db} {s : Save}
    {r : Run Message (Code × Message)} (h : s.Describes table value old r) {es : List Event}
    (he : ∀ e ∈ es, e.refused = false) :
    s.Describes table value old { r with trace := es ++ r.trace } := by
  have hchild : ∀ e ∈ es, e.childRefused table = false := fun e hm =>
    Bool.eq_false_iff.mpr fun hc =>
      absurd (Event.refused_of_childRefused hc) (by rw [he e hm]; exact Bool.false_ne_true)
  have hcommit : ∀ e ∈ es, e.commitRefused = false := fun e hm =>
    Bool.eq_false_iff.mpr fun hc =>
      absurd (Event.refused_of_commitRefused hc) (by rw [he e hm]; exact Bool.false_ne_true)
  cases s with
  | aborted =>
    refine ⟨h.1, fun e hm hr => ?_⟩
    rcases List.mem_append.mp hm with hm | hm
    · rw [he e hm] at hr
      cases hr
    · exact h.2 e hm hr
  | rootRefused =>
    refine ⟨h.1, h.2.1, h.2.2.1, fun e hm => ?_⟩
    rcases List.mem_append.mp hm with hm | hm
    · exact ⟨hchild e hm, hcommit e hm⟩
    · exact h.2.2.2 e hm
  | commitRefused value' =>
    obtain ⟨h₁, h₂, h₃, h₄, e', he', hr'⟩ := h
    refine ⟨h₁, h₂, h₃, fun e hm => ?_, e', List.mem_append_right _ he', hr'⟩
    rcases List.mem_append.mp hm with hm | hm
    · exact hchild e hm
    · exact h₄ e hm
  | saved value' db =>
    refine ⟨h.1, h.2.1, h.2.2.1, fun e hm => ?_⟩
    rcases List.mem_append.mp hm with hm | hm
    · exact he e hm
    · exact h.2.2.2 e hm

/-- A call that is not refused changes nothing in how a run ends. -/
theorem Save.Describes.cons {table : String} {value : Message} {old : Db} {s : Save}
    {r : Run Message (Code × Message)} (h : s.Describes table value old r) {e : Event}
    (he : e.refused = false) :
    s.Describes table value old { r with trace := e :: r.trace } :=
  h.prepend (fun e' he' => by rw [List.mem_singleton.mp he']; exact he)

variable (cat busy) in
/-- Writing the ID back makes at most one call, which is not refused. -/
theorem run_writeBackId (value : Message) (c : Conn) :
    ∃ es, (writeBackId value (localId value)).run cat busy c
        = ⟨.returned (idAfter value c.lastRowid, messageAfter value c.lastRowid), c, es⟩
      ∧ ∀ e ∈ es, e.refused = false := by
  unfold writeBackId idAfter messageAfter
  by_cases h : localId value = -1
  · simp only [h, if_true]
    refine ⟨[⟨.lastInsertRowid, c.lastRowid⟩], rfl, fun e he => ?_⟩
    rw [List.mem_singleton.mp he]
    rfl
  · simp only [h, if_false]
    exact ⟨[], rfl, fun e he => absurd he (List.not_mem_nil)⟩

variable (cat busy) in
/-- The end of the transaction: the contents stand, or they are given up. A
commit that is refused is followed by a rollback and an exception. -/
theorem run_commitOrThrow {old : Db} (table : String) (value value' : Message) {c : Conn}
    (hs : c.saved = some old) :
    (if busy ∨ cat.orphans true old < cat.orphans true c.db then Save.commitRefused value'
      else .saved value' c.db).Describes table value old
      ((commitOrThrow value').run cat busy c) := by
  unfold commitOrThrow
  rw [ask_bind, run_call]
  simp only [Conn.answer, Conn.exec, hs]
  have hgive : ∀ code : Code, (code == .constraint || code == .busy) = true →
      (Save.commitRefused value').Describes table value old
        { (if code ≠ .ok then rollbackAndThrow value' else pure (.ok, value') :
            Prog Message (Code × Message)).run cat busy c with
          trace := ⟨.exec .commit, code⟩ :: ((if code ≠ .ok then rollbackAndThrow value'
            else pure (.ok, value') : Prog Message (Code × Message)).run cat busy c).trace } := by
    intro code hcode
    have hne : code ≠ .ok := by rintro rfl; cases hcode
    rw [if_pos hne, run_rollbackAndThrow hs]
    refine ⟨rfl, rfl, rfl, fun e he => ?_, _, List.mem_cons_self .., hcode⟩
    simp only [List.mem_cons, List.not_mem_nil, or_false] at he
    rcases he with rfl | rfl <;> rfl
  cases busy with
  | true =>
    rw [if_pos (Or.inl rfl)]
    exact hgive .busy rfl
  | false =>
    by_cases horph : cat.orphans true old < cat.orphans true c.db
    · rw [if_pos (Or.inr horph)]
      simp only [Bool.false_eq_true, if_false, horph, if_true]
      exact hgive .constraint rfl
    · rw [if_neg (by simp [horph])]
      simp only [Bool.false_eq_true, if_false, horph]
      refine ⟨rfl, rfl, rfl, fun e he => ?_⟩
      rw [List.mem_singleton.mp he]
      rfl

/-- What follows the row of the scalar fields: the ID is written back to the
message, its repeated fields are stored under it, and the transaction is
committed. -/
theorem run_storeRest {old : Db} {cmd : StoreCmd} {value : Message} {c : Conn}
    (hs : c.saved = some old) :
    (match allRepeatedDb cat cmd (messageAfter value c.lastRowid) (idAfter value c.lastRowid)
        (value.listFields.filter FieldDescriptor.repeated) c.db with
      | none => Save.aborted
      | some db₂ =>
        if busy ∨ cat.orphans true old < cat.orphans true db₂ then
          .commitRefused (messageAfter value c.lastRowid)
        else .saved (messageAfter value c.lastRowid) db₂).Describes value.desc.name value old
      ((storeRest cmd value (localId value)).run cat busy c) := by
  obtain ⟨es, hid, hes⟩ := run_writeBackId cat busy value c
  have hwork := run_storeAllRepeated cat busy cmd (messageAfter value c.lastRowid)
    (idAfter value c.lastRowid) (value.listFields.filter FieldDescriptor.repeated) hs
  have hname : (messageAfter value c.lastRowid).desc.name = value.desc.name := by
    unfold messageAfter
    split <;> rfl
  rw [hname] at hwork
  unfold storeRest
  rw [run_bind, hid]
  refine Save.Describes.prepend (r := _) ?_ hes
  dsimp only
  rw [run_bind]
  unfold Run.andThen
  cases hres : allRepeatedDb cat cmd (messageAfter value c.lastRowid) (idAfter value c.lastRowid)
      (value.listFields.filter FieldDescriptor.repeated) c.db with
  | none =>
    rw [hwork.lost hres]
    exact ⟨rfl, fun e he hr => Event.childRefused_of_isWork (hwork.calls e he) hr⟩
  | some db₂ =>
    obtain ⟨ho, hdb, hsv, hquiet⟩ := hwork.ok db₂ hres
    rw [ho]
    have hcommit := run_commitOrThrow cat busy value.desc.name value
      (messageAfter value c.lastRowid) hsv
    rw [hdb] at hcommit
    exact hcommit.prepend hquiet

variable (cat busy) in
/-- **`InsertOrReplace` ends the way `save` says**, from a connection without
an open transaction. What follows about stores is about `save`.

The cases are those of the source in their order: an update without an ID, a
statement that cannot be prepared, a row that is refused, and what comes
after the row. -/
theorem run_insertOrReplace (cmd : StoreCmd) (value : Message) {c : Conn} (hs : c.saved = none) :
    (save cat busy cmd value c).Describes value.desc.name value c.db
      ((insertOrReplace false value cmd).run cat busy c) := by
  have hopen : ({ c with saved := some c.db } : Conn).saved = some c.db := rfl
  unfold insertOrReplace save
  simp only [Bool.false_eq_true, if_false]
  rw [ask_bind, run_call]
  simp only [Conn.answer, Conn.exec, hs]
  refine Save.Describes.cons ?_ rfl
  by_cases hid : cmd = .update ∧ localId value = -1
  · obtain ⟨rfl, hl⟩ := hid
    rw [if_pos ⟨rfl, hl⟩, hl]
    exact ⟨rfl, fun e he => absurd he (List.not_mem_nil)⟩
  · rw [if_neg hid]
    have hguard : (!(cmd == .update) || localId value != -1) = true := by
      by_cases h : cmd = .update
      · simpa [h] using fun hl => hid ⟨h, hl⟩
      · simp [h]
    rw [hguard]
    show Save.Describes _ _ _ (Prog.run cat busy (ask (.prepare _) >>= _) _) _
    rw [ask_bind, run_call]
    refine Save.Describes.cons ?_ rfl
    simp only [Conn.answer]
    show Save.Describes _ _ _ (Prog.run cat busy (match rootStatement cat cmd value with
      | none => _
      | some ps => _) _) _
    cases hps : rootStatement cat cmd value with
    | none => exact ⟨rfl, fun e he => absurd he (List.not_mem_nil)⟩
    | some ps =>
      dsimp only
      rw [ask_bind, run_call]
      simp only [Conn.answer]
      cases hex : cat.exec c.db ps with
      | ok res =>
        obtain ⟨db₁, id⟩ := res
        rw [Conn.step_ok hopen hex]
        exact Save.Describes.cons (run_storeRest rfl) rfl
      | error e =>
        rw [Conn.step_error (c := { c with saved := some c.db }) hex]
        have hfail := Catalog.exec_error hex
        have habort : ∀ e : Code, e ≠ .constraint →
            Save.Describes value.desc.name value c.db
              ⟨.aborted, { c with saved := some c.db }, [⟨.step ps, e⟩]⟩ .aborted := by
          intro e he
          refine ⟨rfl, fun e' he' hr => ?_⟩
          rw [List.mem_singleton.mp he'] at hr
          exact absurd (eq_of_beq hr) he
        cases e with
        | constraint =>
          dsimp only
          rw [run_rollbackAndThrow hopen]
          refine ⟨rfl, rfl, rfl, fun e he => ?_⟩
          simp only [List.mem_cons, List.not_mem_nil, or_false] at he
          rcases he with rfl | rfl
          · have htable : (ps.stmt.table != value.desc.name) = false := by
              simpa using rootStatement_table hps
            exact ⟨by simp [Event.childRefused, htable], rfl⟩
          · exact ⟨rfl, rfl⟩
        | error => exact habort .error (by decide)
        | full => exact habort .full (by decide)
        | mismatch => exact habort .mismatch (by decide)
        | ok | row | done | busy | misuse => exact absurd hfail Bool.false_ne_true

variable (cat busy) in
/-- A process that aborts because the row itself was not written has its
transaction open, with the contents as they were. Nothing of it is committed
then, and the next one that opens the file does not see it. -/
theorem conn_of_rootAborted {cmd : StoreCmd} (hcmd : cmd ≠ .update) {value : Message} {c : Conn}
    (hs : c.saved = none) {ps : Prepared} (hps : rootStatement cat cmd value = some ps) {e : Code}
    (hex : cat.exec c.db ps = .error e) (he : e ≠ .constraint) :
    ((insertOrReplace false value cmd).run cat busy c).conn = { c with saved := some c.db } := by
  have hguard : (!(cmd == .update) || localId value != -1) = true := by simp [hcmd]
  unfold insertOrReplace
  simp only [Bool.false_eq_true, if_false]
  rw [ask_bind, run_call]
  simp only [Conn.answer, Conn.exec, hs]
  rw [hguard]
  show (Prog.run cat busy (ask (.prepare _) >>= _) _).conn = _
  rw [ask_bind, run_call]
  simp only [Conn.answer]
  show (Prog.run cat busy (match rootStatement cat cmd value with
    | none => _
    | some ps => _) _).conn = _
  rw [hps]
  dsimp only
  rw [ask_bind, run_call]
  simp only [Conn.answer]
  rw [Conn.step_error (c := { c with saved := some c.db }) hex]
  have hfail := Catalog.exec_error hex
  cases e with
  | constraint => exact absurd rfl he
  | error | full | mismatch => rfl
  | ok | row | done | busy | misuse => exact absurd hfail Bool.false_ne_true

variable (cat busy) in
/-- An update without an ID aborts as soon as its transaction is open. -/
theorem conn_of_unknownId {value : Message} {c : Conn} (hs : c.saved = none)
    (hid : localId value = -1) :
    ((insertOrReplace false value .update).run cat busy c).conn
      = { c with saved := some c.db } := by
  unfold insertOrReplace
  simp only [Bool.false_eq_true, if_false]
  rw [ask_bind, run_call]
  simp only [Conn.answer, Conn.exec, hs, hid]
  rfl

/-- **A store that returns has saved the message**, and its transaction is
over: none of the other ends returns. This is what callers use, which go on
only after a return. -/
theorem saved_of_returned {cmd : StoreCmd} {value : Message} {c : Conn} (hs : c.saved = none)
    {res : Code × Message}
    (h : ((insertOrReplace false value cmd).run cat busy c).outcome = .returned res) :
    ∃ value' db, save cat busy cmd value c = .saved value' db ∧ res = (.ok, value')
      ∧ ((insertOrReplace false value cmd).run cat busy c).conn.db = db
      ∧ ((insertOrReplace false value cmd).run cat busy c).conn.saved = none := by
  have hrun := run_insertOrReplace cat busy cmd value hs
  cases hsave : save cat busy cmd value c with
  | aborted =>
    rw [hsave] at hrun
    rw [hrun.1] at h
    cases h
  | rootRefused =>
    rw [hsave] at hrun
    rw [hrun.1] at h
    cases h
  | commitRefused value' =>
    rw [hsave] at hrun
    rw [hrun.1] at h
    cases h
  | saved value' db =>
    rw [hsave] at hrun
    rw [hrun.1] at h
    exact ⟨value', db, rfl, (Outcome.returned.inj h).symm, hrun.2.1, hrun.2.2.1⟩

/-- **How a save comes about**, statement by statement: one that is neither
aborted nor refused at once comes to its commit, with the contents that the
rows of the repeated fields have left. -/
theorem save_cases (cat : Catalog) (busy : Bool) (cmd : StoreCmd) (value : Message) (c : Conn) :
    save cat busy cmd value c = .aborted ∨ save cat busy cmd value c = .rootRefused
      ∨ ¬(cmd = .update ∧ localId value = -1) ∧ ∃ ps db₁ id db₂,
        rootStatement cat cmd value = some ps ∧ cat.exec c.db ps = .ok (db₁, id)
        ∧ allRepeatedDb cat cmd (messageAfter value (id.getD c.lastRowid))
            (idAfter value (id.getD c.lastRowid))
            (value.listFields.filter FieldDescriptor.repeated) db₁ = some db₂
        ∧ save cat busy cmd value c
          = if busy ∨ cat.orphans true c.db < cat.orphans true db₂ then
              .commitRefused (messageAfter value (id.getD c.lastRowid))
            else .saved (messageAfter value (id.getD c.lastRowid)) db₂ := by
  unfold save
  by_cases hid : cmd = .update ∧ localId value = -1
  · rw [if_pos hid]
    exact Or.inl rfl
  · rw [if_neg hid]
    cases hps : rootStatement cat cmd value with
    | none => exact Or.inl rfl
    | some ps =>
      dsimp only
      cases hex : cat.exec c.db ps with
      | error e =>
        cases e with
        | constraint => exact Or.inr (Or.inl rfl)
        | _ => exact Or.inl rfl
      | ok res =>
        obtain ⟨db₁, id⟩ := res
        dsimp only
        cases hall : allRepeatedDb cat cmd (messageAfter value (id.getD c.lastRowid))
          (idAfter value (id.getD c.lastRowid))
          (value.listFields.filter FieldDescriptor.repeated) db₁ with
        | none => exact Or.inl rfl
        | some db₂ => exact Or.inr (Or.inr ⟨hid, ps, db₁, id, db₂, rfl, hex, hall, rfl⟩)

/-- What a save that succeeded did. -/
theorem save_saved {cmd : StoreCmd} {value value' : Message} {c : Conn} {db : Db}
    (h : save cat busy cmd value c = .saved value' db) :
    ∃ ps db₁ id, rootStatement cat cmd value = some ps ∧ cat.exec c.db ps = .ok (db₁, id)
      ∧ value' = messageAfter value (id.getD c.lastRowid)
      ∧ allRepeatedDb cat cmd value' (idAfter value (id.getD c.lastRowid))
        (value.listFields.filter FieldDescriptor.repeated) db₁ = some db := by
  rcases save_cases cat busy cmd value c with
    habort | hroot | ⟨-, ps, db₁, id, db₂, hps, hex, hall, hend⟩
  · cases h.symm.trans habort
  · cases h.symm.trans hroot
  · rw [hend] at h
    split at h
    · cases h
    · cases h
      exact ⟨ps, db₁, id, hps, hex, rfl, hall⟩

/-! ## What the rows of repeated fields leave alone -/

theorem childrenDb_frame {ps : Prepared} {local_id : ℤ} {items : List ℤ} {db db' : Db}
    (h : childrenDb cat ps local_id items db = some db') {table : String}
    (ht : ps.stmt.table ≠ table) : db' table = db table := by
  induction items generalizing db with
  | nil =>
    obtain rfl := Option.some.inj h
    rfl
  | cons item items ih =>
    obtain ⟨db₁, hchild, hrest⟩ := Option.bind_eq_some_iff.mp h
    rw [ih hrest]
    unfold childDb at hchild
    split at hchild
    · rename_i db₂ id hex
      obtain rfl := Option.some.inj hchild
      exact Catalog.exec_frame hex (by simpa using ht.symm)
    · cases hchild

/-- **The rows of repeated fields leave the table of the message alone**,
because the tables they are written into have longer names. -/
theorem allRepeatedDb_frame {cmd : StoreCmd} {value : Message} {local_id : ℤ}
    {fds : List FieldDescriptor} {db db' : Db}
    (h : allRepeatedDb cat cmd value local_id fds db = some db') :
    db' value.desc.name = db value.desc.name := by
  induction fds generalizing db with
  | nil =>
    obtain rfl := Option.some.inj h
    rfl
  | cons fd fds ih =>
    obtain ⟨db₁, hone, hrest⟩ := Option.bind_eq_some_iff.mp h
    rw [ih hrest]
    unfold repeatedDb at hone
    split at hone
    · cases hone
    · rename_i ps hps
      split at hone
      · refine childrenDb_frame hone ?_
        rw [(prepare_childText hps).1]
        exact child_table_ne _ _
      · cases hone
