import RctAutomation.RoundTrip
import RctAutomation.Runs

/-!
# The schedule in memory and in the database

A request that updates the schedule copies it into the requirement engine and
then saves it. Each of the two is done under the mutex of the engine, but
requests can come in between: one may save what another one has copied.

Whatever the order, a request that has copied saves later, so the last copy is
followed by a save, which stores what is in memory then.
`stored_schedule_agrees` is that argument over every run, with the one row that
`ProtoTable` keeps for the schedule.

How a schedule is serialized is a parameter.
-/

open Sql

/-! ## `BasicProtoStore` -/

/-- The name of the type, under which a schedule is stored. -/
def scheduleLabel : Bytes := ascii "automation.Schedule"

namespace BasicProtoStore

/-- `Save`: the row of the label is replaced, or is made if there is none.
The object has no ID, so the row is given a new one each time. -/
def save (cat : Catalog) (busy : Bool) (data : Bytes) (c : Conn) :
    Run Message (Code × Message) :=
  (StoredMessage.proto { label := some scheduleLabel, data := some data }).store cat busy .replace c

/-- `Load`, into a schedule that is empty and stays so without a row. -/
def load (cat : Catalog) (parse : Bytes → Schedule) (db : Db) : Option Schedule :=
  (MessageStore.load cat protoTableDesc "ProtoTable" db
    (ProtoTable.toMessage { label := some scheduleLabel })).map
      fun x => (x.2.val "data").str?.elim {} parse

end BasicProtoStore

/-- The rows of the label, as the column compares labels. -/
def labelRows (fp : FloatOps) (db : Db) : List Row :=
  (db "ProtoTable").rows.filter
    (fun r => (r "label").same (Affinity.numeric.apply fp (.text scheduleLabel)))

/-- **Some data is stored under the label**, in one row, and read back,
whatever the query leaves to chance. -/
structure StoredData (fp : FloatOps) (data : Bytes) (db : Db) : Prop where
  one : (labelRows fp db).length = 1
  data : ∀ ch, ∃ m, MessageStore.load (catalog fp ch) protoTableDesc "ProtoTable" db
      (ProtoTable.toMessage { label := some scheduleLabel }) = some (true, m)
    ∧ m.val "data" = .str data

/-- The label is no number, and the data is kept byte for byte. -/
theorem kept_scheduleRow (fp : FloatOps) (data : Bytes) :
    Kept fp protoTableDef
      (StoredMessage.proto { label := some scheduleLabel, data := some data }).toMessage := by
  intro c hc
  have hnames : scalarNames
      (StoredMessage.proto { label := some scheduleLabel, data := some data }).toMessage
        = ["label", "data"] := rfl
  rw [hnames] at hc
  simp only [List.mem_cons, List.not_mem_nil, or_false] at hc
  rcases hc with rfl | rfl
  · intro _
    exact fun hreal => absurd hreal (by decide)
  · show protoTableDef.affinity "data" = .numeric → TextKept fp data
    exact fun hnumeric => absurd hnumeric (by decide)

variable {fp : FloatOps} {ch : Chance} {busy : Bool}

/-- **A save that returns has stored its data**, and keeps the table valid:
the row that was there conflicts with the new one by its label and is
replaced. -/
theorem storedData_of_save {data : Bytes} {c : Conn} (hs : c.saved = none)
    (hv : protoTableDef.Valid (c.db "ProtoTable")) {res : Code × Message}
    (hok : (BasicProtoStore.save (catalog fp ch) busy data c).outcome = .returned res) :
    (BasicProtoStore.save (catalog fp ch) busy data c).conn.saved = none
      ∧ protoTableDef.Valid
        ((BasicProtoStore.save (catalog fp ch) busy data c).conn.db "ProtoTable")
      ∧ StoredData fp data (BasicProtoStore.save (catalog fp ch) busy data c).conn.db := by
  obtain ⟨m, hm⟩ : ∃ m, m
      = StoredMessage.proto { label := some scheduleLabel, data := some data } := ⟨_, rfl⟩
  have hty : m.rowType? = some protoTableType := by rw [hm]; rfl
  have hT := (StoredMessage.mem_rowTypes hty).1
  obtain ⟨value', db₁, hsave, -, hdb, hsaved⟩ := saved_of_returned hs hok
  obtain ⟨r, hr⟩ : ∃ r, SavedRow fp protoTableType (c.db "ProtoTable") (db₁ "ProtoTable")
      m.toMessage r := by
    rw [hm]
    exact savedRow_of_save rfl (by decide) hsave
  have hend : (BasicProtoStore.save (catalog fp ch) busy data c).conn.db = db₁ := hdb
  rw [hend]
  have hkept : Kept fp protoTableType.table m.toMessage := by
    rw [hm]
    exact kept_scheduleRow fp data
  have hlabel : r "label" = Affinity.numeric.apply fp (.text scheduleLabel) := by
    refine (hr.columns "label" (by decide)).trans ?_
    rw [hm]
    exact protoTableType.rowOf_unique hT rfl
  refine ⟨hsaved, ?_, ?_, fun later => ?_⟩
  · refine hv.append hr.rows (fun k hk => ?_) _
    obtain rfl := Option.some.inj ((protoTableType.table_key hT).symm.trans hk)
    exact ⟨_, hr.key⟩
  · -- the new row is the only one that has the label
    unfold labelRows
    rw [hr.rows, filter_placed]
    · rfl
    · intro x hx hsame
      refine TableDef.conflicts_of_unique (u := "label") ?_ ?_
      · rw [protoTableType.table_uniques hT]
        exact List.mem_singleton_self _
      · rw [hlabel, Value.same_comm]
        exact hsame
    · rw [hlabel]
      exact Value.same_self (numericOfText_ne_null fp scheduleLabel)
  · obtain ⟨m₁, hload, hback⟩ :=
      ((hr.roundTrips_iff hty hv).mpr hkept).byText later scheduleLabel (by rw [hm]; rfl)
    refine ⟨m₁, hload, (hback "data" ?_).trans ?_⟩
    · rw [hm]
      exact List.mem_cons_of_mem "label" (List.mem_cons_self ..)
    · rw [hm]
      rfl

/-! ## Requests -/

/-- How far a request is: it has not copied its schedule into the engine, it
has, or it has saved. -/
inductive UpdatePhase
  | idle | copied | saved
  deriving DecidableEq

/-- The schedule of the engine, its connection, and the requests. The mutex
of the engine makes each copy and each save one step; it is free between
them. -/
structure ScheduleStore (ι : Type) where
  schedule_ : Schedule
  conn : Conn
  phase : ι → UpdatePhase

/-- What a request does: it copies its schedule, and saves the one in memory. -/
inductive UpdateAct (ι : Type)
  | copyFrom (i : ι) (input : Schedule)
  | save (i : ι) (ch : Chance) (busy : Bool)

namespace ScheduleStore

variable {ι : Type} [DecidableEq ι]

/-- **One step of a request.** A save that is refused ends its request with an
exception, so it is no step of a request that completes. -/
inductive Step (fp : FloatOps) (serialize : Schedule → Bytes) :
    ScheduleStore ι → UpdateAct ι → ScheduleStore ι → Prop
  | copyFrom {s : ScheduleStore ι} {i : ι} (input : Schedule) (hi : s.phase i = .idle) :
      Step fp serialize s (.copyFrom i input)
        { s with schedule_ := input, phase := Function.update s.phase i .copied }
  | save {s : ScheduleStore ι} {i : ι} (ch : Chance) (busy : Bool) {res : Code × Message}
      (hi : s.phase i = .copied)
      (hok : (BasicProtoStore.save (catalog fp ch) busy (serialize s.schedule_) s.conn).outcome
        = .returned res) :
      Step fp serialize s (.save i ch busy)
        { s with
          conn := (BasicProtoStore.save (catalog fp ch) busy (serialize s.schedule_) s.conn).conn
          phase := Function.update s.phase i .saved }

/-- The schedule that was copied last, by any of the requests. -/
def lastInput (trace : List (ScheduleStore ι × UpdateAct ι)) : Option Schedule :=
  (trace.filterMap fun x => match x.2 with
    | .copyFrom _ input => some input
    | .save _ _ _ => none).getLast?

/-- Nothing has started: no request is under way, and no transaction is
open. -/
structure Initial (s : ScheduleStore ι) : Prop where
  idle : ∀ i, s.phase i = .idle
  saved : s.conn.saved = none
  valid : protoTableDef.Valid (s.conn.db "ProtoTable")

omit [DecidableEq ι] in
theorem lastInput_copyFrom (trace : List (ScheduleStore ι × UpdateAct ι)) (s : ScheduleStore ι)
    (i : ι) (input : Schedule) : lastInput (trace ++ [(s, .copyFrom i input)]) = some input := by
  unfold lastInput
  rw [List.filterMap_append]
  exact List.getLast?_append_of_ne_nil _ (List.cons_ne_nil _ _)

omit [DecidableEq ι] in
theorem lastInput_save (trace : List (ScheduleStore ι × UpdateAct ι)) (s : ScheduleStore ι)
    (i : ι) (ch : Chance) (busy : Bool) :
    lastInput (trace ++ [(s, .save i ch busy)]) = lastInput trace := by
  unfold lastInput
  rw [List.filterMap_append]
  exact congrArg List.getLast? (List.append_nil _)

/-- **What every run keeps**: the schedule in memory is the one copied last,
and it is stored unless a request that has copied has yet to save. -/
structure Follows (fp : FloatOps) (serialize : Schedule → Bytes)
    (trace : List (ScheduleStore ι × UpdateAct ι)) (s : ScheduleStore ι) : Prop where
  saved : s.conn.saved = none
  valid : protoTableDef.Valid (s.conn.db "ProtoTable")
  schedule_ : ∀ input, lastInput trace = some input → s.schedule_ = input
  stored : lastInput trace = none ∨ (∃ i, s.phase i = .copied)
    ∨ StoredData fp (serialize s.schedule_) s.conn.db

/-- A step keeps it. -/
theorem Follows.step {serialize : Schedule → Bytes} {trace : List (ScheduleStore ι × UpdateAct ι)}
    {s s' : ScheduleStore ι} {a : UpdateAct ι} (h : Follows fp serialize trace s)
    (hstep : Step fp serialize s a s') : Follows fp serialize (trace ++ [(s, a)]) s' := by
  cases hstep with
  | @copyFrom i input hi =>
    refine ⟨h.saved, h.valid, fun input' hlast => ?_, Or.inr (Or.inl ⟨i, ?_⟩)⟩
    · rw [lastInput_copyFrom] at hlast
      exact Option.some.inj hlast
    · exact Function.update_self ..
  | @save i ch busy res hi hok =>
    obtain ⟨hsaved, hvalid, hstored⟩ := storedData_of_save h.saved h.valid hok
    refine ⟨hsaved, hvalid, fun input hlast => ?_, Or.inr (Or.inr hstored)⟩
    rw [lastInput_save] at hlast
    exact h.schedule_ input hlast

/-- **And so does every run**, by the invariant carried along it. A copy
makes its request one that has yet to save, and a save stores what is in
memory then, whoever has copied that. -/
theorem follows_of_run {serialize : Schedule → Bytes} {s₀ s : ScheduleStore ι} (h₀ : s₀.Initial)
    {trace : List (ScheduleStore ι × UpdateAct ι)}
    (hrun : Transitions.Run (Step fp serialize) s₀ trace s) : Follows fp serialize trace s := by
  induction hrun with
  | nil => exact ⟨h₀.saved, h₀.valid, fun _ h => (by cases h), Or.inl rfl⟩
  | snoc hrun hstep ih => exact ih.step hstep

/-- **The stored schedule and the live one agree** once no request that has
copied has yet to save: both are the schedule that was copied last, and it
has one row. Of the serialization it is assumed that it reads that schedule
back.

A request copies and saves in two steps, with the mutex of the engine
released between them. The save takes the schedule of the engine and not that
of the request, so whoever saves last saves what was copied last. -/
theorem stored_schedule_agrees (fp : FloatOps) (serialize : Schedule → Bytes)
    (parse : Bytes → Schedule) {s₀ s : ScheduleStore ι} (h₀ : s₀.Initial)
    {trace : List (ScheduleStore ι × UpdateAct ι)}
    (hrun : Transitions.Run (Step fp serialize) s₀ trace s) (hdone : ∀ i, s.phase i ≠ .copied)
    {input : Schedule} (hlast : lastInput trace = some input)
    (hparse : parse (serialize input) = input) :
    s.schedule_ = input
      ∧ (∀ ch, BasicProtoStore.load (catalog fp ch) parse s.conn.db = some s.schedule_)
      ∧ (labelRows fp s.conn.db).length = 1 := by
  have hfollows := follows_of_run h₀ hrun
  have hinput := hfollows.schedule_ input hlast
  -- a schedule was copied, and no request that has copied has yet to save
  rcases hfollows.stored with hnone | ⟨i, hi⟩ | hstored
  · rw [hlast] at hnone
    cases hnone
  · exact absurd hi (hdone i)
  · refine ⟨hinput, fun ch => ?_, hstored.one⟩
    obtain ⟨m, hload, hdata⟩ := hstored.data ch
    unfold BasicProtoStore.load
    rw [hload, Option.map_some, hdata, hinput]
    exact congrArg some hparse

/-- A schedule with one requirement, that does nothing. -/
def noOpSchedule : Schedule := ⟨[{ type := some .NO_OP }]⟩

/-- That schedule and the empty one on the wire. -/
def wireOf (schedule : Schedule) : Bytes := if schedule = noOpSchedule then [10, 2, 16, 0] else []

/-- And read from it. -/
def readWire (data : Bytes) : Schedule := if data = [10, 2, 16, 0] then noOpSchedule else {}

/-- The connection after the schedule was saved once more. -/
def savedOnce (c : Conn) : Conn :=
  (BasicProtoStore.save (catalog .whole .stored) false (wireOf noOpSchedule) c).conn

/-- Two requests that copy before either of them saves. Both save the same
schedule, in one row. -/
theorem stored_schedule_agrees_two :
    BasicProtoStore.load (catalog .whole .stored) readWire
        (savedOnce (savedOnce ⟨emptyDb, none, 0⟩)).db = some noOpSchedule
      ∧ (labelRows .whole (savedOnce (savedOnce ⟨emptyDb, none, 0⟩)).db).length = 1 := by
  have hrun : Transitions.Run (Step .whole wireOf)
      (⟨{}, ⟨emptyDb, none, 0⟩, fun _ => .idle⟩ : ScheduleStore Bool) _ _ :=
    .snoc (.snoc (.snoc (.snoc .nil (.copyFrom (i := false) {} rfl))
      (.copyFrom (i := true) noOpSchedule rfl)) (.save (i := true) .stored false rfl rfl))
      (.save (i := false) .stored false rfl rfl)
  obtain ⟨-, hload, hone⟩ := stored_schedule_agrees .whole wireOf readWire
    ⟨fun _ => rfl, rfl, consistent_emptyDb.valid protoTableDef (by simp [schemaTables])⟩ hrun
    (fun i => by cases i <;> exact UpdatePhase.noConfusion) (lastInput_save ..) rfl
  exact ⟨hload .stored, hone⟩

end ScheduleStore
