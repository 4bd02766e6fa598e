import RctAutomation.SerialStores
import RctAutomation.StoredSchedule

/-!
# The schedule after a restart

A requirement engine that is made reads its schedule from the database. What it reads
is the schedule of the last save that returned, and nothing else that the threads of
the program or of other processes stored meanwhile makes a difference, nor do stores
that were refused or whose process ended before they returned
(`restart_loads_last_saved`).

The argument goes along the stores as they took effect one after the other: a save
leaves its data in the only row of the label, and other messages are kept in other
tables.
-/

open Sql

variable {fp : FloatOps} {ch : Chance}

/-- The schedule that serialized data is parsed as. Data that is no schedule
leaves what was read of it, since the result of parsing is not looked at. -/
def Schedule.parse (data : Bytes) : Schedule := (Wire.parse readField {} data).1

/-- The serialized object that a store put into the database, with the
command by which it did. -/
def storedProto : Users.Effect StoreCall (Code × Message) → Option (StoreCmd × ProtoTable)
  | .returned o _ =>
    match o.message with
    | .proto p => some (o.cmd, p)
    | _ => none
  | .boot => none

/-- **`Save` of a schedule**, as the only kind of object that is saved: the
row of the label is replaced, and the object has no ID of its own. -/
def IsScheduleSave (x : StoreCmd × ProtoTable) : Prop :=
  ∃ data, x = (.replace, { label := some scheduleLabel, data := some data })

/-- The data of the last save that returned. -/
def lastSaved (es : List (Users.Effect StoreCall (Code × Message))) : Option Bytes :=
  (es.filterMap storedProto).getLast?.bind fun x => x.2.data

theorem lastSaved_concat_none {es : List (Users.Effect StoreCall (Code × Message))}
    {e : Users.Effect StoreCall (Code × Message)} (he : storedProto e = none) :
    lastSaved (es ++ [e]) = lastSaved es := by
  unfold lastSaved
  rw [List.filterMap_append, List.filterMap_cons_none he, List.filterMap_nil, List.append_nil]

theorem lastSaved_concat_some {es : List (Users.Effect StoreCall (Code × Message))}
    {e : Users.Effect StoreCall (Code × Message)} {x : StoreCmd × ProtoTable}
    (he : storedProto e = some x) : lastSaved (es ++ [e]) = x.2.data := by
  unfold lastSaved
  rw [List.filterMap_append, List.filterMap_cons_some he, List.filterMap_nil,
    List.getLast?_concat, Option.bind_some]

/-! ## What a store leaves alone -/

/-- The rows of repeated fields are not in tables of other names. -/
theorem allRepeatedDb_other {cat : Catalog} {cmd : StoreCmd} {value : Message} {local_id : ℤ}
    {table : String} {fds : List FieldDescriptor}
    (ht : ∀ fd ∈ fds, value.desc.name ++ "_" ++ fd.name ≠ table) {db db' : Db}
    (h : allRepeatedDb cat cmd value local_id fds db = some db') : db' table = db table := by
  induction fds generalizing db with
  | nil =>
    obtain rfl := Option.some.inj h
    rfl
  | cons fd fds ih =>
    obtain ⟨hfd, hfds⟩ := List.forall_mem_cons.mp ht
    obtain ⟨db₁, hone, hrest⟩ := Option.bind_eq_some_iff.mp h
    rw [ih hfds hrest]
    unfold repeatedDb at hone
    split at hone
    · cases hone
    · rename_i ps hps
      split at hone
      · refine childrenDb_frame hone ?_
        rw [(prepare_childText hps).1]
        exact hfd
      · cases hone

/-- **A store leaves the other tables alone**: its message is kept in the
table of its type and the ones of its repeated fields. -/
theorem save_other {busy : Bool} {cmd : StoreCmd} {value value' : Message} {c : Conn} {db' : Db}
    {table : String} (hroot : value.desc.name ≠ table)
    (hfields : ∀ fd ∈ value.desc.fields, value.desc.name ++ "_" ++ fd.name ≠ table)
    (h : save (catalog fp ch) busy cmd value c = .saved value' db') :
    db' table = c.db table := by
  obtain ⟨ps, db₁, id, hps, hex, hvalue, hall⟩ := save_saved h
  have hname : value'.desc.name = value.desc.name := by
    rw [hvalue]
    unfold messageAfter
    split <;> rfl
  have hrepeated : db' table = db₁ table := by
    refine allRepeatedDb_other (fun fd hfd => ?_) hall
    rw [hname]
    exact hfields fd (List.mem_of_mem_filter (List.mem_of_mem_filter hfd))
  have hstmt : ps.stmt.table = value.desc.name := by
    rw [rootStatement_stmt hps]
    cases cmd <;> rfl
  rw [hrepeated]
  exact Catalog.exec_frame hex (by rw [hstmt]; exact hroot.symm)

/-- Messages that are no serialized objects are not kept with these. -/
theorem save_protoTable {m : StoredMessage} (hm : ∀ p, m ≠ .proto p) {busy : Bool}
    {cmd : StoreCmd} {value' : Message} {c : Conn} {db' : Db}
    (h : save (catalog fp ch) busy cmd m.toMessage c = .saved value' db') :
    db' "ProtoTable" = c.db "ProtoTable" := by
  cases m with
  | item i =>
    exact save_other (show "PlayableItem" ≠ _ by decide)
      (show ∀ fd ∈ playableItemDesc.fields, "PlayableItem" ++ "_" ++ fd.name ≠ _ by decide) h
  | playlist l =>
    exact save_other (show "Playlist" ≠ _ by decide)
      (show ∀ fd ∈ playlistDesc.fields, "Playlist" ++ "_" ++ fd.name ≠ _ by decide) h
  | lock l =>
    exact save_other (show "PlaylistLock" ≠ _ by decide)
      (show ∀ fd ∈ playlistLockDesc.fields, "PlaylistLock" ++ "_" ++ fd.name ≠ _ by decide) h
  | proto p => exact absurd rfl (hm p)

/-! ## The row of the schedule -/

/-- **What is kept of a schedule**: nothing before the first save, and then
the data of the last one. -/
structure KeepsSchedule (fp : FloatOps) (last : Option Bytes) (db : Db) : Prop where
  valid : protoTableDef.Valid (db "ProtoTable")
  nothing : last = none → (db "ProtoTable").rows = []
  stored : ∀ data, last = some data → StoredData fp data db

theorem labelRows_congr {db db' : Db} (h : db' "ProtoTable" = db "ProtoTable") :
    labelRows fp db' = labelRows fp db := by
  unfold labelRows
  rw [h]

/-- The rows that are read are those of the label. -/
theorem load_schedule_eq (later : Chance) (db : Db) :
    MessageStore.load (catalog fp later) protoTableDesc "ProtoTable" db
        (ProtoTable.toMessage { label := some scheduleLabel })
      = protoFromRows fp protoTableDesc ((labelRows fp db).map
        (fun r => protoTableDef.columns.map (fun col => (col.name, r col.name))))
        (ProtoTable.toMessage { label := some scheduleLabel }) :=
  protoTableType.load_eq (by simp [rowTypes]) fp later db scheduleLabel

/-- Where the table stays as it is, so does what is kept. -/
theorem KeepsSchedule.congr {last : Option Bytes} {db db' : Db} (h : KeepsSchedule fp last db)
    (htable : db' "ProtoTable" = db "ProtoTable") : KeepsSchedule fp last db' where
  valid := htable ▸ h.valid
  nothing hlast := htable ▸ h.nothing hlast
  stored data hlast := by
    obtain ⟨hone, hdata⟩ := h.stored data hlast
    refine ⟨(labelRows_congr htable).symm ▸ hone, fun later => ?_⟩
    rw [load_schedule_eq, labelRows_congr htable, ← load_schedule_eq]
    exact hdata later

/-- **What is read is the schedule that is kept**, or the empty one if none
is. -/
theorem KeepsSchedule.load {last : Option Bytes} {db : Db} (h : KeepsSchedule fp last db)
    (later : Chance) (parse : Bytes → Schedule) :
    BasicProtoStore.load (catalog fp later) parse db = some (last.elim {} parse) := by
  unfold BasicProtoStore.load
  cases last with
  | some data =>
    obtain ⟨m, hload, hm⟩ := (h.stored data rfl).data later
    rw [hload, Option.map_some, hm]
    rfl
  | none =>
    have hrows : labelRows fp db = [] := by
      unfold labelRows
      rw [h.nothing rfl]
      rfl
    rw [load_schedule_eq, hrows]
    rfl

/-- **A save replaces the schedule that is kept**, whatever was kept before. -/
theorem KeepsSchedule.save {last : Option Bytes} {db db' : Db} (h : KeepsSchedule fp last db)
    {data : Bytes} {v : Message} {rowid : ℤ}
    (hsave : save (catalog fp ch) false .replace
      (StoredMessage.proto { label := some scheduleLabel, data := some data }).toMessage
      ⟨db, none, rowid⟩ = .saved v db') : KeepsSchedule fp (some data) db' := by
  have hrun := run_insertOrReplace (catalog fp ch) false .replace
    (StoredMessage.proto { label := some scheduleLabel, data := some data }).toMessage
    (c := ⟨db, none, rowid⟩) rfl
  rw [hsave] at hrun
  obtain ⟨houtcome, hconn, -⟩ := hrun
  obtain ⟨-, hvalid, hstored⟩ := storedData_of_save (c := ⟨db, none, rowid⟩) rfl h.valid houtcome
  have hdb : (BasicProtoStore.save (catalog fp ch) false data ⟨db, none, rowid⟩).conn.db = db' :=
    hconn
  rw [hdb] at hvalid hstored
  refine ⟨hvalid, nofun, fun data' hdata => ?_⟩
  obtain rfl := Option.some.inj hdata
  exact hstored

/-- **Along the stores that took effect, the last schedule is kept.** A store
of another message, or a start of the automation, leaves it as it is.

By induction along the stores. That all stores of a `ProtoTable` save a
schedule under the one label keeps its row the only one. -/
theorem StoredInTurn.keepsSchedule {es : List (Users.Effect StoreCall (Code × Message))} {db : Db}
    (h : StoredInTurn fp ch emptyDb es db)
    (hsaves : ∀ x ∈ es.filterMap storedProto, IsScheduleSave x) :
    KeepsSchedule fp (lastSaved es) db := by
  induction h with
  | nil =>
    exact ⟨consistent_emptyDb.valid protoTableDef (by simp [schemaTables]), fun _ => rfl, nofun⟩
  | boot h ih =>
    rw [List.filterMap_append] at hsaves
    rw [lastSaved_concat_none rfl]
    refine (ih fun x hx => hsaves x (List.mem_append_left _ hx)).congr ?_
    exact Function.update_of_ne (by decide) _ _
  | @stored es db db' h o v rowid hsave ih =>
    rw [List.filterMap_append] at hsaves
    replace ih := ih fun x hx => hsaves x (List.mem_append_left _ hx)
    by_cases hproto : ∃ p, o.message = .proto p
    · obtain ⟨p, hp⟩ := hproto
      have hstored : storedProto (.returned o (.ok, v)) = some (o.cmd, p) := by
        unfold storedProto
        dsimp only
        rw [hp]
      obtain ⟨data, heq⟩ := hsaves (o.cmd, p)
        (List.mem_append_right _ (List.mem_filterMap.mpr ⟨_, List.mem_singleton_self _, hstored⟩))
      obtain ⟨hcmd, rfl⟩ := Prod.mk.inj heq
      rw [lastSaved_concat_some hstored]
      rw [hcmd, hp] at hsave
      exact ih.save hsave
    · have hnone : storedProto (.returned o (.ok, v)) = none := by
        unfold storedProto
        dsimp only
        split
        · exact absurd ⟨_, ‹_›⟩ hproto
        · rfl
      rw [lastSaved_concat_none hnone]
      exact ih.congr (save_protoTable (fun p hp => hproto ⟨p, hp⟩) hsave)

/-! ## A restart -/

section Run

variable {ι κ : Type} [DecidableEq ι] [DecidableEq κ]

/-- **An engine that starts has the schedule of the last save that
returned**, or none if there was no save. If that was saved from a schedule,
it is this schedule.

The stores are those of a run in which threads use connections of their own,
so that they took effect one after the other; stores that did not return,
because they were refused or their process ended, make no difference. -/
theorem restart_loads_last_saved (fp : FloatOps) (ch : Chance)
    {trace : List (Program ι κ × Users.Act ι κ StoreCall)} {s : Program ι κ}
    (hrun : Transitions.Run (Program.Step fp ch) (Users.start emptyDb) trace s)
    (hapart : ∀ x ∈ trace, x.1.Apart)
    (hsaves : ∀ x ∈ (trace.filterMap fun x => Users.effect (catalog fp ch) x.1 x.2).filterMap
      storedProto, IsScheduleSave x)
    (later : Chance) :
    BasicProtoStore.load (catalog fp later) Schedule.parse s.file.db
        = some ((lastSaved (trace.filterMap fun x => Users.effect (catalog fp ch) x.1 x.2)).elim {}
          Schedule.parse)
      ∧ ∀ schedule : Schedule, (∀ r ∈ schedule.schedule, r.IntsFit) →
        schedule.serialize.length < 2 ^ 31 →
        lastSaved (trace.filterMap fun x => Users.effect (catalog fp ch) x.1 x.2)
          = some schedule.serialize →
        BasicProtoStore.load (catalog fp later) Schedule.parse s.file.db = some schedule := by
  have hprog : ∀ o : StoreCall, o.program.Transaction := fun o =>
    insertOrReplace_transaction false o.message.toMessage o.cmd
  have hturn := storedInTurn_of_serial (Users.serial_of_run hprog hrun hapart)
  have hload := (hturn.keepsSchedule hsaves).load later Schedule.parse
  refine ⟨hload, fun schedule hfits hsize hlast => ?_⟩
  rw [hload, hlast]
  unfold Schedule.parse
  exact congrArg (fun x => some x.1) (Schedule.parse_serialize hfits hsize)

end Run

/-- A schedule that does nothing and then lets some seconds pass. -/
def waiting (seconds : ℤ) : Schedule :=
  ⟨[{ type := some .NO_OP, internal_time_advance := some seconds }]⟩

/-- Its save. -/
def saveWaiting (seconds : ℤ) : StoreCall where
  message := .proto { label := some scheduleLabel, data := some (waiting seconds).serialize }
  cmd := .replace
  fits := trivial
  lock := nofun

/-- A schedule is saved, and a track is stored. The process that saves another schedule
ends before it commits, and the automation starts again. -/
def restartActs : List (Users.Act Bool Bool StoreCall) :=
  [.enter true true (saveWaiting 1), .call true false, .call true false, .call true false,
    .enter false false trackStore, .call false false, .call true false, .call true false,
    .leave true, .call false false, .call false false, .call false false, .call false false,
    .leave false, .enter true true (saveWaiting 2), .call true false, .call true false,
    .call true false, .die id, .boot]

/-- The engine has the schedule that was saved. The run is computed together
with what its stores have stored, so that only one save has to be looked at. -/
theorem restart_loads_last_saved_waiting :
    ∃ trace, ∃ s : Program Bool Bool,
      Transitions.Run (Program.Step .whole .stored) (Users.start emptyDb) trace s
        ∧ trace.map Prod.snd = restartActs
        ∧ BasicProtoStore.load (catalog .whole .stored) Schedule.parse s.file.db
          = some (waiting 1) := by
  have hnotes : (restartActs.foldlM (fun x a => (Program.next .whole .stored x.1 a).map fun s' =>
      (s', x.2 ++ ((Users.effect (catalog .whole .stored) x.1 a).bind storedProto).toList))
        ((Users.start emptyDb : Program Bool Bool), [])).map Prod.snd
      = some [(.replace, { label := some scheduleLabel, data := some (waiting 1).serialize })] := by
    decide +kernel
  obtain ⟨⟨s, notes⟩, hs, rfl⟩ := Option.map_eq_some_iff.mp hnotes
  obtain ⟨trace, hnext, hacts, hstored⟩ := Transitions.Run.of_foldlM_noted
    (Program.next .whole .stored)
    (fun s a => (Users.effect (catalog .whole .stored) s a).bind storedProto) hs
  have hrun : Transitions.Run (Program.Step .whole .stored) (Users.start emptyDb) trace s :=
    hnext.mono fun _ _ _ h => Users.step_of_next h
  rw [← List.filterMap_filterMap] at hstored
  have hfits : ∀ r ∈ (waiting 1).schedule, r.IntsFit := by
    intro r hr
    obtain rfl := List.mem_singleton.mp hr
    refine ⟨nofun, nofun, fun n hn => ?_, nofun⟩
    rw [← Option.some.inj hn]
    exact ⟨by decide, by decide⟩
  refine ⟨trace, s, hrun, hacts, (restart_loads_last_saved .whole .stored hrun ?_ ?_ .stored).2
    (waiting 1) hfits (by decide +kernel) ?_⟩
  · -- each thread uses the connection that is named like it
    refine Users.apart_of_own Function.injective_id hrun fun x hx i k o henter => ?_
    have hmem : x.2 ∈ restartActs := hacts ▸ List.mem_map_of_mem hx
    rw [henter] at hmem
    simp only [restartActs, List.mem_cons, List.not_mem_nil, Users.Act.enter.injEq, reduceCtorEq,
      false_or, or_false] at hmem
    rcases hmem with ⟨rfl, rfl, -⟩ | ⟨rfl, rfl, -⟩ | ⟨rfl, rfl, -⟩ <;> rfl
  · intro x hx
    rw [hstored] at hx
    exact ⟨_, List.mem_singleton.mp hx⟩
  · unfold lastSaved
    rw [hstored]
    rfl
