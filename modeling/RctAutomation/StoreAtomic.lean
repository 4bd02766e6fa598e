import RctAutomation.RootRows

/-!
# What a failed store leaves behind

SQLite can refuse the root statement, a row of a repeated field, or the
commit. `store_failsCleanly_iff` says when the failure is a clean
one – an exception, no open transaction, the contents and the caller's message
as they were (`FailsCleanly`). Two of the refusals are not: a refused row of a
repeated field aborts the process, because finalizing its statement reports
the failure once more, and a refused commit comes after a new ID was written
into the message.
-/

open Sql

/-- A message of one of the stored types. The store itself works on any
message; what depends on the schema is said of these four. -/
inductive StoredMessage
  | playlist (p : Playlist)
  | item (i : PlayableItem)
  | lock (l : PlaylistLock)
  | proto (p : ProtoTable)

/-- The message reflection shows. The store knows no more of it than that. -/
def StoredMessage.toMessage : StoredMessage → Message
  | playlist p => p.toMessage
  | item i => i.toMessage
  | lock l => l.toMessage
  | proto p => p.toMessage

/-- `Insert`, `Replace` or `Update` of a message, run by itself on a
connection. It is `busy` when another connection keeps it from committing. -/
def StoredMessage.store (cat : Catalog) (busy : Bool) (m : StoredMessage) (cmd : StoreCmd)
    (c : Conn) : Run Message (Code × Message) :=
  (insertOrReplace false m.toMessage cmd).run cat busy c

/-- A database made by inserting messages, one after the other. The concrete
databases on which results are shown to apply are made this way. -/
def databaseOf (ms : List StoredMessage) : Db :=
  ms.foldl (fun db m =>
    (m.store (catalog .whole .stored) false .insert ⟨db, none, 0⟩).conn.db) emptyDb

/-- **A clean failure**, as the caller sees it: there is an exception, the
caller's message is what it was, no transaction is left open, and the
contents are what they were. -/
structure FailsCleanly (value : Message) (c : Conn) (r : Run Message (Code × Message)) : Prop where
  raised : r.outcome = .raised value
  closed : r.conn.saved = none
  unchanged : r.conn.db = c.db

/-- Writing a new ID back does not change the message: it has an ID already,
or it has no ID field. An ID of `-1` is taken for a missing one and is
written back as it was. -/
def KeepsId (value : Message) : Prop :=
  localId value = -1 → value.val value.desc.field0.name = .int (-1)

instance (value : Message) : Decidable (KeepsId value) :=
  inferInstanceAs (Decidable (_ → _))

variable {fp : FloatOps} {ch : Chance} {busy : Bool}

/-- A message without a known ID has an ID field. -/
theorem type_of_localId {value : Message} (h : localId value = -1) :
    value.desc.field0.type = .int64 := by
  unfold localId at h
  split at h
  · assumption
  · cases h

/-- The ID read from the message is its own, if it is one that was not
written down. -/
theorem localId_of_int {value : Message} {n : ℤ} (ht : value.desc.field0.type = .int64)
    (hn : value.val value.desc.field0.name = .int n) : localId value = toInt32 n := by
  unfold localId
  rw [ht]
  dsimp only
  rw [hn]

theorem messageAfter_eq_self_iff {value : Message} {rowid : ℤ} :
    messageAfter value rowid = value
      ↔ (localId value = -1 → value.val value.desc.field0.name = .int (toInt32 rowid)) := by
  unfold messageAfter
  split
  · rename_i h
    rw [Message.set_eq_self_iff]
    exact ⟨fun hv _ => hv, fun hv => hv h⟩
  · rename_i h
    exact ⟨fun _ hl => absurd hl h, fun _ => rfl⟩

theorem StoredMessage.typed (m : StoredMessage) : m.toMessage.Typed := by
  cases m with
  | playlist p => exact p.typed
  | item i => exact i.typed
  | lock l => exact l.typed
  | proto p => exact p.typed

/-- A message that can be saved has its scalar fields in front. -/
theorem StoredMessage.ordered {m : StoredMessage} {cmd : StoreCmd} {ps : Prepared}
    (h : rootStatement (catalog fp ch) cmd m.toMessage = some ps) : m.toMessage.Ordered := by
  cases m with
  | playlist p => exact Playlist.ordered (Playlist.length_of_rootStatement h)
  | item i => exact i.ordered
  | lock l => exact l.ordered
  | proto p => exact p.ordered

/-- **A row is written for the ID its message has**, in the types that have
one. The cases are the types: a playlist, an item and a proto table have an
ID first, and a lock has none. -/
theorem StoredMessage.rowid_eq {m : StoredMessage} {cmd : StoreCmd} (hcmd : cmd ≠ .update)
    {ps : Prepared} (h : rootStatement (catalog fp ch) cmd m.toMessage = some ps) {n : ℤ}
    (hty : m.toMessage.desc.field0.type = .int64)
    (hn : m.toMessage.val m.toMessage.desc.field0.name = .int n) {db db₁ : Db} {id : Option ℤ}
    (hex : (catalog fp ch).exec db ps = .ok (db₁, id)) : id = some n := by
  have hrow : ∀ (t : TableDef) (col : Column), t.column? col.name = some col →
      col.affinity = .integer → m.toMessage.val col.name = .int n →
        rowOf t fp m.toMessage col.name = .integer n := by
    intro t col hcol ha hval
    unfold rowOf TableDef.toStore
    rw [hcol]
    dsimp only
    rw [ha, hval]
    rfl
  have hord := StoredMessage.ordered h
  cases m with
  | playlist p =>
    exact rowid_of_rootStatement hcmd p.typed hord h (t := playlistDef) rfl rfl
      (hrow playlistDef ⟨"PlaylistID", "INTEGER", true⟩ rfl (by decide) hn) hex
  | item i =>
    exact rowid_of_rootStatement hcmd i.typed hord h (t := playableItemDef) rfl rfl
      (hrow playableItemDef ⟨"PlayableItemID", "INTEGER", true⟩ rfl (by decide) hn) hex
  | lock l => cases hty
  | proto p =>
    exact rowid_of_rootStatement hcmd p.typed hord h (t := protoTableDef) rfl rfl
      (hrow protoTableDef ⟨"ProtoStoreID", "INTEGER", true⟩ rfl (by decide) hn) hex

/-- The first field of a stored message with an ID field has an integer or
nothing. -/
theorem StoredMessage.val_field0 (m : StoredMessage)
    (hty : m.toMessage.desc.field0.type = .int64) :
    m.toMessage.val m.toMessage.desc.field0.name = .unset
      ∨ ∃ n, m.toMessage.val m.toMessage.desc.field0.name = .int n := by
  have hof : ∀ o : Option ℤ, FieldValue.ofInt o = .unset ∨ ∃ n, FieldValue.ofInt o = .int n := by
    intro o
    cases o with
    | none => exact Or.inl rfl
    | some n => exact Or.inr ⟨n, rfl⟩
  cases m with
  | playlist p => exact hof p.playlistID
  | item i => exact hof i.playableItemID
  | lock l => cases hty
  | proto p => exact hof p.protoStoreID

/-- How a refused commit can come about. -/
theorem save_commitRefused {cat : Catalog} {cmd : StoreCmd} {value value' : Message} {c : Conn}
    (h : save cat busy cmd value c = .commitRefused value') :
    ¬(cmd = .update ∧ localId value = -1) ∧ ∃ ps db₁ id, rootStatement cat cmd value = some ps
      ∧ cat.exec c.db ps = .ok (db₁, id) ∧ value' = messageAfter value (id.getD c.lastRowid) := by
  rcases save_cases cat busy cmd value c with
    habort | hroot | ⟨hid, ps, db₁, id, db₂, hps, hex, -, hend⟩
  · cases h.symm.trans habort
  · cases h.symm.trans hroot
  · rw [hend] at h
    split at h
    · cases h
      exact ⟨hid, ps, db₁, id, hps, hex, rfl⟩
    · cases h

/-- **A refused commit leaves the message as it was exactly when it keeps its
ID.** By then a new ID has been written into it, and the rollback does not
take it out again. -/
theorem StoredMessage.commitRefused_iff {m : StoredMessage} {cmd : StoreCmd} {c : Conn}
    {value' : Message}
    (h : save (catalog fp ch) busy cmd m.toMessage c = .commitRefused value') :
    value' = m.toMessage ↔ KeepsId m.toMessage := by
  obtain ⟨hid, ps, db₁, id, hps, hex, rfl⟩ := save_commitRefused h
  rw [messageAfter_eq_self_iff]
  unfold KeepsId
  refine imp_congr_right (fun hl => ?_)
  have hty := type_of_localId hl
  have hcmd : cmd ≠ .update := fun hc => hid ⟨hc, hl⟩
  rcases m.val_field0 hty with hu | ⟨n, hn⟩
  · rw [hu]
    exact ⟨fun h => (by cases h), fun h => (by cases h)⟩
  · rw [m.rowid_eq hcmd hps hty hn hex, hn]
    have hl' : toInt32 n = -1 := (localId_of_int hty hn).symm.trans hl
    rw [Option.getD_some, hl']

/-- **When a failed store is atomic.** Of the three places where SQLite can
refuse, the root statement always fails cleanly, a row of a repeated field
never does, and the commit does unless it comes after a new ID.

The row of a repeated field is refused without an exception: the failed
statement is finalized before the rollback, finalizing it reports the failure
once more, and the check on that ends the process. -/
theorem store_failsCleanly_iff (fp : FloatOps) (ch : Chance) (busy : Bool) (m : StoredMessage)
    (cmd : StoreCmd) (c : Conn) (hs : c.saved = none)
    (hrefused : ∃ e ∈ (m.store (catalog fp ch) busy cmd c).trace, e.refused = true) :
    FailsCleanly m.toMessage c (m.store (catalog fp ch) busy cmd c)
      ↔ (∀ e ∈ (m.store (catalog fp ch) busy cmd c).trace,
          e.childRefused m.toMessage.desc.name = false)
        ∧ ((∃ e ∈ (m.store (catalog fp ch) busy cmd c).trace, e.commitRefused = true)
          → KeepsId m.toMessage) := by
  have hrun := run_insertOrReplace (catalog fp ch) busy cmd m.toMessage hs
  unfold StoredMessage.store at hrefused ⊢
  revert hrefused hrun
  generalize (insertOrReplace false m.toMessage cmd).run (catalog fp ch) busy c = r
  rintro ⟨e, he, hr⟩ hrun
  cases hsave : save (catalog fp ch) busy cmd m.toMessage c with
  | aborted =>
    rw [hsave] at hrun
    refine ⟨fun h => ?_, fun h => ?_⟩
    · have hraised := h.raised
      rw [hrun.1] at hraised
      cases hraised
    · exact absurd (hrun.2 e he hr) (by rw [h.1 e he]; exact Bool.false_ne_true)
  | rootRefused =>
    rw [hsave] at hrun
    obtain ⟨ho, hdb, hsv, hno⟩ := hrun
    refine ⟨fun _ => ⟨fun e he => (hno e he).1, fun ⟨e, he, hc⟩ => ?_⟩, fun _ => ⟨ho, hsv, hdb⟩⟩
    rw [(hno e he).2] at hc
    cases hc
  | commitRefused value' =>
    rw [hsave] at hrun
    obtain ⟨ho, hdb, hsv, hno, hcommit⟩ := hrun
    refine ⟨fun h => ⟨hno, fun _ => (m.commitRefused_iff hsave).mp ?_⟩, fun h => ?_⟩
    · exact Outcome.raised.inj (ho.symm.trans h.raised)
    · rw [(m.commitRefused_iff hsave).mpr (h.2 hcommit)] at ho
      exact ⟨ho, hsv, hdb⟩
  | saved value' db =>
    rw [hsave] at hrun
    rw [hrun.2.2.2 e he] at hr
    cases hr

/-- A lock on a playlist that does not exist is refused when the transaction
commits, and cleanly: its type has no ID that could be written back. -/
theorem store_failsCleanly_lock :
    FailsCleanly (StoredMessage.lock { name := some (ascii "evening") }).toMessage
      ⟨emptyDb, none, 0⟩
      ((StoredMessage.lock { name := some (ascii "evening") }).store (catalog .whole .stored)
        false .replace ⟨emptyDb, none, 0⟩) :=
  (store_failsCleanly_iff .whole .stored false (.lock { name := some (ascii "evening") })
    .replace ⟨emptyDb, none, 0⟩ rfl (by decide)).mpr ⟨by decide, fun _ => by decide⟩

/-- **Two failures that are not clean**: an item that does not exist aborts
the process, and a commit that finds the database busy leaves its ID in the
message. -/
theorem store_not_failsCleanly :
    ((∃ e ∈ ((StoredMessage.playlist
          { name := some (ascii "evening"), playableItemID := [5] }).store
          (catalog .whole .stored) false .insert ⟨emptyDb, none, 0⟩).trace, e.refused = true)
      ∧ ¬FailsCleanly (StoredMessage.playlist
          { name := some (ascii "evening"), playableItemID := [5] }).toMessage
        ⟨emptyDb, none, 0⟩ ((StoredMessage.playlist
          { name := some (ascii "evening"), playableItemID := [5] }).store
          (catalog .whole .stored) false .insert ⟨emptyDb, none, 0⟩))
    ∧ ((∃ e ∈ ((StoredMessage.item { filename := some (ascii "song") }).store
          (catalog .whole .stored) true .insert ⟨emptyDb, none, 0⟩).trace, e.refused = true)
      ∧ ¬FailsCleanly (StoredMessage.item { filename := some (ascii "song") }).toMessage
        ⟨emptyDb, none, 0⟩ ((StoredMessage.item { filename := some (ascii "song") }).store
          (catalog .whole .stored) true .insert ⟨emptyDb, none, 0⟩)) := by
  refine ⟨⟨by decide, fun h => ?_⟩, ⟨by decide, fun h => ?_⟩⟩
  · cases h.raised
  · have hval : ((StoredMessage.item { filename := some (ascii "song") }).toMessage.set
        ⟨"PlayableItemID", 1, .int64, false⟩ (.int 1)).val "PlayableItemID"
        = (StoredMessage.item { filename := some (ascii "song") }).toMessage.val
          "PlayableItemID" :=
      congrArg (fun m => Message.val m "PlayableItemID") (Outcome.raised.inj h.raised)
    cases hval
