import RctAutomation.AcmdLines
import RctAutomation.FetchedItems
import RctAutomation.RoundTrip
import RctAutomation.WebApi

/-!
# Loading files, and loading them again

`acmd --command=load` looks up each name it reads. An item that is found is
printed, and one that is not is stored and printed, unless the file has no
duration. A second run finds what the first one stored, so it stores nothing.

But names are looked up as they are stored, and two spellings of a number are
stored as one. A file without a duration is found in the second run when the
first one went on to store a file with another spelling of its name, and is
printed then. `load_twice_iff` says that this is the only difference.
-/

open Sql

/-- **What `CalculateDuration` finds for the files**, an `int` for each name.
The files lie outside the database and are the same in both runs, so one
function from names stands for them; what mplayer reports about a file, and
how that is read, is the subject of `Playback.durationOf`. -/
structure FileDurations where
  /-- The duration of the file in seconds, which is `-1` where none is found. -/
  of : Bytes → ℤ
  fits : ∀ name, FitsInt32 (of name)

namespace PlayableItem

/-- `fetch(filename)`: the message is cleared but for its file name and
loaded, and an item that has no duration then gets that of its file. A row
whose duration is not `NULL` keeps its own, whatever the file is now. `none`
stands for the failed checks of the load. -/
def fetchFile (cat : Catalog) (durations : FileDurations) (db : Db) (filename : Bytes) :
    Option (Bool × PlayableItem) :=
  (MessageStore.load cat playableItemDesc "PlayableItem" db
      (toMessage { filename := some filename })).map
    fun (found, m) =>
      let item := readBack m
      match item.filename, item.duration with
      | some name, none => (found, { item with duration := some (durations.of name) })
      | _, _ => (found, item)

end PlayableItem

namespace Acmd

/-- How a run of `load` ends: at the end of its input, by an exception nobody
catches, or by a failed check. -/
inductive LoadEnd
  | finished | raised | aborted
  deriving DecidableEq

/-- A run of `load`, or a part of one: how it ends, the connection then, and
the items printed with their IDs. A run that is cut short has printed what it
printed before. -/
structure LoadRun where
  /-- How it ended. -/
  outcome : LoadEnd
  /-- The connection, with the transaction that an aborted store leaves open. -/
  conn : Conn
  /-- For each line printed, the ID and the name on it. -/
  printed : List (ℤ × Bytes)

/-- **What `load` does for a name**: it looks the name up, stores the
item if it was not found and its file has a duration, passes over an item
without a duration, found or not, and prints the others.

No other connection is at work, so a store meets no lock; the name is
printed as it was read, also where the row that was found has another
spelling of it. -/
def loadFile (fp : FloatOps) (durations : FileDurations) (name : Bytes) (c : Conn) : LoadRun :=
  match PlayableItem.fetchFile (catalog fp .stored) durations c.db name with
  | none => ⟨.aborted, c, []⟩
  | some (found, item) =>
    if !found && decide (0 < item.duration.getD 0) then
      let r := (StoredMessage.item item).store (catalog fp .stored) false .replace c
      match r.outcome with
      | .returned (_, m) =>
        ⟨.finished, r.conn, [((PlayableItem.readBack m).playableItemID.getD 0, name)]⟩
      | .raised _ => ⟨.raised, r.conn, []⟩
      | .aborted => ⟨.aborted, r.conn, []⟩
    else if item.duration.getD 0 ≤ 0 then ⟨.finished, c, []⟩
    else ⟨.finished, c, [(item.playableItemID.getD 0, name)]⟩

/-- What `load` does for some names, in their order on one connection. A name
that does not end well ends the run, and the names after it are not looked
at. -/
def loadFiles (fp : FloatOps) (durations : FileDurations) : List Bytes → Conn → LoadRun
  | [], c => ⟨.finished, c, []⟩
  | name :: names, c =>
    let r := loadFile fp durations name c
    match r.outcome with
    | .finished =>
      let rest := loadFiles fp durations names r.conn
      ⟨rest.outcome, rest.conn, r.printed ++ rest.printed⟩
    | _ => r

/-- **`acmd --command=load`**, on a connection of its own: the names are the
lines of the standard input as `fgets` cuts them, less the empty ones. -/
def load (fp : FloatOps) (durations : FileDurations) (db : Db) (stdin : Bytes) : LoadRun :=
  loadFiles fp durations (loadNames stdin) ⟨db, none, 0⟩

/-- The lines that a run prints. -/
def LoadRun.lines (r : LoadRun) : List Bytes := r.printed.map fun x => printLine x.1 x.2

/-- **A second run changes nothing and prints the same.** It reads the same
input, and starts from what the first one has committed: if that was cut
short by a failed check, its open transaction is gone with its process. -/
def SameAgain (fp : FloatOps) (durations : FileDurations) (db : Db) (stdin : Bytes) : Prop :=
  let first := load fp durations db stdin
  let second := load fp durations first.conn.committed stdin
  second.conn.committed = first.conn.committed ∧ second.lines = first.lines

variable {fp : FloatOps} {durations : FileDurations}

/-! ## Looking a name up -/

/-- The first row of a list with a file name. The name is compared as the
column would store it, so `01` finds the row of `1`. -/
def fileRow? (fp : FloatOps) (rows : List Row) (name : Bytes) : Option Row :=
  rows.find? (fun r => (r "filename").same (numericOfText fp name))

/-- The item of a file that is not known: its name, and the duration that was
found for it. -/
def newItem (durations : FileDurations) (name : Bytes) : PlayableItem :=
  { filename := some name, duration := some (durations.of name) }

/-- **What `fetch` makes of a name**: the item of its row, or a new one with
the duration of its file. It never fails, because the names of the columns
and their types are the ones that the schema has. -/
theorem fetchFile_eq (db : Db) (name : Bytes) :
    PlayableItem.fetchFile (catalog fp .stored) durations db name
      = some ((fileRow? fp (db "PlayableItem").rows name).elim (false, newItem durations name)
          (fun r => (true, PlayableItem.ofRow fp r))) := by
  have hload : MessageStore.load (catalog fp .stored) playableItemDesc "PlayableItem" db
      (PlayableItem.toMessage { filename := some name })
      = protoFromRows fp playableItemDesc (((db "PlayableItem").rows.filter
          (fun r => (r "filename").same (numericOfText fp name))).map
        (fun r => playableItemDef.columns.map (fun col => (col.name, r col.name))))
          (PlayableItem.toMessage { filename := some name }) := rfl
  unfold PlayableItem.fetchFile fileRow?
  rw [hload, ← List.head?_filter]
  cases (db "PlayableItem").rows.filter
    (fun r => (r "filename").same (numericOfText fp name)) with
  | nil => rfl
  | cons r rest => rfl

/-! ## Storing a file -/

/-- The row of a new file. Its name and its duration go through the affinity
of their columns, and its other columns have their defaults. -/
def addedRow (fp : FloatOps) (durations : FileDurations) (name : Bytes) (id : ℤ) : Row :=
  Function.update
    (playableItemDef.toStore fp (TableDef.assigned ["filename", "duration"]
      [.text name, .integer (durations.of name)]))
    "PlayableItemID" (.integer id)

/-- The next ID of an item: one more than the largest there is. It can be
larger than any `INTEGER`, and there is none then. -/
def nextId (db : Db) : ℤ := TableDef.lastKey "PlayableItemID" (db "PlayableItem") + 1

/-- The database with a new file. -/
def addedDb (fp : FloatOps) (durations : FileDurations) (name : Bytes) (db : Db) : Db :=
  Function.update db "PlayableItem"
    (playableItemDef.append (db "PlayableItem") (addedRow fp durations name (nextId db)))

theorem addedRow_id (name : Bytes) (id : ℤ) :
    addedRow fp durations name id "PlayableItemID" = .integer id := rfl

theorem addedRow_filename (name : Bytes) (id : ℤ) :
    addedRow fp durations name id "filename" = numericOfText fp name := rfl

theorem addedDb_rows (name : Bytes) (db : Db) :
    ((addedDb fp durations name db) "PlayableItem").rows
      = (db "PlayableItem").rows ++ [addedRow fp durations name (nextId db)] := rfl

/-- A file that is not found conflicts with no row: its ID is larger than
any, and its name is the name of none. -/
theorem addedRow_conflicts {db : Db} (hv : playableItemDef.Valid (db "PlayableItem"))
    {name : Bytes} (hfree : fileRow? fp (db "PlayableItem").rows name = none) :
    ¬(db "PlayableItem").rows.any
      (playableItemDef.conflicts (addedRow fp durations name (nextId db))) = true := by
  rw [List.any_eq_true]
  rintro ⟨x, hx, hconf⟩
  obtain ⟨n, hn⟩ := hv.keys "PlayableItemID" rfl x hx
  have hle := TableDef.le_lastKey hx hn
  have hname : ¬(x "filename").same (numericOfText fp name) = true :=
    List.find?_eq_none.mp hfree x hx
  rw [playableItem_conflicts, addedRow_id, addedRow_filename, hn, Value.same_comm,
    Value.same_comm (numericOfText fp name), Bool.or_eq_true] at hconf
  rcases hconf with hkey | hfile
  · have hkey := eq_of_beq (show (n == nextId db) = true from hkey)
    unfold nextId at hkey
    omega
  · exact hname hfile

/-- The items of a database stay valid when a file is added: the new row has
a key of its own and a name of its own. -/
theorem valid_addedDb {db : Db} (hv : playableItemDef.Valid (db "PlayableItem")) {name : Bytes}
    (hfree : fileRow? fp (db "PlayableItem").rows name = none) :
    playableItemDef.Valid ((addedDb fp durations name db) "PlayableItem") :=
  hv.append (TableDef.append_rows (addedRow_conflicts hv hfree)) (fun _ hk => by
    obtain rfl := Option.some.inj hk
    exact ⟨_, rfl⟩) _

/-- A new item leaves no row without a parent that had one, so no foreign key
refuses it. -/
theorem orphans_addedDb_le (name : Bytes) (db : Db) (deferred : Bool) :
    (catalog fp .stored).orphans deferred (addedDb fp durations name db)
      ≤ (catalog fp .stored).orphans deferred db := by
  refine Catalog.orphans_le (fun fk hfk _ => ?_) (fun fk hfk _ => ?_) <;>
    simp only [catalog, schemaForeignKeys, List.mem_cons, List.not_mem_nil, or_false] at hfk
  · rcases hfk with rfl | rfl | rfl <;> rfl
  · rcases hfk with rfl | rfl | rfl
    · exact List.Subset.refl _
    · exact List.subset_append_left _ _
    · exact List.Subset.refl _

variable (durations) in
/-- The statement that stores a file that is not found. It conflicts with no
row and makes no orphans, so all that can go wrong is that there is no key
left. -/
theorem exec_newItem {db : Db} (hv : playableItemDef.Valid (db "PlayableItem")) {name : Bytes}
    (hfree : fileRow? fp (db "PlayableItem").rows name = none) :
    (catalog fp .stored).exec db
        ⟨.insert .replace "PlayableItem" ["filename", "duration"],
          [.text name, .integer (durations.of name)]⟩
      = if nextId db ≤ TableDef.maxKey then
          .ok (addedDb fp durations name db, some (nextId db))
        else .error .full := by
  have hexec : (catalog fp .stored).exec db
      ⟨.insert .replace "PlayableItem" ["filename", "duration"],
        [.text name, .integer (durations.of name)]⟩
      = (playableItemDef.insert .replace (db "PlayableItem")
          (playableItemDef.toStore fp (TableDef.assigned ["filename", "duration"]
            [.text name, .integer (durations.of name)]))).bind
        fun res =>
          (catalog fp .stored).checked db (Function.update db "PlayableItem" res.1) res.2 := rfl
  have hplace : playableItemDef.place .replace (db "PlayableItem")
      (addedRow fp durations name (nextId db))
      = .ok (playableItemDef.append (db "PlayableItem")
          (addedRow fp durations name (nextId db)), true) := by
    have hlacks : playableItemDef.lacksValue (addedRow fp durations name (nextId db)) = false := rfl
    unfold TableDef.place
    rw [hlacks, if_neg Bool.false_ne_true, if_neg (addedRow_conflicts hv hfree)]
  have hchecked : (catalog fp .stored).checked db (addedDb fp durations name db)
      (some (nextId db)) = .ok (addedDb fp durations name db, some (nextId db)) := by
    unfold Catalog.checked
    rw [if_neg (Nat.not_lt_of_le (orphans_addedDb_le name db false))]
  rw [hexec]
  unfold TableDef.insert
  rw [TableDef.keyed_of_null (k := "PlayableItemID") rfl rfl]
  by_cases hroom : nextId db ≤ TableDef.maxKey
  · rw [if_pos hroom, if_pos (Int.lt_of_add_one_le hroom)]
    show ((playableItemDef.place .replace (db "PlayableItem")
      (addedRow fp durations name (nextId db))).map _).bind _ = _
    rw [hplace]
    exact hchecked
  · rw [if_neg hroom, if_neg (fun h => hroom (Int.add_one_le_of_lt h))]
    rfl

/-- **A file that is not found is stored under the next ID**, while there is
one. When the keys are used up the insert is refused, and the check on its
result aborts the process. -/
theorem save_newItem {c : Conn} (hv : playableItemDef.Valid (c.db "PlayableItem")) {name : Bytes}
    (hfree : fileRow? fp (c.db "PlayableItem").rows name = none) :
    save (catalog fp .stored) false .replace (newItem durations name).toMessage c
      = if nextId c.db ≤ TableDef.maxKey then
          .saved (messageAfter (newItem durations name).toMessage (nextId c.db))
            (addedDb fp durations name c.db)
        else .aborted := by
  have hroot : rootStatement (catalog fp .stored) .replace (newItem durations name).toMessage
      = some ⟨.insert .replace "PlayableItem" ["filename", "duration"],
          [.text name, .integer (durations.of name)]⟩ := rfl
  unfold save
  rw [if_neg (by simp), hroot]
  dsimp only
  rw [exec_newItem durations hv hfree]
  by_cases hroom : nextId c.db ≤ TableDef.maxKey
  · rw [if_pos hroom, if_pos hroom]
    dsimp only
    have hall : allRepeatedDb (catalog fp .stored) .replace
        (messageAfter (newItem durations name).toMessage ((some (nextId c.db)).getD c.lastRowid))
        (idAfter (newItem durations name).toMessage ((some (nextId c.db)).getD c.lastRowid))
        ((newItem durations name).toMessage.listFields.filter FieldDescriptor.repeated)
        (addedDb fp durations name c.db) = some (addedDb fp durations name c.db) := rfl
    rw [hall]
    dsimp only
    rw [if_neg (by simpa using orphans_addedDb_le name c.db true)]
    rfl
  · rw [if_neg hroom, if_neg hroom]

/-! ## One name -/

/-- The ID and the name that are printed for a row, if it has a duration. The
ID is the row's and the name is the one that was read. -/
def printedRow (r : Row) (name : Bytes) : List (ℤ × Bytes) :=
  if (r "duration").toColumnInt ≤ 0 then [] else [((r "PlayableItemID").toColumnInt, name)]

/-- How the store of a new file ends: it returns and its transaction is
closed, or it aborts and nothing is committed. -/
theorem store_newItem {c : Conn} (hs : c.saved = none)
    (hv : playableItemDef.Valid (c.db "PlayableItem")) {name : Bytes}
    (h : fileRow? fp (c.db "PlayableItem").rows name = none) {r : Run Message (Code × Message)}
    (hr : (StoredMessage.item (newItem durations name)).store (catalog fp .stored) false .replace c
      = r) :
    (nextId c.db ≤ TableDef.maxKey →
      r.outcome = .returned (.ok, messageAfter (newItem durations name).toMessage (nextId c.db))
        ∧ r.conn.db = addedDb fp durations name c.db ∧ r.conn.saved = none)
    ∧ (¬nextId c.db ≤ TableDef.maxKey → r.outcome = .aborted ∧ r.conn.committed = c.db) := by
  have hrun : Save.Describes "PlayableItem" (newItem durations name).toMessage c.db r
      (save (catalog fp .stored) false .replace (newItem durations name).toMessage c) := by
    rw [← hr]
    exact run_insertOrReplace (catalog fp .stored) false .replace
      (newItem durations name).toMessage hs
  rw [save_newItem hv h] at hrun
  refine ⟨fun hroom => ?_, fun hfull => ?_⟩
  · rw [if_pos hroom] at hrun
    exact ⟨hrun.1, hrun.2.1, hrun.2.2.1⟩
  · rw [if_neg hfull] at hrun
    have hexec := exec_newItem durations hv h
    rw [if_neg hfull] at hexec
    refine ⟨hrun.1, ?_⟩
    have hconn : r.conn = { c with saved := some c.db } := by
      rw [← hr]
      exact conn_of_rootAborted (catalog fp .stored) false (by decide) hs rfl hexec (by decide)
    rw [hconn]
    rfl

/-- The duration of a new file is read back. -/
theorem addedRow_toColumnInt (name : Bytes) (id : ℤ) :
    (addedRow fp durations name id "duration").toColumnInt = durations.of name :=
  toInt32_of_fits (durations.fits name)

/-- What the row of a new file is printed as. -/
theorem printedRow_added {name : Bytes} (hd : 0 < durations.of name) (id : ℤ) (other : Bytes) :
    printedRow (addedRow fp durations name id) other = [(toInt32 id, other)] := by
  unfold printedRow
  rw [addedRow_toColumnInt, if_neg (not_le.mpr hd), addedRow_id]
  rfl

/-- **What can happen with a name**: its file is found; it has no duration;
it is stored; or there is no ID for it, and the process aborts.

Each case says what is printed and what becomes of the database. Only one of
them changes what is committed. -/
inductive FileStep (fp : FloatOps) (durations : FileDurations) (name : Bytes) (c : Conn) :
    LoadRun → Prop
  | found {r : Row} (h : fileRow? fp (c.db "PlayableItem").rows name = some r) :
      FileStep fp durations name c ⟨.finished, c, printedRow r name⟩
  | rejected (h : fileRow? fp (c.db "PlayableItem").rows name = none)
      (hd : durations.of name ≤ 0) : FileStep fp durations name c ⟨.finished, c, []⟩
  | stored {c' : Conn} (h : fileRow? fp (c.db "PlayableItem").rows name = none)
      (hd : 0 < durations.of name) (hroom : nextId c.db ≤ TableDef.maxKey)
      (hs : c'.saved = none) (hdb : c'.db = addedDb fp durations name c.db) :
      FileStep fp durations name c ⟨.finished, c', [(toInt32 (nextId c.db), name)]⟩
  | full {c' : Conn} (h : fileRow? fp (c.db "PlayableItem").rows name = none)
      (hd : 0 < durations.of name) (hfull : ¬nextId c.db ≤ TableDef.maxKey)
      (hdb : c'.committed = c.db) : FileStep fp durations name c ⟨.aborted, c', []⟩

theorem loadFile_found {c : Conn} {name : Bytes} {r : Row}
    (h : fileRow? fp (c.db "PlayableItem").rows name = some r) :
    loadFile fp durations name c = ⟨.finished, c, printedRow r name⟩ := by
  unfold loadFile printedRow
  rw [fetchFile_eq, h]
  show (if (r "duration").toColumnInt ≤ 0 then _ else _) = _
  split <;> rfl

theorem loadFile_rejected {c : Conn} {name : Bytes}
    (h : fileRow? fp (c.db "PlayableItem").rows name = none) (hd : durations.of name ≤ 0) :
    loadFile fp durations name c = ⟨.finished, c, []⟩ := by
  unfold loadFile
  rw [fetchFile_eq, h]
  show (if (!false && decide (0 < durations.of name)) = true then _
    else if durations.of name ≤ 0 then _ else _) = _
  rw [if_neg (by simpa using hd), if_pos hd]

variable (fp durations) in
/-- **Nothing else can happen.** In particular no name raises an exception:
no other connection holds a lock, and what `load` stores is never refused for
anything but the keys having been used up. -/
theorem loadFile_step {c : Conn} (hs : c.saved = none)
    (hv : playableItemDef.Valid (c.db "PlayableItem")) (name : Bytes) :
    FileStep fp durations name c (loadFile fp durations name c) := by
  cases h : fileRow? fp (c.db "PlayableItem").rows name with
  | some r =>
    rw [loadFile_found h]
    exact .found h
  | none =>
    by_cases hd : durations.of name ≤ 0
    · rw [loadFile_rejected h hd]
      exact .rejected h hd
    · obtain ⟨r, hr⟩ : ∃ r, (StoredMessage.item (newItem durations name)).store
          (catalog fp .stored) false .replace c = r := ⟨_, rfl⟩
      have hload : loadFile fp durations name c
          = match r.outcome with
            | .returned (_, m) =>
              ⟨.finished, r.conn, [((PlayableItem.readBack m).playableItemID.getD 0, name)]⟩
            | .raised _ => ⟨.raised, r.conn, []⟩
            | .aborted => ⟨.aborted, r.conn, []⟩ := by
        unfold loadFile
        rw [fetchFile_eq, h, ← hr]
        show (if (!false && decide (0 < durations.of name)) = true then _
          else if durations.of name ≤ 0 then _ else _) = _
        rw [if_pos (by simpa using hd)]
      obtain ⟨hstored, hfull⟩ := store_newItem hs hv h hr
      rw [hload]
      by_cases hroom : nextId c.db ≤ TableDef.maxKey
      · obtain ⟨hout, hdb, hclosed⟩ := hstored hroom
        rw [hout]
        exact .stored h (not_le.mp hd) hroom hclosed hdb
      · obtain ⟨hout, hconn⟩ := hfull hroom
        rw [hout]
        exact .full h (not_le.mp hd) hroom hconn

/-! ## Some names, one after the other -/

theorem loadFiles_finished {name : Bytes} {names : List Bytes} {c c' : Conn}
    {p : List (ℤ × Bytes)} (h : loadFile fp durations name c = ⟨.finished, c', p⟩) :
    loadFiles fp durations (name :: names) c
      = ⟨(loadFiles fp durations names c').outcome, (loadFiles fp durations names c').conn,
          p ++ (loadFiles fp durations names c').printed⟩ := by
  rw [loadFiles, h]

theorem loadFiles_aborted {name : Bytes} {names : List Bytes} {c c' : Conn}
    (h : loadFile fp durations name c = ⟨.aborted, c', []⟩) :
    loadFiles fp durations (name :: names) c = ⟨.aborted, c', []⟩ := by
  rw [loadFiles, h]

/-- **The name is stored next**, after a part of a run that has ended well:
it is not found, its file has a duration, and there is an ID for it. -/
structure Stores (fp : FloatOps) (durations : FileDurations) (r : LoadRun) (name : Bytes) :
    Prop where
  /-- The part of the run before it has not failed. -/
  finished : r.outcome = .finished
  /-- No row has its file name by then. -/
  free : fileRow? fp (r.conn.db "PlayableItem").rows name = none
  /-- Its file has a duration. -/
  duration : 0 < durations.of name
  /-- There is an ID for it. -/
  room : nextId r.conn.db ≤ TableDef.maxKey

/-- Two names are stored as the same value: they are equal, or two spellings
of one number, since `filename` has the affinity `NUMERIC`. -/
def SameName (fp : FloatOps) (a b : Bytes) : Prop :=
  (numericOfText fp a).same (numericOfText fp b) = true

/-- One of some names is stored, and is stored as the same value as a name.
The run over the names before it decides whether it is. -/
def StoresAs (fp : FloatOps) (durations : FileDurations) (name : Bytes) (names : List Bytes)
    (c : Conn) : Prop :=
  ∃ pre b post, names = pre ++ b :: post ∧ Stores fp durations (loadFiles fp durations pre c) b
    ∧ SameName fp name b

/-- **No name that is stored is another spelling of an earlier one** whose
file has no duration.

It can only be another spelling, since files of the same name have the same
duration. That the names are in this order matters: if the file with the
duration is read first, the other one is found and printed already in the
first run. -/
def NoOtherSpelling (fp : FloatOps) (durations : FileDurations) (names : List Bytes) (c : Conn) :
    Prop :=
  ∀ pre b post, names = pre ++ b :: post → Stores fp durations (loadFiles fp durations pre c) b →
    ∀ a ∈ pre, durations.of a ≤ 0 → ¬SameName fp a b

instance (fp : FloatOps) (a b : Bytes) : Decidable (SameName fp a b) :=
  inferInstanceAs (Decidable (_ = _))

/-- It is enough that no name whose file has a duration is spelled like one
whose file has none. So it is for every input whose names are no numbers. -/
theorem noOtherSpelling_of_names {names : List Bytes}
    (h : ∀ a ∈ names, ∀ b ∈ names, durations.of a ≤ 0 → 0 < durations.of b → ¬SameName fp a b)
    (c : Conn) : NoOtherSpelling fp durations names c := by
  rintro pre b post rfl hb a ha hd
  exact h a (List.mem_append_left _ ha) b (List.mem_append_right _ List.mem_cons_self) hd
    hb.duration

/-- A name is stored after others only if the first of them is done with. -/
theorem stores_cons {a b : Bytes} {pre : List Bytes} {c : Conn} :
    Stores fp durations (loadFiles fp durations (a :: pre) c) b
      ↔ ∃ c' p, loadFile fp durations a c = ⟨.finished, c', p⟩
        ∧ Stores fp durations (loadFiles fp durations pre c') b := by
  constructor
  · intro h
    obtain ⟨o, c', p, hload⟩ : ∃ o c' p, loadFile fp durations a c = ⟨o, c', p⟩ := ⟨_, _, _, rfl⟩
    cases o with
    | finished =>
      rw [loadFiles_finished hload] at h
      exact ⟨c', p, hload, h.finished, h.free, h.duration, h.room⟩
    | raised | aborted =>
      have hout := h.finished
      rw [loadFiles, hload] at hout
      cases hout
  · rintro ⟨c', p, hload, h⟩
    rw [loadFiles_finished hload]
    exact ⟨h.finished, h.free, h.duration, h.room⟩

/-- Whether one of some names is stored as a value: the first one is, or one
of the others after it. -/
theorem storesAs_cons {name a : Bytes} {names : List Bytes} {c : Conn} :
    StoresAs fp durations name (a :: names) c
      ↔ (Stores fp durations ⟨.finished, c, []⟩ a ∧ SameName fp name a)
        ∨ ∃ c' p, loadFile fp durations a c = ⟨.finished, c', p⟩
          ∧ StoresAs fp durations name names c' := by
  constructor
  · rintro ⟨pre, b, post, hsplit, hstores, hsame⟩
    cases pre with
    | nil =>
      obtain ⟨rfl, -⟩ := List.cons.inj hsplit
      exact Or.inl ⟨hstores, hsame⟩
    | cons x pre =>
      obtain ⟨rfl, hrest⟩ := List.cons.inj hsplit
      obtain ⟨c', p, hload, hb⟩ := stores_cons.mp hstores
      exact Or.inr ⟨c', p, hload, pre, b, post, hrest, hb, hsame⟩
  · rintro (⟨hstores, hsame⟩ | ⟨c', p, hload, pre, b, post, hrest, hb, hsame⟩)
    · exact ⟨[], a, names, rfl, hstores, hsame⟩
    · exact ⟨a :: pre, b, post, by rw [hrest]; rfl, stores_cons.mpr ⟨c', p, hload, hb⟩, hsame⟩

/-- No name that is stored is another spelling: not of the first one, and not
of one of the others. This is the form in which the condition goes along the
names. -/
theorem noOtherSpelling_cons {a : Bytes} {names : List Bytes} {c : Conn} :
    NoOtherSpelling fp durations (a :: names) c
      ↔ ∀ c' p, loadFile fp durations a c = ⟨.finished, c', p⟩ →
        NoOtherSpelling fp durations names c'
          ∧ (durations.of a ≤ 0 → ¬StoresAs fp durations a names c') := by
  constructor
  · intro h c' p hload
    refine ⟨fun pre b post hsplit hb x hx => ?_, fun hd => ?_⟩
    · exact h (a :: pre) b post (by rw [hsplit]; rfl) (stores_cons.mpr ⟨c', p, hload, hb⟩) x
        (List.mem_cons_of_mem _ hx)
    · rintro ⟨pre, b, post, hsplit, hb, hsame⟩
      exact h (a :: pre) b post (by rw [hsplit]; rfl) (stores_cons.mpr ⟨c', p, hload, hb⟩) a
        (List.mem_cons_self ..) hd hsame
  · intro h pre b post hsplit hb x hx hd hsame
    cases pre with
    | nil => exact absurd hx List.not_mem_nil
    | cons y pre =>
      obtain ⟨rfl, hrest⟩ := List.cons.inj hsplit
      obtain ⟨c', p, hload, hstores⟩ := stores_cons.mp hb
      obtain ⟨hothers, hfirst⟩ := h c' p hload
      rcases List.mem_cons.mp hx with rfl | hx
      · exact hfirst hd ⟨pre, b, post, hrest, hstores, hsame⟩
      · exact hothers pre b post hrest hstores x hx hd hsame

/-- The same where the first one is known to be done with. -/
theorem noOtherSpelling_finished {a : Bytes} {names : List Bytes} {c c' : Conn}
    {p : List (ℤ × Bytes)} (hload : loadFile fp durations a c = ⟨.finished, c', p⟩) :
    NoOtherSpelling fp durations (a :: names) c
      ↔ NoOtherSpelling fp durations names c'
        ∧ (durations.of a ≤ 0 → ¬StoresAs fp durations a names c') := by
  rw [noOtherSpelling_cons]
  refine ⟨fun h => h c' p hload, fun h c'' p' hload' => ?_⟩
  cases hload.symm.trans hload'
  exact h

/-! ## What a run leaves -/

/-- Where a name is found among rows, more rows do not matter. -/
theorem fileRow?_append {rows : List Row} {name : Bytes} {r : Row}
    (h : fileRow? fp rows name = some r) (more : List Row) :
    fileRow? fp (rows ++ more) name = some r := by
  unfold fileRow? at h ⊢
  rw [List.find?_append, h]
  rfl

/-- Where a name is not found among rows, only more rows matter. -/
theorem fileRow?_append_of_none {rows : List Row} {name : Bytes}
    (h : fileRow? fp rows name = none) (more : List Row) :
    fileRow? fp (rows ++ more) name = fileRow? fp more name := by
  unfold fileRow? at h ⊢
  rw [List.find?_append, h]
  rfl

/-- A file is found where it was stored. -/
theorem fileRow?_added {db : Db} {name : Bytes}
    (h : fileRow? fp (db "PlayableItem").rows name = none) :
    fileRow? fp ((addedDb fp durations name db) "PlayableItem").rows name
      = some (addedRow fp durations name (nextId db)) := by
  rw [addedDb_rows, fileRow?_append_of_none h]
  unfold fileRow?
  rw [List.find?_singleton, addedRow_filename, Value.same_self (numericOfText_ne_null fp name)]
  rfl

/-- A name is found among the rows with one more when it was, or is another
spelling. -/
theorem fileRow?_added_eq_none_iff {db : Db} {name a : Bytes} :
    fileRow? fp ((addedDb fp durations a db) "PlayableItem").rows name = none
      ↔ fileRow? fp (db "PlayableItem").rows name = none ∧ ¬SameName fp name a := by
  rw [addedDb_rows]
  unfold fileRow?
  rw [List.find?_append, Option.or_eq_none_iff, List.find?_singleton, addedRow_filename,
    Value.same_comm]
  unfold SameName
  refine and_congr_right fun _ => ?_
  split <;> simp_all

/-- **What a run leaves**: the rows there were, and rows of files that have a
duration. No transaction is open unless it was aborted.

It holds of an aborted run too, as what it has committed is what the stores
before the last one left. -/
structure Leaves (c : Conn) (r : LoadRun) : Prop where
  /-- Rows are only added, and each of them has a duration. -/
  rows : ∃ more, (r.conn.committed "PlayableItem").rows = (c.db "PlayableItem").rows ++ more
    ∧ ∀ x ∈ more, 0 < (x "duration").toColumnInt
  /-- A run that ends well leaves no transaction open. -/
  closed : r.outcome = .finished → r.conn.saved = none

variable (fp durations) in
theorem loadFiles_leaves (names : List Bytes) {c : Conn} (hs : c.saved = none)
    (hv : playableItemDef.Valid (c.db "PlayableItem")) :
    Leaves c (loadFiles fp durations names c) := by
  induction names generalizing c with
  | nil =>
    refine ⟨⟨[], ?_, fun x hx => absurd hx List.not_mem_nil⟩, fun _ => hs⟩
    show (c.committed "PlayableItem").rows = _
    rw [Conn.committed_of_closed hs, List.append_nil]
  | cons a names ih =>
    have hstep := loadFile_step fp durations hs hv a
    generalize hload : loadFile fp durations a c = r at hstep
    cases hstep with
    | found h =>
      rw [loadFiles_finished hload]
      exact ⟨(ih hs hv).rows, (ih hs hv).closed⟩
    | rejected h hd =>
      rw [loadFiles_finished hload]
      exact ⟨(ih hs hv).rows, (ih hs hv).closed⟩
    | @stored c' h hd hroom hs' hdb =>
      have hrest := ih hs' (by rw [hdb]; exact valid_addedDb hv h)
      obtain ⟨more, hmore, hpos⟩ := hrest.rows
      rw [loadFiles_finished hload]
      refine ⟨⟨addedRow fp durations a (nextId c.db) :: more, ?_, fun x hx => ?_⟩, hrest.closed⟩
      · rw [hdb, addedDb_rows, List.append_assoc] at hmore
        exact hmore
      · rcases List.mem_cons.mp hx with rfl | hx
        · rw [addedRow_toColumnInt]
          exact hd
        · exact hpos x hx
    | full h hd hfull hdb =>
      rw [loadFiles_aborted hload]
      refine ⟨⟨[], by rw [hdb, List.append_nil], fun x hx => absurd hx List.not_mem_nil⟩, ?_⟩
      exact fun hfin => (by cases hfin)

variable (fp durations) in
/-- A name that is found still is after a run, in the same row: new rows come
after the old ones, and no old one is changed. -/
theorem fileRow?_end_of_found (names : List Bytes) {c : Conn} (hs : c.saved = none)
    (hv : playableItemDef.Valid (c.db "PlayableItem")) {name : Bytes} {r : Row}
    (h : fileRow? fp (c.db "PlayableItem").rows name = some r) :
    fileRow? fp ((loadFiles fp durations names c).conn.committed "PlayableItem").rows name
      = some r := by
  obtain ⟨more, hmore, -⟩ := (loadFiles_leaves fp durations names hs hv).rows
  rw [hmore]
  exact fileRow?_append h more

/-- A name that is found only after a run is the one of a file with a duration. -/
theorem duration_of_end {names : List Bytes} {c : Conn} (hs : c.saved = none)
    (hv : playableItemDef.Valid (c.db "PlayableItem")) {name : Bytes} {x : Row}
    (h : fileRow? fp (c.db "PlayableItem").rows name = none)
    (hx : fileRow? fp ((loadFiles fp durations names c).conn.committed "PlayableItem").rows name
      = some x) : 0 < (x "duration").toColumnInt := by
  obtain ⟨more, hmore, hpos⟩ := (loadFiles_leaves fp durations names hs hv).rows
  rw [hmore, fileRow?_append_of_none h] at hx
  exact hpos x (List.mem_of_find?_eq_some hx)

/-- A name that is found is not stored under another spelling. -/
theorem not_storesAs_of_found {name : Bytes} {names : List Bytes} {c : Conn} (hs : c.saved = none)
    (hv : playableItemDef.Valid (c.db "PlayableItem")) {r : Row}
    (h : fileRow? fp (c.db "PlayableItem").rows name = some r) :
    ¬StoresAs fp durations name names c := by
  rintro ⟨pre, b, post, -, hst, hsame⟩
  have hfound := fileRow?_end_of_found fp durations pre hs hv h
  rw [Conn.committed_of_closed ((loadFiles_leaves fp durations pre hs hv).closed hst.finished)]
    at hfound
  have hname := List.find?_some h
  exact List.find?_eq_none.mp hst.free r (List.mem_of_find?_eq_some hfound)
    (Value.same_trans (v := numericOfText fp name) hname hsame)

variable (fp durations) in
/-- **A name is found after a run** when it was found before, or one that is
stored as the same value was stored.

By induction on the names, with the four cases of one name. Only a name that
is stored adds a row; where the process aborts, what was committed is what
was there. -/
theorem fileRow?_end_eq_none_iff (name : Bytes) (names : List Bytes) {c : Conn}
    (hs : c.saved = none) (hv : playableItemDef.Valid (c.db "PlayableItem")) :
    fileRow? fp ((loadFiles fp durations names c).conn.committed "PlayableItem").rows name = none
      ↔ fileRow? fp (c.db "PlayableItem").rows name = none
        ∧ ¬StoresAs fp durations name names c := by
  induction names generalizing c with
  | nil =>
    have hnone : ¬StoresAs fp durations name [] c := by
      rintro ⟨pre, b, post, hsplit, -⟩
      cases pre <;> cases hsplit
    have hdb : (loadFiles fp durations [] c).conn.committed = c.db :=
      Conn.committed_of_closed hs
    rw [hdb, and_iff_left hnone]
  | cons a names ih =>
    have hstep := loadFile_step fp durations hs hv a
    rw [storesAs_cons]
    generalize hload : loadFile fp durations a c = r at hstep
    -- whether the first name is stored, and what follows it
    have hrest : ∀ c' p, r = ⟨.finished, c', p⟩ →
        ((∃ c' p, r = ⟨.finished, c', p⟩ ∧ StoresAs fp durations name names c')
          ↔ StoresAs fp durations name names c') := by
      rintro c' p rfl
      refine ⟨?_, fun h => ⟨c', p, rfl, h⟩⟩
      rintro ⟨c'', p', heq, h⟩
      cases heq
      exact h
    cases hstep with
    | found h =>
      have hno : ¬Stores fp durations ⟨.finished, c, []⟩ a := fun hst =>
        absurd (h.symm.trans hst.free) (by simp)
      rw [loadFiles_finished hload, hrest _ _ rfl, or_iff_right (fun hst => hno hst.1)]
      exact ih hs hv
    | rejected h hd =>
      have hno : ¬Stores fp durations ⟨.finished, c, []⟩ a := fun hst =>
        absurd hst.duration (not_lt.mpr hd)
      rw [loadFiles_finished hload, hrest _ _ rfl, or_iff_right (fun hst => hno hst.1)]
      exact ih hs hv
    | stored h hd hroom hs' hdb =>
      have hyes : Stores fp durations ⟨.finished, c, []⟩ a := ⟨rfl, h, hd, hroom⟩
      rw [loadFiles_finished hload, hrest _ _ rfl, and_iff_right hyes,
        ih hs' (by rw [hdb]; exact valid_addedDb hv h), hdb, fileRow?_added_eq_none_iff, not_or,
        and_assoc]
    | @full c₁ h hd hfull hdb =>
      have hno : ¬Stores fp durations ⟨.finished, c, []⟩ a := fun hst => hfull hst.room
      have hend : ¬∃ c' p, (⟨.aborted, c₁, []⟩ : LoadRun) = ⟨.finished, c', p⟩
          ∧ StoresAs fp durations name names c' := by
        rintro ⟨c', p, heq, -⟩
        cases heq
      rw [loadFiles_aborted hload, hdb, or_iff_right (fun hst => hno hst.1), and_iff_left hend]

/-! ## What a run prints -/

variable (fp durations) in
/-- A run prints IDs that are `int`s, and names that were read: the `%ld` of
the format prints a number of 32 bits. -/
theorem of_mem_printed {names : List Bytes} {c : Conn} (hs : c.saved = none)
    (hv : playableItemDef.Valid (c.db "PlayableItem")) {x : ℤ × Bytes}
    (hx : x ∈ (loadFiles fp durations names c).printed) : FitsInt32 x.1 ∧ x.2 ∈ names := by
  induction names generalizing c with
  | nil => exact absurd hx List.not_mem_nil
  | cons a names ih =>
    have hstep := loadFile_step fp durations hs hv a
    generalize hload : loadFile fp durations a c = r at hstep
    -- what is printed is printed for the name or after it
    have hcases : ∀ {c' : Conn} {p : List (ℤ × Bytes)}, loadFile fp durations a c
        = ⟨.finished, c', p⟩ → x ∈ p ∨ x ∈ (loadFiles fp durations names c').printed := by
      intro c' p h
      rw [loadFiles_finished h] at hx
      exact List.mem_append.mp hx
    cases hstep with
    | @found r h =>
      rcases hcases hload with hp | hrest
      · unfold printedRow at hp
        split at hp
        · exact absurd hp List.not_mem_nil
        · rw [List.mem_singleton.mp hp]
          exact ⟨fitsInt32_toInt32 _, List.mem_cons_self⟩
      · exact (ih hs hv hrest).imp_right (List.mem_cons_of_mem a)
    | rejected h hd =>
      rcases hcases hload with hp | hrest
      · exact absurd hp List.not_mem_nil
      · exact (ih hs hv hrest).imp_right (List.mem_cons_of_mem a)
    | @stored c' h hd hroom hs' hdb =>
      rcases hcases hload with hp | hrest
      · rw [List.mem_singleton.mp hp]
        exact ⟨fitsInt32_toInt32 _, List.mem_cons_self⟩
      · exact (ih hs' (by rw [hdb]; exact valid_addedDb hv h) hrest).imp_right
          (List.mem_cons_of_mem a)
    | full h hd hfull hdb =>
      rw [loadFiles_aborted hload] at hx
      exact absurd hx List.not_mem_nil

/-- **What a run prints are printed items**, whatever it was given to read:
an ID is an `int`, and a name has no line feed and no `NUL` and is shorter
than the buffer. -/
theorem exists_printedItems (fp : FloatOps) (durations : FileDurations) {db : Db}
    (hv : playableItemDef.Valid (db "PlayableItem")) (stdin : Bytes) :
    ∃ items : List PrintedItem,
      items.map (fun item => (item.id, item.name)) = (load fp durations db stdin).printed := by
  have hall : ∀ x ∈ (load fp durations db stdin).printed, FitsInt32 x.1 ∧ x.2 ∈ loadNames stdin :=
    fun x hx => of_mem_printed fp durations rfl hv hx
  generalize (load fp durations db stdin).printed = printed at hall
  induction printed with
  | nil => exact ⟨[], rfl⟩
  | cons x printed ih =>
    obtain ⟨⟨hfits, hname⟩, hrest⟩ := List.forall_mem_cons.mp hall
    obtain ⟨hlen, hzero, hnl⟩ := of_mem_loadNames hname
    obtain ⟨items, hitems⟩ := ih hrest
    exact ⟨⟨x.1, x.2, hfits, hlen, hzero, hnl⟩ :: items, by rw [List.map_cons, hitems]⟩

/-- **The output of `load` is the input of the other commands**: what a run
of it prints, `replace` and `append` read as the IDs it has printed, in their
order and no others.

It holds whatever `load` was given to read and however its run has ended. No
line that it prints fills the buffer of the other commands, so each is read
as one. -/
theorem editPlaylist_load (fp : FloatOps) (durations : FileDurations) {db : Db}
    (hv : playableItemDef.Valid (db "PlayableItem")) (stdin : Bytes) (cmd : EditCommand)
    (candidate : Playlist) :
    editPlaylist cmd candidate (load fp durations db stdin).lines.flatten
      = addItems (cmd.start candidate) ((load fp durations db stdin).printed.map Prod.fst) := by
  obtain ⟨items, hitems⟩ := exists_printedItems fp durations hv stdin
  have hlines : (load fp durations db stdin).lines.flatten = items.flatMap PrintedItem.line := by
    unfold LoadRun.lines
    rw [← hitems, List.map_map]
    rfl
  rw [hlines, editPlaylist_eq, ← hitems, List.map_map]
  exact congrArg _ (map_readId_lines items)

/-! ## The second run -/

/-- **A run repeats another one**, all but for what it prints besides: it
leaves everything as it is, and prints at least as many lines. Whether they
are the same is what a condition says.

The second part is what carries the induction: a line that only the second
run prints cannot be made up for later. -/
structure Repeats (first second : LoadRun) (db : Db) (same : Prop) : Prop where
  /-- It commits nothing that was not there. -/
  unchanged : second.conn.committed = db
  /-- It prints no fewer lines. -/
  length_le : first.printed.length ≤ second.printed.length
  /-- It prints the same lines if and only if the condition holds. -/
  lines_iff : second.lines = first.lines ↔ same

/-- Both runs print something more in front. -/
theorem Repeats.prepend {first second : LoadRun} {db : Db} {same : Prop}
    (h : Repeats first second db same) (p : List (ℤ × Bytes)) :
    Repeats ⟨first.outcome, first.conn, p ++ first.printed⟩
      ⟨second.outcome, second.conn, p ++ second.printed⟩ db same where
  unchanged := h.unchanged
  length_le := by
    rw [List.length_append, List.length_append]
    exact Nat.add_le_add_left h.length_le _
  lines_iff := by
    rw [← h.lines_iff]
    unfold LoadRun.lines
    rw [List.map_append, List.map_append, List.append_right_inj]

/-- Only the second run prints something more, so they are not the same. -/
theorem Repeats.more {first second : LoadRun} {db : Db} {same other : Prop}
    (h : Repeats first second db same) {p : List (ℤ × Bytes)} (hp : p ≠ []) (hother : ¬other) :
    Repeats ⟨first.outcome, first.conn, [] ++ first.printed⟩
      ⟨second.outcome, second.conn, p ++ second.printed⟩ db other where
  unchanged := h.unchanged
  length_le := by
    show first.printed.length ≤ (p ++ second.printed).length
    rw [List.length_append]
    exact Nat.le_add_left_of_le h.length_le
  lines_iff := by
    refine iff_of_false (fun hlines => ?_) hother
    have hlen : (p ++ second.printed).length = first.printed.length := by
      simpa [LoadRun.lines] using congrArg List.length hlines
    have hpos := List.length_pos_iff.mpr hp
    have hle := h.length_le
    rw [List.length_append] at hlen
    omega

variable (fp durations) in
/-- **A second run repeats the first one** exactly when no name that was
stored is another spelling.

By induction on the names. What the second run finds for the first of them is
what the first run has left at its end, so the induction is over the rest of
the first run with the second run's database fixed. -/
theorem loadFiles_again (names : List Bytes) {c c₂ : Conn} (hs : c.saved = none)
    (hv : playableItemDef.Valid (c.db "PlayableItem")) (hs₂ : c₂.saved = none)
    (hdb₂ : c₂.db = (loadFiles fp durations names c).conn.committed) :
    Repeats (loadFiles fp durations names c) (loadFiles fp durations names c₂) c₂.db
      (NoOtherSpelling fp durations names c) := by
  induction names generalizing c with
  | nil =>
    have hnone : NoOtherSpelling fp durations [] c := by
      intro pre b post hsplit
      cases pre <;> cases hsplit
    exact ⟨Conn.committed_of_closed hs₂, Nat.le_refl _, iff_of_true rfl hnone⟩
  | cons a names ih =>
    have hstep := loadFile_step fp durations hs hv a
    generalize hload : loadFile fp durations a c = r at hstep
    cases hstep with
    | @found r h =>
      rw [loadFiles_finished hload] at hdb₂
      have hfind : fileRow? fp (c₂.db "PlayableItem").rows a = some r := by
        rw [hdb₂]
        exact fileRow?_end_of_found fp durations names hs hv h
      rw [noOtherSpelling_finished hload, loadFiles_finished hload,
        loadFiles_finished (loadFile_found hfind),
        and_iff_left fun _ => not_storesAs_of_found hs hv h]
      exact (ih hs hv hdb₂).prepend _
    | rejected h hd =>
      rw [loadFiles_finished hload] at hdb₂
      have hagain := ih hs hv hdb₂
      have hend := fileRow?_end_eq_none_iff fp durations a names hs hv
      rw [← hdb₂, and_iff_right h] at hend
      rw [noOtherSpelling_finished hload, loadFiles_finished hload]
      -- the second run finds the name exactly when the first one stored it, so spelled
      cases hfind : fileRow? fp (c₂.db "PlayableItem").rows a with
      | none =>
        rw [loadFiles_finished (loadFile_rejected hfind hd),
          and_iff_left fun _ => hend.mp hfind]
        exact hagain.prepend []
      | some x =>
        have hst : StoresAs fp durations a names c :=
          not_not.mp fun hno => absurd (hfind.symm.trans (hend.mpr hno)) (by simp)
        have hprinted : printedRow x a ≠ [] := by
          unfold printedRow
          rw [if_neg (not_le.mpr (duration_of_end hs hv h (hdb₂ ▸ hfind)))]
          exact List.cons_ne_nil _ _
        rw [loadFiles_finished (loadFile_found hfind)]
        exact hagain.more hprinted (fun hboth => hboth.2 hd hst)
    | @stored c' h hd hroom hs' hdb =>
      have hv' : playableItemDef.Valid (c'.db "PlayableItem") := by
        rw [hdb]
        exact valid_addedDb hv h
      rw [loadFiles_finished hload] at hdb₂
      have hfind : fileRow? fp (c₂.db "PlayableItem").rows a
          = some (addedRow fp durations a (nextId c.db)) := by
        rw [hdb₂]
        refine fileRow?_end_of_found fp durations names hs' hv' ?_
        rw [hdb]
        exact fileRow?_added h
      rw [noOtherSpelling_finished hload, loadFiles_finished hload,
        loadFiles_finished (loadFile_found hfind), printedRow_added hd,
        and_iff_left fun hle => absurd hd (not_lt.mpr hle)]
      exact (ih hs' hv' hdb₂).prepend _
    | full h hd hfull hdb =>
      rw [loadFiles_aborted hload] at hdb₂ ⊢
      have hsame : c₂.db = c.db := hdb₂.trans hdb
      have hnone : NoOtherSpelling fp durations (a :: names) c := by
        rw [noOtherSpelling_cons]
        intro c' p hload'
        cases hload.symm.trans hload'
      have hstep₂ := loadFile_step fp durations hs₂ (hsame ▸ hv) a
      generalize hload₂ : loadFile fp durations a c₂ = r₂ at hstep₂
      rw [← hsame] at h hfull
      cases hstep₂ with
      | found h' => exact absurd (h.symm.trans h') (by simp)
      | rejected h' hle => exact absurd hd (not_lt.mpr hle)
      | stored h' hd' hroom => exact absurd hroom hfull
      | full h' hd' hfull' hdb' =>
        rw [loadFiles_aborted hload₂]
        exact ⟨hdb', Nat.le_refl _, iff_of_true rfl hnone⟩

/-- **Loading again repeats the first run** exactly when no file that was
stored has another spelling of a name read earlier whose file has no
duration.

It holds whatever the input is and however the first run ends; the second run
never changes anything, so what the condition is about is only the lines that
it prints. -/
theorem load_twice_iff (fp : FloatOps) (durations : FileDurations) {db : Db}
    (hv : playableItemDef.Valid (db "PlayableItem")) (stdin : Bytes) :
    SameAgain fp durations db stdin
      ↔ NoOtherSpelling fp durations (loadNames stdin) ⟨db, none, 0⟩ := by
  have hagain : Repeats (load fp durations db stdin)
      (load fp durations (load fp durations db stdin).conn.committed stdin)
      (load fp durations db stdin).conn.committed
      (NoOtherSpelling fp durations (loadNames stdin) ⟨db, none, 0⟩) :=
    loadFiles_again fp durations (loadNames stdin) rfl hv rfl rfl
  exact (and_iff_right hagain.unchanged).trans hagain.lines_iff

/-- Every file lasts five seconds but the one whose name starts with a zero,
which has no duration. -/
def someDurations : FileDurations where
  of name := if name.head? = some 48 then -1 else 5
  fits name := by split <;> decide

/-- A database with a file that has a duration. -/
def filedDb : Db :=
  databaseOf [.item { filename := some (ascii "a.ogg"), duration := some 9 }]

/-- **Names that are read more than once**: one of a file that was there, one
of a file that is stored, and one of a file that has no duration. The first
run stores `b.ogg` under the ID 2 and finds it later; the second one finds it
both times. -/
theorem load_twice_repeated :
    playableItemDef.Valid (filedDb "PlayableItem")
      ∧ SameAgain .whole someDurations filedDb (ascii "0.ogg\nb.ogg\na.ogg\nb.ogg\n0.ogg\n")
      ∧ (load .whole someDurations filedDb (ascii "0.ogg\nb.ogg\na.ogg\nb.ogg\n0.ogg\n")).lines
          = [ascii "2\tb.ogg\n", ascii "1\ta.ogg\n", ascii "2\tb.ogg\n"] := by
  have hc : Consistent filedDb := consistent_of_isConsistent (by decide +kernel)
  refine ⟨hc.playableItems, (load_twice_iff .whole someDurations hc.playableItems _).mpr
    (noOtherSpelling_of_names ?_ _), ?_⟩
  · decide +kernel
  · decide +kernel

/-- **A file without a duration is found the second time**: `01` and `1` are
stored as one value, so the row of `1` is the row of `01`. The first run
prints one line and the second one two. -/
theorem load_twice_differs :
    playableItemDef.Valid (emptyDb "PlayableItem")
      ∧ ¬SameAgain .whole someDurations emptyDb (ascii "01\n1\n")
      ∧ (load .whole someDurations emptyDb (ascii "01\n1\n")).lines = [ascii "1\t1\n"]
      ∧ (load .whole someDurations
          (load .whole someDurations emptyDb (ascii "01\n1\n")).conn.committed
          (ascii "01\n1\n")).lines = [ascii "1\t01\n", ascii "1\t1\n"] := by
  have hfirst : (load .whole someDurations emptyDb (ascii "01\n1\n")).lines
      = [ascii "1\t1\n"] := by decide
  have hsecond : (load .whole someDurations
      (load .whole someDurations emptyDb (ascii "01\n1\n")).conn.committed
      (ascii "01\n1\n")).lines = [ascii "1\t01\n", ascii "1\t1\n"] := by decide
  refine ⟨consistent_emptyDb.playableItems, fun hsame => ?_, hfirst, hsecond⟩
  have hlines := hsame.2
  rw [hfirst, hsecond] at hlines
  exact absurd hlines (by decide)

end Acmd
