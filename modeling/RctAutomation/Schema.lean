import Mathlib.Data.List.Sort
import RctAutomation.Sql.Statement

/-!
# The database of the station

The tables, unique indexes, foreign keys and views of `InitializeSchema`, as
declared. The type `STRING` of the names is none that SQLite knows, so the
columns of that type are numeric (`Sql.affinityOf`).

A view leaves choices to SQLite: the order of rows that its `ORDER BY` does
not settle, the values of `RANDOM()`. They come from outside the program as a
`Chance`, one for each query.
-/

open Sql

/-! ## Tables -/

/-- `Playlist`: the names are unique, and numbers in them are stored as
numbers. -/
def playlistDef : TableDef where
  name := "Playlist"
  columns := [⟨"PlaylistID", "INTEGER", true⟩, ⟨"name", "STRING", false⟩,
    ⟨"weight", "INTEGER", false⟩]
  key := some "PlaylistID"
  uniques := [["name"]]

/-- `PlayableItem`: the tracks, each with the name of its file, which is
unique. -/
def playableItemDef : TableDef where
  name := "PlayableItem"
  columns := [⟨"PlayableItemID", "INTEGER", true⟩, ⟨"filename", "STRING", false⟩,
    ⟨"duration", "INTEGER", false⟩, ⟨"description", "STRING", false⟩,
    ⟨"playcount", "INTEGER", false⟩]
  key := some "PlayableItemID"
  uniques := [["filename"]]

/-- `Playlist_PlayableItemID`: which items a playlist has. The index
`joindex` keeps an item from being in a playlist twice. -/
def joinDef : TableDef where
  name := "Playlist_PlayableItemID"
  columns := [⟨"PlaylistID", "INTEGER", true⟩, ⟨"PlayableItemID", "INTEGER", true⟩]
  key := none
  uniques := [["PlaylistID", "PlayableItemID"]]

/-- `PlaylistLock`: the names of the playlists that are in use. The table is
emptied when the automation starts. -/
def playlistLockDef : TableDef where
  name := "PlaylistLock"
  columns := [⟨"name", "STRING", true⟩]
  key := none
  uniques := [["name"]]

/-- `ProtoTable`: messages that are kept as bytes under a label. The label is
unique, so a message that is replaced has one row. -/
def protoTableDef : TableDef where
  name := "ProtoTable"
  columns := [⟨"ProtoStoreID", "INTEGER", true⟩, ⟨"label", "STRING", false⟩,
    ⟨"data", "BLOB", false⟩]
  key := some "ProtoStoreID"
  uniques := [["label"]]

/-- The tables, in the order in which they are created. -/
def schemaTables : List TableDef :=
  [playlistDef, playableItemDef, joinDef, playlistLockDef, protoTableDef]

/-- The foreign keys. The one of the locks is deferred, so a lock on a
playlist that does not exist is only found when its transaction commits. -/
def schemaForeignKeys : List ForeignKey :=
  [⟨"Playlist_PlayableItemID", "PlaylistID", "Playlist", "PlaylistID", false⟩,
    ⟨"Playlist_PlayableItemID", "PlayableItemID", "PlayableItem", "PlayableItemID", false⟩,
    ⟨"PlaylistLock", "name", "Playlist", "name", true⟩]

/-! ## What is left to chance -/

/-- An order SQLite reads rows in: any rearrangement of them, which may
depend on the rows. Results that name one hold whichever it is. -/
structure Shuffle where
  run : List Row → List Row
  perm : ∀ l, (run l).Perm l

/-- Rows read in the order they are stored in. -/
def Shuffle.id : Shuffle := ⟨fun l => l, fun l => List.Perm.refl l⟩

/-- What a query leaves to chance: the order of rows that are not sorted or
are tied, and the value of `RANDOM()`. -/
structure Chance where
  shuffle : Shuffle
  random : ℤ

/-- Rows in the order they are stored in, and zeros. -/
def Chance.stored : Chance := ⟨Shuffle.id, 0⟩

/-- `ORDER BY col ASC`, the ties in the order given. -/
def orderAsc (col : String) (rows : List Row) : List Row :=
  rows.insertionSort (fun a b => ((a col).le (b col)) = true)

/-- `ORDER BY col DESC`, the ties in the order given. -/
def orderDesc (col : String) (rows : List Row) : List Row :=
  rows.insertionSort (fun a b => ((b col).le (a col)) = true)

/-! ## Views -/

/-- `group_concat`: the texts of values, separated by commas. This is how the
list of the items of a playlist gets into one column. -/
def groupConcat (fp : FloatOps) (vs : List Value) : Bytes :=
  [44].intercalate (vs.map (Value.toText fp))

/-- The items of a playlist that exist, in the order of the items given. An
item appears as often as the join table has it, which is once at most in a
valid database. -/
def childIds (db : Db) (items : List Row) (p : Row) : List Value :=
  items.flatMap fun it =>
    ((db "Playlist_PlayableItemID").rows.filter (fun j =>
      (j "PlaylistID").same (p "PlaylistID")
        && (j "PlayableItemID").same (it "PlayableItemID"))).map (fun j => j "PlayableItemID")

/-- The playlists that have items, each with their IDs. The join with the
items leaves out a playlist that has none, so such a playlist is in its table
and cannot be fetched. -/
def playlistsWith (fp : FloatOps) (db : Db) (items : List Row) : List Row :=
  (db "Playlist").rows.filterMap fun p =>
    let ids := childIds db items p
    if ids = [] then none
    else some (Function.update p "PlayableItemID" (.text (groupConcat fp ids)))

/-- The columns of a playlist with those a view adds. -/
def playlistColumns (added : String) : List Column := playlistDef.columns ++ [⟨added, "", false⟩]

/-- The items in the order in which a view of playlists lists them.

Both views join the playlists with a subquery that is sorted, by duration or by play
count. That order does not reach `group_concat`: the rows of a group come from the index
`joindex` on the IDs of the playlist and of the item, and each is then looked up in what
the subquery gave. So the items of a playlist are listed by their IDs. -/
def listedItems (db : Db) : List Row := orderAsc "PlayableItemID" (db "PlayableItem").rows

/-- `Playlists_with_children`. The sort of its subquery (`duration DESC, RANDOM()`)
makes no difference to the list. -/
def withChildren (fp : FloatOps) : View where
  name := "Playlists_with_children"
  columns := playlistColumns "PlayableItemID"
  rows db := playlistsWith fp db (listedItems db)

/-- `Playlists_with_shuffled_children`. The sort of its subquery (`playcount ASC,
RANDOM()`) makes no difference to the list either. -/
def withShuffledChildren (fp : FloatOps) : View where
  name := "Playlists_with_shuffled_children"
  columns := playlistColumns "PlayableItemID"
  rows db := playlistsWith fp db (listedItems db)

theorem listedItems_perm (db : Db) : (listedItems db).Perm (db "PlayableItem").rows :=
  List.perm_insertionSort ..

/-- `Playlists_with_size`: the number of items of each playlist that has any.
It counts rows of the join table, whether their items exist or not. -/
def withSize : View where
  name := "Playlists_with_size"
  columns := playlistColumns "length"
  rows db := (db "Playlist").rows.filterMap fun p =>
    let n := (db "Playlist_PlayableItemID").rows.countP
      (fun j => (j "PlaylistID").same (p "PlaylistID"))
    if n = 0 then none else some (Function.update p "length" (.integer n))

/-- An addition of 64-bit integers, where it does not overflow. -/
def addInt64 (acc n : ℤ) : Option ℤ := if fitsInt64 (acc + n) then some (acc + n) else none

/-- `sum`: the sum of the values that are not null, and null without one. A sum
that overflows ends the query without a row, as a null does here. -/
def sumOf (vs : List Value) : Option ℤ :=
  if vs.all (· == .null) then none else (vs.map Value.toInt64).foldlM addInt64 0

/-- `(select sum(weight) From Playlist)`. -/
def totalWeight (db : Db) : Option ℤ := sumOf ((db "Playlist").rows.map (fun p => p "weight"))

/-- `1+abs(random() % sum(weight))`, null where the sum is or is zero: the
ticket that is drawn, from one up to the sum of all weights. -/
def drawWeight (random : ℤ) (total : Option ℤ) : Option ℤ :=
  match total with
  | none => none
  | some s => if s = 0 then none else some (1 + |random.tmod s|)

/-- The sum of the weights of the playlists up to an ID, those without items
included. It is what a ticket is compared with. -/
def weightUpTo (db : Db) (id : Value) : Option ℤ :=
  sumOf (((db "Playlist").rows.filter (fun p2 => (p2 "PlaylistID").le id)).map
    (fun p2 => p2 "weight"))

/-- `a <= b` in a `WHERE` clause: not met when either is null. -/
def leOption : Option ℤ → Option ℤ → Bool
  | some a, some b => a ≤ b
  | _, _ => false

/-- `Playlists_random_weight`: of the playlists whose prefix sum reaches the
ticket the heaviest one, which need not be the first of them. -/
def randomWeight (fp : FloatOps) (ch : Chance) : View where
  name := "Playlists_random_weight"
  columns := playlistColumns "PlayableItemID"
  rows db :=
    let met := ((withShuffledChildren fp).rows db).filter fun p =>
      leOption (drawWeight ch.random (totalWeight db)) (weightUpTo db (p "PlaylistID"))
    (orderDesc "weight" (ch.shuffle.run met)).take 1

/-- The one row of the view of all tracks. It has the ID zero, which no
playlist of the table has. -/
def allTracks (fp : FloatOps) (ids : List Value) : Row
  | "PlaylistID" => .integer 0
  | "name" => .text (ascii "ALL TRACKS")
  | "weight" => .integer 0
  | "PlayableItemID" => .text (groupConcat fp ids)
  | _ => .null

/-- `Playlists_with_everything`, the temporary view of `FetchSuperlist`: all
tracks as one playlist, the longest first, from an offset on and up to a
limit. -/
def withEverything (fp : FloatOps) (ch : Chance) (limit offset : ℤ) : View where
  name := "Playlists_with_everything"
  columns := [⟨"PlaylistID", "", false⟩, ⟨"name", "", false⟩, ⟨"weight", "", false⟩,
    ⟨"PlayableItemID", "", false⟩]
  rows db :=
    let items := (orderDesc "duration" (ch.shuffle.run (db "PlayableItem").rows)).drop offset.toNat
    let ids := ((if limit < 0 then items else items.take limit.toNat)).map
      (fun it => it "PlayableItemID")
    if ids = [] then [] else [allTracks fp ids]

/-- What a connection knows of the database, for one query. The chances of
the query are part of it because the views are computed with them. -/
def catalog (fp : FloatOps) (ch : Chance) : Catalog where
  tables := schemaTables
  foreignKeys := schemaForeignKeys
  views := [withChildren fp, withShuffledChildren fp, withSize, randomWeight fp ch]
  fp := fp

/-- The only key that is deferred is the one of the locks. -/
theorem orphans_true (fp : FloatOps) (ch : Chance) (db : Db) :
    (catalog fp ch).orphans true db
      = (db "PlaylistLock").rows.countP (Catalog.isOrphan db
          ⟨"PlaylistLock", "name", "Playlist", "name", true⟩) := rfl

/-- A database with nothing in its tables. -/
def emptyDb : Db := fun _ => ⟨[], 0⟩
