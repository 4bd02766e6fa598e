import RctAutomation.MessageStore
import RctAutomation.Schema

/-!
# Playlists and playable items in memory

The classes `Playlist` and `PlayableItem` hold a message and fetch it from the
database: by ID, by name, at random, or as the list of all tracks. A playlist
that is fetched carries the IDs of its items, and a track is taken from it by
setting its ID to zero.

A fetch that finds nothing leaves the message as it was before the query. It
aborts the process where the query cannot be prepared or a column has no
field, so each operation here is partial.
-/

open Sql

namespace PlayableItem

/-- `Fetch(id)`: the item is not cleared first, so where there is no row with
the ID it stays what it was. -/
def fetch (cat : Catalog) (db : Db) (item : PlayableItem) (id : ℤ) :
    Option (Bool × PlayableItem) :=
  (MessageStore.loadById cat playableItemDesc "PlayableItem" db item.toMessage id).map
    fun (found, m) => (found, readBack m)

end PlayableItem

namespace Playlist

/-- `Load` from a table or view. -/
def load (cat : Catalog) (table : String) (db : Db) (lookup : Playlist) :
    Option (Bool × Playlist) :=
  (MessageStore.load cat playlistDesc table db lookup.toMessage).map
    fun (found, m) => (found, lookup.readBack m)

/-- `LoadById` from a table or view. -/
def loadById (cat : Catalog) (table : String) (db : Db) (lookup : Playlist) (id : ℤ) :
    Option (Bool × Playlist) :=
  (MessageStore.loadById cat playlistDesc table db lookup.toMessage id).map
    fun (found, m) => (found, lookup.readBack m)

/-- `Fetch()`: a playlist at random, drawn by the view. -/
def fetch (cat : Catalog) (db : Db) : Option (Bool × Playlist) :=
  load cat "Playlists_random_weight" db {}

/-- `Fetch(playlistname)`. The name is set in the message that is looked up,
so it stays there if no playlist is found. -/
def fetchByName (cat : Catalog) (db : Db) (playlistname : Bytes) : Option (Bool × Playlist) :=
  load cat "Playlists_with_children" db { name := some playlistname }

/-- `FetchShuffled(playlistname)`: the same through the other view. -/
def fetchShuffled (cat : Catalog) (db : Db) (playlistname : Bytes) : Option (Bool × Playlist) :=
  load cat "Playlists_with_shuffled_children" db { name := some playlistname }

/-- `FetchSuperlist`: all tracks, through a view made for the query. The
limit and the offset are in the text of the view, so it is another one for
each request. -/
def fetchSuperlist (fp : FloatOps) (ch : Chance) (db : Db) (limit offset : ℤ) :
    Option (Bool × Playlist) :=
  loadById { catalog fp ch with
      views := withEverything fp ch limit offset :: (catalog fp ch).views }
    "Playlists_with_everything" db {} 0

/-- `Fetch(playlistID)`, whose parameter is an `int`: an ID that is none is
cut off, and another playlist may be found. -/
def fetchById (cat : Catalog) (db : Db) (playlistID : ℤ) : Option (Bool × Playlist) :=
  loadById cat "Playlists_with_children" db {} (toInt32 playlistID)

/-- `size_locked`: the items that were not taken. A track that was taken
leaves a zero, so this is not the length of the list. -/
def size (p : Playlist) : ℕ := p.playableItemID.countP (fun i => i != 0)

/-- The loop of `PopWithTimelimit` over the items: the list with the ID of
the track it takes set to zero, and the track. It is partial because a fetch
is. The object it fetches into is one for all items, and at the end of the
list it is cleared. -/
def popLoop (cat : Catalog) (db : Db) (seconds : ℤ) :
    List ℤ → PlayableItem → Option (List ℤ × PlayableItem)
  | [], _ => some ([], {})
  | id :: ids, result =>
    if id = 0 then (popLoop cat db seconds ids result).map fun (ids', r) => (id :: ids', r)
    else
      match result.fetch cat db id with
      | none => none
      | some (_, result') =>
        if result'.playableItemID.getD 0 ≠ 0 ∧ result'.duration.getD 0 ≤ seconds then
          some (0 :: ids, result')
        else (popLoop cat db seconds ids result').map fun (ids', r) => (id :: ids', r)

/-- **`PopWithTimelimit`**, whose parameter is an `int`: the first track that
takes no longer than the limit, or the empty track. Tracks that are too long
stay in the list, for a later call with more time. -/
def popWithTimelimit (cat : Catalog) (db : Db) (p : Playlist) (seconds : ℤ)
    (result : PlayableItem) : Option (Playlist × PlayableItem) :=
  (popLoop cat db (toInt32 seconds) p.playableItemID result).map
    fun (ids, r) => ({ p with playableItemID := ids }, r)

/-- The loop of `PopFront` over the items: the list with the first ID that is
not zero set to zero, and what is fetched by it. -/
def popFrontLoop (cat : Catalog) (db : Db) :
    List ℤ → PlayableItem → Option (List ℤ × PlayableItem)
  | [], _ => some ([], {})
  | id :: ids, result =>
    if id = 0 then (popFrontLoop cat db ids result).map fun (ids', r) => (id :: ids', r)
    else (result.fetch cat db id).map fun (_, r) => (0 :: ids, r)

/-- **`PopFront`**: the first track, whether it exists or not, or the empty
track. Nothing is asked of its duration. -/
def popFront (cat : Catalog) (db : Db) (p : Playlist) (result : PlayableItem) :
    Option (Playlist × PlayableItem) :=
  (popFrontLoop cat db p.playableItemID result).map
    fun (ids, r) => ({ p with playableItemID := ids }, r)

/-- `ApplyMergeRequest`: the request is read as a playlist and merged. With
`replace` the items of the list are cleared first, and the other fields are
not. -/
def applyMergeRequest (p : Playlist) (request : PlaylistMergeRequest) (replace : Bool) :
    Playlist :=
  (if replace then { p with items := [], playableItemID := [] } else p).mergeFrom
    (parse request.serialize)

/-- **What a merge request changes**: the fields it has, and the items, to
which it adds its own. -/
theorem applyMergeRequest_eq (p : Playlist) (request : PlaylistMergeRequest) (replace : Bool) :
    p.applyMergeRequest request replace
      = { playlistID := request.playlistID <|> p.playlistID
          name := request.name <|> p.name
          weight := request.weight <|> p.weight
          playableItemID := (if replace then [] else p.playableItemID) ++ request.playableItemID
          items := if replace then [] else p.items
          length := p.length } := by
  unfold applyMergeRequest
  rw [parse_serialize]
  cases replace <;> simp [mergeFrom]

end Playlist
