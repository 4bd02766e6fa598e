import RctAutomation.Playlists
import RctAutomation.RoundTrip
import RctAutomation.Runs

/-!
# The override playlist as a queue

Tracks that a human adds to the override playlist are played in turn. The
playlist is a list of IDs in which zero marks what was taken, and the queue it
stands for is what is left (`Playlist.queue`).

`Fifo` is the queue itself, and `overrideQueue_refines` says that the playlist
follows it along every sequence of operations, whatever the database is at
each of them.
-/

open Sql Transitions

/-! ## The queue -/

namespace Fifo

/-- The operations of a queue. What is popped is looked up at once, by a
function that comes with the operation, because the answer depends on what is
stored then. -/
inductive Op (ι β : Type)
  | append (ids : List ι)
  | overwrite (ids : List ι)
  | pop (lookup : Option ι → β)
  | size

/-- What an operation answers. -/
inductive Answer (β : Type)
  | done
  | popped (b : β)
  | size (n : ℕ)

/-- **A queue**: what is appended is popped in the same order. Popping an
empty queue changes nothing. This is what the override playlist is for, and
is not translated from the source. -/
def step {ι β : Type} : List ι → Op ι β → List ι × Answer β
  | q, .append ids => (q ++ ids, .done)
  | _, .overwrite ids => (ids, .done)
  | [], .pop lookup => ([], .popped (lookup none))
  | i :: q, .pop lookup => (q, .popped (lookup (some i)))
  | q, .size => (q, .size q.length)

end Fifo

/-! ## The item of a row -/

/-- The item a row of the table is read as: every column has its field, and
every field of these is set. -/
def PlayableItem.ofRow (fp : FloatOps) (r : Row) : PlayableItem where
  playableItemID := some (r "PlayableItemID").toColumnInt
  filename := some ((r "filename").toText fp)
  duration := some (r "duration").toColumnInt
  description := some ((r "description").toText fp)
  playcount := some (r "playcount").toColumnInt

/-- The item with an ID, the empty one if there is no row. -/
def PlayableItem.stored (fp : FloatOps) (db : Db) (id : ℤ) : PlayableItem :=
  ((db "PlayableItem").rows.find? (fun r => (r "PlayableItemID").same (.integer id))).elim {}
    (ofRow fp)

/-- **A fetch into the empty item gives the item that is stored.** -/
theorem PlayableItem.fetch_empty (fp : FloatOps) (ch : Chance) (db : Db) (id : ℤ) :
    ∃ found, fetch (catalog fp ch) db {} id = some (found, stored fp db id) := by
  have hload : MessageStore.loadById (catalog fp ch) playableItemDesc "PlayableItem" db
      (toMessage {}) id
      = protoFromRows fp playableItemDesc (((db "PlayableItem").rows.filter
          (fun r => (r "PlayableItemID").same (.integer id))).map
        (fun r => playableItemDef.columns.map (fun col => (col.name, r col.name))))
          (toMessage {}) :=
    RowType.loadById_eq (T := playableItemType) (List.mem_cons_of_mem _ (List.mem_cons_self ..))
      fp ch db id
  unfold fetch stored
  rw [hload, ← List.head?_filter]
  cases (db "PlayableItem").rows.filter (fun r => (r "PlayableItemID").same (.integer id)) with
  | nil => exact ⟨false, rfl⟩
  | cons r rest => exact ⟨true, rfl⟩

/-! ## The operations of the playlist -/

/-- What is done with the override playlist. A pop comes with the database it
fetches from, which may be another one each time. -/
inductive QueueOp
  | popFront (ch : Chance) (db : Db)
  | applyMergeRequest (request : PlaylistMergeRequest) (replace : Bool)
  | size

/-- The playlist after an operation, and what that answers. A pop fetches into
an item that was cleared. -/
def QueueOp.run (fp : FloatOps) (p : Playlist) :
    QueueOp → Option (Playlist × Fifo.Answer PlayableItem)
  | .popFront ch db => (p.popFront (catalog fp ch) db {}).map fun (p', r) => (p', .popped r)
  | .applyMergeRequest request replace => some (p.applyMergeRequest request replace, .done)
  | .size => some (p, .size p.size)

/-- The IDs that are left, in their order: the abstraction of a list whose
taken elements are zeros. -/
def Playlist.queue (p : Playlist) : List ℤ := p.playableItemID.filter (· ≠ 0)

/-- What an operation does to the queue. A request may carry zeros among its
IDs, which are no tracks and do not count. -/
def QueueOp.toFifo (fp : FloatOps) : QueueOp → Fifo.Op ℤ PlayableItem
  | .popFront _ db => .pop (fun i => i.elim {} (PlayableItem.stored fp db))
  | .applyMergeRequest request false => .append (request.playableItemID.filter (· ≠ 0))
  | .applyMergeRequest request true => .overwrite (request.playableItemID.filter (· ≠ 0))
  | .size => .size

/-- The size of a playlist is the length of its queue. -/
theorem Playlist.size_eq_length (p : Playlist) : p.size = p.queue.length := by
  unfold size queue
  rw [List.countP_eq_length_filter]
  congr 2
  ext i
  rw [Bool.eq_iff_iff, bne_iff_ne, decide_eq_true_iff]

/-- **The loop takes the first ID that is left**, and leaves the others in
their order; if none is left it answers the empty track. -/
theorem Playlist.popFrontLoop_eq (fp : FloatOps) (ch : Chance) (db : Db) (ids : List ℤ) :
    (popFrontLoop (catalog fp ch) db ids {}).map
        (fun x => (x.1.filter (· ≠ 0), x.2))
      = some ((ids.filter (· ≠ 0)).tail,
        (ids.filter (· ≠ 0)).head?.elim {} (PlayableItem.stored fp db)) := by
  induction ids with
  | nil => rfl
  | cons id ids ih =>
    by_cases hid : id = 0
    · -- what was taken is passed over
      subst hid
      have hskip : ∀ l : List ℤ, (0 :: l).filter (· ≠ 0) = l.filter (· ≠ 0) := fun l => rfl
      unfold popFrontLoop
      rw [if_pos rfl, hskip, ← ih, Option.map_map]
      rfl
    · have hkeep : (id :: ids).filter (· ≠ 0) = id :: ids.filter (· ≠ 0) :=
        List.filter_cons_of_pos (by simpa using hid)
      obtain ⟨found, hfetch⟩ := PlayableItem.fetch_empty fp ch db id
      unfold popFrontLoop
      rw [if_neg hid, hkeep, hfetch]
      rfl

/-- **Each operation does to the queue what it should.** No operation fails,
whatever the database holds. For a pop this is that its loop takes the first
ID that is not zero, which is the head of the queue. -/
theorem QueueOp.run_refines (fp : FloatOps) (p : Playlist) (op : QueueOp) :
    (op.run fp p).map (Prod.map Playlist.queue id) = some (Fifo.step p.queue (op.toFifo fp)) := by
  cases op with
  | popFront ch db =>
    have hpop := Playlist.popFrontLoop_eq fp ch db p.playableItemID
    obtain ⟨⟨ids, r⟩, hloop, heq⟩ := Option.map_eq_some_iff.mp hpop
    have hrun : QueueOp.run fp p (.popFront ch db)
        = some ({ p with playableItemID := ids }, .popped r) := by
      unfold run Playlist.popFront
      dsimp only
      rw [hloop]
      rfl
    obtain ⟨hids, rfl⟩ := Prod.mk.inj heq
    rw [hrun]
    show some (ids.filter (· ≠ 0), Fifo.Answer.popped _) = _
    -- the first ID that is left is the head of the queue
    rw [show ids.filter (· ≠ 0) = (p.playableItemID.filter (· ≠ 0)).tail from hids]
    show _ = some (Fifo.step (p.playableItemID.filter (· ≠ 0)) _)
    cases p.playableItemID.filter (· ≠ 0) with
    | nil => rfl
    | cons i q => rfl
  | applyMergeRequest request replace =>
    unfold run
    dsimp only
    rw [Playlist.applyMergeRequest_eq]
    cases replace with
    | false =>
      show some ((p.playableItemID ++ request.playableItemID).filter (· ≠ 0), Fifo.Answer.done)
        = some (p.queue ++ request.playableItemID.filter (· ≠ 0), .done)
      rw [List.filter_append]
      rfl
    | true => rfl
  | size =>
    show some (p.queue, Fifo.Answer.size p.size) = some (p.queue, .size p.queue.length)
    rw [p.size_eq_length]

/-- **The override playlist is a queue**: from the empty playlist, every
sequence of operations gives the answers the queue gives, and leaves its
elements.

The operations are those that the loop and the requests make: the first track
is taken, tracks are added at the end, after the list has been cleared or
not, and the size is asked for. The slot of a track that is taken stays as a
zero, so the abstraction passes over zeros. -/
theorem overrideQueue_refines (fp : FloatOps) (ops : List QueueOp) :
    (perform (QueueOp.run fp) {} ops).map (Prod.map Playlist.queue id)
      = some (performTotal (fun q op => Fifo.step q (op.toFifo fp)) [] ops) :=
  perform_refines Playlist.queue (QueueOp.run_refines fp) {} ops
