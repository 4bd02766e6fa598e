import RctAutomation.PlaylistViews
import RctAutomation.StoreAtomic

/-!
# Replacing a playlist

`Consistent.save_replace` follows a replacement of a playlist through the
store: its root row, the rows of its items, and the commit. A replacement adds
items to those already stored and deletes none of them, which
`replace_items_iff` compares with the list that was to replace them.
-/

open Sql

variable {fp : FloatOps} {ch : Chance} {busy : Bool}

theorem messageAfter_desc (value : Message) (n : ℤ) : (messageAfter value n).desc = value.desc := by
  unfold messageAfter
  split <;> rfl

/-- Writing the ID back leaves the items of a playlist alone. -/
theorem messageAfter_items (pl : Playlist) (n : ℤ) :
    (messageAfter pl.toMessage n).val "PlayableItemID" = .ints pl.playableItemID := by
  unfold messageAfter
  split
  · exact Message.val_set_of_ne _ _ _ (show "PlayableItemID" ≠ playlistDesc.field0.name by decide)
  · rfl

/-- **How a replacement of a playlist ends**, on a consistent database:
refused at once if it takes the place of a playlist that has items, aborted
if it lists an item that does not exist, and otherwise at its commit, with
its items joined to those that the playlist has. -/
theorem Consistent.save_replace (busy : Bool) {c : Conn} (hc : Consistent c.db) {pl : Playlist}
    {ps : Prepared}
    (hps : rootStatement (catalog fp ch) .replace pl.toMessage = some ps) {r : Row}
    (hk : playlistDef.keyed (c.db "Playlist") (rowOf playlistDef fp pl.toMessage) = .ok r)
    (hitems : pl.items = []) :
    (TakesItems c.db r
      ∧ save (catalog fp ch) busy .replace pl.toMessage c = .rootRefused)
    ∨ ∃ db₁ n, ¬TakesItems c.db r ∧ Replaces c.db db₁ r n
      ∧ ((¬ParentsExist db₁ (idAfter pl.toMessage n) pl.playableItemID
          ∧ save (catalog fp ch) busy .replace pl.toMessage c = .aborted)
        ∨ ∃ db₂, ParentsExist db₁ (idAfter pl.toMessage n) pl.playableItemID
          ∧ JoinsItems db₁ db₂ (idAfter pl.toMessage n) pl.playableItemID
          ∧ save (catalog fp ch) busy .replace pl.toMessage c
            = if busy ∨ (catalog fp ch).orphans true c.db < (catalog fp ch).orphans true db₂ then
                .commitRefused (messageAfter pl.toMessage n)
              else .saved (messageAfter pl.toMessage n) db₂) := by
  unfold save
  rw [if_neg (by simp), hps]
  dsimp only
  rcases hc.exec_replaceRoot hps hk with ⟨hno, db₁, n, hex, hrep⟩ | ⟨htakes, hex⟩
  · rw [hex]
    refine Or.inr ⟨db₁, n, hno, hrep, ?_⟩
    dsimp only [Option.getD_some]
    rw [allRepeatedDb_playlist (messageAfter_desc _ n) (messageAfter_items pl n)]
    rcases hrep.consistent.childrenDb fp ch .replace (idAfter pl.toMessage n)
      pl.playableItemID with ⟨hpar, db₂, hch, hjoin⟩ | ⟨hpar, hch⟩
    · refine Or.inr ⟨db₂, hpar, hjoin, ?_⟩
      rw [hch, Option.bind_some, if_pos hitems]
    · refine Or.inl ⟨hpar, ?_⟩
      rw [hch]
      rfl
  · rw [hex]
    exact Or.inl ⟨htakes, rfl⟩

/-- **What a replacement that succeeded did**: there is a row that took the
places of those it conflicted with, and the items that were listed joined the
playlist whose ID the message has then. -/
theorem Consistent.saved_replace {c : Conn} (hc : Consistent c.db) {pl : Playlist}
    {value' : Message} {db' : Db}
    (h : save (catalog fp ch) busy .replace pl.toMessage c = .saved value' db') :
    pl.length = none ∧ pl.items = [] ∧ ∃ r db₁ n,
      playlistDef.keyed (c.db "Playlist") (rowOf playlistDef fp pl.toMessage) = .ok r
      ∧ Replaces c.db db₁ r n
      ∧ ParentsExist db₁ (idAfter pl.toMessage n) pl.playableItemID
      ∧ JoinsItems db₁ db' (idAfter pl.toMessage n) pl.playableItemID
      ∧ value' = messageAfter pl.toMessage n := by
  obtain ⟨ps, db₁, id, hps, hex, hvalue, hall⟩ := save_saved h
  have hlen := Playlist.length_of_rootStatement hps
  obtain ⟨r, -, hk, -, -, -⟩ := rootStatement_ok (by decide) pl.typed (Playlist.ordered hlen) hps
    (t := playlistDef) rfl hex
  have hitems : pl.items = [] := by
    by_contra hne
    rw [hvalue, allRepeatedDb_playlist (messageAfter_desc _ _) (messageAfter_items pl _)] at hall
    simp only [if_neg hne, Option.bind_fun_none] at hall
    cases hall
  refine ⟨hlen, hitems, r, ?_⟩
  rcases hc.save_replace busy hps hk hitems with
    ⟨-, hend⟩ | ⟨db₁, n, -, hrep, ⟨-, hend⟩ | ⟨db₂, hpar, hjoin, hend⟩⟩
  · rw [h] at hend
    cases hend
  · rw [h] at hend
    cases hend
  · rw [h] at hend
    split at hend
    · cases hend
    · cases hend
      exact ⟨db₁, n, hk, hrep, hpar, hjoin, rfl⟩

/-- The ID of a playlist as the store knows it. -/
theorem localId_playlist (pl : Playlist) :
    localId pl.toMessage = (pl.playlistID.map toInt32).getD (-1) := by
  obtain ⟨playlistID, _, _, _, _, _⟩ := pl
  cases playlistID <;> rfl

/-- The rows of the items are written for the message's ID, as an `int`. -/
theorem idAfter_of_id {pl : Playlist} {p : ℤ} (hid : pl.playlistID = some p) :
    idAfter pl.toMessage p = toInt32 p := by
  have hlocal : localId pl.toMessage = toInt32 p := by
    rw [localId_playlist, hid]
    rfl
  unfold idAfter
  rw [hlocal, ite_self]

/-- The row of a playlist with an ID has that ID as its key. -/
theorem keyed_of_id {pl : Playlist} {p : ℤ} (hid : pl.playlistID = some p) (tab : Table) :
    playlistDef.keyed tab (rowOf playlistDef fp pl.toMessage)
      = .ok (rowOf playlistDef fp pl.toMessage) := by
  refine TableDef.keyed_of_integer (k := "PlaylistID") (n := p) rfl ?_
  show Affinity.integer.apply fp (FieldValue.ofInt pl.playlistID).toValue = _
  rw [hid]
  rfl

theorem Replaces.key_of_id {db db' : Db} {pl : Playlist} {p n : ℤ} {r : Row}
    (hid : pl.playlistID = some p) {tab : Table}
    (hk : playlistDef.keyed tab (rowOf playlistDef fp pl.toMessage) = .ok r)
    (h : Replaces db db' r n) : n = p := by
  rw [keyed_of_id hid] at hk
  cases hk
  have hkey := h.key
  have hrow : rowOf playlistDef fp pl.toMessage "PlaylistID" = .integer p := by
    show Affinity.integer.apply fp (FieldValue.ofInt pl.playlistID).toValue = _
    rw [hid]
    rfl
  rw [hrow] at hkey
  exact (Value.integer.inj hkey).symm

/-- **What a replacement leaves of the items**: those stored before are all
still there, and the list is added to the playlist whose ID is the message's
as an `int`. No statement of the store deletes a row of the join table. -/
theorem Consistent.items_of_replace {c : Conn} (hc : Consistent c.db) {pl : Playlist} {p : ℤ}
    (hid : pl.playlistID = some p) {value' : Message} {db' : Db}
    (h : save (catalog fp ch) busy .replace pl.toMessage c = .saved value' db') :
    Consistent db' ∧ ∀ q k, k ∈ itemsOf db' q
      ↔ k ∈ itemsOf c.db q ∨ (q = toInt32 p ∧ k ∈ pl.playableItemID) := by
  obtain ⟨-, -, r, db₁, n, hk, hrep, -, hjoin, -⟩ := hc.saved_replace h
  obtain rfl := hrep.key_of_id hid hk
  refine ⟨hjoin.consistent, fun q k => ?_⟩
  rw [hjoin.items, hrep.itemsOf_eq, idAfter_of_id hid]

/-- The items a fetch by ID finds through `Playlists_with_children`: what the
program itself gets to see of the items of a playlist. -/
def fetchedItems (cat : Catalog) (db : Db) (p : ℤ) : Set ℤ :=
  match Playlist.loadById cat "Playlists_with_children" db {} p with
  | some (_, pl) => {i | i ∈ pl.playableItemID}
  | none => ∅

/-- **A fetch finds the items that are stored.** An ID that is no `int` is
fetched as the one it is cut off to, for the rows of its items are written
for that one. -/
theorem Consistent.fetchedItems_eq {db : Db} (hc : Consistent db) (p : ℤ) :
    fetchedItems (catalog fp ch) db p = itemsOf db p := by
  unfold fetchedItems
  rcases loadById_withChildren fp ch hc p with
    ⟨hempty, hload⟩ | ⟨r, -, ns, -, -, hmem, hload⟩
  · rw [hload, hempty]
    exact Set.eq_empty_of_forall_notMem (fun i hi => absurd hi List.not_mem_nil)
  · rw [hload]
    exact Set.ext hmem

/-- `Replace` of a playlist, run by itself. -/
def Playlist.replace (cat : Catalog) (busy : Bool) (pl : Playlist) (c : Conn) :
    Run Message (Code × Message) :=
  (StoredMessage.playlist pl).store cat busy .replace c

/-- **When a replacement replaces the items of a playlist**: when every item
stored before is in the list, and the list reaches the playlist – its ID is
an `int` – or was there already. So a replacement can only make a playlist
longer, and replacing a list by a shorter one leaves the longer one.

Rows of items are only added, and the row of the playlist is replaced without
those that refer to it being touched. What is stored and what is fetched
later are both compared, as sets. -/
theorem replace_items_iff (fp : FloatOps) (ch : Chance) (busy : Bool) (pl : Playlist) (p : ℤ)
    (hid : pl.playlistID = some p) (c : Conn) (hs : c.saved = none) (hc : Consistent c.db)
    {res : Code × Message} (hok : (pl.replace (catalog fp ch) busy c).outcome = .returned res) :
    (itemsOf (pl.replace (catalog fp ch) busy c).conn.db p = {i | i ∈ pl.playableItemID}
      ∧ ∀ later : Chance, fetchedItems (catalog fp later)
        (pl.replace (catalog fp ch) busy c).conn.db p = {i | i ∈ pl.playableItemID})
      ↔ (∀ i ∈ itemsOf c.db p, i ∈ pl.playableItemID)
        ∧ (FitsInt32 p ∨ ∀ i ∈ pl.playableItemID, i ∈ itemsOf c.db p) := by
  obtain ⟨value', db', hsave, -, hdb, -⟩ := saved_of_returned hs hok
  obtain ⟨hc', hitems⟩ := hc.items_of_replace hid hsave
  have hend : (pl.replace (catalog fp ch) busy c).conn.db = db' := hdb
  have hview : (itemsOf db' p = {i | i ∈ pl.playableItemID}
      ∧ ∀ later : Chance, fetchedItems (catalog fp later) db' p = {i | i ∈ pl.playableItemID})
      ↔ itemsOf db' p = {i | i ∈ pl.playableItemID} :=
    ⟨fun h => h.1, fun h => ⟨h, fun later => (hc'.fetchedItems_eq p).trans h⟩⟩
  rw [hend, hview, Set.ext_iff, ← toInt32_eq_self_iff]
  simp only [hitems, Set.mem_ofPred_eq]
  constructor
  · intro h
    refine ⟨fun i hi => (h i).mp (Or.inl hi), ?_⟩
    by_cases hp : toInt32 p = p
    · exact Or.inl hp
    · refine Or.inr (fun i hi => ?_)
      rcases (h i).mpr hi with hold | ⟨hpp, -⟩
      · exact hold
      · exact absurd hpp.symm hp
  · rintro ⟨hold, hnew⟩ i
    refine ⟨fun h => h.elim (hold i) And.right, fun hi => ?_⟩
    rcases hnew with hp | hnew
    · exact Or.inr ⟨hp.symm, hi⟩
    · exact Or.inl (hnew i hi)

/-- A playlist with two items. -/
def eveningDb : Db :=
  databaseOf [.item { filename := some (ascii "a.ogg") },
    .item { filename := some (ascii "b.ogg") },
    .playlist { name := some (ascii "evening"), weight := some 1, playableItemID := [1, 2] }]

theorem consistent_eveningDb : Consistent eveningDb :=
  consistent_of_isConsistent (by decide +kernel)

/-- A list that has the old items replaces them, as there is none to be
deleted. -/
theorem replace_items_evening :
    itemsOf (Playlist.replace (catalog .whole .stored) false
        { playlistID := some 1, name := some (ascii "night"), playableItemID := [2, 1] }
        ⟨eveningDb, none, 0⟩).conn.db 1 = {i | i ∈ [(2 : ℤ), 1]} := by
  have hold : ∀ i ∈ itemsOf eveningDb 1, i ∈ [(2 : ℤ), 1] := by
    rintro i ⟨j, hj, -, hi⟩
    have hrows : ∀ j ∈ (eveningDb "Playlist_PlayableItemID").rows,
        j "PlayableItemID" = .integer 2 ∨ j "PlayableItemID" = .integer 1 := by decide +kernel
    rcases hrows j hj with h | h <;> cases hi.symm.trans h <;> decide
  exact ((replace_items_iff .whole .stored false
    { playlistID := some 1, name := some (ascii "night"), playableItemID := [2, 1] } 1 rfl
    ⟨eveningDb, none, 0⟩ rfl consistent_eveningDb rfl).mpr ⟨hold, Or.inl (by decide)⟩).1

/-- A list without one of the old items leaves it in the playlist, though the
replacement returns. -/
theorem replace_items_shorter :
    (∃ res, (Playlist.replace (catalog .whole .stored) false
        { playlistID := some 1, playableItemID := [1] } ⟨eveningDb, none, 0⟩).outcome
        = .returned res)
      ∧ HasPlaylist eveningDb 1 ∧ HasItem eveningDb 1
      ∧ itemsOf (Playlist.replace (catalog .whole .stored) false
        { playlistID := some 1, playableItemID := [1] } ⟨eveningDb, none, 0⟩).conn.db 1
        ≠ {i | i ∈ [(1 : ℤ)]} := by
  refine ⟨⟨_, rfl⟩, by decide +kernel, by decide +kernel, fun h => ?_⟩
  have h2 : (2 : ℤ) ∈ itemsOf (Playlist.replace (catalog .whole .stored) false
      { playlistID := some 1, playableItemID := [1] } ⟨eveningDb, none, 0⟩).conn.db 1 := by
    decide +kernel
  rw [h] at h2
  exact absurd h2 (by decide)
