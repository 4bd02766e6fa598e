import RctAutomation.AutomationState
import RctAutomation.RaisedPlaycounts
import RctAutomation.TimedPops
import RctAutomation.WebApi

/-!
# The legal ID

`LEGAL_ID` locks the playlist of legal IDs, fetches it with `FetchShuffled`,
takes a track within the limit from it and plays that. The view that is fetched
lists the items by their IDs, so the track is the first one that fits in this
order, and how often it was played has no part in it.

Failing to lock or to fetch the playlist ends the process, and so does a list
without tracks. A list whose tracks are all too long does not: what is taken
then is an empty track, and it is played. `legalId_iff` says when a command
meets its requirement, or fails in a way that is noticed.
-/

open Sql

/-! ## The lock -/

namespace Playlist

variable {fp : FloatOps} {busy : Bool}

/-- The row of a lock. -/
theorem rowOf_lock (fp : FloatOps) (name : Bytes) :
    rowOf playlistLockDef fp (PlaylistLock.toMessage { name := some name }) "name"
      = numericOfText fp name := rfl

theorem rootStatement_lock (fp : FloatOps) (name : Bytes) :
    rootStatement (catalog fp .stored) .replace (PlaylistLock.toMessage { name := some name })
      = some ⟨.insert .replace "PlaylistLock" ["name"], [.text name]⟩ := rfl

/-- The statement for a lock places its row. Only the table of locks changes,
and nothing refers to it; that the playlist exists is checked at the commit. -/
theorem exec_lock (fp : FloatOps) (db : Db) (name : Bytes) :
    ∃ tab : Table,
      tab.rows = (db "PlaylistLock").rows.filter (fun x => !playlistLockDef.conflicts
          (rowOf playlistLockDef fp (PlaylistLock.toMessage { name := some name })) x)
        ++ [rowOf playlistLockDef fp (PlaylistLock.toMessage { name := some name })]
      ∧ (catalog fp .stored).exec db ⟨.insert .replace "PlaylistLock" ["name"], [.text name]⟩
        = .ok (Function.update db "PlaylistLock" tab, none) := by
  obtain ⟨r, hr⟩ : ∃ r, r = rowOf playlistLockDef fp
    (PlaylistLock.toMessage { name := some name }) := ⟨_, rfl⟩
  have hname : r "name" = numericOfText fp name := by
    rw [hr]
    exact rowOf_lock fp name
  have hvalue : playlistLockDef.lacksValue r = false := by
    have hne : (numericOfText fp name == Value.null) = false :=
      beq_false_of_ne (numericOfText_ne_null fp name)
    simp [TableDef.lacksValue, playlistLockDef, hname, hne]
  obtain ⟨tab, hplace, hrows⟩ := TableDef.place_replace (db "PlaylistLock") hvalue
  rw [← hr]
  refine ⟨tab, hrows, ?_⟩
  have hexec : (catalog fp .stored).exec db
      ⟨.insert .replace "PlaylistLock" ["name"], [.text name]⟩
      = (playlistLockDef.insert .replace (db "PlaylistLock") r).bind
        fun x => (catalog fp .stored).checked db
          (Function.update db "PlaylistLock" x.1) x.2 := by
    rw [hr]
    exact exec_rootStatement (by decide) (PlaylistLock.typed { name := some name })
      (PlaylistLock.ordered _) (rootStatement_lock fp name) rfl db
  have hins : playlistLockDef.insert .replace (db "PlaylistLock") r = .ok (tab, none) := by
    unfold TableDef.insert
    have hkeyed : playlistLockDef.keyed (db "PlaylistLock") r = .ok r := rfl
    rw [hkeyed]
    show (playlistLockDef.place .replace (db "PlaylistLock") r).map _ = _
    rw [hplace]
    rfl
  rw [hexec, hins]
  show (catalog fp .stored).checked db (Function.update db "PlaylistLock" tab) none = _
  unfold Catalog.checked
  -- the keys of the join table refer to what they did
  have horphans : (catalog fp .stored).orphans false (Function.update db "PlaylistLock" tab)
      = (catalog fp .stored).orphans false db := rfl
  rw [horphans, if_neg (lt_irrefl _)]

/-- A playlist with the name exists. -/
def Named (fp : FloatOps) (db : Db) (name : Bytes) : Prop :=
  ∃ x ∈ (db "Playlist").rows, (x "name").same (numericOfText fp name) = true

/-- A lock on a playlist that exists refers to it, and takes the place of no
more than the locks on it. -/
theorem orphans_lock {db : Db} {name : Bytes} (hnamed : Named fp db name) {tab : Table}
    (hrows : tab.rows = (db "PlaylistLock").rows.filter (fun x => !playlistLockDef.conflicts
          (rowOf playlistLockDef fp (PlaylistLock.toMessage { name := some name })) x)
        ++ [rowOf playlistLockDef fp (PlaylistLock.toMessage { name := some name })]) :
    (catalog fp .stored).orphans true (Function.update db "PlaylistLock" tab)
      ≤ (catalog fp .stored).orphans true db := by
  have hsame : Catalog.isOrphan (Function.update db "PlaylistLock" tab)
      ⟨"PlaylistLock", "name", "Playlist", "name", true⟩
      = Catalog.isOrphan db ⟨"PlaylistLock", "name", "Playlist", "name", true⟩ := rfl
  have hparent : Catalog.isOrphan db ⟨"PlaylistLock", "name", "Playlist", "name", true⟩
      (rowOf playlistLockDef fp (PlaylistLock.toMessage { name := some name })) = false := by
    obtain ⟨x, hx, hname⟩ := hnamed
    have hany : (db "Playlist").rows.any (fun p => (p "name").same (numericOfText fp name))
        = true := List.any_eq_true.mpr ⟨x, hx, hname⟩
    unfold Catalog.isOrphan
    rw [rowOf_lock, hany]
    exact Bool.and_false _
  rw [orphans_true, orphans_true, Function.update_self, hrows, hsame, List.countP_append,
    List.countP_singleton, hparent]
  exact List.filter_sublist.countP_le

/-- **How the store of a lock ends**: it is refused at its commit, if the
database is busy or there is no playlist with the name, and saved otherwise. -/
theorem save_lock (fp : FloatOps) (busy : Bool) (name : Bytes) (c : Conn) :
    ∃ tab : Table,
      save (catalog fp .stored) busy .replace (PlaylistLock.toMessage { name := some name }) c
        = (if busy ∨ (catalog fp .stored).orphans true c.db
              < (catalog fp .stored).orphans true (Function.update c.db "PlaylistLock" tab) then
            .commitRefused (PlaylistLock.toMessage { name := some name })
          else .saved (PlaylistLock.toMessage { name := some name })
            (Function.update c.db "PlaylistLock" tab))
      ∧ (Named fp c.db name →
        (catalog fp .stored).orphans true (Function.update c.db "PlaylistLock" tab)
          ≤ (catalog fp .stored).orphans true c.db) := by
  obtain ⟨tab, hrows, hexec⟩ := exec_lock fp c.db name
  refine ⟨tab, ?_, fun hnamed => orphans_lock hnamed hrows⟩
  unfold save
  rw [rootStatement_lock, if_neg (by simp)]
  dsimp only
  rw [hexec]
  rfl

/-- **What the lock leaves behind**, and when it is taken: by a process that
can commit, on a playlist that exists. Only the table of locks is changed.

It is read off from the end of the store: the commit is refused where another
connection is busy, or where the lock would be on a playlist that does not
exist. -/
theorem lockByName_spec (fp : FloatOps) (busy : Bool) (name : Bytes) {c : Conn}
    (hs : c.saved = none) :
    (∀ c', lockByName fp busy name c = some c' →
      busy = false ∧ c'.saved = none ∧ ∀ t, t ≠ "PlaylistLock" → c'.db t = c.db t)
    ∧ (busy = false → Named fp c.db name → (lockByName fp busy name c).isSome = true) := by
  obtain ⟨tab, hsave, hparent⟩ := save_lock fp busy name c
  have hdescribes := run_insertOrReplace (catalog fp .stored) busy .replace
    (PlaylistLock.toMessage { name := some name }) hs
  obtain ⟨run, hrun⟩ : ∃ run, (StoredMessage.lock { name := some name }).store
      (catalog fp .stored) busy .replace c = run := ⟨_, rfl⟩
  have hends : Save.Describes "PlaylistLock" (PlaylistLock.toMessage { name := some name }) c.db
      run (save (catalog fp .stored) busy .replace (PlaylistLock.toMessage { name := some name })
        c) := by
    rw [← hrun]
    exact hdescribes
  rw [hsave] at hends
  by_cases hrefused : busy = true ∨ (catalog fp .stored).orphans true c.db
      < (catalog fp .stored).orphans true (Function.update c.db "PlaylistLock" tab)
  · rw [if_pos hrefused] at hends
    rw [lockByName_of_raised hrun hends.1]
    refine ⟨fun c' h => (by cases h), fun hidle hnamed => ?_⟩
    rcases hrefused with hbusy | hlt
    · exact absurd (hidle.symm.trans hbusy) (by simp)
    · exact absurd hlt (not_lt.mpr (hparent hnamed))
  · rw [if_neg hrefused] at hends
    obtain ⟨hout, hdb, hclosed, -⟩ := hends
    rw [lockByName_of_returned hrun hout]
    refine ⟨fun c' h => ?_, fun _ _ => rfl⟩
    obtain rfl := Option.some.inj h
    refine ⟨Bool.eq_false_iff.mpr (fun h => hrefused (Or.inl h)), hclosed, fun t ht => ?_⟩
    rw [hdb]
    exact Function.update_of_ne ht ..

end Playlist

/-! ## The choices -/

namespace LegalID

variable {fp : FloatOps} {name : Bytes}

/-- **The tracks to choose from**, as the view shows them: the items of the
playlist with the name, by their IDs.

The view sorts the items by their play counts in a subquery, but what it lists is not in
that order (`listedItems`), so that how often a track was played is not looked at. -/
def choices (fp : FloatOps) (db : Db) (name : Bytes) : List ℤ :=
  match (db "Playlist").rows.find? (fun r => (r "name").same (numericOfText fp name)) with
  | none => []
  | some r => (childIds db (listedItems db) r).map Value.toInt64

/-- What is in the database of a playlist with a name. -/
theorem choices_cases (fp : FloatOps) {db : Db} (hc : Consistent db) (name : Bytes) :
    choices fp db name = []
    ∨ ∃ x ∈ (db "Playlist").rows, (x "name").same (numericOfText fp name) = true
      ∧ ∃ p, x "PlaylistID" = .integer p ∧ ∀ i, i ∈ choices fp db name ↔ i ∈ itemsOf db p := by
  unfold choices
  cases hfind : (db "Playlist").rows.find? (fun r => (r "name").same (numericOfText fp name)) with
  | none => exact Or.inl rfl
  | some x =>
    dsimp only
    have hx := List.mem_of_find?_eq_some hfind
    obtain ⟨p, hp⟩ := hc.playlists.keys "PlaylistID" rfl x hx
    obtain ⟨ns, hns, hmem⟩ := childIds_eq hc (listedItems_perm db) hp
    have hsame := List.find?_some hfind
    refine Or.inr ⟨x, hx, hsame, p, hp, fun i => ?_⟩
    rw [hns, List.map_map]
    show i ∈ ns.map id ↔ _
    rw [List.map_id]
    exact hmem i

/-- A playlist with a name is the only one. -/
theorem find?_named {db : Db} (hc : Consistent db) {name : Bytes} {r : Row}
    (hr : r ∈ (db "Playlist").rows) (hsame : (r "name").same (numericOfText fp name) = true) :
    (db "Playlist").rows.find? (fun r => (r "name").same (numericOfText fp name)) = some r := by
  cases hfind : (db "Playlist").rows.find? (fun r => (r "name").same (numericOfText fp name)) with
  | none => exact absurd hsame (List.find?_eq_none.mp hfind r hr)
  | some x =>
    have hx := List.find?_some hfind
    rw [Value.same_comm] at hsame
    have hconf : playlistDef.conflicts x r = true :=
      TableDef.conflicts_of_unique (u := "name") (List.mem_singleton_self _)
        (Value.same_trans hx hsame)
    rw [hc.playlists.eq_of_conflicts (List.mem_of_find?_eq_some hfind) hr hconf]

/-- The rows of the view that have a name. -/
def namedRows (fp : FloatOps) (db : Db) (name : Bytes) : List Row :=
  (playlistsWith fp db (listedItems db)).filter
    (fun r => (r "name").same (numericOfText fp name))

/-- The first row that has the name is loaded, over the name itself. -/
theorem fetchShuffled_eq (fp : FloatOps) (ch : Chance) (db : Db) (name : Bytes) :
    Playlist.fetchShuffled (catalog fp ch) db name
      = loadRows fp { name := some name } (namedRows fp db name) := rfl

/-- **What `FetchShuffled` finds**: the choices, if there are any. The
chances of the query make no difference, as items are listed in the order of
their IDs whatever the subquery sorts by. -/
theorem fetchShuffled_choices (fp : FloatOps) (ch : Chance) {db : Db} (hc : Consistent db)
    (name : Bytes) :
    (choices fp db name = []
      ∧ Playlist.fetchShuffled (catalog fp ch) db name = some (false, { name := some name }))
    ∨ ∃ legalid, legalid.playableItemID = choices fp db name
      ∧ Playlist.fetchShuffled (catalog fp ch) db name = some (true, legalid) := by
  rw [fetchShuffled_eq]
  cases hrows : namedRows fp db name with
  | nil =>
    refine Or.inl ⟨?_, rfl⟩
    unfold choices
    cases hfind : (db "Playlist").rows.find? (fun r => (r "name").same (numericOfText fp name)) with
    | none => rfl
    | some x =>
      dsimp only
      -- a playlist with the name and items would be shown
      by_contra hne
      have hsame := List.find?_some hfind
      refine List.filter_eq_nil_iff.mp hrows _ (mem_playlistsWith.mpr
        ⟨x, List.mem_of_find?_eq_some hfind, fun h => hne (List.map_eq_nil_iff.mpr h), rfl⟩) ?_
      rwa [Function.update_of_ne (by decide)]
  | cons v rest =>
    have hv : v ∈ namedRows fp db name := by
      rw [hrows]
      exact List.mem_cons_self ..
    obtain ⟨hview, hsame⟩ := List.mem_filter.mp hv
    obtain ⟨r, p, ns, h⟩ := load_viewRow hc (listedItems_perm db) hview
    rw [h.name] at hsame
    refine Or.inr ⟨loadedPlaylist fp r ns, ?_, h.loaded (some name) rest⟩
    unfold choices
    rw [find?_named hc h.row hsame]
    dsimp only
    rw [h.children, List.map_map]
    exact (List.map_id ns).symm

/-! ## The track that is taken -/

/-- A row looks as if it fits: its columns are read as an `int`, and compared
as that. -/
def looksFit (seconds : ℤ) (r : Row) : Bool :=
  (r "PlayableItemID").toColumnInt != 0 && decide ((r "duration").toColumnInt ≤ seconds)

theorem rejected_ofRow_iff (fp : FloatOps) (seconds : ℤ) (r : Row) :
    Playlist.Rejected seconds (PlayableItem.ofRow fp r) ↔ looksFit seconds r = false := by
  rw [← Bool.not_eq_true]
  refine not_congr ?_
  unfold looksFit
  rw [Bool.and_eq_true, bne_iff_ne, decide_eq_true_eq]
  rfl

/-- An ID of zero is read as zero. -/
theorem looksFit_zero {db : Db} (hv : playableItemDef.Valid (db "PlayableItem")) {r : Row}
    (hr : PlayableItem.row? db 0 = some r) (seconds : ℤ) : looksFit seconds r = false := by
  unfold looksFit
  rw [(PlayableItem.row?_id hv hr).2]
  rfl

/-- **The loop takes the first row that looks as if it fits**, of IDs that
all have a row; or else the empty track. As each ID has a row, what was
fetched before makes no difference to what is read. -/
theorem popLoop_looksFit (fp : FloatOps) (ch : Chance) {db : Db} (seconds : ℤ)
    (hv : playableItemDef.Valid (db "PlayableItem")) {ids : List ℤ}
    (hids : ∀ i ∈ ids, (PlayableItem.row? db i).isSome = true) {result : PlayableItem}
    (hplain : result.Plain) :
    ∃ ids', Playlist.popLoop (catalog fp ch) db seconds ids result
      = some (ids', (((ids.filterMap (PlayableItem.row? db)).find? (looksFit seconds)).map
          (PlayableItem.ofRow fp)).getD {}) := by
  -- what is fetched last does not matter, for every ID has a row of its own
  induction ids generalizing result with
  | nil => exact ⟨[], rfl⟩
  | cons id ids ih =>
    obtain ⟨r, hr⟩ := Option.isSome_iff_exists.mp (hids id (List.mem_cons_self ..))
    have hrest : ∀ i ∈ ids, (PlayableItem.row? db i).isSome = true :=
      fun i hi => hids i (List.mem_cons_of_mem _ hi)
    rw [List.filterMap_cons_some hr, List.find?_cons]
    by_cases hid : id = 0
    · subst hid
      obtain ⟨ids', hloop⟩ := ih hrest hplain
      rw [looksFit_zero hv hr, Playlist.popLoop_zero, hloop]
      exact ⟨_, rfl⟩
    · rw [Playlist.popLoop_cons fp ch db seconds hid ids hplain, hr]
      show ∃ ids', (if Playlist.Rejected seconds (PlayableItem.ofRow fp r) then _ else _) = _
      cases hfit : looksFit seconds r with
      | true =>
        rw [if_neg (fun h => by rw [(rejected_ofRow_iff fp seconds r).mp h] at hfit; cases hfit)]
        exact ⟨_, rfl⟩
      | false =>
        rw [if_pos ((rejected_ofRow_iff fp seconds r).mpr hfit)]
        obtain ⟨ids', hloop⟩ := ih hrest (PlayableItem.plain_ofRow fp r)
        show ∃ ids', (Playlist.popLoop _ _ _ _ (PlayableItem.ofRow fp r)).map _ = _
        rw [hloop]
        exact ⟨_, rfl⟩

/-! ## The command -/

/-- **`LEGAL_ID`.** The connection is a new one. `Play` returns true if it
returns, so that its loop ends after the first round. -/
def handleCommand (fp : FloatOps) (ch : ℕ → Chance) (lockBusy busy : Bool) (name : Bytes)
    (max_length : ℤ) (db : Db) : PlayableItem.PlayEnd :=
  match Playlist.lockByName fp lockBusy name ⟨db, none, 0⟩ with
  | none => .aborted
  | some c =>
    match Playlist.fetchShuffled (catalog fp (ch 0)) c.db name with
    | some (true, legalid) =>
      if legalid.size ≤ 0 then .aborted
      else
        match legalid.popWithTimelimit (catalog fp (ch 1)) c.db max_length {} with
        | some (_, item) => (item.play fp busy c).1
        | none => .aborted
    | _ => .aborted

/-- **A legal ID**: an item of the playlist with the name that takes no
longer than the limit. -/
def IsLegal (fp : FloatOps) (db : Db) (name : Bytes) (max_length : ℤ) (r : Row) : Prop :=
  ∃ x ∈ (db "Playlist").rows, (x "name").same (numericOfText fp name) = true
    ∧ ∃ p, x "PlaylistID" = .integer p ∧ ∃ i ∈ itemsOf db p, PlayableItem.row? db i = some r
      ∧ (r "duration").toInt64 ≤ max_length

/-- **The requirement is met, or fails loudly**: the process ends by a fatal
error or a failed check, or the track that is played is a legal ID. An
exception that leaves the command is neither. -/
def MetOrFatal (fp : FloatOps) (db : Db) (name : Bytes) (max_length : ℤ) :
    PlayableItem.PlayEnd → Prop
  | .aborted => True
  | .raised => False
  | .played track => ∃ r, IsLegal fp db name max_length r
    ∧ track = (PlayableItem.ofRow fp r).incrementPlaycount

/-- The first choice that looks as if it fits, in the order of the view,
which is that of the IDs. -/
def firstFit (fp : FloatOps) (name : Bytes) (max_length : ℤ) (db : Db) : Option Row :=
  ((choices fp db name).filterMap (PlayableItem.row? db)).find? (looksFit max_length)

/-- **The first choice that looks as if it fits** is what is read of a legal ID,
and its count can be raised; or its ID is taken for a missing one, which ends
the process. -/
def FirstIsLegal (fp : FloatOps) (busy : Bool) (name : Bytes) (max_length : ℤ) (db : Db) : Prop :=
  ∃ r, firstFit fp name max_length db = some r
    ∧ ((r "PlayableItemID").toColumnInt = -1
      ∨ (PlayableItem.Raisable fp busy db r
        ∧ ∃ r', IsLegal fp db name max_length r'
          ∧ PlayableItem.ofRow fp r' = PlayableItem.ofRow fp r))

/-! ### The way to the track -/

/-- A database that differs in the locks only shows the same playlists. -/
theorem fetchShuffled_frame (fp : FloatOps) (ch : Chance) {db db' : Db}
    (h : ∀ t, t ≠ "PlaylistLock" → db' t = db t) (name : Bytes) :
    Playlist.fetchShuffled (catalog fp ch) db' name
      = Playlist.fetchShuffled (catalog fp ch) db name := by
  have hids : ∀ items r, childIds db' items r = childIds db items r := by
    intro items r
    unfold childIds
    rw [h "Playlist_PlayableItemID" (by decide)]
  have hwith : ∀ items, playlistsWith fp db' items = playlistsWith fp db items := by
    intro items
    unfold playlistsWith
    rw [h "Playlist" (by decide)]
    simp only [hids]
  rw [fetchShuffled_eq, fetchShuffled_eq]
  unfold namedRows listedItems
  rw [hwith, h "PlayableItem" (by decide)]

theorem row?_frame {db db' : Db} (h : ∀ t, t ≠ "PlaylistLock" → db' t = db t) :
    PlayableItem.row? db' = PlayableItem.row? db := by
  funext i
  unfold PlayableItem.row?
  rw [h "PlayableItem" (by decide)]

theorem raisable_frame {busy : Bool} {db db' : Db} (h : ∀ t, t ≠ "PlaylistLock" → db' t = db t)
    (r : Row) : PlayableItem.Raisable fp busy db' r ↔ PlayableItem.Raisable fp busy db r := by
  have hfree : PlayableItem.NameFree fp db' r ↔ PlayableItem.NameFree fp db r := by
    unfold PlayableItem.NameFree HasItem
    rw [h "PlayableItem" (by decide)]
  exact ⟨fun hr => ⟨hr.idle, hr.known, hfree.mp hr.free⟩,
    fun hr => ⟨hr.idle, hr.known, hfree.mpr hr.free⟩⟩

/-- Every choice has a row. -/
theorem row?_of_choices (fp : FloatOps) {db : Db} (hc : Consistent db) (name : Bytes) :
    ∀ i ∈ choices fp db name, (PlayableItem.row? db i).isSome = true := by
  intro i hi
  rcases choices_cases fp hc name with hnil | ⟨x, -, -, p, -, hmem⟩
  · rw [hnil] at hi
    exact absurd hi List.not_mem_nil
  · obtain ⟨-, r, hr, hid⟩ := hc.parents p i ((hmem i).mp hi)
    rw [(PlayableItem.row?_eq_some_iff hc.playableItems).mpr ⟨hr, hid⟩]
    rfl

theorem size_le_zero_iff (p : Playlist) : p.size ≤ 0 ↔ ∀ i ∈ p.playableItemID, i = 0 := by
  unfold Playlist.size
  rw [Nat.le_zero, List.countP_eq_zero]
  simp

/-- **Without a lock or without a choice the process ends.** An ID of zero is
no choice, since a list counts its slots that are not zero. -/
theorem handleCommand_aborted (fp : FloatOps) (ch : ℕ → Chance) {lockBusy : Bool} (busy : Bool)
    {name : Bytes} (max_length : ℤ) {db : Db} (hc : Consistent db)
    (h : lockBusy = true ∨ ∀ i ∈ choices fp db name, i = 0) :
    handleCommand fp ch lockBusy busy name max_length db = .aborted := by
  obtain ⟨hlocked, -⟩ := Playlist.lockByName_spec fp lockBusy name (c := ⟨db, none, 0⟩) rfl
  unfold handleCommand
  cases hlock : Playlist.lockByName fp lockBusy name ⟨db, none, 0⟩ with
  | none => rfl
  | some c =>
    obtain ⟨hidle, -, hframe⟩ := hlocked c hlock
    have hzero : ∀ i ∈ choices fp db name, i = 0 :=
      h.resolve_left (fun hbusy => absurd (hidle.symm.trans hbusy) (by simp))
    dsimp only
    rw [fetchShuffled_frame fp (ch 0) hframe]
    rcases fetchShuffled_choices fp (ch 0) hc name with ⟨-, hfetch⟩ | ⟨legalid, hids, hfetch⟩
    · rw [hfetch]
    · rw [hfetch]
      dsimp only
      rw [if_pos ((size_le_zero_iff legalid).mpr (by rwa [hids]))]

/-- **Otherwise a track is taken and played**, the empty one where no choice
looks as if it fits.

The lock is taken in all these cases, since a playlist with choices exists.
It changes nothing that the rest of the command reads. -/
theorem handleCommand_plays (fp : FloatOps) (ch : ℕ → Chance) (busy : Bool) {name : Bytes}
    {max_length : ℤ} (hmax : FitsInt32 max_length) {db : Db} (hc : Consistent db)
    (h : ¬∀ i ∈ choices fp db name, i = 0) :
    ∃ c : Conn, c.saved = none ∧ (∀ t, t ≠ "PlaylistLock" → c.db t = db t)
      ∧ handleCommand fp ch false busy name max_length db
        = (PlayableItem.play fp busy (((firstFit fp name max_length db).map
            (PlayableItem.ofRow fp)).getD {}) c).1 := by
  obtain ⟨hlocked, htaken⟩ := Playlist.lockByName_spec fp false name (c := ⟨db, none, 0⟩) rfl
  have hnamed : Playlist.Named fp db name := by
    rcases choices_cases fp hc name with hnil | ⟨x, hx, hsame, -⟩
    · refine absurd (fun i hi => ?_) h
      rw [hnil] at hi
      exact absurd hi List.not_mem_nil
    · exact ⟨x, hx, hsame⟩
  obtain ⟨c, hlock⟩ := Option.isSome_iff_exists.mp (htaken rfl hnamed)
  obtain ⟨-, hclosed, hframe⟩ := hlocked c hlock
  refine ⟨c, hclosed, hframe, ?_⟩
  unfold handleCommand
  rw [hlock]
  dsimp only
  rw [fetchShuffled_frame fp (ch 0) hframe]
  rcases fetchShuffled_choices fp (ch 0) hc name with ⟨hnil, -⟩ | ⟨legalid, hids, hfetch⟩
  · refine absurd (fun i hi => ?_) h
    rw [hnil] at hi
    exact absurd hi List.not_mem_nil
  · rw [hfetch]
    dsimp only
    rw [if_neg (fun hsize => h (by rw [← hids]; exact (size_le_zero_iff legalid).mp hsize))]
    have hrow := row?_frame hframe
    have hv : playableItemDef.Valid (c.db "PlayableItem") := by
      rw [hframe "PlayableItem" (by decide)]
      exact hc.playableItems
    obtain ⟨ids', hloop⟩ := popLoop_looksFit fp (ch 1) max_length hv
      (by rw [hrow]; exact row?_of_choices fp hc name) PlayableItem.plain_empty
    unfold Playlist.popWithTimelimit
    rw [toInt32_of_fits hmax, hids, hloop, hrow]
    rfl

/-- Counts that agree once they were raised agreed before. -/
theorem incrementPlaycount_inj {r r₂ : Row}
    (h : (PlayableItem.ofRow fp r).incrementPlaycount
      = (PlayableItem.ofRow fp r₂).incrementPlaycount) :
    PlayableItem.ofRow fp r = PlayableItem.ofRow fp r₂ := by
  have hcount : toInt32 ((r "playcount").toColumnInt + 1)
      = toInt32 ((r₂ "playcount").toColumnInt + 1) :=
    Option.some.inj (congrArg PlayableItem.playcount h)
  have hsame : toInt32 (r "playcount").toInt64 = toInt32 (r₂ "playcount").toInt64 := by
    have hwrap : toInt32 (toInt32 (r "playcount").toInt64 + 1)
      = toInt32 (toInt32 (r₂ "playcount").toInt64 + 1) := hcount
    unfold toInt32 at hwrap ⊢
    omega
  have hitem := congrArg (fun i : PlayableItem => { i with playcount := none }) h
  have hread : ∀ x : Row, PlayableItem.ofRow fp x
      = { ({ (PlayableItem.ofRow fp x).incrementPlaycount with playcount := none }) with
          playcount := some (toInt32 (x "playcount").toInt64) } := fun _ => rfl
  rw [hread r, hread r₂, hsame]
  exact congrArg (fun i : PlayableItem => { i with
    playcount := some (toInt32 (r₂ "playcount").toInt64) }) hitem

/-- The empty track is played as it is, and is no legal ID. -/
theorem not_met_empty (fp : FloatOps) (busy : Bool) (name : Bytes) (max_length : ℤ) (db : Db)
    (c : Conn) : ¬MetOrFatal fp db name max_length (PlayableItem.play fp busy {} c).1 := by
  rintro ⟨r, -, hempty⟩
  have hid := congrArg PlayableItem.playableItemID hempty
  cases hid

/-- **When a legal ID requirement is met or fails loudly**: the lock cannot
be taken, or there is no choice, or the first choice that looks as if it fits
is a legal ID whose count can be raised.

The choices come in the order of their IDs, since that is how the view lists
them. That one looks as if it fits is not enough: its duration is read as an
`int`, and a long one may be read as a short one. -/
theorem legalId_iff (fp : FloatOps) (ch : ℕ → Chance) (lockBusy busy : Bool) (name : Bytes)
    (max_length : ℤ) (hmax : FitsInt32 max_length) (db : Db) (hc : Consistent db) :
    MetOrFatal fp db name max_length (handleCommand fp ch lockBusy busy name max_length db)
      ↔ lockBusy = true ∨ (∀ i ∈ choices fp db name, i = 0)
        ∨ FirstIsLegal fp busy name max_length db := by
  by_cases hends : lockBusy = true ∨ ∀ i ∈ choices fp db name, i = 0
  · rw [handleCommand_aborted fp ch busy max_length hc hends]
    exact iff_of_true trivial (or_assoc.mp (Or.inl hends))
  · rw [← or_assoc, or_iff_right hends]
    obtain ⟨hidle, hchoice⟩ := not_or.mp hends
    obtain rfl : lockBusy = false := Bool.eq_false_iff.mpr hidle
    obtain ⟨c, hclosed, hframe, hplays⟩ := handleCommand_plays fp ch busy hmax hc hchoice
    rw [hplays]
    unfold FirstIsLegal
    cases hfirst : firstFit fp name max_length db with
    | none =>
      refine iff_of_false (not_met_empty fp busy name max_length db c) ?_
      rintro ⟨r, hr, -⟩
      cases hr
    | some r =>
      have hv : playableItemDef.Valid (c.db "PlayableItem") := by
        rw [hframe "PlayableItem" (by decide)]
        exact hc.playableItems
      obtain ⟨hplayed, haborted, hraised⟩ := PlayableItem.play_ofRow fp busy hclosed hv r
      rw [raisable_frame hframe] at hplayed hraised
      have hone : (∃ x, some r = some x ∧ ((x "PlayableItemID").toColumnInt = -1
          ∨ (PlayableItem.Raisable fp busy db x ∧ ∃ r', IsLegal fp db name max_length r'
            ∧ PlayableItem.ofRow fp r' = PlayableItem.ofRow fp x)))
          ↔ ((r "PlayableItemID").toColumnInt = -1
          ∨ (PlayableItem.Raisable fp busy db r ∧ ∃ r', IsLegal fp db name max_length r'
            ∧ PlayableItem.ofRow fp r' = PlayableItem.ofRow fp r)) := by
        simp
      rw [hone]
      show MetOrFatal fp db name max_length ((PlayableItem.ofRow fp r).play fp busy c).1 ↔ _
      by_cases hid : (r "PlayableItemID").toColumnInt = -1
      · rw [haborted hid]
        exact iff_of_true trivial (Or.inl hid)
      · rw [or_iff_right hid]
        by_cases hr : PlayableItem.Raisable fp busy db r
        · rw [(hplayed hr).1, and_iff_right hr]
          refine exists_congr (fun r' => and_congr_right (fun _ => ?_))
          exact ⟨fun h => (incrementPlaycount_inj h).symm, fun h => by rw [h]⟩
        · rw [hraised hid hr]
          exact iff_of_false (fun h => h) (fun h => hr h.1)

/-! ## One legal ID -/

/-- A playlist of legal IDs with one track. -/
def legalDb (duration : ℤ) : Db :=
  databaseOf [.item { filename := some (ascii "id.ogg"), duration := some duration },
    .playlist { name := some (ascii "legalid"), weight := some 1, playableItemID := [1] }]

/-- A track of half a minute is played, which is within the limit. -/
theorem legalId_halfMinute :
    MetOrFatal .whole (legalDb 30) (ascii "legalid") 60
      (handleCommand .whole (fun _ => .stored) false false (ascii "legalid") 60 (legalDb 30)) := by
  have hc : Consistent (legalDb 30) := consistent_of_isConsistent (by decide +kernel)
  refine (legalId_iff .whole (fun _ => .stored) false false (ascii "legalid") 60 (by decide)
    (legalDb 30) hc).mpr (Or.inr (Or.inr ?_))
  obtain ⟨r, hr⟩ := Option.isSome_iff_exists.mp
    (show (PlayableItem.row? (legalDb 30) 1).isSome = true by decide +kernel)
  obtain ⟨hmem, hid⟩ := PlayableItem.row?_id hc.playableItems hr
  have hfits : (PlayableItem.row? (legalDb 30) 1).map (looksFit 60) = some true := by
    decide +kernel
  rw [hr] at hfits
  have hchoices : choices .whole (legalDb 30) (ascii "legalid") = [1] := by decide +kernel
  have hfirst : firstFit .whole (ascii "legalid") 60 (legalDb 30) = some r := by
    unfold firstFit
    rw [hchoices, List.filterMap_cons_some hr]
    exact List.find?_cons_of_pos (Option.some.inj hfits)
  have hone : (r "PlayableItemID").toColumnInt = 1 := by
    rw [hid]
    rfl
  refine ⟨r, hfirst, Or.inr ⟨⟨rfl, by rw [hone]; decide, fun _ y hy hne => absurd ?_ hne⟩, r, ?_,
    rfl⟩⟩
  · rw [hone]
    have hall : ∀ y ∈ (legalDb 30 "PlayableItem").rows, y "PlayableItemID" = .integer 1 := by
      decide +kernel
    exact hall y hy
  · obtain ⟨x, hx, hname, hkey⟩ :
        ∃ x ∈ (legalDb 30 "Playlist").rows,
          (x "name").same (numericOfText .whole (ascii "legalid")) = true
            ∧ x "PlaylistID" = .integer 1 := by decide +kernel
    have hlast : ∀ y ∈ (legalDb 30 "PlayableItem").rows, (y "duration").toInt64 ≤ 60 := by
      decide +kernel
    exact ⟨x, hx, hname, 1, hkey, 1, by decide +kernel, hr, hlast r hmem⟩

/-- **A track of two minutes**: none is within the limit, and an empty track
is played in silence. -/
theorem legalId_twoMinutes :
    handleCommand .whole (fun _ => .stored) false false (ascii "legalid") 60 (legalDb 120)
        = .played {}
      ∧ ¬MetOrFatal .whole (legalDb 120) (ascii "legalid") 60
        (handleCommand .whole (fun _ => .stored) false false (ascii "legalid") 60
          (legalDb 120)) := by
  have hplayed : handleCommand .whole (fun _ => .stored) false false (ascii "legalid") 60
      (legalDb 120) = .played {} := by decide +kernel
  refine ⟨hplayed, ?_⟩
  rw [hplayed]
  rintro ⟨r, -, hempty⟩
  have hid := congrArg PlayableItem.playableItemID hempty
  cases hid

end LegalID
