import RctAutomation.PlaylistFetch

/-!
# Saving the result of a request

With `alsosave` the result of `/playlist/fetch` is saved as a new playlist. Its
name is tried through a view that shows no playlist without items, and without
a filter it makes way for the name of the list that was fetched. The list is
saved by a replacement, which takes the place of a playlist of that name, or is
refused. `alsoSave_iff` says when what is saved is a fresh copy.
-/

open Sql

namespace PlaylistCommand

/-! ## The handler -/

/-- What `/playlist/fetch` writes: nothing where no list is found. A loop
that reaches an empty list has no defined result. -/
inductive FetchReply
  | nothing
  | message (output : Playlist)
  | undefined

/-- A request that was handled. -/
structure FetchHandled where
  reply : Except Stop FetchReply
  db : Db

/-- The reply to a list that was saved. -/
def savedReply (newlist : Playlist) : Outcome Message (Code × Message) → Except Stop FetchReply
  | .returned (_, m) => .ok (.message (newlist.readBack m))
  | .raised _ => .error .threw
  | .aborted => .error .aborted

/-- **The branch of `alsosave`**: the list is filtered, a new list is made
for it, the result is merged into that, and it is replaced. -/
def alsoSave (fp : FloatOps) (ch : ℕ → Chance) (busy : Bool)
    (compile : Bytes → Option (Bytes → Bool)) (params : QueryParams) (db : Db)
    (input : Playlist) : FetchHandled :=
  match filter (catalog fp (ch 0)) compile params db input with
  | none => ⟨.error .aborted, db⟩
  | some temp =>
    match getNewlist fp ch db with
    | .error s => ⟨.error s, db⟩
    | .ok newlist =>
      let newlist := newlist.mergeFrom { temp with playlistID := none }
      let r := replaceList fp busy false db newlist
      ⟨savedReply newlist r.outcome, r.conn.committed⟩

/-- **`/playlist/fetch`**: the list that the parameters name is shown, or
saved and shown. -/
def playlistFetch (fp : FloatOps) (ch : ℕ → Chance) (busy : Bool)
    (compile : Bytes → Option (Bytes → Bool)) (params : QueryParams)
    (lists : SharedList → Playlist) (db : Db) : FetchHandled :=
  match fetchPlaylistFromParams fp ch db params with
  | .error s => ⟨.error s, db⟩
  | .ok none => ⟨.ok .nothing, db⟩
  | .ok (some target) =>
    let input := match target with
      | .shared l => lists l
      | .own pl => pl
    if (params "alsosave").isSome then alsoSave fp ch busy compile params db input
    else
      ⟨(filterAndReturn (catalog fp (ch 0)) compile params db input).map fun output =>
        (output.map FetchReply.message).getD .undefined, db⟩

/-! ## What should be saved -/

/-- **A copy is saved and nothing else is touched**: one row, whose ID and
name no earlier row had, and its items. The rows of the other playlists are
the same, in the same order. -/
structure SavesCopy (db copied : Db) (ids : List ℤ) : Prop where
  row : ∃ r n, r "PlaylistID" = .integer n
    ∧ (copied "Playlist").rows = (db "Playlist").rows ++ [r]
    ∧ (∀ x ∈ (db "Playlist").rows, x "PlaylistID" ≠ .integer n
      ∧ (r "name").same (x "name") = false)
    ∧ itemsOf copied n = {i | i ∈ ids}
  others : ∀ q, HasPlaylist db q → itemsOf copied q = itemsOf db q
  frame : ∀ t, t ≠ "Playlist" → t ≠ "Playlist_PlayableItemID" → copied t = db t

/-- **The request saves a copy of its result set**, and answers with a
message. -/
def SavesResult (fp : FloatOps) (ch : ℕ → Chance) (busy : Bool)
    (compile : Bytes → Option (Bytes → Bool)) (params : QueryParams)
    (lists : SharedList → Playlist) (db : Db) (source : Playlist) : Prop :=
  ∃ output temp,
    (playlistFetch fp ch busy compile params lists db).reply = .ok (.message output)
    ∧ filter (catalog fp (ch 0)) compile params db source = some temp
    ∧ SavesCopy db (playlistFetch fp ch busy compile params lists db).db temp.playableItemID

/-- The number of the new list: the first one whose name no playlist with
items has. A playlist without items may have the name. -/
def NewNumber (fp : FloatOps) (db : Db) (n : ℕ) : Prop :=
  IsLeast {k | 1 ≤ k ∧ ¬ShowsName fp db (newName k)} n

/-- The name a result keeps: the one of its source, if there is no filter. It
is merged over the name of the new list. -/
def keptName (params : QueryParams) (source : Playlist) : Option Bytes :=
  if (params "filter").isSome then none else source.name

/-- **The name a result is saved under**: the one it keeps, or else the new
one. -/
def SavedAs (fp : FloatOps) (db : Db) (params : QueryParams) (source : Playlist) (name : Bytes) :
    Prop :=
  keptName params source = some name
    ∨ (keptName params source = none ∧ ∃ n, NewNumber fp db n ∧ name = newName n)

/-- **A list can be saved as a fresh copy**: nobody else keeps the connection
from committing, its name is no playlist's, a key is left for it, which is an
`int` unless the list is empty, and its items exist. -/
structure CanCopy (fp : FloatOps) (busy : Bool) (db : Db) (name : Bytes) (ids : List ℤ) :
    Prop where
  idle : busy = false
  fresh : ∀ x ∈ (db "Playlist").rows, (numericOfText fp name).same (x "name") = false
  key : newKey db ≤ TableDef.maxKey
  reaches : ids ≠ [] → FitsInt32 (newKey db)
  exist : ∀ i ∈ ids, HasItem db i

variable {fp : FloatOps} {ch : ℕ → Chance} {busy : Bool}
  {compile : Bytes → Option (Bytes → Bool)} {params : QueryParams} {db : Db}

/-! ## The name -/

/-- **What a lookup by name finds**: a playlist that a view shows, or
nothing, and then the name that was looked for is left in the list. -/
theorem fetchByName_shows (fp : FloatOps) (ch : Chance) (hc : Consistent db) (name : Bytes) :
    (¬ShowsName fp db name
      ∧ Playlist.fetchByName (catalog fp ch) db name = some (false, { name := some name }))
    ∨ (ShowsName fp db name
      ∧ ∃ pl, Playlist.fetchByName (catalog fp ch) db name = some (true, pl)) := by
  obtain ⟨items, hitems⟩ : ∃ items, items = listedItems db := ⟨_, rfl⟩
  have hperm : items.Perm (db "PlayableItem").rows := by
    rw [hitems]
    exact listedItems_perm db
  have hload : Playlist.fetchByName (catalog fp ch) db name
      = loadRows fp { name := some name } ((playlistsWith fp db items).filter
          (fun r => (r "name").same (numericOfText fp name))) := by
    rw [hitems]
    rfl
  have hshows := namedView_ne_nil_iff fp hc hperm name
  rw [hload]
  cases hrows : (playlistsWith fp db items).filter
      (fun r => (r "name").same (numericOfText fp name)) with
  | nil => exact Or.inl ⟨fun h => hshows.mpr h hrows, rfl⟩
  | cons row rest =>
    refine Or.inr ⟨hshows.mp (by rw [hrows]; exact List.cons_ne_nil _ _), _, rfl⟩

/-- **The loop stops at the first name that is not shown.** The induction is
on the fuel; the names before were all found. It is not the first name that
is free, since a playlist without items has a name and is not shown. -/
theorem newlistLoop_least (fp : FloatOps) (ch : ℕ → Chance) (hc : Consistent db) {fuel newnum n : ℕ}
    (h : newlistLoop fp ch db fuel newnum = .ok { name := some (newName n) }) :
    IsLeast {k | newnum ≤ k ∧ ¬ShowsName fp db (newName k)} n := by
  induction fuel generalizing newnum with
  | zero => cases h
  | succ fuel ih =>
    rcases fetchByName_shows fp (ch newnum) hc (newName newnum) with
      ⟨hnot, hfetch⟩ | ⟨hshown, pl, hfetch⟩
    · have hstop : newlistLoop fp ch db (fuel + 1) newnum
          = .ok { name := some (newName newnum) } := by
        unfold newlistLoop
        rw [hfetch]
        rfl
      have hname := congrArg Playlist.name (Except.ok.inj (hstop.symm.trans h))
      obtain rfl : newnum = n := newName_injective (Option.some.inj hname)
      exact ⟨⟨le_refl _, hnot⟩, fun k hk => hk.1⟩
    · have hgo : newlistLoop fp ch db (fuel + 1) newnum
          = newlistLoop fp ch db fuel (newnum + 1) := by
        conv_lhs => unfold newlistLoop
        rw [hfetch]
        rfl
      obtain ⟨⟨hle, hnot⟩, hleast⟩ := ih (hgo.symm.trans h)
      refine ⟨⟨by omega, hnot⟩, fun k hk => ?_⟩
      -- the name tried first is shown, so that the least one comes after it
      have hne : newnum ≠ k := by
        rintro rfl
        exact hk.2 hshown
      exact hleast ⟨by have := hk.1; omega, hk.2⟩

/-- **The new list has the first name that is not shown.** -/
theorem getNewlist_least (fp : FloatOps) (ch : ℕ → Chance) (hc : Consistent db) :
    ∃ n, getNewlist fp ch db = .ok { name := some (newName n) } ∧ NewNumber fp db n := by
  obtain ⟨n, hn⟩ := getNewlist_ok fp ch db
  exact ⟨n, hn, newlistLoop_least fp ch hc hn⟩

/-! ## The store -/

/-- What a replacement that found nothing in its way leaves of the locks: they
refer to playlists that are all still there. -/
theorem orphans_true_le {db₁ : Db} (hlock : db₁ "PlaylistLock" = db "PlaylistLock")
    (hsub : ∀ x ∈ (db "Playlist").rows, x ∈ (db₁ "Playlist").rows) :
    (catalog fp .stored).orphans true db₁ ≤ (catalog fp .stored).orphans true db := by
  refine Catalog.orphans_le (fun fk hfk hdef => ?_) (fun fk hfk hdef => ?_) <;>
    simp only [catalog, schemaForeignKeys, List.mem_cons, List.not_mem_nil, or_false] at hfk <;>
    rcases hfk with rfl | rfl | rfl <;> try cases hdef
  · rw [hlock]
  · exact hsub

/-- A new key is no row's. -/
theorem newKey_ne {x : Row} (hx : x ∈ (db "Playlist").rows) :
    x "PlaylistID" ≠ .integer (newKey db) := by
  intro h
  exact absurd (lt_newKey hx h) (lt_irrefl _)

/-- A new key has no items. -/
theorem itemsOf_newKey (hc : Consistent db) : itemsOf db (newKey db) = ∅ := by
  refine Set.eq_empty_of_forall_notMem (fun i hi => ?_)
  obtain ⟨⟨x, hx, hxid⟩, -⟩ := hc.parents _ i hi
  exact newKey_ne hx hxid

/-- A row with a new key can only be in the way of one that has its name. -/
theorem conflicts_newKey (hc : Consistent db) {r : Row} (hr : r "PlaylistID" = .integer (newKey db))
    {x : Row} (hx : x ∈ (db "Playlist").rows) :
    playlistDef.conflicts r x = (r "name").same (x "name") := by
  obtain ⟨q, hq⟩ := hc.playlists.keys "PlaylistID" rfl x hx
  have hkey : (r "PlaylistID").same (x "PlaylistID") = false := by
    rw [hr, hq]
    exact beq_false_of_ne (fun hqn => newKey_ne hx (by rw [hq, hqn]))
  rw [playlistDef_conflicts, hkey, Bool.false_or]

/-- The playlists with the row of a new list: the row joins them when no playlist
has its name. -/
theorem replaces_rows_iff (hc : Consistent db) {db₁ : Db} {r : Row}
    (h : Replaces db db₁ r (newKey db)) :
    (db₁ "Playlist").rows = (db "Playlist").rows ++ [r]
      ↔ ∀ x ∈ (db "Playlist").rows, (r "name").same (x "name") = false := by
  rw [h.rows, List.append_cancel_right_eq, List.filter_eq_self]
  refine forall₂_congr (fun x hx => ?_)
  rw [conflicts_newKey hc h.key hx, Bool.not_eq_true']

/-- **What was stored is a copy** when the row took no other's place and the
items were stored for it. The key goes through an `int` on its way to the
items, so with a key that does not fit they are stored for another playlist,
unless there are none. -/
theorem savesCopy_of_stored (hc : Consistent db) {db₁ db₂ : Db} {r : Row} {ids : List ℤ}
    (hrep : Replaces db db₁ r (newKey db))
    (hjoin : JoinsItems db₁ db₂ (toInt32 (newKey db)) ids) :
    SavesCopy db db₂ ids
      ↔ (∀ x ∈ (db "Playlist").rows, (r "name").same (x "name") = false)
        ∧ (ids ≠ [] → FitsInt32 (newKey db)) := by
  have hrows : (db₂ "Playlist").rows = (db₁ "Playlist").rows := by
    rw [hjoin.frame "Playlist" (by decide)]
  have hitems : ∀ q k, k ∈ itemsOf db₂ q
      ↔ k ∈ itemsOf db q ∨ (q = toInt32 (newKey db) ∧ k ∈ ids) := by
    intro q k
    rw [hjoin.items, hrep.itemsOf_eq]
  constructor
  · rintro ⟨⟨r', n, hn, happend, -, hset⟩, -, -⟩
    rw [hrows] at happend
    have hlast : r' = r := by
      have hboth := happend.symm.trans hrep.rows
      have hone := congrArg List.getLast? hboth
      rw [List.getLast?_concat, List.getLast?_concat] at hone
      exact Option.some.inj hone
    subst hlast
    obtain rfl : n = newKey db := Value.integer.inj (hn.symm.trans hrep.key)
    refine ⟨(replaces_rows_iff hc hrep).mp happend, fun hne => ?_⟩
    obtain ⟨i, hi⟩ := List.exists_mem_of_ne_nil ids hne
    have hstored : i ∈ itemsOf db₂ (newKey db) := by
      rw [hset]
      exact hi
    rcases (hitems _ i).mp hstored with hold | ⟨hkey, -⟩
    · rw [itemsOf_newKey hc] at hold
      exact absurd hold (Set.notMem_empty i)
    · exact toInt32_eq_self_iff.mp hkey.symm
  · rintro ⟨hfresh, hreaches⟩
    -- without items the truncated key is nobody's
    have hown : ∀ k, k ∈ ids → toInt32 (newKey db) = newKey db := fun k hk =>
      toInt32_of_fits (hreaches (List.ne_nil_of_mem hk))
    refine ⟨⟨r, newKey db, hrep.key, hrows.trans ((replaces_rows_iff hc hrep).mpr hfresh),
      fun x hx => ⟨newKey_ne hx, hfresh x hx⟩, ?_⟩, ?_, fun t ht ht' => ?_⟩
    · ext k
      rw [hitems, itemsOf_newKey hc]
      show k ∈ (∅ : Set ℤ) ∨ _ ↔ k ∈ ids
      constructor
      · rintro (hold | ⟨-, hk⟩)
        · exact absurd hold (Set.notMem_empty k)
        · exact hk
      · exact fun hk => Or.inr ⟨(hown k hk).symm, hk⟩
    · rintro q ⟨x, hx, hq⟩
      ext k
      rw [hitems]
      refine or_iff_left ?_
      rintro ⟨hkey, hk⟩
      rw [hown k hk] at hkey
      exact absurd (lt_newKey hx hq) (by rw [hkey]; exact lt_irrefl _)
    · rw [hjoin.frame t ht', hrep.frame t ht]

/-- A copy can be committed: it takes no parent from a lock. -/
theorem SavesCopy.commits {db₂ : Db} {ids : List ℤ} (h : SavesCopy db db₂ ids)
    (hidle : busy = false) :
    ¬(busy = true
      ∨ (catalog fp .stored).orphans true db < (catalog fp .stored).orphans true db₂) := by
  obtain ⟨⟨r, n, -, hrows, -, -⟩, -, hframe⟩ := h
  rintro (hbusy | hlt)
  · exact absurd (hidle.symm.trans hbusy) Bool.false_ne_true
  · refine absurd hlt (not_lt.mpr (orphans_true_le (hframe _ (by decide) (by decide))
      (fun x hx => ?_)))
    rw [hrows]
    exact List.mem_append_left _ hx

/-- **When a new list is saved as a copy**: exactly if it can be. Any other
list is refused, ends the process, or takes the place of a playlist.

The cases are those in which a replacement can end; that of a list that is
stored is `savesCopy_of_stored`, and all others have no result. -/
theorem savesCopy_iff (fp : FloatOps) (busy : Bool) (hc : Consistent db) {pl : Playlist}
    (hnew : pl.playlistID = none) {name : Bytes} (hname : pl.name = some name)
    (hitems : pl.items = []) (hlen : pl.length = none) :
    ((∃ res, (replaceList fp busy false db pl).outcome = .returned res)
      ∧ SavesCopy db (replaceList fp busy false db pl).conn.committed pl.playableItemID)
      ↔ CanCopy fp busy db name pl.playableItemID := by
  have hends : Save.Describes "Playlist" pl.toMessage db (replaceList fp busy false db pl)
      (save (catalog fp .stored) busy .replace pl.toMessage ⟨db, none, 0⟩) :=
    run_insertOrReplace (catalog fp .stored) busy .replace pl.toMessage rfl
  have hnot : ∀ o, (replaceList fp busy false db pl).outcome = o → (∀ res, o ≠ .returned res) →
      ¬((∃ res, (replaceList fp busy false db pl).outcome = .returned res)
        ∧ SavesCopy db (replaceList fp busy false db pl).conn.committed pl.playableItemID) := by
    rintro o ho hne ⟨⟨res, hres⟩, -⟩
    exact hne res (ho.symm.trans hres)
  rcases keyed_rowOf fp db pl with ⟨r, n, hk, hn, hkey, hmax, hrname⟩ | ⟨-, hmax, hk⟩
  · rw [hnew] at hkey
    obtain rfl : n = newKey db := hkey
    rw [hname] at hrname
    obtain ⟨ps, hps⟩ := Option.isSome_iff_exists.mp
      ((rootStatement_isSome fp .stored hitems hlen).mpr (Or.inr (Or.inl (by rw [hname]; rfl))))
    rcases hc.save_replace (c := ⟨db, none, 0⟩) busy hps hk hitems with
      ⟨hheld, hend⟩ | ⟨db₁, n', hfree, hrep, hend⟩
    · rw [hend] at hends
      refine iff_of_false (hnot _ hends.1 (fun _ h => by cases h)) (fun h => ?_)
      obtain ⟨x, hx, hconf, -⟩ := hheld
      rw [conflicts_newKey hc hn hx, hrname, Option.map_some, Option.getD_some, h.fresh x hx]
        at hconf
      cases hconf
    · obtain rfl : n' = newKey db := Value.integer.inj (hrep.key.symm.trans hn)
      rw [idAfter_key (k := newKey db) (by rw [hnew]; rfl)] at hend
      have hcopied : ∀ db₂, JoinsItems db₁ db₂ (toInt32 (newKey db)) pl.playableItemID →
          (SavesCopy db db₂ pl.playableItemID
            ↔ (∀ x ∈ (db "Playlist").rows, (numericOfText fp name).same (x "name") = false)
              ∧ (pl.playableItemID ≠ [] → FitsInt32 (newKey db))) := by
        intro db₂ hjoin
        rw [savesCopy_of_stored hc hrep hjoin, hrname]
        rfl
      rcases hend with ⟨hpar, hend⟩ | ⟨db₂, hpar, hjoin, hend⟩
      · rw [hend] at hends
        refine iff_of_false (hnot _ hends.1 (fun _ h => by cases h)) (fun h => hpar ⟨fun hne => ?_,
          fun i hi => (hrep.hasItem_iff i).mpr (h.exist i hi)⟩)
        rw [toInt32_of_fits (h.reaches hne)]
        exact hrep.hasPlaylist
      · rw [hend] at hends
        by_cases hrefused : busy = true ∨ (catalog fp .stored).orphans true db
            < (catalog fp .stored).orphans true db₂
        · rw [if_pos hrefused] at hends
          exact iff_of_false (hnot _ hends.1 (fun _ h => by cases h)) (fun h =>
            ((hcopied db₂ hjoin).mpr ⟨h.fresh, h.reaches⟩).commits h.idle hrefused)
        · rw [if_neg hrefused] at hends
          obtain ⟨hout, hdb, hclosed, -⟩ := hends
          have hcommitted : (replaceList fp busy false db pl).conn.committed = db₂ :=
            (Conn.committed_of_closed hclosed).trans hdb
          rw [hcommitted, and_iff_right ⟨_, hout⟩, hcopied db₂ hjoin]
          constructor
          · exact fun h => ⟨Bool.eq_false_iff.mpr (fun hb => hrefused (Or.inl hb)), h.1,
              hmax hnew, h.2, fun i hi => (hrep.hasItem_iff i).mp (hpar.2 i hi)⟩
          · exact fun h => ⟨h.fresh, h.reaches⟩
  · rw [save_of_full busy hlen hk 0] at hends
    exact iff_of_false (hnot _ hends.1 (fun _ h => by cases h))
      (fun h => absurd h.key (not_le.mpr hmax))

/-! ## The request -/

/-- The new list with the result merged into it. -/
theorem merged_newlist (n : ℕ) (temp : Playlist) :
    ({ name := some (newName n) } : Playlist).mergeFrom { temp with playlistID := none }
      = { name := temp.name <|> some (newName n)
          weight := temp.weight <|> none
          playableItemID := temp.playableItemID
          items := temp.items
          length := temp.length <|> none } := rfl

theorem savedAs_iff {source : Playlist} {n : ℕ} (hn : NewNumber fp db n) (name : Bytes) :
    SavedAs fp db params source name ↔ name = (keptName params source).getD (newName n) := by
  unfold SavedAs
  cases keptName params source with
  | some b =>
    refine ⟨fun h => ?_, fun h => Or.inl (by rw [h]; rfl)⟩
    rcases h with h | ⟨h, -⟩
    · exact (Option.some.inj h).symm
    · cases h
  | none =>
    refine ⟨fun h => ?_, fun h => Or.inr ⟨rfl, n, hn, h⟩⟩
    rcases h with h | ⟨-, m, hm, rfl⟩
    · cases h
    · rw [hm.unique hn]
      rfl

theorem savedReply_eq_message_iff {newlist : Playlist} {o : Outcome Message (Code × Message)} :
    (∃ output, savedReply newlist o = .ok (.message output)) ↔ ∃ res, o = .returned res := by
  cases o with
  | returned res => exact iff_of_true ⟨_, rfl⟩ ⟨_, rfl⟩
  | raised _ =>
    refine iff_of_false ?_ ?_ <;> rintro ⟨_, h⟩ <;> cases h
  | aborted =>
    refine iff_of_false ?_ ?_ <;> rintro ⟨_, h⟩ <;> cases h

/-- The list that is saved: a new one, with the IDs of the result. Its items
and its length are not set, so there is nothing else to be stored. -/
structure PreparedList (params : QueryParams) (source : Playlist) (n : ℕ) (ids : List ℤ)
    (newlist : Playlist) : Prop where
  playlistID : newlist.playlistID = none
  name : newlist.name = some ((keptName params source).getD (newName n))
  playableItemID : newlist.playableItemID = ids
  items : newlist.items = []
  length : newlist.length = none

/-- **What the request saves**: the result, merged into a new list. From here
on the request is a replacement of that list, and what was shown of
replacements applies. -/
theorem playlistFetch_alsoSave (fp : FloatOps) (ch : ℕ → Chance) (busy : Bool)
    (compile : Bytes → Option (Bytes → Bool)) (halso : (params "alsosave").isSome = true)
    (lists : SharedList → Playlist) (hc : Consistent db) {source : Playlist}
    (hsource : fetchPlaylistFromParams fp ch db params = .ok (some (.own source))) :
    ∃ n temp newlist, NewNumber fp db n
      ∧ filter (catalog fp (ch 0)) compile params db source = some temp
      ∧ temp.playableItemID = shownIds fp compile params db source
      ∧ PreparedList params source n (shownIds fp compile params db source) newlist
      ∧ playlistFetch fp ch busy compile params lists db
        = ⟨savedReply newlist (replaceList fp busy false db newlist).outcome,
          (replaceList fp busy false db newlist).conn.committed⟩ := by
  have hloaded : Loaded db source := by
    rcases fetchPlaylistFromParams_finds fp ch hc params with h | ⟨t, h, ht⟩
    · cases hsource.symm.trans h
    · exact ht source (Except.ok.inj (h.symm.trans hsource))
  have hshows : ¬ShowsItems params := by
    rintro ⟨-, -, hnone⟩
    rw [hnone] at halso
    cases halso
  obtain ⟨temp, htemp, -, hids, hfields⟩ := filter_shows fp (ch 0) compile params db source
  obtain ⟨hitems, hids⟩ := hids hshows
  obtain ⟨n, hnewlist, hn⟩ := getNewlist_least fp ch hc
  have hname : temp.name = keptName params source := by
    refine (congrArg Prod.fst hfields).trans ?_
    unfold keptName
    split <;> rfl
  have hlen : temp.length = none := by
    refine (congrArg (fun x => x.2.2) hfields).trans ?_
    split
    · rfl
    · exact hloaded.length
  refine ⟨n, temp, ({ name := some (newName n) } : Playlist).mergeFrom
    { temp with playlistID := none }, hn, htemp, hids, ⟨rfl, ?_, hids, hitems, ?_⟩, ?_⟩
  · -- the name of the source, if it is kept, comes over the new one
    rw [merged_newlist, hname]
    cases keptName params source <;> rfl
  · rw [merged_newlist, hlen]
    rfl
  · unfold playlistFetch
    rw [hsource]
    dsimp only
    rw [if_pos halso]
    unfold alsoSave
    rw [htemp, hnewlist]

/-- **When `alsosave` saves a fresh copy and touches nothing else**: the name
that the result is saved under is no playlist's, and the rest of `CanCopy` is
met.

Without a filter the name is that of the source. If the list was fetched by
its ID, that name is a playlist's, so of such a list a copy is only saved
with a filter. -/
theorem alsoSave_iff (fp : FloatOps) (ch : ℕ → Chance) (busy : Bool)
    (compile : Bytes → Option (Bytes → Bool)) (params : QueryParams)
    (halso : (params "alsosave").isSome = true) (lists : SharedList → Playlist) (db : Db)
    (hc : Consistent db) (source : Playlist)
    (hsource : fetchPlaylistFromParams fp ch db params = .ok (some (.own source))) :
    SavesResult fp ch busy compile params lists db source
      ↔ ∃ name, SavedAs fp db params source name
        ∧ CanCopy fp busy db name (shownIds fp compile params db source) := by
  obtain ⟨n, temp, newlist, hn, htemp, hids, hlist, hfetch⟩ :=
    playlistFetch_alsoSave fp ch busy compile halso lists hc hsource
  have hsaves : SavesResult fp ch busy compile params lists db source
      ↔ (∃ res, (replaceList fp busy false db newlist).outcome = .returned res)
        ∧ SavesCopy db (replaceList fp busy false db newlist).conn.committed
          newlist.playableItemID := by
    unfold SavesResult
    rw [hfetch, ← savedReply_eq_message_iff, hlist.playableItemID, ← hids]
    constructor
    · rintro ⟨output, temp', hreply, htemp', hcopy⟩
      obtain rfl := Option.some.inj (htemp.symm.trans htemp')
      exact ⟨⟨output, hreply⟩, hcopy⟩
    · rintro ⟨⟨output, hreply⟩, hcopy⟩
      exact ⟨output, temp, hreply, htemp, hcopy⟩
  rw [hsaves, savesCopy_iff fp busy hc hlist.playlistID hlist.name hlist.items hlist.length,
    hlist.playableItemID]
  constructor
  · exact fun h => ⟨_, (savedAs_iff hn _).mpr rfl, h⟩
  · rintro ⟨name, hsaved, h⟩
    rwa [(savedAs_iff hn name).mp hsaved] at h

/-! ## Copies of a playlist -/

/-- The parameters of a request that saves the result for the playlist with ID
1. -/
def copyParams : QueryParams :=
  Function.update (Function.update noParams "id" (some (ascii "1"))) "alsosave" (some [])

/-- The same with a filter. -/
def filterCopyParams : QueryParams := Function.update copyParams "filter" (some (ascii "a"))

/-- The playlist of the evening, as it is fetched. -/
def eveningList : Playlist where
  playlistID := some 1
  name := some (ascii "evening")
  weight := some 1
  playableItemID := [1, 2]

/-- The songs of a playlist that match are saved as a new one, and the
playlist stays as it is. -/
theorem alsoSave_evening :
    SavesResult .whole (fun _ => .stored) false compileLetter filterCopyParams emptyLists eveningDb
      eveningList := by
  refine (alsoSave_iff .whole (fun _ => .stored) false compileLetter filterCopyParams rfl emptyLists
    eveningDb consistent_eveningDb eveningList rfl).mpr ⟨newName 1, Or.inr ⟨rfl, 1, ?_, rfl⟩, ?_⟩
  · have hnames : ∀ x ∈ (eveningDb "Playlist").rows,
        ¬(x "name").same (numericOfText .whole (newName 1)) = true := by decide +kernel
    refine ⟨⟨le_refl _, ?_⟩, fun k hk => hk.1⟩
    rintro ⟨x, hx, hsame, -⟩
    exact hnames x hx hsame
  · exact ⟨rfl, by decide +kernel, by decide +kernel, fun _ => by decide +kernel,
      by decide +kernel⟩

/-- A database with a playlist that has no items, named like a new one. -/
def emptyListDb : Db :=
  databaseOf [.item { filename := some (ascii "a.ogg") },
    .playlist { name := some (ascii "evening"), weight := some 1, playableItemID := [1] },
    .playlist { name := some (newName 1), weight := some 1 }]

/-- **Copies that are not saved as they should be**: without a filter the
copy has the name of its source and is refused, and with one it takes the
place of a playlist without items. -/
theorem alsoSave_not_fresh :
    (playlistFetch .whole (fun _ => .stored) false compileLetter copyParams emptyLists
        eveningDb).reply = .error .threw
      ∧ ¬SavesResult .whole (fun _ => .stored) false compileLetter copyParams emptyLists eveningDb
        eveningList
      ∧ HasPlaylist emptyListDb 2
      ∧ ¬HasPlaylist (playlistFetch .whole (fun _ => .stored) false compileLetter filterCopyParams
        emptyLists emptyListDb).db 2
      ∧ ¬SavesResult .whole (fun _ => .stored) false compileLetter filterCopyParams emptyLists
        emptyListDb { eveningList with playableItemID := [1] } := by
  have hthrew : (playlistFetch .whole (fun _ => .stored) false compileLetter copyParams emptyLists
      eveningDb).reply = .error .threw := rfl
  have hbefore : HasPlaylist emptyListDb 2 := by decide +kernel
  have hafter : ¬HasPlaylist (playlistFetch .whole (fun _ => .stored) false compileLetter
      filterCopyParams emptyLists emptyListDb).db 2 := by decide +kernel
  refine ⟨hthrew, ?_, hbefore, hafter, ?_⟩
  · rintro ⟨output, temp, hreply, -⟩
    rw [hthrew] at hreply
    cases hreply
  · rintro ⟨output, temp, -, -, hcopy⟩
    obtain ⟨r, n, -, hrows, -, -⟩ := hcopy.row
    obtain ⟨x, hx, hxid⟩ := hbefore
    refine hafter ⟨x, ?_, hxid⟩
    rw [hrows]
    exact List.mem_append_left _ hx

end PlaylistCommand
