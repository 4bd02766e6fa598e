import RctAutomation.Replacement

/-!
# The request `/playlist/update`

A request to update a playlist names the list by its parameters, or else by
the ID it carries. The handler fetches the list, merges the request into it
and replaces the stored one. The lists of the automation itself – mainshow,
override and bumpers – can be named too, and are merged but never saved.

`playlistUpdate` is that handler. It opens a connection of its own, and ends
with a reply, with an exception, or with the process (`Stop`).
`playlistUpdate_answers_iff` says which requests abort the process.
-/

open Sql

/-! ## Parameters -/

/-- The first value of each query parameter, or none where it is not given. -/
abbrev QueryParams := String → Option Bytes

/-- Why a request has no reply: an exception, which the server answers by
an error; a failed `CHECK`, which ends the process; or a loop that does
not end. -/
inductive Stop
  | threw | aborted | looping
  deriving DecidableEq

/-- `boost::lexical_cast<int64_t>` of a C string: digits with at most a sign,
and nothing else. What comes after a zero byte is not part of the string. -/
def lexicalCast (b : Bytes) : Option ℤ :=
  let (neg, ds) := splitSign (b.takeWhile (fun c => c != 0))
  if ds = [] ∨ ds.all isDigit = false then none
  else if fitsInt64 (readInt neg ds) then some (readInt neg ds) else none

/-- `ArgumentOrDefault<int64_t>`: the default where the argument is not
given, and an exception where it is not a number. -/
def argumentOrDefault (params : QueryParams) (arg : String) (default_retval : ℤ) :
    Except Stop ℤ :=
  match params arg with
  | none => .ok default_retval
  | some b => ((lexicalCast b).map Except.ok).getD (.error .threw)

/-- `LoadMessage`, once the body is parsed: a format it does not know throws.
Without a format the body is read as a serialized message. -/
def loadMessage {α : Type} (params : QueryParams) (input : α) : Except Stop α :=
  match params "format" with
  | none => .ok input
  | some f => if f = ascii "json" ∨ f = ascii "pb" then .ok input else .error .threw

/-! ## The list of a request -/

/-- The lists of the automation itself, which are never saved: `NeverSave` is
called for them. -/
inductive SharedList
  | mainshow | override | bumperlist
  deriving DecidableEq

/-- A list that a request works on: one of the automation, or one of its own
that was fetched for it. -/
inductive Target
  | shared (l : SharedList)
  | own (pl : Playlist)

/-- A fetch that aborts the process or goes on. -/
def fetched (o : Option (Bool × Playlist)) : Except Stop (Bool × Playlist) :=
  (o.map Except.ok).getD (.error .aborted)

/-- `New Playlist %d`. -/
def newName (newnum : ℕ) : Bytes := ascii "New Playlist " ++ digitsOf newnum

/-- The loop of `GetNewlist`: names are tried until one is not found. Each
lookup is a query of its own, and the lookup that finds nothing leaves the
name it looked for in the list. -/
def newlistLoop (fp : FloatOps) (ch : ℕ → Chance) (db : Db) : ℕ → ℕ → Except Stop Playlist
  | 0, _ => .error .looping
  | fuel + 1, newnum => do
    let (found, newlist) ← fetched (Playlist.fetchByName (catalog fp (ch newnum)) db
      (newName newnum))
    if found then newlistLoop fp ch db fuel (newnum + 1) else pure newlist

/-- `GetNewlist`. One name more than there are playlists is enough
(`getNewlist_ok`), so the fuel makes no difference. -/
def getNewlist (fp : FloatOps) (ch : ℕ → Chance) (db : Db) : Except Stop Playlist :=
  newlistLoop fp ch db ((db "Playlist").rows.length + 1) 1

/-- `LLONG_MAX`. -/
def llongMax : ℤ := 9223372036854775807

/-- **`FetchPlaylistFromParams`**: the list the parameters name, if any. The
first parameter that is there decides, in the order of the source, and an ID
that is not found is no list. -/
def fetchPlaylistFromParams (fp : FloatOps) (ch : ℕ → Chance) (db : Db) (params : QueryParams) :
    Except Stop (Option Target) :=
  if (params "fetchall").isSome then do
    let limit ← argumentOrDefault params "limit" llongMax
    let offset ← argumentOrDefault params "offset" 0
    let (_, lookup) ← fetched (Playlist.fetchSuperlist fp (ch 0) db limit offset)
    pure (some (.own lookup))
  else if (params "mainshow").isSome then .ok (some (.shared .mainshow))
  else if (params "override").isSome then .ok (some (.shared .override))
  else if (params "bumperlist").isSome then .ok (some (.shared .bumperlist))
  else if (params "new").isSome then do
    let newlist ← getNewlist fp ch db
    pure (some (.own newlist))
  else
    match params "id" with
    | none => .ok none
    | some b => do
      let (found, copy) ← fetched (Playlist.fetchById (catalog fp (ch 0)) db (atoll b))
      pure (if found then some (.own copy) else none)

/-- The list an update works on: the one the parameters name, or else the one
whose ID the request carries – found or not, since the result of that fetch
is not looked at. -/
def updateTarget (fp : FloatOps) (ch : ℕ → Chance) (db : Db) (params : QueryParams)
    (request : PlaylistMergeRequest) : Except Stop (Option Target) := do
  match ← fetchPlaylistFromParams fp ch db params with
  | some t => pure (some t)
  | none =>
    match request.playlistID with
    | none => pure none
    | some id => do
      let (_, ptr) ← fetched (Playlist.fetchById (catalog fp (ch 1)) db id)
      pure (some (.own ptr))

/-! ## The handler -/

/-- What the handler writes: the list as it is afterwards, or that the
request was invalid. -/
inductive Reply
  | playlist (output : Playlist)
  | invalid
  deriving DecidableEq

/-- A request that was handled: its reply, the database and the lists of the
automation after it. -/
structure Handled where
  reply : Except Stop Reply
  db : Db
  lists : SharedList → Playlist

/-- What other connections see of a database: nothing of an open transaction. -/
def Sql.Conn.committed (c : Conn) : Db := c.saved.getD c.db

theorem Sql.Conn.committed_of_closed {c : Conn} (h : c.saved = none) : c.committed = c.db := by
  unfold committed
  rw [h]
  rfl

/-- The reply to a store that ended. -/
def replyOf (merged : Playlist) : Outcome Message (Code × Message) → Except Stop Reply
  | .returned (_, m) => .ok (.playlist (merged.readBack m))
  | .raised _ => .error .threw
  | .aborted => .error .aborted

/-- `Replace` of a list on a new connection, which no transaction is open on. -/
def replaceList (fp : FloatOps) (busy never_save : Bool) (db : Db) (merged : Playlist) :
    Run Message (Code × Message) :=
  (insertOrReplace never_save merged.toMessage .replace).run (catalog fp .stored) busy
    ⟨db, none, 0⟩

/-- The request is merged without its ID, so the list keeps the ID it was
fetched with, or has none. -/
def mergedList (pl : Playlist) (params : QueryParams) (request : PlaylistMergeRequest) : Playlist :=
  pl.applyMergeRequest { request with playlistID := none } (params "overwrite").isSome

/-- **`/playlist/update`**, from the body that was parsed to the reply, with
the database and the lists of the automation after it. A list of the
automation is changed in memory only. -/
def playlistUpdate (fp : FloatOps) (ch : ℕ → Chance) (busy : Bool) (params : QueryParams)
    (request : PlaylistMergeRequest) (lists : SharedList → Playlist) (db : Db) : Handled :=
  match loadMessage params request with
  | .error s => ⟨.error s, db, lists⟩
  | .ok update_request =>
    match updateTarget fp ch db params update_request with
    | .error s => ⟨.error s, db, lists⟩
    | .ok none => ⟨.ok .invalid, db, lists⟩
    | .ok (some (.shared l)) =>
      let merged := mergedList (lists l) params update_request
      let r := replaceList fp busy true db merged
      ⟨replyOf merged r.outcome, r.conn.committed, Function.update lists l merged⟩
    | .ok (some (.own pl)) =>
      let merged := mergedList pl params update_request
      let r := replaceList fp busy false db merged
      ⟨replyOf merged r.outcome, r.conn.committed, lists⟩

/-- The handler returned a response or threw an exception. The process goes
on in both cases. -/
def Handled.Answers (h : Handled) : Prop :=
  (∃ reply, h.reply = .ok reply) ∨ h.reply = .error .threw

/-! ## What the fetches find -/

variable {fp : FloatOps} {db : Db}

/-- **A list as a request fetches it**: it carries no items of its own but
their IDs, which exist, and its ID is an `int`. A list that was not found has
no ID and no items. -/
structure Loaded (db : Db) (pl : Playlist) : Prop where
  items : pl.items = []
  length : pl.length = none
  fits : ∀ p, pl.playlistID = some p → FitsInt32 p
  new : pl.playlistID = none → pl.playableItemID = []
  exist : ∀ i ∈ pl.playableItemID, HasItem db i

/-- A list without an ID or items. -/
theorem Loaded.named (db : Db) (name : Option Bytes) : Loaded db { name := name } where
  items := rfl
  length := rfl
  fits p h := by cases h
  new _ := rfl
  exist i hi := absurd hi List.not_mem_nil

/-- A fetch by ID, through an `int`. -/
theorem fetchById_loaded (fp : FloatOps) (ch : Chance) (hc : Consistent db) (id : ℤ) :
    ∃ found pl, Playlist.fetchById (catalog fp ch) db id = some (found, pl) ∧ Loaded db pl := by
  unfold Playlist.fetchById
  rcases loadById_withChildren fp ch hc (toInt32 id) with
    ⟨-, hload⟩ | ⟨r, -, ns, hr, -, hmem, hload⟩
  · exact ⟨_, _, hload, Loaded.named db none⟩
  · refine ⟨_, _, hload, rfl, rfl, fun p hp => ?_, fun h => (by cases h), fun i hi => ?_⟩
    · rw [← Option.some.inj hp]
      exact fitsInt32_toInt32 _
    · exact (hc.parents _ i ((hmem i).mp hi)).2

/-- A fetch by name goes through the rows of playlists with that name. If it
finds one, there is such a playlist; if not, the name is left in the list. -/
theorem fetchByName_cases (fp : FloatOps) (ch : Chance) (db : Db) (b : Bytes) :
    Playlist.fetchByName (catalog fp ch) db b = some (false, { name := some b })
    ∨ ∃ r ∈ (db "Playlist").rows, (r "name").same (numericOfText fp b) = true
      ∧ ∃ pl, Playlist.fetchByName (catalog fp ch) db b = some (true, pl) := by
  obtain ⟨items, hitems⟩ : ∃ items, items = listedItems db := ⟨_, rfl⟩
  have hload : Playlist.fetchByName (catalog fp ch) db b
      = loadRows fp { name := some b } ((playlistsWith fp db items).filter
          (fun r => (r "name").same (numericOfText fp b))) := by
    rw [hitems]
    rfl
  rw [hload]
  cases hrows : (playlistsWith fp db items).filter
      (fun r => (r "name").same (numericOfText fp b)) with
  | nil => exact Or.inl rfl
  | cons row rest =>
    have hrow : row ∈ (playlistsWith fp db items).filter
        (fun r => (r "name").same (numericOfText fp b)) := by
      rw [hrows]
      exact List.mem_cons_self ..
    obtain ⟨hview, hsame⟩ := List.mem_filter.mp hrow
    obtain ⟨r, hr, -, rfl⟩ := mem_playlistsWith.mp hview
    rw [Function.update_of_ne (by decide)] at hsame
    exact Or.inr ⟨r, hr, hsame, _, rfl⟩

theorem newName_stored (fp : FloatOps) (n : ℕ) :
    numericOfText fp (newName n) = .text (newName n) :=
  numericOfText_of_letter fp (by decide) (by decide) (by decide) (by decide)

theorem newName_injective : Function.Injective newName := by
  intro m n h
  have hdigits : digitsOf m = digitsOf n := List.append_cancel_left h
  have := congrArg readNat hdigits
  rwa [readNat_digitsOf, readNat_digitsOf] at this

/-- The loop stops at a name that is not found, or has found every name it
tried. As there are only so many playlists, it has stopped before it runs out
of numbers. -/
theorem newlistLoop_cases (fp : FloatOps) (ch : ℕ → Chance) (db : Db) (fuel newnum : ℕ) :
    (∃ n, newlistLoop fp ch db fuel newnum = .ok { name := some (newName n) })
    ∨ ∀ k < fuel, Value.text (newName (newnum + k))
      ∈ (db "Playlist").rows.map (fun r => r "name") := by
  induction fuel generalizing newnum with
  | zero => exact Or.inr (fun k hk => absurd hk (Nat.not_lt_zero k))
  | succ fuel ih =>
    rcases fetchByName_cases fp (ch newnum) db (newName newnum) with
      hno | ⟨r, hr, hsame, pl, hfound⟩
    · refine Or.inl ⟨newnum, ?_⟩
      unfold newlistLoop
      rw [hno]
      rfl
    · have hstep : newlistLoop fp ch db (fuel + 1) newnum
          = newlistLoop fp ch db fuel (newnum + 1) := by
        conv_lhs => unfold newlistLoop
        rw [hfound]
        rfl
      rcases ih (newnum + 1) with ⟨n, hn⟩ | hall
      · exact Or.inl ⟨n, hstep.trans hn⟩
      · refine Or.inr (fun k hk => ?_)
        cases k with
        | zero =>
          rw [newName_stored] at hsame
          refine List.mem_map.mpr ⟨r, hr, ?_⟩
          cases hname : r "name" with
          | text b =>
            rw [hname] at hsame
            exact congrArg Value.text (eq_of_beq hsame)
          | null | integer | real =>
            rw [hname] at hsame
            cases hsame
        | succ k =>
          rw [show newnum + (k + 1) = newnum + 1 + k by omega]
          exact hall k (by omega)

/-- **The loop of `GetNewlist` ends**: the names it tries are different, and
there are only so many playlists. What it gives is a list with a name that no
playlist with items has. -/
theorem getNewlist_ok (fp : FloatOps) (ch : ℕ → Chance) (db : Db) :
    ∃ n, getNewlist fp ch db = .ok { name := some (newName n) } := by
  unfold getNewlist
  rcases newlistLoop_cases fp ch db ((db "Playlist").rows.length + 1) 1 with h | hall
  · exact h
  · have hnd : ((List.range ((db "Playlist").rows.length + 1)).map
        (fun k => Value.text (newName (1 + k)))).Nodup := by
      refine List.Nodup.map (fun m n h => ?_) List.nodup_range
      have := newName_injective (Value.text.inj h)
      omega
    have hsub : (List.range ((db "Playlist").rows.length + 1)).map
        (fun k => Value.text (newName (1 + k))) ⊆ (db "Playlist").rows.map (fun r => r "name") := by
      intro v hv
      obtain ⟨k, hk, rfl⟩ := List.mem_map.mp hv
      exact hall k (List.mem_range.mp hk)
    have hlen := (List.subperm_of_subset hnd hsub).length_le
    simp only [List.length_map, List.length_range] at hlen
    omega

/-- The view of all tracks lists tracks that exist, in one row, or has no row
if there are none. -/
theorem withEverything_rows (fp : FloatOps) (ch : Chance) (hc : Consistent db) (limit offset : ℤ) :
    ∃ ns : List ℤ, (∀ i ∈ ns, HasItem db i)
      ∧ (withEverything fp ch limit offset).rows db
        = if ns = [] then [] else [allTracks fp (ns.map Value.integer)] := by
  obtain ⟨items, hitems⟩ : ∃ items, items
      = (orderDesc "duration" (ch.shuffle.run (db "PlayableItem").rows)).drop offset.toNat :=
    ⟨_, rfl⟩
  obtain ⟨rows, hrows⟩ : ∃ rows, rows = if limit < 0 then items else items.take limit.toNat :=
    ⟨_, rfl⟩
  have hmem : ∀ it ∈ rows, it ∈ (db "PlayableItem").rows := by
    intro it hit
    have hit' : it ∈ items := by
      rw [hrows] at hit
      split at hit
      · exact hit
      · exact List.mem_of_mem_take hit
    rw [hitems] at hit'
    exact ((orderDesc_perm _ _).trans (ch.shuffle.perm _)).mem_iff.mp (List.mem_of_mem_drop hit')
  have hkey : ∀ it ∈ rows, it "PlayableItemID" = .integer (it "PlayableItemID").toInt64 := by
    intro it hit
    obtain ⟨n, hn⟩ := hc.playableItems.keys "PlayableItemID" rfl it (hmem it hit)
    rw [hn]
    rfl
  have hids : rows.map (fun it => it "PlayableItemID")
      = (rows.map (fun it => (it "PlayableItemID").toInt64)).map Value.integer := by
    rw [List.map_map]
    exact List.map_congr_left hkey
  refine ⟨rows.map (fun it => (it "PlayableItemID").toInt64), fun i hi => ?_, ?_⟩
  · obtain ⟨it, hit, rfl⟩ := List.mem_map.mp hi
    exact ⟨it, hmem it hit, hkey it hit⟩
  · show (if (if limit < 0 then _ else _ : List Row).map _ = [] then _ else _) = _
    rw [← hitems, ← hrows, hids]
    simp only [List.map_eq_nil_iff]

/-- The list of all tracks, as it is fetched. -/
theorem fetchSuperlist_loaded (fp : FloatOps) (ch : Chance) (hc : Consistent db)
    (limit offset : ℤ) :
    ∃ found pl, Playlist.fetchSuperlist fp ch db limit offset = some (found, pl)
      ∧ Loaded db pl := by
  obtain ⟨ns, hexist, hrows⟩ := withEverything_rows fp ch hc limit offset
  have hload : Playlist.fetchSuperlist fp ch db limit offset
      = loadRows fp {} (((withEverything fp ch limit offset).rows db).filter
          (fun r => (r "PlaylistID").same (.integer 0))) := rfl
  rw [hload, hrows]
  by_cases hne : ns = []
  · rw [if_pos hne]
    exact ⟨_, _, rfl, Loaded.named db none⟩
  · rw [if_neg hne]
    refine ⟨_, _, loadRows_cons none rfl [], rfl, rfl,
      fun p hp => ?_, fun h => (by cases h), fun i hi => ?_⟩
    · rw [← Option.some.inj hp]
      exact fitsInt32_toInt32 _
    · refine hexist i ?_
      rwa [← atoll_splitComma_groupConcat fp hne (fun i hi => hc.range i (hexist i hi))]

/-! ## Which requests are answered -/

/-- A request threw, or found the list it works on. It did not end the
process. -/
def Finds (db : Db) (e : Except Stop (Option Target)) : Prop :=
  e = .error .threw ∨ ∃ t, e = .ok t ∧ ∀ pl, t = some (.own pl) → Loaded db pl

theorem Finds.own {pl : Playlist} (h : Loaded db pl) : Finds db (.ok (some (.own pl))) :=
  Or.inr ⟨_, rfl, fun pl' h' => by cases h'; exact h⟩

theorem Finds.shared (l : SharedList) : Finds db (.ok (some (.shared l))) :=
  Or.inr ⟨_, rfl, fun pl' h' => by cases h'⟩

theorem Finds.nothing : Finds db (.ok none) := Or.inr ⟨_, rfl, fun pl' h' => by cases h'⟩

theorem argumentOrDefault_cases (params : QueryParams) (arg : String) (default_retval : ℤ) :
    argumentOrDefault params arg default_retval = .error .threw
    ∨ ∃ n, argumentOrDefault params arg default_retval = .ok n := by
  unfold argumentOrDefault
  cases params arg with
  | none => exact Or.inr ⟨_, rfl⟩
  | some b =>
    cases h : lexicalCast b with
    | none => exact Or.inl (by simp [h])
    | some n => exact Or.inr ⟨n, by simp [h]⟩

theorem fetchPlaylistFromParams_finds (fp : FloatOps) (ch : ℕ → Chance) (hc : Consistent db)
    (params : QueryParams) : Finds db (fetchPlaylistFromParams fp ch db params) := by
  unfold fetchPlaylistFromParams
  split
  · rcases argumentOrDefault_cases params "limit" llongMax with hl | ⟨limit, hl⟩
    · rw [hl]
      exact Or.inl rfl
    · rcases argumentOrDefault_cases params "offset" 0 with ho | ⟨offset, ho⟩
      · rw [hl, ho]
        exact Or.inl rfl
      · obtain ⟨found, pl, hload, hpl⟩ := fetchSuperlist_loaded fp (ch 0) hc limit offset
        rw [hl, ho]
        show Finds db (fetched (Playlist.fetchSuperlist fp (ch 0) db limit offset) >>= _)
        rw [hload]
        exact Finds.own hpl
  · split
    · exact Finds.shared _
    · split
      · exact Finds.shared _
      · split
        · exact Finds.shared _
        · split
          · obtain ⟨n, hn⟩ := getNewlist_ok fp ch db
            rw [hn]
            exact Finds.own (Loaded.named db _)
          · cases params "id" with
            | none => exact Finds.nothing
            | some b =>
              obtain ⟨found, pl, hload, hpl⟩ := fetchById_loaded fp (ch 0) hc (atoll b)
              dsimp only
              rw [hload]
              cases found with
              | false => exact Finds.nothing
              | true => exact Finds.own hpl

/-- **The list of a request is fetched**, unless its parameters throw. Every
query on the way can be prepared, and every column has its field, so nothing
ends the process here. -/
theorem updateTarget_finds (fp : FloatOps) (ch : ℕ → Chance) (hc : Consistent db)
    (params : QueryParams) (request : PlaylistMergeRequest) :
    Finds db (updateTarget fp ch db params request) := by
  unfold updateTarget
  rcases fetchPlaylistFromParams_finds fp ch hc params with h | ⟨t, h, ht⟩
  · rw [h]
    exact Or.inl rfl
  · rw [h]
    cases t with
    | some t => exact Or.inr ⟨_, rfl, ht⟩
    | none =>
      show Finds db (match request.playlistID with | none => _ | some id => _)
      cases request.playlistID with
      | none => exact Finds.nothing
      | some id =>
        obtain ⟨found, pl, hload, hpl⟩ := fetchById_loaded fp (ch 1) hc id
        dsimp only
        rw [hload]
        exact Finds.own hpl

/-! ### What the store makes of a merged list -/

/-- Rows of playlists conflict by their ID or by their name. -/
theorem playlistDef_conflicts (a b : Row) :
    playlistDef.conflicts a b = ((a "PlaylistID").same (b "PlaylistID")
      || (a "name").same (b "name")) := by
  simp [TableDef.conflicts, TableDef.indexes, TableDef.agreeOn, playlistDef]

/-- The columns of a playlist's row, before its key is chosen. -/
theorem rowOf_playlist (fp : FloatOps) (pl : Playlist) :
    rowOf playlistDef fp pl.toMessage "PlaylistID" = (pl.playlistID.map Value.integer).getD .null
    ∧ rowOf playlistDef fp pl.toMessage "name" = (pl.name.map (numericOfText fp)).getD .null
    ∧ rowOf playlistDef fp pl.toMessage "weight" = (pl.weight.map Value.integer).getD .null := by
  obtain ⟨i, n, w, l, its, len⟩ := pl
  refine ⟨?_, ?_, ?_⟩
  · cases i <;> rfl
  · cases n <;> rfl
  · cases w <;> rfl

/-- **A list that has a column can be prepared for the store.** One that has
no ID, no name and no weight leaves no column to name, and its text is a
syntax error. -/
theorem rootStatement_isSome (fp : FloatOps) (ch : Chance) {pl : Playlist} (hitems : pl.items = [])
    (hlen : pl.length = none) :
    (rootStatement (catalog fp ch) .replace pl.toMessage).isSome = true
      ↔ pl.playlistID.isSome ∨ pl.name.isSome ∨ pl.weight.isSome := by
  obtain ⟨i, n, w, l, its, len⟩ := pl
  obtain rfl : its = [] := hitems
  obtain rfl : len = none := hlen
  cases i <;> cases n <;> cases w <;> cases l <;> simp <;> rfl

/-- The name, as it is stored, belongs to another playlist than `p`, and that
one has items. A replacement is refused then, by the foreign key of its
items. -/
def NameHeld (fp : FloatOps) (db : Db) (p : Option ℤ) (name : Option Bytes) : Prop :=
  ∃ b, name = some b ∧ ∃ x ∈ (db "Playlist").rows, ∃ q, x "PlaylistID" = .integer q
    ∧ p ≠ some q ∧ (numericOfText fp b).same (x "name") = true ∧ (itemsOf db q).Nonempty

/-- The key a new playlist is given: one more than any that was ever used. -/
def newKey (db : Db) : ℤ := TableDef.lastKey "PlaylistID" (db "Playlist") + 1

/-- The items of a new playlist are stored for a playlist that exists: for
itself, when its key is an `int`, or else for the one whose ID its key is
truncated to, unless the new one takes the place of that by its name. -/
def NewKeyReaches (fp : FloatOps) (db : Db) (name : Option Bytes) : Prop :=
  FitsInt32 (newKey db) ∨ ∃ x ∈ (db "Playlist").rows,
    x "PlaylistID" = .integer (toInt32 (newKey db))
      ∧ ∀ b, name = some b → (numericOfText fp b).same (x "name") = false

/-- **A list whose store does not abort the process**: it has a column to
store, and a key is left if it is new; and its name is held by a playlist with
items – then the store throws – or its items exist and reach it. -/
structure Storable (fp : FloatOps) (db : Db) (pl : Playlist) : Prop where
  column : pl.playlistID.isSome ∨ pl.name.isSome ∨ pl.weight.isSome
  key : pl.playlistID = none → newKey db ≤ TableDef.maxKey
  items : NameHeld fp db pl.playlistID pl.name
    ∨ ((∀ i ∈ pl.playableItemID, HasItem db i)
      ∧ (pl.playlistID = none → pl.playableItemID ≠ [] → NewKeyReaches fp db pl.name))

/-- The row of a list with its key: the key it has or a new one. There is no
new one when the largest key there can be has been given. -/
theorem keyed_rowOf (fp : FloatOps) (db : Db) (pl : Playlist) :
    (∃ r n, playlistDef.keyed (db "Playlist") (rowOf playlistDef fp pl.toMessage) = .ok r
      ∧ r "PlaylistID" = .integer n ∧ n = pl.playlistID.getD (newKey db)
      ∧ (pl.playlistID = none → newKey db ≤ TableDef.maxKey)
      ∧ r "name" = (pl.name.map (numericOfText fp)).getD .null)
    ∨ (pl.playlistID = none ∧ TableDef.maxKey < newKey db
      ∧ playlistDef.keyed (db "Playlist") (rowOf playlistDef fp pl.toMessage) = .error .full) := by
  obtain ⟨hid, hname, -⟩ := rowOf_playlist fp pl
  cases hp : pl.playlistID with
  | some p =>
    rw [hp] at hid
    exact Or.inl ⟨_, p, keyed_of_id hp _, hid, rfl, fun h => (by cases h), hname⟩
  | none =>
    rw [hp] at hid
    have hkeyed := TableDef.keyed_of_null (t := playlistDef) (k := "PlaylistID") rfl hid
      (db "Playlist")
    by_cases hlast : TableDef.lastKey "PlaylistID" (db "Playlist") < TableDef.maxKey
    · rw [if_pos hlast] at hkeyed
      refine Or.inl ⟨_, newKey db, hkeyed, Function.update_self .., rfl,
        fun _ => Int.add_one_le_iff.mpr hlast, ?_⟩
      rw [Function.update_of_ne (by decide), hname]
    · rw [if_neg hlast] at hkeyed
      exact Or.inr ⟨rfl, Int.lt_add_one_iff.mpr (not_lt.mp hlast), hkeyed⟩

/-- A new key is no playlist's. -/
theorem lt_newKey {x : Row} {q : ℤ} (hx : x ∈ (db "Playlist").rows)
    (hq : x "PlaylistID" = .integer q) : q < newKey db :=
  Int.lt_add_one_iff.mpr (TableDef.le_lastKey hx hq)

/-- The row of a list takes the place of a playlist with items when its name
is held by one. Its own row it replaces in any case. -/
theorem takesItems_iff {pl : Playlist} {r : Row} {n : ℤ} (hn : r "PlaylistID" = .integer n)
    (hkey : n = pl.playlistID.getD (newKey db))
    (hname : r "name" = (pl.name.map (numericOfText fp)).getD .null) :
    TakesItems db r ↔ NameHeld fp db pl.playlistID pl.name := by
  have hother : ∀ x ∈ (db "Playlist").rows, ∀ q, x "PlaylistID" = .integer q →
      (r "PlaylistID" ≠ .integer q ↔ pl.playlistID ≠ some q) := by
    intro x hx q hq
    rw [hn, hkey]
    cases pl.playlistID with
    | none => simpa using (lt_newKey hx hq).ne'
    | some p => simp
  have hconf : ∀ x ∈ (db "Playlist").rows, ∀ q, x "PlaylistID" = .integer q →
      pl.playlistID ≠ some q → (playlistDef.conflicts r x = true
        ↔ ∃ b, pl.name = some b ∧ (numericOfText fp b).same (x "name") = true) := by
    intro x hx q hq hne
    have hid : (r "PlaylistID").same (x "PlaylistID") = false := by
      rw [hn, hq]
      exact beq_false_of_ne (fun h => (hother x hx q hq).mpr hne (by rw [hn, h]))
    rw [playlistDef_conflicts, hid, hname]
    cases pl.name <;> simp
  constructor
  · rintro ⟨x, hx, hc, q, hq, hne, hitems⟩
    have hne' := (hother x hx q hq).mp hne
    obtain ⟨b, hb, hsame⟩ := (hconf x hx q hq hne').mp hc
    exact ⟨b, hb, x, hx, q, hq, hne', hsame, hitems⟩
  · rintro ⟨b, hb, x, hx, q, hq, hne, hsame, hitems⟩
    exact ⟨x, hx, (hconf x hx q hq hne).mpr ⟨b, hb, hsame⟩, q, hq,
      (hother x hx q hq).mpr hne, hitems⟩

/-- The items of a list are stored for its key, as an `int`. -/
theorem idAfter_key {pl : Playlist} {n k : ℤ} (hkey : n = pl.playlistID.getD k) :
    idAfter pl.toMessage n = toInt32 n := by
  cases hp : pl.playlistID with
  | some p =>
    rw [hp] at hkey
    obtain rfl : n = p := hkey
    exact idAfter_of_id hp
  | none =>
    have hlocal : localId pl.toMessage = -1 := by
      rw [localId_playlist, hp]
      rfl
    unfold idAfter
    rw [if_pos hlocal]

/-- The items of a list reach a playlist that exists: the one whose row was
just placed, or, if the new key does not fit an `int`, whichever has the
truncated one. -/
theorem reaches_iff {pl : Playlist} {r : Row} {n : ℤ} {db₁ : Db} (hrep : Replaces db db₁ r n)
    (hkey : n = pl.playlistID.getD (newKey db))
    (hname : r "name" = (pl.name.map (numericOfText fp)).getD .null)
    (hfits : ∀ p, pl.playlistID = some p → FitsInt32 p) :
    HasPlaylist db₁ (idAfter pl.toMessage n)
      ↔ (pl.playlistID = none → NewKeyReaches fp db pl.name) := by
  rw [idAfter_key hkey]
  cases hp : pl.playlistID with
  | some p =>
    rw [hp] at hkey
    obtain rfl : n = p := hkey
    rw [toInt32_of_fits (hfits n hp)]
    exact ⟨fun _ h => (by cases h), fun _ => hrep.hasPlaylist⟩
  | none =>
    rw [hp] at hkey
    obtain rfl : n = newKey db := hkey
    -- whether a row that is there already makes way for the new one
    have hstays : ∀ x ∈ (db "Playlist").rows, ∀ q, x "PlaylistID" = .integer q →
        (playlistDef.conflicts r x = false
          ↔ ∀ b, pl.name = some b → (numericOfText fp b).same (x "name") = false) := by
      intro x hx q hq
      have hne : (r "PlaylistID").same (x "PlaylistID") = false := by
        rw [hrep.key, hq]
        exact beq_false_of_ne (lt_newKey hx hq).ne'
      rw [playlistDef_conflicts, hne, hname]
      cases pl.name <;> simp
    constructor
    · rintro ⟨x, hx, hq⟩ -
      rw [hrep.rows] at hx
      rcases List.mem_append.mp hx with hx | hx
      · obtain ⟨hx, hno⟩ := List.mem_filter.mp hx
        exact Or.inr ⟨x, hx, hq, (hstays x hx _ hq).mp (by simpa using hno)⟩
      · rw [List.mem_singleton.mp hx, hrep.key] at hq
        exact Or.inl (toInt32_eq_self_iff.mp (Value.integer.inj hq).symm)
    · intro h
      rcases h rfl with hfit | ⟨x, hx, hq, hno⟩
      · rw [toInt32_of_fits hfit]
        exact hrep.hasPlaylist
      · refine ⟨x, ?_, hq⟩
        rw [hrep.rows]
        refine List.mem_append_left _ (List.mem_filter.mpr ⟨hx, ?_⟩)
        rw [(hstays x hx _ hq).mpr hno]
        rfl

/-- The merged list, field by field. -/
theorem mergedList_eq (pl : Playlist) (params : QueryParams) (request : PlaylistMergeRequest) :
    mergedList pl params request
      = { playlistID := pl.playlistID
          name := request.name <|> pl.name
          weight := request.weight <|> pl.weight
          playableItemID := (if (params "overwrite").isSome then [] else pl.playableItemID)
            ++ request.playableItemID
          items := if (params "overwrite").isSome then [] else pl.items
          length := pl.length } := by
  unfold mergedList
  rw [Playlist.applyMergeRequest_eq]
  rfl

/-- A store aborts the process as the save does. -/
theorem aborted_iff_save {cat : Catalog} {busy : Bool} {cmd : StoreCmd} {value : Message}
    {c : Conn} (hs : c.saved = none) :
    ((insertOrReplace false value cmd).run cat busy c).outcome = .aborted
      ↔ save cat busy cmd value c = .aborted := by
  have hrun := run_insertOrReplace cat busy cmd value hs
  cases hsave : save cat busy cmd value c with
  | aborted =>
    rw [hsave] at hrun
    exact iff_of_true hrun.1 rfl
  | rootRefused =>
    rw [hsave] at hrun
    rw [hrun.1]
    exact iff_of_false (fun h => by cases h) (fun h => by cases h)
  | commitRefused value' =>
    rw [hsave] at hrun
    rw [hrun.1]
    exact iff_of_false (fun h => by cases h) (fun h => by cases h)
  | saved value' db =>
    rw [hsave] at hrun
    rw [hrun.1]
    exact iff_of_false (fun h => by cases h) (fun h => by cases h)

/-- A list that no key is left for aborts the process. -/
theorem save_of_full (busy : Bool) {pl : Playlist} (hlen : pl.length = none)
    (hk : playlistDef.keyed (db "Playlist") (rowOf playlistDef fp pl.toMessage) = .error .full)
    (lastRowid : ℤ) :
    save (catalog fp .stored) busy .replace pl.toMessage ⟨db, none, lastRowid⟩ = .aborted := by
  unfold save
  rw [if_neg (by simp)]
  cases hps : rootStatement (catalog fp .stored) .replace pl.toMessage with
  | none => rfl
  | some ps =>
    have hex : (catalog fp .stored).exec db ps = .error .full := by
      rw [exec_rootStatement (by decide) pl.typed (Playlist.ordered hlen) hps
        (t := playlistDef) rfl]
      show ((playlistDef.keyed (db "Playlist") (rowOf playlistDef fp pl.toMessage)).bind
        _).bind _ = _
      rw [hk]
      rfl
    dsimp only
    rw [hex]

/-- **When the store of a list aborts the process**: exactly when the list is
not `Storable`. A refusal of the root statement or of the commit throws,
which is an answer. -/
theorem replaceList_answers_iff (busy : Bool) (hc : Consistent db) {pl : Playlist}
    (hitems : pl.items = []) (hlen : pl.length = none)
    (hfits : ∀ p, pl.playlistID = some p → FitsInt32 p) :
    (replaceList fp busy false db pl).outcome ≠ .aborted ↔ Storable fp db pl := by
  refine (not_congr (aborted_iff_save rfl)).trans ?_
  cases hps : rootStatement (catalog fp .stored) .replace pl.toMessage with
  | none =>
    -- there is no column to name
    refine iff_of_false (fun h => h ?_) (fun h => ?_)
    · unfold save
      rw [if_neg (by simp), hps]
    · have := (rootStatement_isSome fp .stored hitems hlen).mpr h.column
      rw [hps] at this
      cases this
  | some ps =>
    have hcolumn := (rootStatement_isSome fp .stored hitems hlen).mp (by rw [hps]; rfl)
    rcases keyed_rowOf fp db pl with ⟨r, n, hk, hn, hkey, hmax, hname⟩ | ⟨hnone, hmax, hk⟩
    · have htakes := takesItems_iff hn hkey hname
      rcases hc.save_replace (c := ⟨db, none, 0⟩) busy hps hk hitems with
        ⟨hheld, hend⟩ | ⟨db₁, n', hfree, hrep, hend⟩
      · rw [hend]
        exact iff_of_true (fun h => by cases h)
          ⟨hcolumn, hmax, Or.inl (htakes.mp hheld)⟩
      · obtain rfl : n' = n := Value.integer.inj (hrep.key.symm.trans hn)
        have hpar : ParentsExist db₁ (idAfter pl.toMessage n') pl.playableItemID
            ↔ (∀ i ∈ pl.playableItemID, HasItem db i)
              ∧ (pl.playlistID = none → pl.playableItemID ≠ [] → NewKeyReaches fp db pl.name) := by
          unfold ParentsExist
          rw [reaches_iff hrep hkey hname hfits, and_comm]
          refine and_congr (forall₂_congr fun i _ => hrep.hasItem_iff i) ?_
          exact ⟨fun h hno hne => h hne hno, fun h hne hno => h hno hne⟩
        have hstorable : Storable fp db pl
            ↔ ParentsExist db₁ (idAfter pl.toMessage n') pl.playableItemID := by
          rw [hpar]
          refine ⟨fun h => h.items.resolve_left (fun hheld => hfree (htakes.mpr hheld)),
            fun h => ⟨hcolumn, hmax, Or.inr h⟩⟩
        rw [hstorable]
        rcases hend with ⟨hno, hend⟩ | ⟨db₂, hall, -, hend⟩
        · rw [hend]
          exact iff_of_false (fun h => h rfl) hno
        · rw [hend]
          refine iff_of_true (fun h => ?_) hall
          split at h <;> cases h
    · -- no key is left for the row
      exact iff_of_false (fun h => h (save_of_full busy hlen hk 0))
        (fun h => absurd (h.key hnone) (not_le.mpr hmax))

/-! ### Which requests abort the process -/

/-- **A request that can be merged into a list without aborting the
process**: list and request have a column to store between them, and a key is
left if the list is new; and the name is held by a playlist with items – then
the store throws – or the items of the request exist and reach the list. -/
structure Mergeable (fp : FloatOps) (db : Db) (pl : Playlist) (request : PlaylistMergeRequest) :
    Prop where
  column : pl.playlistID.isSome ∨ (request.name <|> pl.name).isSome
    ∨ (request.weight <|> pl.weight).isSome
  key : pl.playlistID = none → newKey db ≤ TableDef.maxKey
  items : NameHeld fp db pl.playlistID (request.name <|> pl.name)
    ∨ ((∀ i ∈ request.playableItemID, HasItem db i)
      ∧ (pl.playlistID = none → request.playableItemID ≠ [] →
        NewKeyReaches fp db (request.name <|> pl.name)))

/-- A merged list can be stored when its request can be merged. The items it
had exist, so only those of the request have to be looked at. -/
theorem storable_mergedList_iff {pl : Playlist} (hpl : Loaded db pl) (params : QueryParams)
    (request : PlaylistMergeRequest) :
    Storable fp db (mergedList pl params request) ↔ Mergeable fp db pl request := by
  rw [mergedList_eq]
  have hexist : (∀ i ∈ (if (params "overwrite").isSome then [] else pl.playableItemID)
        ++ request.playableItemID, HasItem db i)
      ↔ ∀ i ∈ request.playableItemID, HasItem db i := by
    refine ⟨fun h i hi => h i (List.mem_append_right _ hi), fun h i hi => ?_⟩
    rcases List.mem_append.mp hi with hi | hi
    · split at hi
      · cases hi
      · exact hpl.exist i hi
    · exact h i hi
  have hnew : pl.playlistID = none →
      (if (params "overwrite").isSome then [] else pl.playableItemID) ++ request.playableItemID
        = request.playableItemID := by
    intro h
    rw [hpl.new h, ite_self, List.nil_append]
  constructor
  · rintro ⟨hcolumn, hkey, hitems⟩
    refine ⟨hcolumn, hkey, hitems.imp_right (fun h => ⟨hexist.mp h.1, fun hno hne => ?_⟩)⟩
    exact h.2 hno (by dsimp only; rwa [hnew hno])
  · rintro ⟨hcolumn, hkey, hitems⟩
    refine ⟨hcolumn, hkey, hitems.imp_right (fun h => ⟨hexist.mpr h.1, fun hno hne => ?_⟩)⟩
    exact h.2 hno (by dsimp only at hne; rwa [hnew hno] at hne)

theorem answers_replyOf {merged : Playlist} {o : Outcome Message (Code × Message)} {db : Db}
    {lists : SharedList → Playlist} :
    (⟨replyOf merged o, db, lists⟩ : Handled).Answers ↔ o ≠ .aborted := by
  cases o with
  | returned res => exact iff_of_true (Or.inl ⟨_, rfl⟩) (fun h => by cases h)
  | raised e => exact iff_of_true (Or.inr rfl) (fun h => by cases h)
  | aborted =>
    refine iff_of_false ?_ (fun h => h rfl)
    rintro (⟨reply, h⟩ | h) <;> cases h

/-- **Which update requests are answered**: those that can be merged into the
list of their own that they name. The condition is about the parameters, the
request and the database before anything is stored; a request that names no
list of its own, or whose parameters throw, meets it trivially.

An answer may be an error, but it is one; the requests that are left end the
process, and the automation with it. -/
theorem playlistUpdate_answers_iff (fp : FloatOps) (ch : ℕ → Chance) (busy : Bool)
    (params : QueryParams) (request : PlaylistMergeRequest) (lists : SharedList → Playlist)
    (db : Db) (hc : Consistent db) :
    (playlistUpdate fp ch busy params request lists db).Answers
      ↔ ∀ req pl, loadMessage params request = .ok req →
        updateTarget fp ch db params req = .ok (some (.own pl)) → Mergeable fp db pl req := by
  unfold playlistUpdate
  have hthrew : ∀ s : Stop, loadMessage params request = .error s → s = .threw := by
    intro s h
    unfold loadMessage at h
    split at h
    · cases h
    · split at h <;> cases h
      rfl
  cases hload : loadMessage params request with
  | error s =>
    obtain rfl := hthrew s hload
    exact iff_of_true (Or.inr rfl) (fun req pl h => by cases h)
  | ok req =>
    dsimp only
    rcases updateTarget_finds fp ch hc params req with h | ⟨t, h, ht⟩
    · rw [h]
      refine iff_of_true (Or.inr rfl) (fun req' pl hreq hown => ?_)
      cases hreq
      rw [h] at hown
      cases hown
    · rw [h]
      have honly : (∀ req' pl, (Except.ok req : Except Stop PlaylistMergeRequest) = .ok req' →
          updateTarget fp ch db params req' = .ok (some (.own pl)) → Mergeable fp db pl req')
          ↔ ∀ pl, t = some (.own pl) → Mergeable fp db pl req := by
        constructor
        · intro hall pl hpl
          exact hall req pl rfl (by rw [h, hpl])
        · intro hall req' pl hreq hown
          cases hreq
          rw [h] at hown
          exact hall pl (Except.ok.inj hown)
      rw [honly]
      cases t with
      | none => exact iff_of_true (Or.inl ⟨_, rfl⟩) (fun pl hpl => by cases hpl)
      | some t =>
        cases t with
        | shared l => exact iff_of_true (Or.inl ⟨_, rfl⟩) (fun pl hpl => by cases hpl)
        | own pl =>
          have hpl := ht pl rfl
          refine answers_replyOf.trans ?_
          rw [replaceList_answers_iff busy hc
            (by rw [mergedList_eq]; dsimp only; rw [hpl.items, ite_self])
            (by rw [mergedList_eq]; exact hpl.length)
            (by rw [mergedList_eq]; exact hpl.fits), storable_mergedList_iff hpl]
          exact ⟨fun hm pl' hpl' => by cases hpl'; exact hm, fun hm => hm pl rfl⟩

/-- No parameters. -/
def noParams : QueryParams := fun _ => none

/-- Lists with nothing in them. -/
def emptyLists : SharedList → Playlist := fun _ => {}

/-- An item that exists is added to a playlist that has some, and the request
is answered. -/
theorem playlistUpdate_answers_evening :
    (playlistUpdate .whole (fun _ => .stored) false noParams
      { playlistID := some 1, playableItemID := [2] } emptyLists eveningDb).Answers := by
  refine (playlistUpdate_answers_iff .whole (fun _ => .stored) false noParams
    { playlistID := some 1, playableItemID := [2] } emptyLists eveningDb
    consistent_eveningDb).mpr (fun req pl hreq hown => ?_)
  cases hreq
  have htarget : updateTarget .whole (fun _ => .stored) eveningDb noParams
      { playlistID := some 1, playableItemID := [2] }
      = .ok (some (.own
        { playlistID := some 1
          name := some (ascii "evening")
          weight := some 1
          playableItemID := [1, 2] })) := rfl
  rw [htarget] at hown
  cases hown
  exact ⟨Or.inl rfl, fun h => (by cases h), Or.inr ⟨by decide +kernel, fun h => (by cases h)⟩⟩

/-- **Two requests that abort the process**: one with the ID of an unknown
playlist and nothing else, which leaves nothing to store, and one with an
item that does not exist. -/
theorem playlistUpdate_aborts :
    Consistent eveningDb
      ∧ ¬(playlistUpdate .whole (fun _ => .stored) false noParams
          { playlistID := some 7 } emptyLists eveningDb).Answers
      ∧ ¬(playlistUpdate .whole (fun _ => .stored) false noParams
          { playlistID := some 1, playableItemID := [9] } emptyLists eveningDb).Answers := by
  have hnot : ∀ h : Handled, h.reply = .error .aborted → ¬h.Answers := by
    rintro h hreply (⟨reply, hok⟩ | hthrew)
    · cases hreply.symm.trans hok
    · cases hreply.symm.trans hthrew
  exact ⟨consistent_eveningDb, hnot _ rfl, hnot _ rfl⟩
