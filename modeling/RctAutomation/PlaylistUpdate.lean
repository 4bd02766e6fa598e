import RctAutomation.RoundTrip
import RctAutomation.WebApi

/-!
# What an update changes

A request without parameters updates the playlist whose ID it carries. It
should change that playlist and no other one (`UpdatesOnly`). The handler
fetches the playlist through a view that shows no playlist without items, and
through an `int`; what it stores is what it read back. `KeepsTo` says what has
to be true of the database for this to come to the same, and
`playlistUpdate_updatesOnly_iff` that nothing else has to be.
-/

open Sql

/-- There is a playlist with the ID, name and weight, as they are stored. -/
def HasRow (db : Db) (p : ℤ) (name weight : Value) : Prop :=
  ∃ x ∈ (db "Playlist").rows, x "PlaylistID" = .integer p ∧ x "name" = name ∧ x "weight" = weight

instance (db : Db) (p : ℤ) (name weight : Value) : Decidable (HasRow db p name weight) :=
  inferInstanceAs (Decidable (∃ x ∈ (db "Playlist").rows,
    x "PlaylistID" = .integer p ∧ x "name" = name ∧ x "weight" = weight))

/-- **An update changed exactly the playlist it names**, which had the name
and the weight given.

Fields of the request that are set are the new ones, and those that are not
set are kept; the items of the request are added; and every other playlist
has its row and its items as before. -/
structure UpdatesOnly (fp : FloatOps) (db db' : Db) (p : ℤ) (request : PlaylistMergeRequest)
    (name weight : Value) : Prop where
  row : ∃ name' weight', HasRow db' p name' weight'
    ∧ (∀ b, request.name = some b → name'.toText fp = b)
    ∧ (request.name = none → name' = name)
    ∧ (∀ w, request.weight = some w → weight' = .integer w)
    ∧ (request.weight = none → weight' = weight)
  items : ∀ i, i ∈ itemsOf db' p ↔ i ∈ itemsOf db p ∨ i ∈ request.playableItemID
  others : ∀ q, q ≠ p → (∀ name weight, HasRow db' q name weight ↔ HasRow db q name weight)
    ∧ ∀ i, i ∈ itemsOf db' q ↔ i ∈ itemsOf db q

/-- **What an update keeps to its playlist**, `toInt32 p` being the ID it is
fetched by. Each clause excludes one way in which reading a playlist through
the view and storing what was read comes to something else than changing it. -/
structure KeepsTo (fp : FloatOps) (db : Db) (p : ℤ) (request : PlaylistMergeRequest) : Prop where
  /-- The view shows the playlist. -/
  shown : (itemsOf db (toInt32 p)).Nonempty
  name : ∀ b, request.name = some b → TextKept fp b
  /-- A name that is not set is read and stored again. -/
  oldName : request.name = none → ∀ x ∈ (db "Playlist").rows,
    x "PlaylistID" = .integer (toInt32 p) → numericOfText fp ((x "name").toText fp) = x "name"
  oldWeight : request.weight = none → ∀ x ∈ (db "Playlist").rows,
    x "PlaylistID" = .integer (toInt32 p) → .integer (x "weight").toColumnInt = x "weight"
  /-- The playlist is fetched by its own ID, or there is nothing to change. -/
  target : FitsInt32 p ∨ (request.name = none
    ∧ (∀ w, request.weight = some w → ∀ x ∈ (db "Playlist").rows,
      x "PlaylistID" = .integer p ∨ x "PlaylistID" = .integer (toInt32 p) →
        x "weight" = .integer w)
    ∧ ∀ i ∈ request.playableItemID, i ∈ itemsOf db p ∧ i ∈ itemsOf db (toInt32 p))

/-- The parameters that name a list, and the one that clears it. A request
without them works on the playlist whose ID it carries. -/
def selectors : List String :=
  ["fetchall", "mainshow", "override", "bumperlist", "new", "id", "overwrite"]

variable {fp : FloatOps} {db : Db}

/-! ## The rows of playlists -/

/-- The rows after a replacement: the one that was placed, and those with
another ID and another name. A row with its name makes way, although it has
another ID. -/
theorem Replaces.hasRow_iff {db₁ : Db} {r : Row} {n : ℤ} (h : Replaces db db₁ r n) (q : ℤ)
    (name weight : Value) :
    HasRow db₁ q name weight ↔ (q = n ∧ name = r "name" ∧ weight = r "weight")
      ∨ (q ≠ n ∧ ∃ x ∈ (db "Playlist").rows, x "PlaylistID" = .integer q
        ∧ (r "name").same (x "name") = false ∧ x "name" = name ∧ x "weight" = weight) := by
  have hstays : ∀ x : Row, x "PlaylistID" = .integer q →
      (playlistDef.conflicts r x = false ↔ q ≠ n ∧ (r "name").same (x "name") = false) := by
    intro x hx
    rw [playlistDef_conflicts, h.key, hx, Bool.or_eq_false_iff, Value.same_integer,
      beq_eq_false_iff_ne, ne_comm]
  unfold HasRow
  rw [h.rows]
  constructor
  · rintro ⟨x, hx, hq, hname, hweight⟩
    rcases List.mem_append.mp hx with hx | hx
    · obtain ⟨hx, hno⟩ := List.mem_filter.mp hx
      obtain ⟨hne, hsame⟩ := (hstays x hq).mp (by simpa using hno)
      exact Or.inr ⟨hne, x, hx, hq, hsame, hname, hweight⟩
    · obtain rfl := List.mem_singleton.mp hx
      exact Or.inl ⟨Value.integer.inj (hq.symm.trans h.key), hname.symm, hweight.symm⟩
  · rintro (⟨rfl, rfl, rfl⟩ | ⟨hne, x, hx, hq, hsame, hname, hweight⟩)
    · exact ⟨r, List.mem_append_right _ (List.mem_singleton_self r), h.key, rfl, rfl⟩
    · refine ⟨x, List.mem_append_left _ (List.mem_filter.mpr ⟨hx, ?_⟩), hq, hname, hweight⟩
      rw [(hstays x hq).mpr ⟨hne, hsame⟩]
      rfl

/-! ## A successful update -/

/-- **What a list that is replaced leaves in the database**: its row, with
the key it came with or a new one, and its items. Rows that conflict with it
by name are gone; the other playlists are as they were. -/
structure ReplacedBy (fp : FloatOps) (db db' : Db) (m : Playlist) (r : Row) (n : ℤ) : Prop where
  consistent : Consistent db'
  key : n = m.playlistID.getD (newKey db)
  name : r "name" = ((m.name.map (numericOfText fp)).getD .null)
  weight : r "weight" = ((m.weight.map Value.integer).getD .null)
  rows : ∀ q name weight, HasRow db' q name weight ↔ (q = n ∧ name = r "name" ∧ weight = r "weight")
      ∨ (q ≠ n ∧ ∃ x ∈ (db "Playlist").rows, x "PlaylistID" = .integer q
        ∧ (r "name").same (x "name") = false ∧ x "name" = name ∧ x "weight" = weight)
  items : ∀ q i, i ∈ itemsOf db' q ↔ i ∈ itemsOf db q ∨ (q = toInt32 n ∧ i ∈ m.playableItemID)

/-- A list was replaced if there is a reply. It is the only end of a store
that returns, and the transaction is over then. -/
theorem replacedBy_of_reply {busy : Bool} (hc : Consistent db) {m : Playlist} {reply : Reply}
    (hok : replyOf m (replaceList fp busy false db m).outcome = .ok reply) :
    ∃ r n, ReplacedBy fp db (replaceList fp busy false db m).conn.committed m r n := by
  obtain ⟨res, hres⟩ : ∃ res, (replaceList fp busy false db m).outcome = .returned res := by
    cases ho : (replaceList fp busy false db m).outcome with
    | returned res => exact ⟨res, rfl⟩
    | raised e => rw [ho] at hok; cases hok
    | aborted => rw [ho] at hok; cases hok
  obtain ⟨value', db', hsave, -, hdb, hsaved⟩ := saved_of_returned rfl hres
  obtain ⟨-, -, r, db₁, n, hk, hrep, -, hjoin, -⟩ := hc.saved_replace hsave
  have hcommitted : (replaceList fp busy false db m).conn.committed = db' :=
    (Conn.committed_of_closed hsaved).trans hdb
  have hkey : n = m.playlistID.getD (newKey db) := by
    rcases keyed_rowOf fp db m with ⟨r', n', hk', hn', hkey', -⟩ | ⟨-, -, hk'⟩
    · cases hk.symm.trans hk'
      exact (Value.integer.inj (hrep.key.symm.trans hn')).trans hkey'
    · cases hk.symm.trans hk'
  obtain ⟨-, hname, hweight⟩ := rowOf_playlist fp m
  rw [hcommitted]
  refine ⟨r, n, hjoin.consistent, hkey, ?_, ?_, fun q name weight => ?_, fun q i => ?_⟩
  · rw [TableDef.keyed_other hk (c := "name") (by decide), hname]
  · rw [TableDef.keyed_other hk (c := "weight") (by decide), hweight]
  · rw [← hrep.hasRow_iff]
    unfold HasRow
    rw [hjoin.frame "Playlist" (by decide)]
  · rw [hjoin.items, hrep.itemsOf_eq, idAfter_key hkey]

/-- A message that is loaded is the one that was sent. -/
theorem loadMessage_eq {α : Type} {params : QueryParams} {input x : α}
    (h : loadMessage params input = .ok x) : x = input := by
  unfold loadMessage at h
  split at h
  · exact (Except.ok.inj h).symm
  · split at h
    · exact (Except.ok.inj h).symm
    · cases h

/-- The list of a request without parameters is fetched by its ID. -/
theorem updateTarget_byId {ch : ℕ → Chance} {params : QueryParams}
    (hparams : ∀ a ∈ selectors, params a = none) {request : PlaylistMergeRequest} {p : ℤ}
    (hid : request.playlistID = some p) {found : Bool} {pl : Playlist}
    (hload : Playlist.fetchById (catalog fp (ch 1)) db p = some (found, pl)) :
    updateTarget fp ch db params request = .ok (some (.own pl)) := by
  have hnone : fetchPlaylistFromParams fp ch db params = .ok none := by
    unfold fetchPlaylistFromParams
    rw [hparams "fetchall" (by decide), hparams "mainshow" (by decide),
      hparams "override" (by decide), hparams "bumperlist" (by decide),
      hparams "new" (by decide), hparams "id" (by decide)]
    rfl
  unfold updateTarget
  rw [hnone, hid]
  show (fetched (Playlist.fetchById (catalog fp (ch 1)) db p)
    >>= fun x => pure (some (Target.own x.2))) = _
  rw [hload]
  rfl

/-- The handler, once it has its list: the request is merged into it, and it is
replaced. -/
theorem playlistUpdate_own {ch : ℕ → Chance} (busy : Bool) {params : QueryParams}
    {request : PlaylistMergeRequest} (lists : SharedList → Playlist) {pl : Playlist}
    (hload : loadMessage params request = .ok request)
    (htarget : updateTarget fp ch db params request = .ok (some (.own pl))) :
    playlistUpdate fp ch busy params request lists db
      = ⟨replyOf (mergedList pl params request)
          (replaceList fp busy false db (mergedList pl params request)).outcome,
        (replaceList fp busy false db (mergedList pl params request)).conn.committed, lists⟩ := by
  unfold playlistUpdate
  rw [hload]
  dsimp only
  rw [htarget]

/-- What a successful update without parameters stored: the request merged
into the list that was fetched by its ID – or into the empty list, if none
was found. -/
structure Updated (fp : FloatOps) (db db' : Db) (p : ℤ) (request : PlaylistMergeRequest)
    (pl : Playlist) (r : Row) (n : ℤ) : Prop where
  fetched : ∃ ch found,
    Playlist.loadById (catalog fp ch) "Playlists_with_children" db {} (toInt32 p)
      = some (found, pl)
  key : n = pl.playlistID.getD (newKey db)
  name : r "name" = (((request.name <|> pl.name).map (numericOfText fp)).getD .null)
  weight : r "weight" = (((request.weight <|> pl.weight).map Value.integer).getD .null)
  rows : ∀ q name weight, HasRow db' q name weight ↔ (q = n ∧ name = r "name" ∧ weight = r "weight")
      ∨ (q ≠ n ∧ ∃ x ∈ (db "Playlist").rows, x "PlaylistID" = .integer q
        ∧ (r "name").same (x "name") = false ∧ x "name" = name ∧ x "weight" = weight)
  items : ∀ q i, i ∈ itemsOf db' q ↔ i ∈ itemsOf db q
    ∨ (q = toInt32 n ∧ i ∈ pl.playableItemID ++ request.playableItemID)

/-- **A successful update**, followed through the handler: it has fetched a
list by the ID that is asked for as an `int`, and has replaced what it
merged. -/
theorem playlistUpdate_updated (fp : FloatOps) (ch : ℕ → Chance) (busy : Bool)
    {params : QueryParams} (hparams : ∀ a ∈ selectors, params a = none)
    {request : PlaylistMergeRequest} {p : ℤ} (hid : request.playlistID = some p)
    {lists : SharedList → Playlist} (hc : Consistent db) {reply : Reply}
    (hok : (playlistUpdate fp ch busy params request lists db).reply = .ok reply) :
    ∃ pl r n, Updated fp db (playlistUpdate fp ch busy params request lists db).db p request pl r
      n := by
  obtain ⟨found, pl, hload, -⟩ := fetchById_loaded fp (ch 1) hc p
  have hmessage : loadMessage params request = .ok request := by
    cases hl : loadMessage params request with
    | ok req => rw [loadMessage_eq hl]
    | error s =>
      unfold playlistUpdate at hok
      rw [hl] at hok
      cases hok
  have hend := playlistUpdate_own busy lists hmessage
    (updateTarget_byId hparams hid hload)
  rw [hend] at hok ⊢
  obtain ⟨r, n, h⟩ := replacedBy_of_reply hc hok
  have hm := mergedList_eq pl params request
  rw [hparams "overwrite" (by decide)] at hm
  have hkey := h.key
  have hname := h.name
  have hweight := h.weight
  rw [hm] at hkey hname hweight
  refine ⟨pl, r, n, ⟨ch 1, found, hload⟩, hkey, hname, hweight, h.rows, fun q i => ?_⟩
  rw [h.items, hm]
  rfl

/-! ## When an update keeps to its playlist -/

/-- A playlist without items is not shown, and a new one is made. -/
theorem Updated.not_shown {db' : Db} {p : ℤ} {request : PlaylistMergeRequest} {r : Row} {n : ℤ}
    (h : Updated fp db db' p request {} r n) {name weight : Value}
    (hrow : HasRow db p name weight) :
    ¬UpdatesOnly fp db db' p request name weight := by
  intro hupd
  have hkey : n = newKey db := h.key
  obtain ⟨x, hx, hp, -⟩ := hrow
  have hne : n ≠ p := by
    rw [hkey]
    exact (lt_newKey hx hp).ne'
  obtain ⟨y, hy, hn, -⟩ :=
    ((hupd.others n hne).1 _ _).mp ((h.rows n _ _).mpr (Or.inl ⟨rfl, rfl, rfl⟩))
  rw [hkey] at hn
  exact (lt_newKey hy hn).false

section Shown

variable {db' : Db} {p : ℤ} {request : PlaylistMergeRequest} {r y : Row} {ns : List ℤ}
  {name weight : Value}

/-- The name that is stored, and the weight. -/
theorem Updated.shown_name
    (h : Updated fp db db' p request (loadedPlaylist fp y ns) r (toInt32 p)) :
    r "name" = numericOfText fp (request.name.getD ((y "name").toText fp))
      ∧ r "weight" = .integer (request.weight.getD (y "weight").toColumnInt) := by
  refine ⟨h.name.trans ?_, h.weight.trans ?_⟩
  · cases request.name <;> rfl
  · cases request.weight <;> rfl

/-- The items that are stored: those of the request reach the playlist. -/
theorem Updated.shown_items
    (h : Updated fp db db' p request (loadedPlaylist fp y ns) r (toInt32 p))
    (hns : ∀ i, i ∈ ns ↔ i ∈ itemsOf db (toInt32 p)) (q i : ℤ) :
    i ∈ itemsOf db' q ↔ i ∈ itemsOf db q ∨ (q = toInt32 p ∧ i ∈ request.playableItemID) := by
  rw [h.items, toInt32_toInt32]
  show _ ∨ (_ ∧ i ∈ ns ++ _) ↔ _
  rw [List.mem_append, hns]
  constructor
  · rintro (hi | ⟨rfl, hi | hi⟩)
    · exact Or.inl hi
    · exact Or.inl hi
    · exact Or.inr ⟨rfl, hi⟩
  · rintro (hi | ⟨hq, hi⟩)
    · exact Or.inl hi
    · exact Or.inr ⟨hq, Or.inr hi⟩

/-- A row of the playlist that was fetched is the row that was read. -/
theorem Consistent.hasRow_iff_of_row (hc : Consistent db) {q : ℤ} (hy : y ∈ (db "Playlist").rows)
    (hyq : y "PlaylistID" = .integer q) (name weight : Value) :
    HasRow db q name weight ↔ name = y "name" ∧ weight = y "weight" := by
  constructor
  · rintro ⟨x, hx, hxq, rfl, rfl⟩
    rw [hc.row_unique hx hy hxq hyq]
    exact ⟨rfl, rfl⟩
  · rintro ⟨rfl, rfl⟩
    exact ⟨y, hy, hyq, rfl, rfl⟩

variable (hc : Consistent db)
  (h : Updated fp db db' p request (loadedPlaylist fp y ns) r (toInt32 p))
  (hy : y ∈ (db "Playlist").rows) (hyp : y "PlaylistID" = .integer (toInt32 p))
  (hns : ∀ i, i ∈ ns ↔ i ∈ itemsOf db (toInt32 p))
  (hrow : HasRow db p name weight)
  (hfree : ∀ b, request.name = some b → ∀ x ∈ (db "Playlist").rows, x "PlaylistID" ≠ .integer p →
    (numericOfText fp b).same (x "name") = false)

include hc h hy hyp hns hrow

/-- What follows when the update keeps to its playlist, fetched by its ID:
the row stored is the playlist's, so what the request does not set has to
read as it was. -/
theorem Updated.keepsTo_of_fits (hne : ns ≠ []) (hp : toInt32 p = p)
    (hupd : UpdatesOnly fp db db' p request name weight) : KeepsTo fp db p request := by
  obtain ⟨hrname, hrweight⟩ := h.shown_name
  obtain ⟨i, hi⟩ := List.exists_mem_of_ne_nil ns hne
  obtain ⟨vn, vw, hrow', hset, hunset, -, hwunset⟩ := hupd.row
  have hstored : vn = r "name" ∧ vw = r "weight" := by
    rcases (h.rows p vn vw).mp hrow' with ⟨-, hn, hw⟩ | ⟨hpp, -⟩
    · exact ⟨hn, hw⟩
    · exact absurd hp.symm hpp
  rw [hp] at hyp
  have hold : name = y "name" ∧ weight = y "weight" :=
    (hc.hasRow_iff_of_row hy hyp name weight).mp hrow
  refine ⟨⟨i, (hns i).mp hi⟩, fun b hb => ?_, fun hno z hz hzp => ?_, fun hno z hz hzp => ?_,
    Or.inl (toInt32_eq_self_iff.mp hp)⟩
  · have htext := hset b hb
    rw [hstored.1, hrname, hb] at htext
    exact (toText_numeric_iff fp b).mp htext
  · rw [hp] at hzp
    have hname := hunset hno
    rw [hstored.1, hrname, hno, hold.1] at hname
    rw [hc.row_unique hz hy hzp hyp]
    exact hname
  · rw [hp] at hzp
    have hweight := hwunset hno
    rw [hstored.2, hrweight, hno, hold.2] at hweight
    rw [hc.row_unique hz hy hzp hyp]
    exact hweight

include hfree in
/-- What follows when the update keeps to its playlist and was fetched by
another ID: there was nothing to change. The playlist whose ID is the
truncated one is stored again, so it has to be as it was, too. -/
theorem Updated.keepsTo_of_not_fits (hne : ns ≠ []) (hp : toInt32 p ≠ p)
    (hupd : UpdatesOnly fp db db' p request name weight) : KeepsTo fp db p request := by
  obtain ⟨hrname, hrweight⟩ := h.shown_name
  obtain ⟨i, hi⟩ := List.exists_mem_of_ne_nil ns hne
  have hkept : r "name" = y "name" ∧ r "weight" = y "weight" :=
    (hc.hasRow_iff_of_row hy hyp _ _).mp
      (((hupd.others _ hp).1 _ _).mp ((h.rows _ _ _).mpr (Or.inl ⟨rfl, rfl, rfl⟩)))
  have hno : request.name = none := by
    cases hb : request.name with
    | none => rfl
    | some b =>
      have hyname := hfree b hb y hy (by rw [hyp]; exact fun e => hp (Value.integer.inj e))
      rw [hb] at hrname
      rw [← hkept.1, hrname] at hyname
      exact absurd (Value.same_self (numericOfText_ne_null fp b))
        (by rw [show (numericOfText fp b).same (numericOfText fp b) = false from hyname]
            exact Bool.false_ne_true)
  rw [hno] at hrname
  obtain ⟨x, hx, hxp, -, hxw⟩ := hrow
  obtain ⟨vn, vw, hrow', -, -, hwset, -⟩ := hupd.row
  refine ⟨⟨i, (hns i).mp hi⟩, fun b hb => ?_, fun _ z hz hzp => ?_, fun hnow z hz hzp => ?_,
    Or.inr ⟨hno, fun w hw z hz hzp => ?_, fun k hk => ⟨?_, ?_⟩⟩⟩
  · rw [hno] at hb
    cases hb
  · rw [hc.row_unique hz hy hzp hyp]
    exact hrname.symm.trans hkept.1
  · rw [hnow] at hrweight
    rw [hc.row_unique hz hy hzp hyp]
    exact hrweight.symm.trans hkept.2
  · rcases hzp with hzp | hzp
    · rcases (h.rows p vn vw).mp hrow' with ⟨hpp, -⟩ | ⟨-, z', hz', hzp', -, -, hzw'⟩
      · exact absurd hpp.symm hp
      · rw [hc.row_unique hz hz' hzp hzp', hzw']
        exact hwset w hw
    · rw [hw] at hrweight
      rw [hc.row_unique hz hy hzp hyp]
      exact hkept.2.symm.trans hrweight
  · rcases (h.shown_items hns p k).mp ((hupd.items k).mpr (Or.inr hk)) with hk | ⟨hpp, -⟩
    · exact hk
    · exact absurd hpp.symm hp
  · exact ((hupd.others _ hp).2 k).mp ((h.shown_items hns _ k).mpr (Or.inr ⟨rfl, hk⟩))

omit hc hns hrow in
/-- What is stored when nothing is set: what was read, stored again. -/
theorem Updated.kept_fields (hkeep : KeepsTo fp db p request) :
    (request.name = none → r "name" = y "name")
      ∧ (request.weight = none → r "weight" = y "weight") := by
  obtain ⟨hrname, hrweight⟩ := h.shown_name
  constructor
  · intro hno
    rw [hrname, hno]
    exact hkeep.oldName hno y hy hyp
  · intro hno
    rw [hrweight, hno]
    exact hkeep.oldWeight hno y hy hyp

omit hns hrow in
include hfree in
/-- **The row that is placed takes the place of no other playlist**, under
the conditions of `KeepsTo`: it has the ID that was fetched, and its name is
either free or the old one. -/
theorem Updated.others_kept (hkeep : KeepsTo fp db p request) {q : ℤ} (hq : q ≠ toInt32 p)
    (name weight : Value) : HasRow db' q name weight ↔ HasRow db q name weight := by
  have hsame : ∀ z ∈ (db "Playlist").rows, z "PlaylistID" ≠ .integer (toInt32 p) →
      (r "name").same (z "name") = false := by
    intro z hz hzp
    cases hb : request.name with
    | some b =>
      have hp : toInt32 p = p := by
        rcases hkeep.target with hfit | ⟨hno, -⟩
        · exact toInt32_of_fits hfit
        · rw [hno] at hb
          cases hb
      rw [h.shown_name.1, hb]
      exact hfree b hb z hz (by rwa [hp] at hzp)
    | none =>
      -- the name that is stored again is unique among the rows as they are
      rw [(h.kept_fields hy hyp hkeep).1 hb]
      refine Bool.eq_false_iff.mpr (fun hsame => hzp ?_)
      rw [← hc.playlists.eq_of_conflicts hy hz
        (TableDef.conflicts_of_unique (u := "name") (List.mem_singleton_self _) hsame)]
      exact hyp
  rw [h.rows]
  constructor
  · rintro (⟨hqq, -⟩ | ⟨-, z, hz, hzq, -, hname, hweight⟩)
    · exact absurd hqq hq
    · exact ⟨z, hz, hzq, hname, hweight⟩
  · rintro ⟨z, hz, hzq, hname, hweight⟩
    refine Or.inr ⟨hq, z, hz, hzq, hsame z hz ?_, hname, hweight⟩
    rw [hzq]
    exact fun e => hq (Value.integer.inj e)

include hfree in
/-- What is enough for an update that is fetched by its ID to keep to it. -/
theorem Updated.updatesOnly_of_fits (hkeep : KeepsTo fp db p request) (hp : toInt32 p = p) :
    UpdatesOnly fp db db' p request name weight := by
  obtain ⟨hrname, hrweight⟩ := h.shown_name
  obtain ⟨hkept, hkeptw⟩ := h.kept_fields hy hyp hkeep
  obtain ⟨hname, hweight⟩ :=
    (hc.hasRow_iff_of_row hy (hyp.trans (by rw [hp])) name weight).mp hrow
  refine ⟨⟨r "name", r "weight", (h.rows p _ _).mpr (Or.inl ⟨hp.symm, rfl, rfl⟩),
    fun b hb => ?_, fun hno => (hkept hno).trans hname.symm, fun w hw => ?_,
    fun hno => (hkeptw hno).trans hweight.symm⟩, fun i => ?_, fun q hq => ⟨?_, fun i => ?_⟩⟩
  · rw [hrname, hb]
    exact (toText_numeric_iff fp b).mpr (hkeep.name b hb)
  · rw [hrweight, hw]
    rfl
  · rw [h.shown_items hns, hp]
    exact or_congr_right ⟨fun hi => hi.2, fun hi => ⟨rfl, hi⟩⟩
  · exact h.others_kept hc hy hyp hfree hkeep (by rwa [hp])
  · rw [h.shown_items hns, hp]
    exact ⟨fun hi => hi.resolve_right (fun hi => hq hi.1), Or.inl⟩

include hfree in
/-- And for one that is fetched by another ID: there is nothing to change,
and the other playlist is stored as it was. -/
theorem Updated.updatesOnly_of_not_fits (hkeep : KeepsTo fp db p request) (hp : toInt32 p ≠ p) :
    UpdatesOnly fp db db' p request name weight := by
  obtain ⟨hkept, hkeptw⟩ := h.kept_fields hy hyp hkeep
  obtain ⟨hno, hw, hsub⟩ := hkeep.target.resolve_left (fun hfit => hp (toInt32_of_fits hfit))
  have hother := fun q hq => h.others_kept (q := q) hc hy hyp hfree hkeep hq
  have hrw : r "weight" = y "weight" := by
    cases hreq : request.weight with
    | none => exact hkeptw hreq
    | some w =>
      rw [h.shown_name.2, hreq]
      exact (hw w hreq y hy (Or.inr hyp)).symm
  refine ⟨⟨name, weight, (hother p (Ne.symm hp) _ _).mpr hrow, fun b hb => ?_, fun _ => rfl,
    fun w hreq => ?_, fun _ => rfl⟩, fun i => ?_, fun q hq => ⟨fun name weight => ?_, fun i => ?_⟩⟩
  · rw [hno] at hb
    cases hb
  · obtain ⟨x, hx, hxp, -, hxw⟩ := hrow
    exact hxw.symm.trans (hw w hreq x hx (Or.inl hxp))
  · rw [h.shown_items hns]
    exact ⟨fun hi => hi.imp_right (fun hi => hi.2), fun hi => Or.inl (hi.elim id
      (fun hi => (hsub i hi).1))⟩
  · by_cases hqq : q = toInt32 p
    · subst hqq
      rw [hc.hasRow_iff_of_row hy hyp, h.rows, ← hkept hno, ← hrw]
      exact ⟨fun hr => hr.elim And.right (fun hr => absurd rfl hr.1),
        fun hr => Or.inl ⟨rfl, hr⟩⟩
    · exact hother q hqq name weight
  · rw [h.shown_items hns]
    exact ⟨fun hi => hi.elim id (fun hi => by rw [hi.1]; exact (hsub i hi.2).2), Or.inl⟩

end Shown

/-- **When an update changes exactly the playlist it names**: exactly when
the database and the request meet `KeepsTo`. Of its conditions the first is
the one that fails in practice: a playlist without items is not found, so its
ID is lost and a new playlist is made.

It is asked of requests by ID that were answered, for a playlist that exists
and a name that no other one has. -/
theorem playlistUpdate_updatesOnly_iff (fp : FloatOps) (ch : ℕ → Chance) (busy : Bool)
    (params : QueryParams) (hparams : ∀ a ∈ selectors, params a = none)
    (request : PlaylistMergeRequest) (p : ℤ) (hid : request.playlistID = some p)
    (lists : SharedList → Playlist) (db : Db) (hc : Consistent db) (name weight : Value)
    (hrow : HasRow db p name weight)
    (hfree : ∀ b, request.name = some b → ∀ x ∈ (db "Playlist").rows,
      x "PlaylistID" ≠ .integer p → (numericOfText fp b).same (x "name") = false)
    (reply : Reply)
    (hok : (playlistUpdate fp ch busy params request lists db).reply = .ok reply) :
    UpdatesOnly fp db (playlistUpdate fp ch busy params request lists db).db p request name weight
      ↔ KeepsTo fp db p request := by
  obtain ⟨pl, r, n, h⟩ := playlistUpdate_updated fp ch busy hparams hid hc hok
  obtain ⟨chance, found, hload⟩ := h.fetched
  rcases loadById_withChildren fp chance hc (toInt32 p) with
    ⟨hempty, hfetch⟩ | ⟨y, hy, ns, hyp, hne, hns, hfetch⟩
  · obtain ⟨-, rfl⟩ := Prod.mk.inj (Option.some.inj (hload.symm.trans hfetch))
    refine iff_of_false (h.not_shown hrow) (fun hkeep => ?_)
    have hshown := hkeep.shown
    rw [hempty] at hshown
    exact Set.not_nonempty_empty hshown
  · obtain ⟨-, rfl⟩ := Prod.mk.inj (Option.some.inj (hload.symm.trans hfetch))
    have hn : n = toInt32 p := by
      rw [h.key]
      show ((y "PlaylistID").toColumnInt) = _
      rw [hyp, Value.toColumnInt_integer, toInt32_toInt32]
    subst hn
    by_cases hp : toInt32 p = p
    · exact ⟨h.keepsTo_of_fits hc hy hyp hns hrow hne hp,
        fun hkeep => h.updatesOnly_of_fits hc hy hyp hns hrow hfree hkeep hp⟩
    · exact ⟨h.keepsTo_of_not_fits hc hy hyp hns hrow hfree hne hp,
        fun hkeep => h.updatesOnly_of_not_fits hc hy hyp hns hrow hfree hkeep hp⟩

/-- The playlist with the items 1 and 2 gets another name. It is sent with the item 2 alone,
which it has already, so its items stay as they are. -/
theorem playlistUpdate_updatesOnly_evening :
    UpdatesOnly .whole eveningDb (playlistUpdate .whole (fun _ => .stored) false noParams
      { playlistID := some 1, name := some (ascii "night"), playableItemID := [2] } emptyLists
      eveningDb).db 1 { playlistID := some 1, name := some (ascii "night"), playableItemID := [2] }
      (.text (ascii "evening")) (.integer 1) := by
  refine (playlistUpdate_updatesOnly_iff .whole (fun _ => .stored) false noParams
    (fun _ _ => rfl) { playlistID := some 1, name := some (ascii "night"), playableItemID := [2] }
    1 rfl emptyLists eveningDb consistent_eveningDb (.text (ascii "evening")) (.integer 1)
    (by decide +kernel) ?_ _ rfl).mpr
    ⟨⟨1, by decide +kernel⟩, fun b hb => ?_, fun h => (by cases h), fun _ => by decide +kernel,
      Or.inl (by decide)⟩
  · have hall : ∀ x ∈ (eveningDb "Playlist").rows, x "PlaylistID" = .integer 1 := by
      decide +kernel
    exact fun b _ x hx hne => absurd (hall x hx) hne
  · cases hb
    decide

/-- A playlist without items. It is in its table, and no view shows it. -/
def quietDb : Db := databaseOf [.playlist { name := some (ascii "quiet"), weight := some 1 }]

/-- **An update of a playlist without items** leaves it alone and makes a new
one. It is answered like any other, so the client does not see it. -/
theorem playlistUpdate_quiet :
    Consistent quietDb ∧ HasRow quietDb 1 (.text (ascii "quiet")) (.integer 1)
      ∧ (∃ reply, (playlistUpdate .whole (fun _ => .stored) false noParams
        { playlistID := some 1, weight := some 2 } emptyLists quietDb).reply = .ok reply)
      ∧ ¬UpdatesOnly .whole quietDb (playlistUpdate .whole (fun _ => .stored) false noParams
        { playlistID := some 1, weight := some 2 } emptyLists quietDb).db 1
        { playlistID := some 1, weight := some 2 } (.text (ascii "quiet")) (.integer 1) := by
  refine ⟨consistent_of_isConsistent (by decide +kernel), by decide +kernel, ⟨_, rfl⟩,
    fun hupd => ?_⟩
  have hnew : HasRow (playlistUpdate .whole (fun _ => .stored) false noParams
      { playlistID := some 1, weight := some 2 } emptyLists quietDb).db 2 .null (.integer 2) := by
    decide +kernel
  have hold : ¬HasRow quietDb 2 .null (.integer 2) := by decide +kernel
  exact hold (((hupd.others 2 (by decide)).1 _ _).mp hnew)
