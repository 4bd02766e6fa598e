import RctAutomation.Playlists
import RctAutomation.StoredPlaylists

/-!
# What a fetch of a playlist finds

The views show a playlist as one row with its items in one text.
`loadById_withChildren` says what a fetch by ID makes of it: the columns in
their readings, and the items in some order. A playlist without items has no
row in the view, and is not found.
-/

open Sql

/-! ## The text of a list of IDs -/

theorem comma_not_mem_decimal (n : ℤ) : (44 : UInt8) ∉ decimal n :=
  notMem_decimal (by decide) (by decide) n

theorem atoll_decimal {n : ℤ} (h : fitsInt64 n = true) : atoll (decimal n) = n := by
  unfold fitsInt64 at h
  simp only [Bool.and_eq_true, decide_eq_true_eq] at h
  unfold atoll clampInt64
  rw [intPrefix_decimal]
  omega

/-- **The IDs of a text are read back**, if there are any. An empty text
would read as one ID, the zero; a view never shows one, because it leaves out
what has no items. -/
theorem atoll_splitComma_groupConcat (fp : FloatOps) {ns : List ℤ} (hne : ns ≠ [])
    (hfit : ∀ n ∈ ns, fitsInt64 n = true) :
    (splitComma (groupConcat fp (ns.map Value.integer))).map atoll = ns := by
  have htexts : (ns.map Value.integer).map (Value.toText fp) = ns.map decimal := by
    rw [List.map_map]
    rfl
  unfold groupConcat splitComma
  rw [htexts, List.splitOn_intercalate]
  · rw [List.map_map]
    exact (List.map_congr_left (fun n hn => atoll_decimal (hfit n hn))).trans (List.map_id ns)
  · intro l hl
    obtain ⟨n, -, rfl⟩ := List.mem_map.mp hl
    exact comma_not_mem_decimal n
  · simpa using hne

/-! ## The rows of the view -/

variable {fp : FloatOps} {ch : Chance}

theorem orderDesc_perm (col : String) (rows : List Row) : (orderDesc col rows).Perm rows :=
  List.perm_insertionSort ..

/-- The items of a playlist that a view lists are those that the join table
has for it. Their order is another matter. -/
theorem childIds_eq {db : Db} (hc : Consistent db) {items : List Row}
    (hitems : items.Perm (db "PlayableItem").rows) {r : Row} {p : ℤ}
    (hr : r "PlaylistID" = .integer p) :
    ∃ ns : List ℤ, childIds db items r = ns.map Value.integer ∧ ∀ i, i ∈ ns ↔ i ∈ itemsOf db p := by
  have hmem : ∀ v, v ∈ childIds db items r ↔ ∃ i ∈ itemsOf db p, v = .integer i := by
    intro v
    unfold childIds
    simp only [List.mem_flatMap, List.mem_map, List.mem_filter, Bool.and_eq_true]
    constructor
    · rintro ⟨it, hit, j, ⟨hj, hjp, hji⟩, rfl⟩
      obtain ⟨p', i, hp', hi⟩ := hc.integers j hj
      have hpp : j "PlaylistID" = .integer p := (Value.eq_of_same hp' hr hjp).trans hr
      exact ⟨i, ⟨j, hj, hpp, hi⟩, hi⟩
    · rintro ⟨i, ⟨j, hj, hjp, hji⟩, rfl⟩
      obtain ⟨-, it, hit, hiti⟩ := hc.parents p i ⟨j, hj, hjp, hji⟩
      refine ⟨it, hitems.mem_iff.mpr hit, j, ⟨hj, ?_, ?_⟩, hji⟩
      · rw [hjp, hr]
        exact beq_self_eq_true p
      · rw [hji, hiti]
        exact beq_self_eq_true i
  have hint : ∀ v ∈ childIds db items r, Value.integer v.toInt64 = v := by
    intro v hv
    obtain ⟨i, -, rfl⟩ := (hmem v).mp hv
    rfl
  refine ⟨(childIds db items r).map Value.toInt64, ?_, fun i => ?_⟩
  · rw [List.map_map]
    exact ((List.map_congr_left hint).trans (List.map_id _)).symm
  · rw [List.mem_map]
    constructor
    · rintro ⟨v, hv, rfl⟩
      obtain ⟨i, hi, rfl⟩ := (hmem v).mp hv
      exact hi
    · intro hi
      exact ⟨.integer i, (hmem _).mpr ⟨i, hi, rfl⟩, rfl⟩

/-- The playlist a row of a view is loaded as. Each column has the reading
that its field asks for, so the ID and the weight are cut off to an `int` and
a missing name becomes the empty one. -/
def loadedPlaylist (fp : FloatOps) (r : Row) (ns : List ℤ) : Playlist where
  playlistID := some (r "PlaylistID").toColumnInt
  name := some ((r "name").toText fp)
  weight := some (r "weight").toColumnInt
  playableItemID := ns

/-- The columns of a row of a view of playlists. -/
def viewColumns (v : Row) : List (String × Value) :=
  [("PlaylistID", v "PlaylistID"), ("name", v "name"), ("weight", v "weight"),
    ("PlayableItemID", v "PlayableItemID")]

/-- What is loaded from the rows of a view that a query shows, the first of
them only. -/
def loadRows (fp : FloatOps) (lookup : Playlist) (rows : List Row) : Option (Bool × Playlist) :=
  (protoFromRows fp playlistDesc (rows.map viewColumns) lookup.toMessage).map
    fun (found, m) => (found, lookup.readBack m)

/-- The first row is loaded, over the name that was looked up if one was. -/
theorem loadRows_cons (name : Option Bytes) {v : Row} {b : Bytes}
    (hv : v "PlayableItemID" = .text b) (rest : List Row) :
    loadRows fp { name := name } (v :: rest)
      = some (true, loadedPlaylist fp v ((splitComma b).map atoll)) := by
  unfold loadRows
  rw [List.map_cons, viewColumns, hv]
  cases name with
  | none => rfl
  | some name => rfl

/-- **The rows of a view** are those of the playlists with items, each with
the IDs of its items. All results about the views of playlists rest on this
one. -/
theorem mem_playlistsWith {db : Db} {items : List Row} {v : Row} :
    v ∈ playlistsWith fp db items
      ↔ ∃ r ∈ (db "Playlist").rows, childIds db items r ≠ []
        ∧ v = Function.update r "PlayableItemID"
          (.text (groupConcat fp (childIds db items r))) := by
  unfold playlistsWith
  rw [List.mem_filterMap]
  refine exists_congr fun r => and_congr_right fun _ => ?_
  show (if childIds db items r = [] then none else some _) = some v ↔ _
  split
  · rename_i hnil
    exact iff_of_false (fun h => by cases h) fun h => h.1 hnil
  · rename_i hne
    rw [and_iff_right hne, Option.some.injEq, eq_comm]

/-- A view shows a playlist that has items. -/
theorem childIds_ne_nil_iff {db : Db} (hc : Consistent db) {items : List Row}
    (hitems : items.Perm (db "PlayableItem").rows) {r : Row} {p : ℤ}
    (hr : r "PlaylistID" = .integer p) : childIds db items r ≠ [] ↔ (itemsOf db p).Nonempty := by
  obtain ⟨ns, hns, hmem⟩ := childIds_eq hc hitems hr
  rw [hns, Ne, List.map_eq_nil_iff]
  constructor
  · intro hne
    obtain ⟨i, hi⟩ := List.exists_mem_of_ne_nil ns hne
    exact ⟨i, (hmem i).mp hi⟩
  · rintro ⟨i, hi⟩
    exact List.ne_nil_of_mem ((hmem i).mpr hi)

/-- What a row of a view is loaded as: `v` is the row of the view, `r` the
row of the table that it shows, and `ns` are the items in the order in which
they come. -/
structure LoadedRow (fp : FloatOps) (db : Db) (items : List Row) (v r : Row) (p : ℤ) (ns : List ℤ) :
    Prop where
  row : r ∈ (db "Playlist").rows
  id : r "PlaylistID" = .integer p
  shown : v "PlaylistID" = .integer p
  name : v "name" = r "name"
  nonempty : ns ≠ []
  children : childIds db items r = ns.map Value.integer
  items : ∀ i, i ∈ ns ↔ i ∈ itemsOf db p
  loaded : ∀ (name : Option Bytes) (rest : List Row),
    loadRows fp { name := name } (v :: rest) = some (true, loadedPlaylist fp r ns)

/-- **A row of a view is loaded** as the playlist it is made of, with its
items in the order of the view, whatever order that is. -/
theorem load_viewRow {db : Db} (hc : Consistent db) {items : List Row}
    (hitems : items.Perm (db "PlayableItem").rows) {v : Row} (hv : v ∈ playlistsWith fp db items) :
    ∃ r p ns, LoadedRow fp db items v r p ns := by
  obtain ⟨r, hr, hne, rfl⟩ := mem_playlistsWith.mp hv
  obtain ⟨p, hrp⟩ := hc.playlists.keys "PlaylistID" rfl r hr
  obtain ⟨ns, hns, hmem⟩ := childIds_eq hc hitems hrp
  have hnsne : ns ≠ [] := fun h => hne (by rw [hns, h]; rfl)
  have hfit : ∀ i ∈ ns, fitsInt64 i = true := fun i hi =>
    hc.range i (hc.parents p i ((hmem i).mp hi)).2
  refine ⟨r, p, ns, hr, hrp, (Function.update_of_ne (by decide) ..).trans hrp,
    Function.update_of_ne (by decide) .., hnsne, hns, hmem, fun name rest => ?_⟩
  refine (loadRows_cons name (Function.update_self ..) rest).trans ?_
  rw [hns, atoll_splitComma_groupConcat fp hnsne hfit]
  rfl

/-- **What a fetch by ID finds**: a playlist with items, whose columns are
read as the message's fields; and nothing where there are no items, whether
there is such a playlist or not. -/
theorem loadById_withChildren (fp : FloatOps) (ch : Chance) {db : Db} (hc : Consistent db) (p : ℤ) :
    (itemsOf db p = ∅
      ∧ Playlist.loadById (catalog fp ch) "Playlists_with_children" db {} p = some (false, {}))
    ∨ ∃ r ∈ (db "Playlist").rows, ∃ ns, r "PlaylistID" = .integer p ∧ ns ≠ []
      ∧ (∀ i, i ∈ ns ↔ i ∈ itemsOf db p)
      ∧ Playlist.loadById (catalog fp ch) "Playlists_with_children" db {} p
        = some (true, loadedPlaylist fp r ns) := by
  obtain ⟨items, hitems⟩ : ∃ items, items = listedItems db := ⟨_, rfl⟩
  have hperm : items.Perm (db "PlayableItem").rows := by
    rw [hitems]
    exact listedItems_perm db
  have hload : Playlist.loadById (catalog fp ch) "Playlists_with_children" db {} p
      = loadRows fp {} ((playlistsWith fp db items).filter
          (fun r => (r "PlaylistID").same (.integer p))) := by
    rw [hitems]
    rfl
  rw [hload]
  cases hrows : (playlistsWith fp db items).filter
      (fun r => (r "PlaylistID").same (.integer p)) with
  | nil =>
    refine Or.inl ⟨Set.eq_empty_of_forall_notMem (fun i hi => ?_), rfl⟩
    obtain ⟨⟨r, hr, hrp⟩, -⟩ := hc.parents p i hi
    refine absurd ?_ (List.filter_eq_nil_iff.mp hrows _ (mem_playlistsWith.mpr
      ⟨r, hr, (childIds_ne_nil_iff hc hperm hrp).mpr ⟨i, hi⟩, rfl⟩))
    rw [Function.update_of_ne (by decide), hrp]
    exact beq_self_eq_true p
  | cons row rest =>
    have hrow : row ∈ (playlistsWith fp db items).filter
        (fun r => (r "PlaylistID").same (.integer p)) := by
      rw [hrows]
      exact List.mem_cons_self ..
    obtain ⟨hview, hsame⟩ := List.mem_filter.mp hrow
    obtain ⟨r, p', ns, h⟩ := load_viewRow hc hperm hview
    rw [h.shown] at hsame
    obtain rfl : p' = p := eq_of_beq hsame
    exact Or.inr ⟨r, h.row, ns, h.id, h.nonempty, h.items, h.loaded none rest⟩

/-- **A view shows a playlist with a name**: one that has items. Names are
compared as the column stores them, so `01` shows a playlist that is called
`1`. -/
def ShowsName (fp : FloatOps) (db : Db) (name : Bytes) : Prop :=
  ∃ x ∈ (db "Playlist").rows, (x "name").same (numericOfText fp name) = true
    ∧ ∃ q, x "PlaylistID" = .integer q ∧ (itemsOf db q).Nonempty

/-- The rows of a view that have a name. -/
theorem namedView_ne_nil_iff (fp : FloatOps) {db : Db} (hc : Consistent db) {items : List Row}
    (hitems : items.Perm (db "PlayableItem").rows) (name : Bytes) :
    (playlistsWith fp db items).filter (fun r => (r "name").same (numericOfText fp name)) ≠ []
      ↔ ShowsName fp db name := by
  constructor
  · intro hne
    obtain ⟨v, hv⟩ := List.exists_mem_of_ne_nil _ hne
    obtain ⟨hview, hsame⟩ := List.mem_filter.mp hv
    obtain ⟨x, hx, hsome, rfl⟩ := mem_playlistsWith.mp hview
    rw [Function.update_of_ne (by decide)] at hsame
    obtain ⟨q, hq⟩ := hc.playlists.keys "PlaylistID" rfl x hx
    exact ⟨x, hx, hsame, q, hq, (childIds_ne_nil_iff hc hitems hq).mp hsome⟩
  · rintro ⟨x, hx, hsame, q, hq, hsome⟩
    refine List.ne_nil_of_mem (List.mem_filter.mpr ⟨mem_playlistsWith.mpr
      ⟨x, hx, (childIds_ne_nil_iff hc hitems hq).mpr hsome, rfl⟩, ?_⟩)
    rwa [Function.update_of_ne (by decide)]
