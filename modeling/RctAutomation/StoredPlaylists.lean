import Mathlib.Data.Set.Insert
import RctAutomation.RootRows

/-!
# Playlists and their items in the database

A playlist is a row of `Playlist` and its items are rows of
`Playlist_PlayableItemID`. `Consistent` is what SQLite guarantees of a
database with the schema: the unique columns are unique, the keys are
integers, and every row of the join table names a playlist and an item that
exist.

From a consistent database each statement the store makes for a playlist has a
plain meaning. A row of the join table is accepted exactly when both its
parents exist, and adds one item to one playlist
(`Consistent.exec_joinStatement`), so all rows for the items of a playlist are
written or the process aborts (`Consistent.childrenDb`). The root statement of a
replacement is accepted exactly when it deletes no playlist that still has
items (`exec_replaceRoot`).
-/

open Sql

/-! ## What a database holds -/

/-- There is a playlist with the ID. -/
def HasPlaylist (db : Db) (p : ℤ) : Prop :=
  ∃ r ∈ (db "Playlist").rows, r "PlaylistID" = .integer p

/-- There is an item with the ID. -/
def HasItem (db : Db) (i : ℤ) : Prop :=
  ∃ r ∈ (db "PlayableItem").rows, r "PlayableItemID" = .integer i

/-- **The items stored for a playlist**, as a set of IDs. Which rows of the
join table say so, and in which order, is left behind here. -/
def itemsOf (db : Db) (p : ℤ) : Set ℤ :=
  {i | ∃ j ∈ (db "Playlist_PlayableItemID").rows,
    j "PlaylistID" = .integer p ∧ j "PlayableItemID" = .integer i}

instance (db : Db) (p : ℤ) : Decidable (HasPlaylist db p) :=
  inferInstanceAs (Decidable (∃ r ∈ (db "Playlist").rows, r "PlaylistID" = .integer p))

instance (db : Db) (i : ℤ) : Decidable (HasItem db i) :=
  inferInstanceAs (Decidable (∃ r ∈ (db "PlayableItem").rows, r "PlayableItemID" = .integer i))

instance (db : Db) (p i : ℤ) : Decidable (i ∈ itemsOf db p) :=
  inferInstanceAs (Decidable (∃ j ∈ (db "Playlist_PlayableItemID").rows,
    j "PlaylistID" = .integer p ∧ j "PlayableItemID" = .integer i))

/-- **A database as SQLite keeps it** under the schema: the unique columns
are unique, the keys are integers, and the foreign keys that are checked with
each statement hold. -/
structure Consistent (db : Db) : Prop where
  valid : ∀ t ∈ schemaTables, t.Valid (db t.name)
  /-- The columns of the join table are integers, as the keys they refer to. -/
  integers : ∀ j ∈ (db "Playlist_PlayableItemID").rows, ∃ p i,
    j "PlaylistID" = .integer p ∧ j "PlayableItemID" = .integer i
  /-- The foreign keys of the join table hold. -/
  parents : ∀ p, ∀ i ∈ itemsOf db p, HasPlaylist db p ∧ HasItem db i
  /-- An ID is a 64-bit integer. -/
  range : ∀ i, HasItem db i → fitsInt64 i = true

namespace Consistent

variable {db : Db}

theorem playlists (h : Consistent db) : playlistDef.Valid (db "Playlist") :=
  h.valid playlistDef (by simp [schemaTables])

theorem playableItems (h : Consistent db) : playableItemDef.Valid (db "PlayableItem") :=
  h.valid playableItemDef (by simp [schemaTables])

theorem joins (h : Consistent db) : joinDef.Valid (db "Playlist_PlayableItemID") :=
  h.valid joinDef (by simp [schemaTables])

/-- A playlist has one row. -/
theorem row_unique (h : Consistent db) {x y : Row} {p : ℤ}
    (hx : x ∈ (db "Playlist").rows) (hy : y ∈ (db "Playlist").rows)
    (hxp : x "PlaylistID" = .integer p) (hyp : y "PlaylistID" = .integer p) : x = y :=
  h.playlists.eq_of_conflicts hx hy (TableDef.conflicts_of_key (k := "PlaylistID") rfl hxp hyp)

end Consistent

theorem consistent_emptyDb : Consistent emptyDb where
  valid _ _ := ⟨List.Pairwise.nil, fun _ _ _ hr => absurd hr List.not_mem_nil⟩
  integers _ hj := absurd hj List.not_mem_nil
  parents _ _ := fun ⟨_, hj, _⟩ => absurd hj List.not_mem_nil
  range _ := fun ⟨_, hr, _⟩ => absurd hr List.not_mem_nil

/-! ## Orphans -/

variable {fp : FloatOps} {ch : Chance}

/-- The keys checked with each statement are those of the join table. -/
theorem orphans_false (db : Db) :
    (catalog fp ch).orphans false db
      = (db "Playlist_PlayableItemID").rows.countP (Catalog.isOrphan db
          ⟨"Playlist_PlayableItemID", "PlaylistID", "Playlist", "PlaylistID", false⟩)
        + (db "Playlist_PlayableItemID").rows.countP (Catalog.isOrphan db
          ⟨"Playlist_PlayableItemID", "PlayableItemID", "PlayableItem", "PlayableItemID", false⟩)
    := rfl

/-- An integer that refers to a key has a parent when the key exists. -/
theorem isOrphan_eq_false_iff {db : Db} {fk : ForeignKey} {t : TableDef}
    (hv : t.Valid (db fk.parent)) (hkey : t.key = some fk.parentCol) {j : Row} {n : ℤ}
    (hj : j fk.childCol = .integer n) :
    Catalog.isOrphan db fk j = false
      ↔ ∃ r ∈ (db fk.parent).rows, r fk.parentCol = .integer n := by
  unfold Catalog.isOrphan
  rw [hj]
  simp only [Bool.and_eq_false_iff, Bool.not_eq_false', beq_iff_eq, reduceCtorEq, false_or,
    List.any_eq_true]
  constructor
  · rintro ⟨r, hr, hsame⟩
    obtain ⟨m, hm⟩ := hv.keys fk.parentCol hkey r hr
    rw [hm] at hsame
    exact ⟨r, hr, by rw [hm, eq_of_beq hsame]⟩
  · rintro ⟨r, hr, hrn⟩
    refine ⟨r, hr, ?_⟩
    rw [hrn]
    exact beq_self_eq_true n

/-- **No row of the join table is an orphan** when the playlists and the
items it names exist. It turns the count that SQLite compares into a
statement about playlists and items. -/
theorem orphans_eq_zero_iff (fp : FloatOps) (ch : Chance) (db : Db)
    (hp : playlistDef.Valid (db "Playlist"))
    (hi : playableItemDef.Valid (db "PlayableItem"))
    (hint : ∀ j ∈ (db "Playlist_PlayableItemID").rows, ∃ p i,
      j "PlaylistID" = .integer p ∧ j "PlayableItemID" = .integer i) :
    (catalog fp ch).orphans false db = 0
      ↔ ∀ p, ∀ i ∈ itemsOf db p, HasPlaylist db p ∧ HasItem db i := by
  rw [orphans_false, Nat.add_eq_zero_iff, List.countP_eq_zero, List.countP_eq_zero]
  constructor
  · rintro ⟨h₁, h₂⟩ p i ⟨j, hj, hjp, hji⟩
    have hplaylist := Bool.eq_false_iff.mpr (h₁ j hj)
    have hitem := Bool.eq_false_iff.mpr (h₂ j hj)
    rw [isOrphan_eq_false_iff hp rfl hjp] at hplaylist
    rw [isOrphan_eq_false_iff hi rfl hji] at hitem
    exact ⟨hplaylist, hitem⟩
  · intro h
    constructor
    · intro j hj
      obtain ⟨p, i, hjp, hji⟩ := hint j hj
      exact Bool.eq_false_iff.mp ((isOrphan_eq_false_iff hp rfl hjp).mpr
        (h p i ⟨j, hj, hjp, hji⟩).1)
    · intro j hj
      obtain ⟨p, i, hjp, hji⟩ := hint j hj
      exact Bool.eq_false_iff.mp ((isOrphan_eq_false_iff hi rfl hji).mpr
        (h p i ⟨j, hj, hjp, hji⟩).2)

theorem Consistent.orphans {db : Db} (h : Consistent db) :
    (catalog fp ch).orphans false db = 0 :=
  (orphans_eq_zero_iff fp ch db h.playlists h.playableItems h.integers).mpr h.parents

/-- A statement on a consistent database is accepted when it leaves no
orphans. -/
theorem Consistent.checked {db db' : Db} (h : Consistent db) (id : Option ℤ) :
    (catalog fp ch).checked db db' id
      = if (catalog fp ch).orphans false db' = 0 then .ok (db', id) else .error .constraint := by
  unfold Catalog.checked
  rw [h.orphans]
  by_cases h0 : (catalog fp ch).orphans false db' = 0
  · rw [if_neg (by omega), if_pos h0]
  · rw [if_pos (by omega), if_neg h0]

/-! ## Checking a database -/

/-- The value is an integer. -/
def Sql.Value.isInteger : Value → Bool
  | .integer _ => true
  | _ => false

theorem Sql.Value.exists_of_isInteger {v : Value} (h : v.isInteger = true) :
    ∃ n, v = .integer n := by
  cases v with
  | integer n => exact ⟨n, rfl⟩
  | _ => cases h

/-- A check for consistency, which can be computed for a concrete database.
It is enough for it: each part of `Consistent` has one here. -/
def isConsistent (db : Db) : Bool :=
  schemaTables.all (fun t => decide ((db t.name).rows.Pairwise (fun a b => t.conflicts a b = false))
      && (db t.name).rows.all (fun r => t.key.all (fun k => (r k).isInteger)))
    && (db "Playlist_PlayableItemID").rows.all (fun j =>
      (j "PlaylistID").isInteger && (j "PlayableItemID").isInteger)
    && (catalog .whole .stored).orphans false db == 0
    && (db "PlayableItem").rows.all (fun r => fitsInt64 (r "PlayableItemID").toInt64)

/-- **A database that passes the check is consistent.** The check is
computed, so that a concrete database can be shown to be consistent by
evaluation. -/
theorem consistent_of_isConsistent {db : Db} (h : isConsistent db = true) : Consistent db := by
  unfold isConsistent at h
  simp only [Bool.and_eq_true, List.all_eq_true, decide_eq_true_eq, beq_iff_eq] at h
  obtain ⟨⟨⟨htables, hint⟩, horph⟩, hrange⟩ := h
  have hvalid : ∀ t ∈ schemaTables, t.Valid (db t.name) := by
    intro t ht
    obtain ⟨hd, hk⟩ := htables t ht
    refine ⟨hd, fun k hkey r hr => ?_⟩
    have := hk r hr
    rw [hkey] at this
    exact Value.exists_of_isInteger this
  have hints : ∀ j ∈ (db "Playlist_PlayableItemID").rows, ∃ p i,
      j "PlaylistID" = .integer p ∧ j "PlayableItemID" = .integer i := by
    intro j hj
    obtain ⟨p, hp⟩ := Value.exists_of_isInteger (hint j hj).1
    obtain ⟨i, hi⟩ := Value.exists_of_isInteger (hint j hj).2
    exact ⟨p, i, hp, hi⟩
  have hp := hvalid playlistDef (by simp [schemaTables])
  have hi := hvalid playableItemDef (by simp [schemaTables])
  refine ⟨hvalid, hints, (orphans_eq_zero_iff .whole .stored db hp hi hints).mp horph,
    fun i ⟨r, hr, hri⟩ => ?_⟩
  have := hrange r hr
  rw [hri] at this
  exact this

/-! ## A row of the join table -/

/-- Equality as SQL compares, against an integer known to be compared with
one. -/
theorem Sql.Value.eq_of_same {v w : Value} {m n : ℤ} (hv : v = .integer m) (hw : w = .integer n)
    (h : v.same w = true) : v = w := by
  rw [hv, hw] at h ⊢
  rw [eq_of_beq h]

/-- The effect of a row of the join table on the join table: the row is there
afterwards, and so is every other pair. It holds whether the pair was there
before or not. -/
structure JoinsPair (tab tab' : Table) (p i : ℤ) : Prop where
  valid : joinDef.Valid tab'
  there : ∃ x ∈ tab'.rows, x "PlaylistID" = .integer p ∧ x "PlayableItemID" = .integer i
  old : ∀ x ∈ tab'.rows,
    x ∈ tab.rows ∨ x "PlaylistID" = .integer p ∧ x "PlayableItemID" = .integer i
  kept : ∀ x ∈ tab.rows,
    x ∈ tab'.rows ∨ x "PlaylistID" = .integer p ∧ x "PlayableItemID" = .integer i

/-- Rows of the join table conflict when they join the same pair. -/
theorem joinDef_conflicts (a b : Row) :
    joinDef.conflicts a b = ((a "PlaylistID").same (b "PlaylistID")
      && (a "PlayableItemID").same (b "PlayableItemID")) := by
  simp [TableDef.conflicts, TableDef.indexes, TableDef.agreeOn, joinDef]

/-- Inserting a pair under a policy that refuses no row: it is there
afterwards, once. A pair that was there is kept or placed anew. -/
theorem insert_joinRow {oc : OnConflict} (hoc : oc ≠ .abort) {tab : Table}
    (hv : joinDef.Valid tab) (hint : ∀ j ∈ tab.rows, ∃ p i,
      j "PlaylistID" = .integer p ∧ j "PlayableItemID" = .integer i) (p i : ℤ) {r : Row}
    (hp : r "PlaylistID" = .integer p) (hi : r "PlayableItemID" = .integer i) :
    ∃ tab' id, joinDef.insert oc tab r = .ok (tab', id) ∧ JoinsPair tab tab' p i := by
  have hlacks : joinDef.lacksValue r = false := by
    simp [TableDef.lacksValue, joinDef, hp, hi]
  have hpair : ∀ x ∈ tab.rows, joinDef.conflicts r x = true →
      x "PlaylistID" = .integer p ∧ x "PlayableItemID" = .integer i := by
    intro x hx hc
    rw [joinDef_conflicts, Bool.and_eq_true] at hc
    obtain ⟨p', i', hp', hi'⟩ := hint x hx
    exact ⟨(Value.eq_of_same hp hp' hc.1).symm.trans hp,
      (Value.eq_of_same hi hi' hc.2).symm.trans hi⟩
  have hplaced : ∀ tab' : Table,
      tab'.rows = tab.rows.filter (fun x => !joinDef.conflicts r x) ++ [r] →
        JoinsPair tab tab' p i := by
    intro tab' hrows
    refine ⟨hv.append hrows (fun k hk => by cases hk) tab'.seq,
      ⟨r, by rw [hrows]; exact List.mem_append_right _ (List.mem_singleton_self r), hp, hi⟩,
      fun x hx => ?_, fun x hx => ?_⟩
    · rw [hrows] at hx
      rcases List.mem_append.mp hx with hx | hx
      · exact Or.inl (List.mem_filter.mp hx).1
      · rw [List.mem_singleton.mp hx]
        exact Or.inr ⟨hp, hi⟩
    · by_cases hc : joinDef.conflicts r x = true
      · exact Or.inr (hpair x hx hc)
      · rw [hrows]
        exact Or.inl (List.mem_append_left _ (List.mem_filter.mpr ⟨hx, by simpa using hc⟩))
  have hinsert : joinDef.insert oc tab r
      = (joinDef.place oc tab r).map
          fun x => (x.1, if x.2 then joinDef.rowid r else none) := rfl
  rw [hinsert]
  cases oc with
  | abort => exact absurd rfl hoc
  | replace =>
    obtain ⟨tab', hplace, hrows⟩ := TableDef.place_replace tab hlacks
    rw [hplace]
    exact ⟨tab', _, rfl, hplaced tab' hrows⟩
  | ignore =>
    unfold TableDef.place
    rw [hlacks]
    simp only [Bool.false_eq_true, if_false]
    split
    · rename_i hany
      obtain ⟨x, hx, hc⟩ := List.any_eq_true.mp hany
      exact ⟨tab, _, rfl, hv, ⟨x, hx, hpair x hx hc⟩, fun x hx => Or.inl hx,
        fun x hx => Or.inl hx⟩
    · rename_i hno
      exact ⟨joinDef.append tab r, _, rfl, hplaced _ (TableDef.append_rows hno)⟩

/-- The statement for an element of a playlist, bound to the playlist and the
item. -/
def joinStatement (oc : OnConflict) (p i : ℤ) : Prepared :=
  ⟨.insert oc "Playlist_PlayableItemID" ["PlaylistID", "PlayableItemID"], [.integer p, .integer i]⟩

/-- **The items of playlists after a pair is joined**: those before, and the
item for its playlist. -/
theorem JoinsPair.mem_itemsOf {db : Db} {tab' : Table} {p i : ℤ}
    (h : JoinsPair (db "Playlist_PlayableItemID") tab' p i) (q k : ℤ) :
    k ∈ itemsOf (Function.update db "Playlist_PlayableItemID" tab') q
      ↔ k ∈ itemsOf db q ∨ (q = p ∧ k = i) := by
  unfold itemsOf
  simp only [Function.update_self, Set.mem_ofPred_eq]
  constructor
  · rintro ⟨j, hj, hq, hk⟩
    rcases h.old j hj with hj' | ⟨hp, hi⟩
    · exact Or.inl ⟨j, hj', hq, hk⟩
    · exact Or.inr ⟨Value.integer.inj (hq.symm.trans hp), Value.integer.inj (hk.symm.trans hi)⟩
  · rintro (⟨j, hj, hq, hk⟩ | ⟨rfl, rfl⟩)
    · rcases h.kept j hj with hj' | ⟨hp, hi⟩
      · exact ⟨j, hj', hq, hk⟩
      · obtain ⟨x, hx, hxp, hxi⟩ := h.there
        exact ⟨x, hx, hxp.trans (hp.symm.trans hq), hxi.trans (hi.symm.trans hk)⟩
    · obtain ⟨x, hx, hxp, hxi⟩ := h.there
      exact ⟨x, hx, hxp, hxi⟩

/-- A change of the join table that keeps the rest of the database
consistent. The pair that is there afterwards refers to a playlist and an
item that exist. -/
theorem Consistent.update_join {db : Db} (hc : Consistent db) {tab' : Table} {p i : ℤ}
    (h : JoinsPair (db "Playlist_PlayableItemID") tab' p i) (hp : HasPlaylist db p)
    (hi : HasItem db i) : Consistent (Function.update db "Playlist_PlayableItemID" tab') where
  valid t ht := by
    by_cases hname : t.name = "Playlist_PlayableItemID"
    · have : t = joinDef := by
        simp only [schemaTables, List.mem_cons, List.not_mem_nil, or_false] at ht
        rcases ht with rfl | rfl | rfl | rfl | rfl <;> first | rfl | exact absurd hname (by decide)
      subst this
      exact h.valid
    · rw [Function.update_of_ne hname]
      exact hc.valid t ht
  integers j hj := by
    rw [Function.update_self] at hj
    rcases h.old j hj with hj | hj
    · exact hc.integers j hj
    · exact ⟨p, i, hj⟩
  parents q k hk := by
    rcases (h.mem_itemsOf q k).mp hk with hk | ⟨rfl, rfl⟩
    · exact hc.parents q k hk
    · exact ⟨hp, hi⟩
  range k hk := hc.range k hk

/-- **The effect of one element of a playlist** on a consistent database: it
is accepted exactly when the playlist and the item exist. That it may be
there already does not matter: an insertion then ignores it, and a
replacement deletes it first. -/
theorem Consistent.exec_joinStatement (fp : FloatOps) (ch : Chance) {db : Db}
    (hc : Consistent db) {oc : OnConflict}
    (hoc : oc ≠ .abort) (p i : ℤ) :
    (HasPlaylist db p ∧ HasItem db i ∧ ∃ tab' id,
      (catalog fp ch).exec db (joinStatement oc p i)
        = .ok (Function.update db "Playlist_PlayableItemID" tab', id)
      ∧ JoinsPair (db "Playlist_PlayableItemID") tab' p i)
    ∨ (¬(HasPlaylist db p ∧ HasItem db i)
      ∧ (catalog fp ch).exec db (joinStatement oc p i) = .error .constraint) := by
  obtain ⟨tab', id, hins, hpair⟩ := insert_joinRow hoc hc.joins hc.integers p i
    (r := joinDef.toStore fp (TableDef.assigned ["PlaylistID", "PlayableItemID"]
      [.integer p, .integer i])) rfl rfl
  have hexec : (catalog fp ch).exec db (joinStatement oc p i)
      = (catalog fp ch).checked db (Function.update db "Playlist_PlayableItemID" tab') id := by
    show ((joinDef.insert oc (db "Playlist_PlayableItemID") (joinDef.toStore fp
      (TableDef.assigned ["PlaylistID", "PlayableItemID"] [.integer p, .integer i]))).bind _) = _
    rw [hins]
    rfl
  have hint : ∀ j ∈ (Function.update db "Playlist_PlayableItemID" tab'
      "Playlist_PlayableItemID").rows, ∃ p i,
      j "PlaylistID" = .integer p ∧ j "PlayableItemID" = .integer i := by
    intro j hj
    rw [Function.update_self] at hj
    rcases hpair.old j hj with hj | hj
    · exact hc.integers j hj
    · exact ⟨p, i, hj⟩
  have horph := orphans_eq_zero_iff fp ch
    (Function.update db "Playlist_PlayableItemID" tab') hc.playlists hc.playableItems hint
  rw [hexec, hc.checked]
  by_cases hboth : HasPlaylist db p ∧ HasItem db i
  · refine Or.inl ⟨hboth.1, hboth.2, tab', id, ?_, hpair⟩
    rw [if_pos (horph.mpr (hc.update_join hpair hboth.1 hboth.2).parents)]
  · refine Or.inr ⟨hboth, ?_⟩
    rw [if_neg (fun h0 => hboth
      (horph.mp h0 p i ((hpair.mem_itemsOf p i).mpr (Or.inr ⟨rfl, rfl⟩))))]

/-! ## The rows of a repeated field -/

/-- What the rows for a list of items change: the items join one playlist,
nothing leaves any playlist, and no other table is touched. -/
structure JoinsItems (db db' : Db) (p : ℤ) (l : List ℤ) : Prop where
  consistent : Consistent db'
  frame : ∀ t, t ≠ "Playlist_PlayableItemID" → db' t = db t
  items : ∀ q k, k ∈ itemsOf db' q ↔ k ∈ itemsOf db q ∨ (q = p ∧ k ∈ l)

/-- Having a playlist or an item does not depend on the join table. -/
theorem hasPlaylist_congr {db db' : Db} (h : db' "Playlist" = db "Playlist") (p : ℤ) :
    HasPlaylist db' p ↔ HasPlaylist db p := by
  unfold HasPlaylist
  rw [h]

theorem hasItem_congr {db db' : Db} (h : db' "PlayableItem" = db "PlayableItem") (i : ℤ) :
    HasItem db' i ↔ HasItem db i := by
  unfold HasItem
  rw [h]

/-- The parents of the rows for a list of items exist. A list without items
has no rows, so nothing is asked of its playlist. -/
def ParentsExist (db : Db) (p : ℤ) (l : List ℤ) : Prop :=
  (l ≠ [] → HasPlaylist db p) ∧ ∀ i ∈ l, HasItem db i

/-- How the store treats a pair that is already there: it is replaced by
itself, or passed over. -/
def childPolicy (cmd : StoreCmd) : OnConflict := if cmd = .replace then .replace else .ignore

/-- The statement for the items of a playlist, as it is prepared. -/
def itemStatement (cmd : StoreCmd) : Prepared :=
  ⟨.insert (childPolicy cmd) "Playlist_PlayableItemID" ["PlaylistID", "PlayableItemID"],
    [.null, .null]⟩

theorem prepare_itemStatement (fp : FloatOps) (ch : Chance) (cmd : StoreCmd) :
    (catalog fp ch).prepare (childText cmd "Playlist" "PlaylistID" "PlayableItemID")
      = some (itemStatement cmd) := by
  cases cmd <;> rfl

theorem childDb_itemStatement (cmd : StoreCmd) (p i : ℤ) (db : Db) :
    childDb (catalog fp ch) (itemStatement cmd) p i db
      = match (catalog fp ch).exec db (joinStatement (childPolicy cmd) p i) with
        | .ok (db', _) => some db'
        | .error _ => none := rfl

/-- **The rows for the items of a playlist** are all written when their
parents exist, and the process aborts otherwise. By induction on the list:
each row leaves a consistent database in which the same playlists and items
exist. -/
theorem Consistent.childrenDb (fp : FloatOps) (ch : Chance) {db : Db} (hc : Consistent db)
    (cmd : StoreCmd) (p : ℤ)
    (l : List ℤ) :
    (ParentsExist db p l
      ∧ ∃ db', childrenDb (catalog fp ch) (itemStatement cmd) p l db = some db'
        ∧ JoinsItems db db' p l)
    ∨ (¬ParentsExist db p l
      ∧ childrenDb (catalog fp ch) (itemStatement cmd) p l db = none) := by
  have hoc : childPolicy cmd ≠ .abort := by
    unfold childPolicy
    split <;> decide
  induction l generalizing db with
  | nil =>
    refine Or.inl ⟨⟨fun h => absurd rfl h, fun i hi => absurd hi List.not_mem_nil⟩, db, rfl, hc,
      fun _ _ => rfl, fun q k => ?_⟩
    simp
  | cons i l ih =>
    show (_ ∧ ∃ db', (childDb (catalog fp ch) (itemStatement cmd) p i db).bind _ = _ ∧ _)
      ∨ (_ ∧ (childDb (catalog fp ch) (itemStatement cmd) p i db).bind _ = _)
    rw [childDb_itemStatement]
    rcases hc.exec_joinStatement fp ch hoc p i with
      ⟨hp, hi, tab', id, hex, hpair⟩ | ⟨hno, hex⟩
    · rw [hex]
      dsimp only [Option.bind_some]
      have hc' := hc.update_join hpair hp hi
      have hplay : ∀ q, HasPlaylist (Function.update db "Playlist_PlayableItemID" tab') q
          ↔ HasPlaylist db q := hasPlaylist_congr rfl
      have hitem : ∀ k, HasItem (Function.update db "Playlist_PlayableItemID" tab') k
          ↔ HasItem db k := hasItem_congr rfl
      rcases ih hc' with ⟨hpar, db', hch, hjoin⟩ | ⟨hpar, hch⟩
      · refine Or.inl ⟨⟨fun _ => hp, fun k hk => ?_⟩, db', hch, hjoin.consistent,
          fun t ht => (hjoin.frame t ht).trans (Function.update_of_ne ht ..), fun q k => ?_⟩
        · rcases List.mem_cons.mp hk with rfl | hk
          · exact hi
          · exact (hitem k).mp (hpar.2 k hk)
        · rw [hjoin.items, hpair.mem_itemsOf, List.mem_cons]
          tauto
      · refine Or.inr ⟨fun h => hpar ⟨fun _ => (hplay p).mpr hp, fun k hk => ?_⟩, hch⟩
        exact (hitem k).mpr (h.2 k (List.mem_cons_of_mem _ hk))
    · rw [hex]
      exact Or.inr ⟨fun h => hno ⟨h.1 (List.cons_ne_nil _ _), h.2 i (List.mem_cons_self ..)⟩, rfl⟩

/-- The populated repeated fields of a playlist. -/
theorem Playlist.repeateds_toMessage (pl : Playlist) :
    pl.toMessage.listFields.filter FieldDescriptor.repeated
      = (if pl.playableItemID = [] then [] else [⟨"PlayableItemID", 4, .int64, true⟩])
        ++ (if pl.items = [] then [] else [⟨"items", 5, .message, true⟩]) := by
  have hids : (pl.toMessage.val "PlayableItemID").populated = !pl.playableItemID.isEmpty := rfl
  have hitems : (pl.toMessage.val "items").populated = (pl.items.length != 0) := rfl
  unfold Message.listFields
  rw [List.filter_filter]
  show List.filter _ playlistDesc.fields = _
  unfold playlistDesc
  simp only [List.filter_cons, List.filter_nil, hids, hitems, Bool.false_and, Bool.true_and,
    Bool.false_eq_true, if_false]
  cases pl.playableItemID <;> cases pl.items <;> rfl

/-- The repeated fields of a playlist: its items. There is no table for the
messages of items, so a playlist that carries some cannot be stored: its
statement is not prepared, and a check fails on that. -/
theorem allRepeatedDb_playlist {cmd : StoreCmd} {pl : Playlist} {value' : Message} {p : ℤ}
    (hdesc : value'.desc = playlistDesc)
    (hval : value'.val "PlayableItemID" = .ints pl.playableItemID) (db : Db) :
    allRepeatedDb (catalog fp ch) cmd value' p
        (pl.toMessage.listFields.filter FieldDescriptor.repeated) db
      = (childrenDb (catalog fp ch) (itemStatement cmd) p pl.playableItemID db).bind
          fun db' => if pl.items = [] then some db' else none := by
  have hids : ∀ db, repeatedDb (catalog fp ch) cmd value' p ⟨"PlayableItemID", 4, .int64, true⟩ db
      = childrenDb (catalog fp ch) (itemStatement cmd) p pl.playableItemID db := by
    intro db
    have htext := prepare_itemStatement fp ch cmd
    unfold repeatedDb
    rw [hdesc]
    dsimp only [playlistDesc]
    rw [htext]
    dsimp only
    rw [hval]
  have hmessages : ∀ db, repeatedDb (catalog fp ch) cmd value' p ⟨"items", 5, .message, true⟩ db
      = none := by
    intro db
    unfold repeatedDb
    rw [hdesc]
    cases cmd <;> rfl
  rw [Playlist.repeateds_toMessage]
  by_cases hi : pl.items = [] <;> by_cases hp : pl.playableItemID = []
  · simp [hi, hp, allRepeatedDb, childrenDb]
  · simp [hi, hp, allRepeatedDb, hids]
  · simp [hi, hp, allRepeatedDb, childrenDb, hmessages]
  · simp [hi, hp, allRepeatedDb, hids, hmessages]

/-! ## The row of a playlist -/

/-- The row takes the place of another playlist, by its name, and that one
still has items. Deleting it would leave their rows without a parent. -/
def TakesItems (db : Db) (r : Row) : Prop :=
  ∃ x ∈ (db "Playlist").rows, playlistDef.conflicts r x = true
    ∧ ∃ q, x "PlaylistID" = .integer q ∧ r "PlaylistID" ≠ .integer q ∧ (itemsOf db q).Nonempty

/-- What the row of a replacement changes: it takes the place of the rows it
conflicts with – the playlist with its ID, and the one with its name. The
items of playlists are not touched. -/
structure Replaces (db db₁ : Db) (r : Row) (n : ℤ) : Prop where
  consistent : Consistent db₁
  key : r "PlaylistID" = .integer n
  rows : (db₁ "Playlist").rows
    = (db "Playlist").rows.filter (fun x => !playlistDef.conflicts r x) ++ [r]
  frame : ∀ t, t ≠ "Playlist" → db₁ t = db t

theorem Replaces.hasPlaylist {db db' : Db} {r : Row} {n : ℤ} (h : Replaces db db' r n) :
    HasPlaylist db' n :=
  ⟨r, by rw [h.rows]; exact List.mem_append_right _ (List.mem_singleton_self r), h.key⟩

theorem Replaces.itemsOf_eq {db db' : Db} {r : Row} {n : ℤ} (h : Replaces db db' r n) (q : ℤ) :
    itemsOf db' q = itemsOf db q := by
  unfold itemsOf
  rw [h.frame "Playlist_PlayableItemID" (by decide)]

theorem Replaces.hasItem_iff {db db' : Db} {r : Row} {n : ℤ} (h : Replaces db db' r n) (i : ℤ) :
    HasItem db' i ↔ HasItem db i :=
  hasItem_congr (h.frame "PlayableItem" (by decide)) i

/-- The playlists left by a row that is placed: its own, and those whose rows
do not conflict with it. -/
theorem hasPlaylist_update {db : Db} (hc : Consistent db) {r : Row} {n : ℤ}
    (hn : r "PlaylistID" = .integer n) {tab : Table}
    (hrows : tab.rows = (db "Playlist").rows.filter (fun x => !playlistDef.conflicts r x) ++ [r])
    {q : ℤ} (hq : HasPlaylist db q) :
    HasPlaylist (Function.update db "Playlist" tab) q
      ↔ q = n ∨ ∀ x ∈ (db "Playlist").rows, x "PlaylistID" = .integer q →
        playlistDef.conflicts r x = false := by
  unfold HasPlaylist
  rw [Function.update_self, hrows]
  obtain ⟨x, hx, hxq⟩ := hq
  constructor
  · rintro ⟨y, hy, hyq⟩
    rcases List.mem_append.mp hy with hy | hy
    · refine Or.inr (fun z hz hzq => ?_)
      obtain ⟨hy, hno⟩ := List.mem_filter.mp hy
      have hyz : y = z := hc.playlists.eq_of_conflicts hy hz
        (TableDef.conflicts_of_key (k := "PlaylistID") rfl hyq hzq)
      rw [← hyz]
      simpa using hno
    · rw [List.mem_singleton.mp hy] at hyq
      exact Or.inl (Value.integer.inj (hyq.symm.trans hn))
  · rintro (rfl | h)
    · exact ⟨r, List.mem_append_right _ (List.mem_singleton_self r), hn⟩
    · exact ⟨x, List.mem_append_left _ (List.mem_filter.mpr ⟨hx, by rw [h x hx hxq]; rfl⟩), hxq⟩

/-- A playlist's row lacks no value once it has its key. -/
theorem playlistDef_lacksValue {r : Row} {n : ℤ} (hn : r "PlaylistID" = .integer n) :
    playlistDef.lacksValue r = false := by
  simp [TableDef.lacksValue, playlistDef, hn]

section Placed

variable {db : Db} (hc : Consistent db) {r : Row} {n : ℤ} (hn : r "PlaylistID" = .integer n)
  {tab : Table}
  (hrows : tab.rows = (db "Playlist").rows.filter (fun x => !playlistDef.conflicts r x) ++ [r])

include hc hn hrows

/-- The table of playlists is valid with the row. -/
theorem Consistent.valid_update :
    playlistDef.Valid (Function.update db "Playlist" tab "Playlist") := by
  rw [Function.update_self]
  exact hc.playlists.append hrows (fun k hk => by cases hk; exact ⟨n, hn⟩) tab.seq

/-- **The items keep their playlists** unless the row takes the place of one
that has items. -/
theorem Consistent.parents_update_iff :
    (∀ p, ∀ i ∈ itemsOf (Function.update db "Playlist" tab) p,
      HasPlaylist (Function.update db "Playlist" tab) p
        ∧ HasItem (Function.update db "Playlist" tab) i) ↔ ¬TakesItems db r := by
  constructor
  · -- the playlist whose place is taken is gone, and its items are not
    rintro hparents ⟨x, hx, hconf, q, hq, hne, i, hi⟩
    rcases (hasPlaylist_update hc hn hrows ⟨x, hx, hq⟩).mp (hparents q i hi).1 with rfl | h
    · exact hne hn
    · rw [h x hx hq] at hconf
      cases hconf
  · intro htakes p i hi
    obtain ⟨hp, hitem⟩ := hc.parents p i hi
    refine ⟨(hasPlaylist_update hc hn hrows hp).mpr ?_, hitem⟩
    by_cases hpn : p = n
    · exact Or.inl hpn
    · refine Or.inr (fun x hx hxp => Bool.eq_false_iff.mpr (fun hconf => htakes ?_))
      refine ⟨x, hx, hconf, p, hxp, fun h => hpn ?_, i, hi⟩
      exact (Value.integer.inj (hn.symm.trans h)).symm

/-- The database with the row, if the items keep their playlists. -/
theorem Consistent.replaces_update (htakes : ¬TakesItems db r) :
    Replaces db (Function.update db "Playlist" tab) r n := by
  refine ⟨⟨fun t ht => ?_, hc.integers, (hc.parents_update_iff hn hrows).mpr htakes, hc.range⟩, hn,
    by rw [Function.update_self, hrows], fun t ht => Function.update_of_ne ht ..⟩
  by_cases hname : t.name = "Playlist"
  · have : t = playlistDef := by
      simp only [schemaTables, List.mem_cons, List.not_mem_nil, or_false] at ht
      rcases ht with rfl | rfl | rfl | rfl | rfl <;> first | rfl | exact absurd hname (by decide)
    subst this
    exact hc.valid_update hn hrows
  · rw [Function.update_of_ne hname]
    exact hc.valid t ht

end Placed

/-- The statement for the row of a replaced playlist places it, and the
foreign keys are checked after that. The rows that it conflicts with, by its
ID or its name, are gone. -/
theorem exec_replaceRoot_eq {db : Db} {pl : Playlist} {ps : Prepared}
    (hps : rootStatement (catalog fp ch) .replace pl.toMessage = some ps) {r : Row} {n : ℤ}
    (hk : playlistDef.keyed (db "Playlist") (rowOf playlistDef fp pl.toMessage) = .ok r)
    (hn : r "PlaylistID" = .integer n) :
    ∃ tab : Table,
      tab.rows = (db "Playlist").rows.filter (fun x => !playlistDef.conflicts r x) ++ [r]
      ∧ (catalog fp ch).exec db ps
        = (catalog fp ch).checked db (Function.update db "Playlist" tab) (some n) := by
  obtain ⟨tab, hplace, hrows⟩ := TableDef.place_replace (db "Playlist")
    (playlistDef_lacksValue hn)
  have hins : playlistDef.insert .replace (db "Playlist") (rowOf playlistDef fp pl.toMessage)
      = .ok (tab, some n) := by
    have hid : playlistDef.rowid r = some n := by
      unfold TableDef.rowid
      show (match r "PlaylistID" with | .integer n => some n | _ => none) = some n
      rw [hn]
    unfold TableDef.insert
    rw [hk]
    simp only [Except.bind]
    rw [hplace]
    simp [Except.map, hid]
  refine ⟨tab, hrows, ?_⟩
  rw [exec_rootStatement (by decide) pl.typed
    (Playlist.ordered (Playlist.length_of_rootStatement hps)) hps (t := playlistDef) rfl]
  show (playlistDef.insert .replace (db "Playlist") (rowOf playlistDef fp pl.toMessage)).bind _ = _
  rw [hins]
  rfl

/-- **The effect of the row of a replaced playlist** on a consistent
database: it is accepted unless it takes the place of a playlist that has
items. Taking the place of the playlist with its own ID leaves no orphans,
since the row has that ID, too. -/
theorem Consistent.exec_replaceRoot {db : Db} (hc : Consistent db) {pl : Playlist} {ps : Prepared}
    (hps : rootStatement (catalog fp ch) .replace pl.toMessage = some ps) {r : Row}
    (hk : playlistDef.keyed (db "Playlist") (rowOf playlistDef fp pl.toMessage) = .ok r) :
    (¬TakesItems db r ∧ ∃ db₁ n,
      (catalog fp ch).exec db ps = .ok (db₁, some n) ∧ Replaces db db₁ r n)
    ∨ (TakesItems db r ∧ (catalog fp ch).exec db ps = .error .constraint) := by
  obtain ⟨n, hn⟩ := TableDef.keyed_key hk (k := "PlaylistID") rfl
  obtain ⟨tab, hrows, hexec⟩ := exec_replaceRoot_eq hps hk hn
  have horph : (catalog fp ch).orphans false (Function.update db "Playlist" tab) = 0
      ↔ ¬TakesItems db r :=
    (orphans_eq_zero_iff fp ch _ (hc.valid_update hn hrows) hc.playableItems hc.integers).trans
      (hc.parents_update_iff hn hrows)
  rw [hexec, hc.checked]
  by_cases htakes : TakesItems db r
  · rw [if_neg (fun h0 => horph.mp h0 htakes)]
    exact Or.inr ⟨htakes, rfl⟩
  · rw [if_pos (horph.mpr htakes)]
    exact Or.inl ⟨htakes, _, n, rfl, hc.replaces_update hn hrows htakes⟩
