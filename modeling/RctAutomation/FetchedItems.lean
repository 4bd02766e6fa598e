import RctAutomation.OverrideQueue

/-!
# Items that are fetched one after the other

A loop over a playlist fetches its items into one object. A fetch that finds a
row writes each of its columns into the object, and a fetch that finds none
leaves there what an earlier one wrote (`PlayableItem.fetch_plain`). After some
fetches the object holds the row that was found last (`PlayableItem.held`), so
what a loop makes of a list depends on the rows its items have and on which of
them have none.
-/

open Sql

namespace PlayableItem

/-- The row with an ID. -/
def row? (db : Db) (id : ℤ) : Option Row :=
  (db "PlayableItem").rows.find? (fun r => (r "PlayableItemID").same (.integer id))

/-- The fields that no column is read into are not set, as in an item that
only ever came from the database. -/
structure Plain (item : PlayableItem) : Prop where
  type : item.type = none
  cache : item.cache = none

theorem plain_empty : Plain {} := ⟨rfl, rfl⟩

theorem plain_ofRow (fp : FloatOps) (r : Row) : (ofRow fp r).Plain := ⟨rfl, rfl⟩

/-- What an item holds once a row was looked for: the row, or what it held
before. -/
def overwritten (fp : FloatOps) (item : PlayableItem) (found : Option Row) : PlayableItem :=
  found.elim item (ofRow fp)

theorem Plain.overwritten {item : PlayableItem} (h : item.Plain) (fp : FloatOps)
    (found : Option Row) : (item.overwritten fp found).Plain := by
  cases found with
  | none => exact h
  | some r => exact plain_ofRow fp r

/-- **What a fetch leaves in an item that was used before.** Every column is
written, so nothing of an earlier row is left if one is found. -/
theorem fetch_plain {item : PlayableItem} (h : item.Plain) (fp : FloatOps) (ch : Chance) (db : Db)
    (id : ℤ) :
    item.fetch (catalog fp ch) db id
      = some ((row? db id).isSome, item.overwritten fp (row? db id)) := by
  have hload : MessageStore.loadById (catalog fp ch) playableItemDesc "PlayableItem" db
      item.toMessage id
      = protoFromRows fp playableItemDesc (((db "PlayableItem").rows.filter
          (fun r => (r "PlayableItemID").same (.integer id))).map
        (fun r => playableItemDef.columns.map (fun col => (col.name, r col.name))))
          item.toMessage := rfl
  unfold fetch row?
  rw [hload, ← List.head?_filter]
  cases (db "PlayableItem").rows.filter (fun r => (r "PlayableItemID").same (.integer id)) with
  | nil =>
    show some (false, readBack item.toMessage) = some (false, item)
    rw [readBack_toMessage]
  | cons r rest =>
    obtain ⟨itemID, filename, duration, description, type, cache, playcount⟩ := item
    obtain rfl : type = none := h.type
    obtain rfl : cache = none := h.cache
    rfl

/-- **What an item holds after it was fetched for some IDs**: the last row that
was found, or what it held before. -/
def held (fp : FloatOps) (db : Db) (item : PlayableItem) (ids : List ℤ) : PlayableItem :=
  item.overwritten fp (ids.filterMap (row? db)).getLast?

@[simp] theorem held_nil (fp : FloatOps) (db : Db) (item : PlayableItem) :
    item.held fp db [] = item := rfl

/-- One more fetch at the start. -/
theorem held_cons (fp : FloatOps) (db : Db) (item : PlayableItem) (id : ℤ) (ids : List ℤ) :
    item.held fp db (id :: ids) = (item.overwritten fp (row? db id)).held fp db ids := by
  unfold held
  rw [List.filterMap_cons]
  cases row? db id with
  | none => rfl
  | some r =>
    dsimp only
    rw [List.getLast?_cons]
    cases (ids.filterMap (row? db)).getLast? <;> rfl

/-! ## The rows of a table of items -/

/-- The ID of a row is an integer, and the row is the only one with it. -/
theorem row?_id {db : Db} (hv : playableItemDef.Valid (db "PlayableItem")) {id : ℤ} {r : Row}
    (h : row? db id = some r) :
    r ∈ (db "PlayableItem").rows ∧ r "PlayableItemID" = .integer id := by
  have hmem := List.mem_of_find?_eq_some h
  have hsame := List.find?_some h
  obtain ⟨n, hn⟩ := hv.keys "PlayableItemID" rfl r hmem
  rw [hn] at hsame
  exact ⟨hmem, by rw [hn, eq_of_beq (show (n == id) = true from hsame)]⟩

theorem row?_eq_some_iff {db : Db} (hv : playableItemDef.Valid (db "PlayableItem")) {id : ℤ}
    {r : Row} :
    row? db id = some r ↔ r ∈ (db "PlayableItem").rows ∧ r "PlayableItemID" = .integer id := by
  refine ⟨row?_id hv, fun ⟨hmem, hid⟩ => ?_⟩
  have hsome : (row? db id).isSome = true := by
    unfold row?
    rw [List.find?_isSome]
    exact ⟨r, hmem, by rw [hid]; exact beq_self_eq_true id⟩
  obtain ⟨r', hr'⟩ := Option.isSome_iff_exists.mp hsome
  obtain ⟨hmem', hid'⟩ := row?_id hv hr'
  rw [hr', hv.eq_of_conflicts hmem' hmem (TableDef.conflicts_of_key rfl hid' hid)]

end PlayableItem
