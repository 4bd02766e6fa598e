import RctAutomation.FetchedItems

/-!
# Filtering a playlist

`Filter` fetches the item of each slot into one object and keeps a copy of the
object where it matches the expression. Nothing looks at whether the fetch
found a row, and a slot that was taken is not passed over. So the item of the
last slot that had a row appears again for a slot that has none, and
`filtersExactly_iff` says for which playlists that does not happen.

The expression is what it says of a text. It is matched with the description
and with the file name.
-/

open Sql

/-- `matches`: an expression matches the description or the file name. A
field that is not set is matched as the empty text. -/
def PlayableItem.matchesRe (re : Bytes → Bool) (item : PlayableItem) : Bool :=
  re (item.description.getD []) || re (item.filename.getD [])

namespace Playlist

/-- The loop of `Filter`: the items that are added. One object is fetched
into for all slots, and copied where it matches. -/
def filterLoop (cat : Catalog) (db : Db) (re : Bytes → Bool) :
    List ℤ → PlayableItem → Option (List PlayableItem)
  | [], _ => some []
  | id :: ids, item =>
    match item.fetch cat db id with
    | none => none
    | some (_, item') =>
      (filterLoop cat db re ids item').map fun items =>
        if item'.matchesRe re then item' :: items else items

/-- **`Filter`**, given the expression if it compiles: the items and the IDs
they show. An expression that does not compile has an empty result. -/
def filter (cat : Catalog) (db : Db) (p : Playlist) (re : Option (Bytes → Bool)) :
    Option Playlist :=
  match re with
  | none => some {}
  | some re =>
    (filterLoop cat db re p.playableItemID {}).map fun items =>
      { items := items, playableItemID := items.map (fun item => item.playableItemID.getD 0) }

/-! ## What it should return -/

/-- A slot that was not taken, whose item exists and matches: its ID, and the
item. This is what the result should have for the slot. -/
def matchingSlot (fp : FloatOps) (db : Db) (re : Bytes → Bool) (id : ℤ) :
    Option (ℤ × PlayableItem) :=
  if id = 0 then none
  else ((PlayableItem.row? db id).map (PlayableItem.ofRow fp)).bind fun item =>
    if item.matchesRe re then some (id, item) else none

/-- **Exactly the matching items**, in the order of the slots, each with the
ID of its slot. -/
def FiltersExactly (fp : FloatOps) (ch : Chance) (db : Db) (p : Playlist) (re : Bytes → Bool) :
    Prop :=
  ∃ result, p.filter (catalog fp ch) db (some re) = some result
    ∧ result.items = (p.playableItemID.filterMap (matchingSlot fp db re)).map Prod.snd
    ∧ result.playableItemID = (p.playableItemID.filterMap (matchingSlot fp db re)).map Prod.fst

/-- The slot was taken, or its item does not exist. A fetch for such a slot
finds no row. -/
def Vacant (db : Db) (id : ℤ) : Prop := id = 0 ∨ PlayableItem.row? db id = none

/-- From an item on, the row that was found last does not match where a slot
is vacant. What was found last is a row before the slot, or nothing, and then
it is the item that the loop starts with. -/
def VacantUnmatched (fp : FloatOps) (db : Db) (re : Bytes → Bool) (item : PlayableItem)
    (ids : List ℤ) : Prop :=
  ∀ pre id post, ids = pre ++ id :: post → Vacant db id →
    (item.held fp db (pre ++ [id])).matchesRe re = false

/-- The slots with a matching item have IDs that are read back as they are. -/
def MatchesFit (fp : FloatOps) (db : Db) (re : Bytes → Bool) (ids : List ℤ) : Prop :=
  ∀ id ∈ ids, (matchingSlot fp db re id).isSome = true → FitsInt32 id

/-! ## The loop -/

variable {fp : FloatOps} {ch : Chance} {db : Db} {re : Bytes → Bool}

/-- What the object holds at each slot, whether its fetch found a row or not.
A fetch without a row leaves it as it was. -/
def holdings (fp : FloatOps) (db : Db) : PlayableItem → List ℤ → List PlayableItem
  | _, [] => []
  | item, id :: ids =>
    item.overwritten fp (PlayableItem.row? db id)
      :: holdings fp db (item.overwritten fp (PlayableItem.row? db id)) ids

theorem holdings_cons (item : PlayableItem) (id : ℤ) (ids : List ℤ) :
    holdings fp db item (id :: ids)
      = item.overwritten fp (PlayableItem.row? db id)
        :: holdings fp db (item.overwritten fp (PlayableItem.row? db id)) ids := rfl

/-- **The loop keeps what the object holds**, slot by slot, where that
matches. -/
theorem filterLoop_eq (fp : FloatOps) (ch : Chance) (db : Db) (re : Bytes → Bool)
    {item : PlayableItem} (h : item.Plain) (ids : List ℤ) :
    filterLoop (catalog fp ch) db re ids item
      = some ((holdings fp db item ids).filter (PlayableItem.matchesRe re)) := by
  induction ids generalizing item with
  | nil => rfl
  | cons id ids ih =>
    unfold filterLoop
    rw [holdings_cons, PlayableItem.fetch_plain h]
    dsimp only
    rw [ih (h.overwritten fp _), List.filter_cons]
    rfl

/-- A slot that is not vacant is kept where its item matches. -/
theorem matchingSlot_of_not_vacant (fp : FloatOps) (re : Bytes → Bool) {id : ℤ}
    (h : ¬Vacant db id) (item : PlayableItem) :
    matchingSlot fp db re id
      = if (item.overwritten fp (PlayableItem.row? db id)).matchesRe re
        then some (id, item.overwritten fp (PlayableItem.row? db id)) else none := by
  unfold Vacant at h
  rw [not_or] at h
  obtain ⟨r, hr⟩ := Option.ne_none_iff_exists'.mp h.2
  unfold matchingSlot
  rw [if_neg h.1, hr]
  rfl

theorem matchingSlot_of_vacant {id : ℤ} (h : Vacant db id) : matchingSlot fp db re id = none := by
  unfold matchingSlot
  rcases h with rfl | h
  · rfl
  · rw [h]
    exact ite_self _

/-- No matching item is left out. -/
theorem length_matching_le (fp : FloatOps) (db : Db) (re : Bytes → Bool) (item : PlayableItem)
    (ids : List ℤ) :
    (ids.filterMap (matchingSlot fp db re)).length
      ≤ ((holdings fp db item ids).filter (PlayableItem.matchesRe re)).length := by
  induction ids generalizing item with
  | nil => exact le_refl _
  | cons id ids ih =>
    have hrest := ih (item.overwritten fp (PlayableItem.row? db id))
    rw [holdings_cons]
    by_cases hv : Vacant db id
    · rw [List.filterMap_cons_none (matchingSlot_of_vacant hv)]
      exact le_trans hrest (((List.sublist_cons_self ..).filter _).length_le)
    · have hslot := matchingSlot_of_not_vacant fp re hv item
      by_cases hmatch :
          (item.overwritten fp (PlayableItem.row? db id)).matchesRe re = true
      · rw [if_pos hmatch] at hslot
        rw [List.filterMap_cons_some hslot, List.filter_cons_of_pos hmatch]
        exact Nat.succ_le_succ hrest
      · rw [if_neg hmatch] at hslot
        rw [List.filterMap_cons_none hslot, List.filter_cons_of_neg hmatch]
        exact hrest

/-- A condition on the slots of a list, from its first slot on. What is held
at a slot is what the row there has overwritten of what was held before. -/
theorem vacantUnmatched_cons {item : PlayableItem} {id : ℤ} {ids : List ℤ} :
    VacantUnmatched fp db re item (id :: ids)
      ↔ (Vacant db id → (item.overwritten fp (PlayableItem.row? db id)).matchesRe re = false)
        ∧ VacantUnmatched fp db re (item.overwritten fp (PlayableItem.row? db id)) ids := by
  constructor
  · intro h
    constructor
    · intro hv
      have hheld := h [] id ids rfl hv
      rwa [List.nil_append, PlayableItem.held_cons, PlayableItem.held_nil] at hheld
    · intro pre id' post hids hv
      have hheld := h (id :: pre) id' post (by rw [hids]; rfl) hv
      rwa [List.cons_append, PlayableItem.held_cons] at hheld
  · rintro ⟨hfirst, hrest⟩ pre id' post hids hv
    cases pre with
    | nil =>
      obtain ⟨rfl, -⟩ := List.cons.inj hids
      rw [List.nil_append, PlayableItem.held_cons, PlayableItem.held_nil]
      exact hfirst hv
    | cons i pre =>
      obtain ⟨rfl, hrest'⟩ := List.cons.inj hids
      rw [List.cons_append, PlayableItem.held_cons]
      exact hrest pre id' post hrest' hv

/-- **The items are the matching ones exactly when no vacant slot repeats
one.** The induction is on the slots, with what the object holds before them;
a vacant slot that matches makes the result longer than it should be, and
nothing after it makes up for that. -/
theorem holdings_filter_iff (fp : FloatOps) (db : Db) (re : Bytes → Bool) (item : PlayableItem)
    (ids : List ℤ) :
    (holdings fp db item ids).filter (PlayableItem.matchesRe re)
        = (ids.filterMap (matchingSlot fp db re)).map Prod.snd
      ↔ VacantUnmatched fp db re item ids := by
  induction ids generalizing item with
  | nil =>
    refine iff_of_true rfl (fun pre id post h _ => ?_)
    simp at h
  | cons id ids ih =>
    have hrest := ih (item.overwritten fp (PlayableItem.row? db id))
    rw [vacantUnmatched_cons, ← hrest]
    rw [holdings_cons]
    by_cases hv : Vacant db id
    · rw [List.filterMap_cons_none (matchingSlot_of_vacant hv)]
      by_cases hmatch :
          (item.overwritten fp (PlayableItem.row? db id)).matchesRe re = true
      · -- a repeated item is one too many
        rw [List.filter_cons_of_pos hmatch]
        refine iff_of_false (fun h => ?_) (fun h => ?_)
        · have hlen := length_matching_le fp db re
            (item.overwritten fp (PlayableItem.row? db id)) ids
          have hlong := congrArg List.length h
          rw [List.length_cons, List.length_map] at hlong
          omega
        · rw [h.1 hv] at hmatch
          cases hmatch
      · rw [List.filter_cons_of_neg hmatch]
        exact (and_iff_right (fun _ => Bool.eq_false_iff.mpr hmatch)).symm
    · have hslot := matchingSlot_of_not_vacant fp re hv item
      rw [and_iff_right (fun h => absurd h hv)]
      by_cases hmatch :
          (item.overwritten fp (PlayableItem.row? db id)).matchesRe re = true
      · rw [if_pos hmatch] at hslot
        rw [List.filterMap_cons_some hslot, List.filter_cons_of_pos hmatch, List.map_cons,
          List.cons.injEq, and_iff_right rfl]
      · rw [if_neg hmatch] at hslot
        rw [List.filterMap_cons_none hslot, List.filter_cons_of_neg hmatch]

/-! ## The IDs -/

/-- A slot with a matching item has the row of that item. -/
theorem row?_of_matchingSlot {id : ℤ} {x : ℤ × PlayableItem}
    (h : matchingSlot fp db re id = some x) :
    ∃ r, PlayableItem.row? db id = some r ∧ x = (id, PlayableItem.ofRow fp r) := by
  unfold matchingSlot at h
  split at h
  · cases h
  · obtain ⟨item, hitem, h⟩ := Option.bind_eq_some_iff.mp h
    obtain ⟨r, hr, rfl⟩ := Option.map_eq_some_iff.mp hitem
    split at h
    · exact ⟨r, hr, (Option.some.inj h).symm⟩
    · cases h

/-- The ID that a matching item shows is its slot's, brought to 32 bits. -/
theorem matchingSlot_id (hv : playableItemDef.Valid (db "PlayableItem")) {id : ℤ}
    {x : ℤ × PlayableItem} (h : matchingSlot fp db re id = some x) :
    x.2.playableItemID.getD 0 = toInt32 id ∧ x.1 = id := by
  obtain ⟨r, hr, rfl⟩ := row?_of_matchingSlot h
  refine ⟨?_, rfl⟩
  show (r "PlayableItemID").toColumnInt = toInt32 id
  rw [(PlayableItem.row?_id hv hr).2]
  rfl

/-- **The items show the IDs of their slots exactly when these are 32-bit
integers**, as an ID is read as an `int`. -/
theorem map_id_iff (fp : FloatOps) (re : Bytes → Bool)
    (hv : playableItemDef.Valid (db "PlayableItem")) (ids : List ℤ) :
    (ids.filterMap (matchingSlot fp db re)).map (fun x => x.2.playableItemID.getD 0)
        = (ids.filterMap (matchingSlot fp db re)).map Prod.fst
      ↔ MatchesFit fp db re ids := by
  rw [List.map_inj_left]
  constructor
  · intro h id hid hsome
    obtain ⟨x, hx⟩ := Option.isSome_iff_exists.mp hsome
    have heq := h x (List.mem_filterMap.mpr ⟨id, hid, hx⟩)
    obtain ⟨hread, hslot⟩ := matchingSlot_id hv hx
    rw [hread, hslot] at heq
    rw [← heq]
    exact fitsInt32_toInt32 id
  · intro h x hx
    obtain ⟨id, hid, hx⟩ := List.mem_filterMap.mp hx
    obtain ⟨hread, hslot⟩ := matchingSlot_id hv hx
    rw [hread, hslot]
    exact toInt32_of_fits (h id hid (by rw [hx]; rfl))

/-! ## The result -/

/-- **When filtering returns exactly the matching items**: the row found last
does not match where a slot is vacant, and the IDs are 32-bit integers.

A slot is vacant when it was taken or has no row. The object that the items
are fetched into is not cleared between them, and the result of the fetch is
not looked at, so a vacant slot is judged by the item before it. -/
theorem filtersExactly_iff (fp : FloatOps) (ch : Chance) (db : Db) (p : Playlist)
    (re : Bytes → Bool) (hv : playableItemDef.Valid (db "PlayableItem")) :
    FiltersExactly fp ch db p re
      ↔ VacantUnmatched fp db re {} p.playableItemID ∧ MatchesFit fp db re p.playableItemID := by
  have hfilter := filterLoop_eq fp ch db re PlayableItem.plain_empty
    p.playableItemID
  have hitems := holdings_filter_iff fp db re {} p.playableItemID
  have hids := map_id_iff fp re hv p.playableItemID
  unfold FiltersExactly filter
  dsimp only
  rw [hfilter, ← hitems, ← hids]
  constructor
  · rintro ⟨result, hresult, hi, hl⟩
    obtain rfl := Option.some.inj hresult
    dsimp only at hi hl
    refine ⟨hi, ?_⟩
    rw [← hl, hi, List.map_map]
    rfl
  · rintro ⟨hi, hl⟩
    refine ⟨_, rfl, hi, ?_⟩
    dsimp only
    rw [hi, ← hl, List.map_map]
    rfl

/-! ## Two slots with one song -/

/-- The texts that contain a byte. -/
def containing (c : UInt8) : Bytes → Bool := fun b => b.contains c

/-- A playlist whose songs all exist and were not taken: no slot is vacant. -/
theorem filtersExactly_songs :
    FiltersExactly .whole .stored songDb { playableItemID := [1, 1] } (containing 97) := by
  have hc : Consistent songDb := consistent_of_isConsistent (by decide +kernel)
  refine (filtersExactly_iff .whole .stored songDb { playableItemID := [1, 1] } (containing 97)
    hc.playableItems).mpr ⟨fun pre id post hids hv => ?_, fun id hid _ => ?_⟩
  · have hid : id ∈ [(1 : ℤ), 1] := by
      rw [show [(1 : ℤ), 1] = pre ++ id :: post from hids]
      simp
    obtain rfl : id = 1 := by simpa using hid
    rcases hv with h | h
    · cases h
    · exact absurd h (by decide +kernel)
  · obtain rfl : id = 1 := by simpa using hid
    decide

/-- **Slots that repeat the song before them**: one that was taken, and one
whose song does not exist. Each shows the song that was fetched last. -/
theorem filter_repeats :
    filter (catalog .whole .stored) songDb { playableItemID := [1, 0, 9] }
        (some (containing 97))
      = some { items := List.replicate 3 (PlayableItem.stored .whole songDb 1),
               playableItemID := [1, 1, 1] }
      ∧ [1, 0, 9].filterMap (matchingSlot .whole songDb (containing 97))
        = [(1, PlayableItem.stored .whole songDb 1)]
      ∧ ¬FiltersExactly .whole .stored songDb { playableItemID := [1, 0, 9] }
        (containing 97) := by
  have hcode : filter (catalog .whole .stored) songDb { playableItemID := [1, 0, 9] }
      (some (containing 97))
      = some { items := List.replicate 3 (PlayableItem.stored .whole songDb 1),
               playableItemID := [1, 1, 1] } := by
    decide +kernel
  have hslots : [1, 0, 9].filterMap (matchingSlot .whole songDb (containing 97))
      = [(1, PlayableItem.stored .whole songDb 1)] := by
    decide +kernel
  refine ⟨hcode, hslots, ?_⟩
  rintro ⟨result, hresult, -, hids⟩
  rw [hcode] at hresult
  obtain rfl := Option.some.inj hresult
  rw [hslots] at hids
  cases hids

end Playlist
