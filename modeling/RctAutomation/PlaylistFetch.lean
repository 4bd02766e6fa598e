import RctAutomation.PlaylistFilter
import RctAutomation.WebApi

/-!
# The request `/playlist/fetch`

A fetched list is filtered by a regular expression if the request has one, and
shows either the items that match or their IDs. `truncate` is to bound the
number of records that are returned. It removes items only, one by one, until
no more are left than it says: `truncates_iff` says when the result is bounded.

The regular expressions come from a library, which either compiles a text or
does not. `compile` stands for it.
-/

open Sql

/-! ## The loop -/

/-- The loop of `FilterAndReturn`. `RemoveLast` of an empty list is not
defined, so there is no result where the loop gets there. -/
def truncateLoop {α : Type} (limit : ℤ) (items : List α) : Option (List α) :=
  if limit < items.length then
    match items with
    | [] => none
    | a :: rest => truncateLoop limit (a :: rest).dropLast
  else some items
termination_by items.length
decreasing_by simp

/-- **What the loop leaves**: as many elements as the limit says, unless it
is negative. The induction is from the end, since the last element is the one
that is removed; there is no result where none is left to be removed. -/
theorem truncateLoop_eq {α : Type} (limit : ℤ) (items : List α) :
    truncateLoop limit items = if 0 ≤ limit then some (items.take limit.toNat) else none := by
  -- on the last element, which is the one that is removed
  induction items using List.reverseRecOn with
  | nil =>
    unfold truncateLoop
    simp only [List.length_nil, Nat.cast_zero, List.take_nil, ← not_le, ite_not]
  | append_singleton items a ih =>
    by_cases hlong : limit < (items ++ [a]).length
    · have hstep : truncateLoop limit (items ++ [a]) = truncateLoop limit items := by
        conv_lhs => unfold truncateLoop
        rw [if_pos hlong]
        split
        · rename_i hnil
          cases List.append_ne_nil_of_right_ne_nil items (List.cons_ne_nil a []) hnil
        · rename_i b rest hcons
          rw [← hcons, List.dropLast_concat]
      rw [hstep, ih, List.take_append_of_le_length]
      simp at hlong
      omega
    · unfold truncateLoop
      rw [if_neg hlong, if_pos (by omega), List.take_of_length_le (by omega)]

namespace PlaylistCommand

/-! ## The result of a request -/

/-- **`Filter`**: what is shown of a list. Without a filter the items
themselves are dropped, and with one either the items or their IDs. -/
def filter (cat : Catalog) (compile : Bytes → Option (Bytes → Bool)) (params : QueryParams)
    (db : Db) (input : Playlist) : Option Playlist :=
  match params "filter" with
  | some regexp =>
    (input.filter cat db (compile regexp)).map fun output =>
      if (params "noitems").isSome || (params "alsosave").isSome then { output with items := [] }
      else { output with playableItemID := [] }
  | none => some { input with items := [] }

/-- **`FilterAndReturn`**, up to the message that it writes. Without a
message the loop has reached an empty list. -/
def filterAndReturn (cat : Catalog) (compile : Bytes → Option (Bytes → Bool))
    (params : QueryParams) (db : Db) (input : Playlist) : Except Stop (Option Playlist) :=
  match filter cat compile params db input with
  | none => .error .aborted
  | some output =>
    match argumentOrDefault params "truncate" llongMax with
    | .error s => .error s
    | .ok limit => .ok ((truncateLoop limit output.items).map fun items =>
        { output with items := items })

end PlaylistCommand

/-- The records that a list shows: its items, or else their IDs. Only one of
the two is left of a list that is shown. -/
def Playlist.records (p : Playlist) : List (PlayableItem ⊕ ℤ) :=
  p.items.map Sum.inl ++ p.playableItemID.map Sum.inr

namespace PlaylistCommand

/-- **The result is bounded**: it is the start of what the request returns
without `truncate`, with as many records as the number says, or all if there
are fewer. -/
def Truncates (cat : Catalog) (compile : Bytes → Option (Bytes → Bool)) (params : QueryParams)
    (db : Db) (input : Playlist) (b : Bytes) (n : ℤ) : Prop :=
  ∃ full output,
    filterAndReturn cat compile (Function.update params "truncate" none) db input = .ok (some full)
    ∧ filterAndReturn cat compile (Function.update params "truncate" (some b)) db input
      = .ok (some output)
    ∧ output.records = full.records.take (min (max n 0) full.records.length).toNat

/-- The records are items: there is a filter, and it is not to show IDs. -/
def ShowsItems (params : QueryParams) : Prop :=
  (params "filter").isSome = true ∧ params "noitems" = none ∧ params "alsosave" = none

/-- The IDs that a request shows: those of the list, or of the items that are
found to match. -/
def shownIds (fp : FloatOps) (compile : Bytes → Option (Bytes → Bool)) (params : QueryParams)
    (db : Db) (input : Playlist) : List ℤ :=
  match params "filter" with
  | none => input.playableItemID
  | some regexp =>
    match compile regexp with
    | none => []
    | some re =>
      ((Playlist.holdings fp db {} input.playableItemID).filter (PlayableItem.matchesRe re)).map
        (fun item => item.playableItemID.getD 0)

variable {fp : FloatOps} {ch : Chance} {compile : Bytes → Option (Bytes → Bool)}
  {params : QueryParams} {db : Db} {input : Playlist}

/-- **What is shown**: items without their IDs, or IDs without their items. A
filter keeps nothing else of a list. An expression that does not compile has
the same answer as one that nothing matches. -/
theorem filter_shows (fp : FloatOps) (ch : Chance) (compile : Bytes → Option (Bytes → Bool))
    (params : QueryParams) (db : Db) (input : Playlist) :
    ∃ output, filter (catalog fp ch) compile params db input = some output
      ∧ (ShowsItems params → output.playableItemID = [])
      ∧ (¬ShowsItems params → output.items = []
        ∧ output.playableItemID = shownIds fp compile params db input)
      ∧ (output.name, output.weight, output.length)
        = if (params "filter").isSome then (none, none, none)
          else (input.name, input.weight, input.length) := by
  unfold filter ShowsItems shownIds
  cases hregexp : params "filter" with
  | none => exact ⟨_, rfl, fun h => (by cases h.1), fun _ => ⟨rfl, rfl⟩, rfl⟩
  | some regexp =>
    dsimp only
    have hfilter : ∃ items ids,
        input.filter (catalog fp ch) db (compile regexp)
          = some { items := items, playableItemID := ids }
        ∧ ids = match compile regexp with
          | none => []
          | some re => ((Playlist.holdings fp db {} input.playableItemID).filter
              (PlayableItem.matchesRe re)).map (fun item => item.playableItemID.getD 0) := by
      unfold Playlist.filter
      cases compile regexp with
      | none => exact ⟨[], [], rfl, rfl⟩
      | some re =>
        dsimp only
        rw [Playlist.filterLoop_eq fp ch db re PlayableItem.plain_empty]
        exact ⟨_, _, rfl, rfl⟩
    obtain ⟨items, ids, houtput, hids⟩ := hfilter
    rw [houtput, ← hids]
    by_cases hshows : ((params "noitems").isSome || (params "alsosave").isSome) = true
    · refine ⟨{ playableItemID := ids }, ?_, fun h => ?_, fun _ => ⟨rfl, rfl⟩, rfl⟩
      · rw [Option.map_some, if_pos hshows]
      · rw [h.2.1, h.2.2] at hshows
        cases hshows
    · refine ⟨{ items := items }, ?_, fun _ => rfl, fun h => ?_, rfl⟩
      · rw [Option.map_some, if_neg hshows]
      · exact absurd ⟨rfl, by simpa using hshows⟩ h

/-- The parameter `truncate` is not looked at by the filter. -/
theorem filter_truncate (cat : Catalog) (compile : Bytes → Option (Bytes → Bool))
    (params : QueryParams) (v : Option Bytes) (db : Db) (input : Playlist) :
    filter cat compile (Function.update params "truncate" v) db input
      = filter cat compile params db input := rfl

theorem filterAndReturn_none {output : Playlist}
    (h : filter (catalog fp ch) compile params db input = some output) :
    filterAndReturn (catalog fp ch) compile (Function.update params "truncate" none) db input
      = .ok (some { output with items := output.items.take llongMax.toNat }) := by
  unfold filterAndReturn argumentOrDefault
  rw [filter_truncate, h, Function.update_self]
  dsimp only
  rw [truncateLoop_eq, if_pos (by decide)]
  rfl

theorem filterAndReturn_some {output : Playlist}
    (h : filter (catalog fp ch) compile params db input = some output) {b : Bytes} {n : ℤ}
    (hb : lexicalCast b = some n) :
    filterAndReturn (catalog fp ch) compile (Function.update params "truncate" (some b)) db input
      = .ok (if 0 ≤ n then some { output with items := output.items.take n.toNat } else none) := by
  unfold filterAndReturn argumentOrDefault
  rw [filter_truncate, h, Function.update_self]
  dsimp only
  rw [hb]
  show Except.ok ((truncateLoop n output.items).map _) = _
  rw [truncateLoop_eq]
  split <;> rfl

/-- A value that was cast is a 64-bit one. -/
theorem le_llongMax_of_lexicalCast {b : Bytes} {n : ℤ} (hb : lexicalCast b = some n) :
    n ≤ llongMax := by
  unfold lexicalCast at hb
  dsimp only at hb
  split at hb
  · cases hb
  · split at hb
    · rename_i hfits
      obtain rfl := Option.some.inj hb
      unfold fitsInt64 at hfits
      simp only [Bool.and_eq_true, decide_eq_true_eq] at hfits
      exact hfits.2
    · cases hb

/-- The first elements of a list, and no more than it has. -/
theorem take_min_length {α : Type} (l : List α) {n : ℤ} (hn : 0 ≤ n) :
    l.take (min n l.length).toNat = l.take n.toNat := by
  by_cases hlong : n ≤ l.length
  · rw [min_eq_left hlong]
  · have hle : (l.length : ℤ) ≤ n := (not_le.mp hlong).le
    rw [min_eq_right hle, List.take_of_length_le (by omega), List.take_of_length_le (by omega)]

/-- **When `truncate` bounds the result**: it is not negative, and what is
shown are items, or no more IDs than it says. The loop looks at items only,
so IDs are returned however many there are.

Items are shown where the request has a filter, and neither `noitems` nor
`alsosave`. A negative number is never reached, so the loop takes the items
one by one and goes on when none is left. -/
theorem truncates_iff (fp : FloatOps) (ch : Chance) (compile : Bytes → Option (Bytes → Bool))
    (params : QueryParams) (db : Db) (input : Playlist) (b : Bytes) (n : ℤ)
    (hb : lexicalCast b = some n) :
    Truncates (catalog fp ch) compile params db input b n
      ↔ 0 ≤ n ∧ (ShowsItems params ∨ ((shownIds fp compile params db input).length : ℤ) ≤ n) := by
  obtain ⟨output, hfilter, hitems, hids, -⟩ := filter_shows fp ch compile params db input
  have hmax := le_llongMax_of_lexicalCast hb
  unfold Truncates
  rw [filterAndReturn_none hfilter, filterAndReturn_some hfilter hb]
  by_cases hn : 0 ≤ n
  · rw [if_pos hn, and_iff_right hn, max_eq_left hn]
    have hone : ∀ P : Playlist → Playlist → Prop, ∀ p q : Playlist,
        (∃ full out, (Except.ok (some p) : Except Stop (Option Playlist)) = .ok (some full)
          ∧ (Except.ok (some q) : Except Stop (Option Playlist)) = .ok (some out) ∧ P full out)
          ↔ P p q := by
      intro P p q
      simp
    rw [hone (fun full out => out.records
      = full.records.take (min n full.records.length).toNat)]
    unfold Playlist.records
    by_cases hshows : ShowsItems params
    · refine iff_of_true ?_ (Or.inl hshows)
      rw [hitems hshows, take_min_length _ hn]
      simp only [List.map_nil, List.append_nil, ← List.map_take, List.take_take]
      rw [min_eq_left (Int.toNat_le_toNat hmax)]
    · obtain ⟨hnone, hshown⟩ := hids hshows
      rw [or_iff_right hshows, ← hshown, hnone, take_min_length _ hn]
      simp only [List.take_nil, List.map_nil, List.nil_append]
      rw [eq_comm, List.take_eq_self_iff, List.length_map]
      exact Int.le_toNat hn
  · rw [if_neg hn]
    refine iff_of_false ?_ (fun h => hn h.1)
    rintro ⟨full, out, -, hout, -⟩
    cases hout

/-! ## Two records -/

/-- A library that compiles every text to the texts with an `a`. -/
def compileLetter : Bytes → Option (Bytes → Bool) := fun _ => some (Playlist.containing 97)

/-- The parameters of a request with a filter. -/
def filterParams : QueryParams := Function.update noParams "filter" (some (ascii "a"))

/-- Items are truncated, as the request has a filter. -/
theorem truncates_items :
    Truncates (catalog .whole .stored) compileLetter filterParams songDb
      { playableItemID := [1, 1] } (ascii "1") 1 :=
  (truncates_iff .whole .stored compileLetter filterParams songDb { playableItemID := [1, 1] }
    (ascii "1") 1 (by decide)).mpr ⟨by decide, Or.inl ⟨rfl, rfl, rfl⟩⟩

/-- **IDs are not truncated**, and a negative number empties the list and
goes on. -/
theorem truncate_keeps_ids :
    filterAndReturn (catalog .whole .stored) compileLetter
        (Function.update noParams "truncate" (some (ascii "1"))) songDb { playableItemID := [1, 1] }
        = .ok (some { playableItemID := [1, 1] })
      ∧ ¬Truncates (catalog .whole .stored) compileLetter noParams songDb
        { playableItemID := [1, 1] } (ascii "1") 1
      ∧ filterAndReturn (catalog .whole .stored) compileLetter
        (Function.update filterParams "truncate" (some (ascii "-1"))) songDb
        { playableItemID := [1, 1] } = .ok none
      ∧ ¬Truncates (catalog .whole .stored) compileLetter filterParams songDb
        { playableItemID := [1, 1] } (ascii "-1") (-1) := by
  have hids : filter (catalog .whole .stored) compileLetter noParams songDb
      { playableItemID := [1, 1] } = some { playableItemID := [1, 1] } := rfl
  have hone : filterAndReturn (catalog .whole .stored) compileLetter
      (Function.update noParams "truncate" (some (ascii "1"))) songDb { playableItemID := [1, 1] }
      = .ok (some { playableItemID := [1, 1] }) :=
    filterAndReturn_some hids (by decide : lexicalCast (ascii "1") = some 1)
  have hall : filterAndReturn (catalog .whole .stored) compileLetter
      (Function.update noParams "truncate" none) songDb { playableItemID := [1, 1] }
      = .ok (some { playableItemID := [1, 1] }) :=
    filterAndReturn_none hids
  obtain ⟨output, hfilter, -⟩ := filter_shows .whole .stored compileLetter filterParams songDb
    { playableItemID := [1, 1] }
  have hneg : filterAndReturn (catalog .whole .stored) compileLetter
      (Function.update filterParams "truncate" (some (ascii "-1"))) songDb
      { playableItemID := [1, 1] } = .ok none :=
    filterAndReturn_some hfilter (by decide : lexicalCast (ascii "-1") = some (-1))
  refine ⟨hone, ?_, hneg, ?_⟩
  · rintro ⟨full, out, hfull, hout, hrecords⟩
    rw [hall] at hfull
    rw [hone] at hout
    obtain rfl := Option.some.inj (Except.ok.inj hfull)
    obtain rfl := Option.some.inj (Except.ok.inj hout)
    exact absurd (congrArg List.length hrecords) (by decide)
  · rintro ⟨full, out, -, hout, -⟩
    rw [hneg] at hout
    cases hout

end PlaylistCommand
