import Mathlib.Data.Set.Lattice
import RctAutomation.FetchedItems

/-!
# Taking tracks within a limit

`PopWithTimelimit` goes through the slots of a playlist and takes the first
track that is no longer than its limit. It fetches each track into the result,
and does not look at whether the fetch found one. So the result may still hold
the track of an earlier slot – which was rejected there, and is rejected again
for the same reason. That invariant is `Playlist.Rejected`, and
`Playlist.popLoop_takes` is what follows from it for one call.

A slot that is taken is set to zero and passed over from then on, so the slots
that a sequence of calls takes are different ones (`pops_take_first`).
-/

open Sql Transitions

/-! ## Slots that are blanked -/

namespace Slots

variable {ι : Type*} {blank : ι}

/-- The positions at which a slot is blank after an operation and was not
before it. -/
def blanked (blank : ι) (before after : List ι) : Set ℕ :=
  {k | (∃ i, before[k]? = some i ∧ i ≠ blank) ∧ after[k]? = some blank}

/-- An operation that only blanks slots: each slot stays what it is or
becomes blank, and the list keeps its length. -/
def Blanks (blank : ι) (before after : List ι) : Prop :=
  List.Forall₂ (fun i j => j = i ∨ j = blank) before after

theorem Blanks.refl (is : List ι) : Blanks blank is is :=
  List.forall₂_same.mpr (fun _ _ => Or.inl rfl)

theorem Blanks.trans {is js ks : List ι} (h : Blanks blank is js) (h' : Blanks blank js ks) :
    Blanks blank is ks := by
  induction h generalizing ks with
  | nil => exact h'
  | cons hij _ ih =>
    cases h' with
    | cons hjk hrest =>
      refine List.Forall₂.cons ?_ (ih hrest)
      rcases hjk with rfl | rfl
      · exact hij
      · exact Or.inr rfl

/-- One slot is blanked. -/
theorem Blanks.one (pre : List ι) (i : ι) (post : List ι) :
    Blanks blank (pre ++ i :: post) (pre ++ blank :: post) :=
  List.rel_append (Blanks.refl pre) (List.Forall₂.cons (Or.inr rfl) (Blanks.refl post))

/-- A slot that is blank stays blank. -/
theorem Blanks.getElem? {before after : List ι} (h : Blanks blank before after) {k : ℕ}
    (hk : before[k]? = some blank) : after[k]? = some blank := by
  induction h generalizing k with
  | nil => exact hk
  | cons hij _ ih =>
    cases k with
    | zero =>
      obtain rfl := Option.some.inj hk
      rcases hij with rfl | rfl <;> rfl
    | succ k => exact ih hk

/-- A slot that is not blank was there before. -/
theorem Blanks.mem {before after : List ι} (h : Blanks blank before after) {j : ι}
    (hj : j ∈ after) (hne : j ≠ blank) : j ∈ before := by
  induction h with
  | nil => exact hj
  | cons hij _ ih =>
    rcases List.mem_cons.mp hj with rfl | hj
    · rcases hij with rfl | rfl
      · exact List.mem_cons_self ..
      · exact absurd rfl hne
    · exact List.mem_cons_of_mem _ (ih hj)

/-- **What holds of two slots in order, unless one is blank, still does** once
some are blanked. -/
theorem Blanks.pairwise {R : ι → ι → Prop} {before after : List ι}
    (h : Blanks blank before after)
    (hR : before.Pairwise (fun i j => i ≠ blank → j ≠ blank → R i j)) :
    after.Pairwise (fun i j => i ≠ blank → j ≠ blank → R i j) := by
  induction h with
  | nil => exact List.Pairwise.nil
  | cons hij hrest ih =>
    obtain ⟨hfirst, htail⟩ := List.pairwise_cons.mp hR
    refine List.pairwise_cons.mpr ⟨fun j' hj' hj hj'blank => ?_, ih htail⟩
    rcases hij with rfl | rfl
    · exact hfirst j' (Blanks.mem hrest hj' hj'blank) hj hj'blank
    · exact absurd rfl hj

end Slots

namespace Playlist

/-! ## One call -/

/-- The items of a table have positive IDs, and IDs and durations that are
32-bit integers. These are the items whose columns are read as they are
stored. -/
structure ItemTable (db : Db) : Prop where
  valid : playableItemDef.Valid (db "PlayableItem")
  ids : ∀ r ∈ (db "PlayableItem").rows, ∀ n, r "PlayableItemID" = .integer n →
    0 < n ∧ FitsInt32 n
  durations : ∀ r ∈ (db "PlayableItem").rows, FitsInt32 (r "duration").toInt64

/-- A call, with the database it finds. -/
structure PopCall where
  db : Db
  ch : Chance
  seconds : ℤ

/-- The limit is an `int`. -/
structure PopCall.Proper (c : PopCall) : Prop where
  table : ItemTable c.db
  limit : FitsInt32 c.seconds

/-- **A slot fits**: it was not taken, and its item exists and is no longer
than the limit. -/
def Fits (db : Db) (seconds id : ℤ) : Prop :=
  id ≠ 0 ∧ ∃ r, PlayableItem.row? db id = some r ∧ (r "duration").toInt64 ≤ seconds

/-- The call, on a result that was just made, as the source makes one for
each call. -/
def PopCall.run (fp : FloatOps) (c : PopCall) (p : Playlist) : Option (Playlist × PlayableItem) :=
  p.popWithTimelimit (catalog fp c.ch) c.db c.seconds {}

/-- **The first slot that fits is taken, and nothing else**: `pre` are the
slots before it and `post` those after it, the row `r` is that of its item,
and the result shows this row. -/
structure TakesSlot (fp : FloatOps) (c : PopCall) (p : Playlist) (pre : List ℤ) (id : ℤ)
    (post : List ℤ) (r : Row) : Prop where
  slots : p.playableItemID = pre ++ id :: post
  first : ∀ i ∈ pre, ¬Fits c.db c.seconds i
  id_ne : id ≠ 0
  row : PlayableItem.row? c.db id = some r
  duration : (r "duration").toInt64 ≤ c.seconds
  run : c.run fp p
    = some ({ p with playableItemID := pre ++ 0 :: post }, PlayableItem.ofRow fp r)
  shows_id : (PlayableItem.ofRow fp r).playableItemID = some id
  shows_duration : (PlayableItem.ofRow fp r).duration = some (r "duration").toInt64
  size : size { p with playableItemID := pre ++ 0 :: post } + 1 = p.size

/-- **No slot fits**: the list is as it was, and the result is cleared. -/
structure TakesNothing (fp : FloatOps) (c : PopCall) (p : Playlist) : Prop where
  none_fits : ∀ i ∈ p.playableItemID, ¬Fits c.db c.seconds i
  run : c.run fp p = some (p, {})

/-- **What a call does**: it takes the first slot that fits, if there is one. -/
def TakesFirst (fp : FloatOps) (c : PopCall) (p : Playlist) : Prop :=
  (∃ pre id post r, TakesSlot fp c p pre id post r) ∨ TakesNothing fp c p

variable {fp : FloatOps} {ch : Chance} {db : Db} {seconds : ℤ}

/-- The result holds nothing that can be taken: it has no item, or one that
is too long. The code does not look at whether a fetch found its item, so it
may look at this result again for the next slot. -/
def Rejected (seconds : ℤ) (result : PlayableItem) : Prop :=
  ¬(result.playableItemID.getD 0 ≠ 0 ∧ result.duration.getD 0 ≤ seconds)

instance (seconds : ℤ) (result : PlayableItem) : Decidable (Rejected seconds result) :=
  inferInstanceAs (Decidable (¬(_ ∧ _)))

theorem rejected_empty (seconds : ℤ) : Rejected seconds {} := fun h => h.1 rfl

/-- A row is read as it is stored. -/
theorem ItemTable.reads (ht : ItemTable db) (fp : FloatOps) {id : ℤ} {r : Row}
    (hr : PlayableItem.row? db id = some r) :
    0 < id ∧ (PlayableItem.ofRow fp r).playableItemID = some id
      ∧ (PlayableItem.ofRow fp r).duration = some (r "duration").toInt64 := by
  obtain ⟨hmem, hid⟩ := PlayableItem.row?_id ht.valid hr
  obtain ⟨hpos, hfits⟩ := ht.ids r hmem id hid
  refine ⟨hpos, ?_, ?_⟩
  · show some (r "PlayableItemID").toColumnInt = some id
    rw [hid, Value.toColumnInt_integer, toInt32_of_fits hfits]
  · show some (toInt32 (r "duration").toInt64) = some (r "duration").toInt64
    rw [toInt32_of_fits (ht.durations r hmem)]

/-- The first slot that fits is blanked, and its item is the result. If none
does, all slots stay and the result is the empty item. -/
def LoopTakes (fp : FloatOps) (ch : Chance) (db : Db) (seconds : ℤ) (ids : List ℤ)
    (result : PlayableItem) : Prop :=
  (∃ pre id post r, ids = pre ++ id :: post ∧ (∀ i ∈ pre, ¬Fits db seconds i) ∧ id ≠ 0
    ∧ PlayableItem.row? db id = some r ∧ (r "duration").toInt64 ≤ seconds
    ∧ popLoop (catalog fp ch) db seconds ids result
      = some (pre ++ 0 :: post, PlayableItem.ofRow fp r))
  ∨ ((∀ i ∈ ids, ¬Fits db seconds i)
    ∧ popLoop (catalog fp ch) db seconds ids result = some (ids, {}))

/-- A slot that does not fit is passed over, whatever the result holds then. -/
theorem LoopTakes.pass {id : ℤ} {ids : List ℤ} {result result' : PlayableItem}
    (h : LoopTakes fp ch db seconds ids result') (hnot : ¬Fits db seconds id)
    (hloop : popLoop (catalog fp ch) db seconds (id :: ids) result
      = (popLoop (catalog fp ch) db seconds ids result').map (fun x => (id :: x.1, x.2))) :
    LoopTakes fp ch db seconds (id :: ids) result := by
  rcases h with ⟨pre, id', post, r, rfl, hfirst, hne, hrow, hle, hrest⟩ | ⟨hnone, hrest⟩
  · refine Or.inl ⟨id :: pre, id', post, r, rfl, List.forall_mem_cons.mpr ⟨hnot, hfirst⟩, hne,
      hrow, hle, ?_⟩
    rw [hloop, hrest]
    rfl
  · refine Or.inr ⟨List.forall_mem_cons.mpr ⟨hnot, hnone⟩, ?_⟩
    rw [hloop, hrest]
    rfl

/-- A slot that was taken is not looked at. -/
theorem popLoop_zero (ids : List ℤ) (result : PlayableItem) :
    popLoop (catalog fp ch) db seconds (0 :: ids) result
      = (popLoop (catalog fp ch) db seconds ids result).map (fun x => (0 :: x.1, x.2)) := rfl

/-- What the result holds after a fetch decides over a slot. -/
theorem popLoop_cons (fp : FloatOps) (ch : Chance) (db : Db) (seconds : ℤ) {id : ℤ} (hid : id ≠ 0)
    (ids : List ℤ) {result : PlayableItem}
    (hplain : result.Plain) :
    popLoop (catalog fp ch) db seconds (id :: ids) result
      = if Rejected seconds (result.overwritten fp (PlayableItem.row? db id)) then
          (popLoop (catalog fp ch) db seconds ids
            (result.overwritten fp (PlayableItem.row? db id))).map (fun x => (id :: x.1, x.2))
        else some (0 :: ids, result.overwritten fp (PlayableItem.row? db id)) := by
  conv_lhs => unfold popLoop
  rw [if_neg hid, PlayableItem.fetch_plain hplain]
  dsimp only
  by_cases hrej : Rejected seconds (result.overwritten fp (PlayableItem.row? db id))
  · rw [if_pos hrej]
    exact if_neg hrej
  · rw [if_neg hrej]
    exact if_pos (not_not.mp hrej)

/-- **The loop takes the first slot that fits**, with a result that holds
nothing that can be taken. The induction is on the slots. A slot whose item
does not exist leaves the result as it was, and one whose item is too long
leaves that item, so either way it is still one that was rejected. -/
theorem popLoop_takes (fp : FloatOps) (ch : Chance) (ht : ItemTable db) {result : PlayableItem}
    (hplain : result.Plain)
    (hrej : Rejected seconds result) (ids : List ℤ) :
    LoopTakes fp ch db seconds ids result := by
  induction ids generalizing result with
  | nil => exact Or.inr ⟨fun i hi => absurd hi List.not_mem_nil, rfl⟩
  | cons id ids ih =>
    by_cases hid : id = 0
    · subst hid
      exact (ih hplain hrej).pass (fun h => h.1 rfl) (popLoop_zero ids result)
    · have hstep := popLoop_cons fp ch db seconds hid ids hplain
      cases hrow : PlayableItem.row? db id with
      | none =>
        -- the result still holds what was rejected before
        rw [hrow] at hstep
        have hnot : ¬Fits db seconds id := by
          rintro ⟨-, r, hr, -⟩
          rw [hrow] at hr
          cases hr
        exact (ih hplain hrej).pass hnot (hstep.trans (if_pos hrej))
      | some r =>
        rw [hrow] at hstep
        obtain ⟨-, hshow, hdur⟩ := ht.reads fp hrow
        by_cases hle : (r "duration").toInt64 ≤ seconds
        · have htake : ¬Rejected seconds (PlayableItem.ofRow fp r) := by
            unfold Rejected
            rw [not_not, hshow, hdur]
            exact ⟨hid, hle⟩
          exact Or.inl ⟨[], id, ids, r, rfl, fun i hi => absurd hi List.not_mem_nil, hid, hrow,
            hle, hstep.trans (if_neg htake)⟩
        · have hrej' : Rejected seconds (PlayableItem.ofRow fp r) := by
            unfold Rejected
            rw [hdur]
            exact fun h => hle h.2
          have hnot : ¬Fits db seconds id := by
            rintro ⟨-, r', hr', hle'⟩
            rw [hrow] at hr'
            obtain rfl := Option.some.inj hr'
            exact hle hle'
          exact (ih (PlayableItem.plain_ofRow fp r) hrej').pass hnot (hstep.trans (if_pos hrej'))

/-- Taking a slot makes a list shorter by one. -/
theorem size_take {pre post : List ℤ} {id : ℤ} (hid : id ≠ 0) (p : Playlist)
    (h : p.playableItemID = pre ++ id :: post) :
    size { p with playableItemID := pre ++ 0 :: post } + 1 = p.size := by
  unfold size
  have hnew : List.countP (fun i => i != 0) ((0 : ℤ) :: post) = post.countP (fun i => i != 0) :=
    List.countP_cons_of_neg (by simp)
  have hold : List.countP (fun i => i != 0) (id :: post) = post.countP (fun i => i != 0) + 1 :=
    List.countP_cons_of_pos (by simpa using hid)
  rw [h, List.countP_append, List.countP_append, hnew, hold]
  omega

/-- **What a call does**, to every playlist. -/
theorem PopCall.Proper.takesFirst {c : PopCall} (hc : c.Proper) (p : Playlist) :
    TakesFirst fp c p := by
  have hrun : c.run fp p
      = (popLoop (catalog fp c.ch) c.db c.seconds p.playableItemID {}).map
        (fun x => ({ p with playableItemID := x.1 }, x.2)) := by
    unfold PopCall.run popWithTimelimit
    rw [toInt32_of_fits hc.limit]
  rcases popLoop_takes fp c.ch hc.table PlayableItem.plain_empty
    (rejected_empty c.seconds) p.playableItemID with
    ⟨pre, id, post, r, hids, hfirst, hid, hrow, hle, hloop⟩ | ⟨hnone, hloop⟩
  · obtain ⟨-, hshow, hdur⟩ := hc.table.reads fp hrow
    refine Or.inl ⟨pre, id, post, r, hids, hfirst, hid, hrow, hle, ?_, hshow, hdur,
      size_take hid p hids⟩
    rw [hrun, hloop]
    rfl
  · refine Or.inr ⟨hnone, ?_⟩
    rw [hrun, hloop]
    rfl

/-! ## Sequences of calls -/

/-- A call leads to the playlist it leaves. -/
def PopStep (fp : FloatOps) (p : Playlist) (c : PopCall) (p' : Playlist) : Prop :=
  ∃ r, c.run fp p = some (p', r)

/-- The slots that a call takes, by their positions. There is one at most. -/
def taken (fp : FloatOps) (c : PopCall) (p : Playlist) : Set ℕ :=
  {k | ∃ p' r, c.run fp p = some (p', r)
    ∧ k ∈ Slots.blanked 0 p.playableItemID p'.playableItemID}

/-- The slots are in nonincreasing order of duration, of those that were not
taken and whose items exist. -/
def Descending (db : Db) (ids : List ℤ) : Prop :=
  ids.Pairwise (fun i j => i ≠ 0 → j ≠ 0 → ∀ ri rj, PlayableItem.row? db i = some ri →
    PlayableItem.row? db j = some rj → (rj "duration").toInt64 ≤ (ri "duration").toInt64)

/-- **The item that is delivered is a longest one** of those that are left
and fit. -/
def TakesLongest (fp : FloatOps) (c : PopCall) (p : Playlist) : Prop :=
  ∀ p' r, c.run fp p = some (p', r) → r ≠ {} →
    ∀ i ∈ p.playableItemID, i ≠ 0 → ∀ ri, PlayableItem.row? c.db i = some ri →
      (ri "duration").toInt64 ≤ c.seconds → (ri "duration").toInt64 ≤ r.duration.getD 0

/-- A call only blanks slots. -/
theorem TakesFirst.blanks {c : PopCall} {p p' : Playlist} (h : TakesFirst fp c p)
    (hstep : PopStep fp p c p') : Slots.Blanks 0 p.playableItemID p'.playableItemID := by
  obtain ⟨r, hrun⟩ := hstep
  rcases h with ⟨pre, id, post, r', htakes⟩ | hnothing
  · rw [htakes.run] at hrun
    obtain ⟨rfl, -⟩ := Prod.mk.inj (Option.some.inj hrun)
    rw [htakes.slots]
    exact Slots.Blanks.one pre id post
  · rw [hnothing.run] at hrun
    obtain ⟨rfl, -⟩ := Prod.mk.inj (Option.some.inj hrun)
    exact Slots.Blanks.refl _

/-- Of slots in order of duration, the first that fits is a longest one. -/
theorem TakesFirst.longest {c : PopCall} {p : Playlist} (h : TakesFirst fp c p)
    (hdesc : Descending c.db p.playableItemID) : TakesLongest fp c p := by
  intro p' r hrun hne i hi hi0 ri hri hle
  rcases h with ⟨pre, id, post, taken, htakes⟩ | hnothing
  · rw [htakes.run] at hrun
    obtain ⟨-, rfl⟩ := Prod.mk.inj (Option.some.inj hrun)
    rw [htakes.shows_duration]
    show (ri "duration").toInt64 ≤ (taken "duration").toInt64
    rw [htakes.slots] at hi hdesc
    rcases List.mem_append.mp hi with hi | hi
    · exact absurd ⟨hi0, ri, hri, hle⟩ (htakes.first i hi)
    · rcases List.mem_cons.mp hi with rfl | hi
      · rw [htakes.row] at hri
        rw [Option.some.inj hri]
      · obtain ⟨-, hpost, -⟩ := List.pairwise_append.mp hdesc
        exact (List.pairwise_cons.mp hpost).1 i hi htakes.id_ne hi0 taken ri htakes.row hri
  · rw [hnothing.run] at hrun
    exact absurd (Prod.mk.inj (Option.some.inj hrun)).2.symm hne

/-- What a sequence of calls took is blank, and it blanked nothing else. A
slot that is blank is never taken, so no two calls take the same one. -/
theorem blank_of_run {p p' : Playlist} {trace : List (Playlist × PopCall)}
    (hrun : Transitions.Run (PopStep fp) p trace p') (hproper : ∀ x ∈ trace, x.2.Proper) :
    (∀ x ∈ trace, Slots.Blanks 0 p.playableItemID x.1.playableItemID)
      ∧ Slots.Blanks 0 p.playableItemID p'.playableItemID
      ∧ (∀ x ∈ trace, ∀ k ∈ taken fp x.2 x.1, p'.playableItemID[k]? = some 0)
      ∧ trace.Pairwise (fun x y => taken fp x.2 x.1 ∩ taken fp y.2 y.1 = ∅) := by
  induction hrun with
  | nil =>
    exact ⟨fun x hx => absurd hx List.not_mem_nil, Slots.Blanks.refl _,
      fun x hx => absurd hx List.not_mem_nil, List.Pairwise.nil⟩
  | @snoc trace s s' c hrun hstep ih =>
    obtain ⟨hbefore, hall, hblank, hdisjoint⟩ :=
      ih (fun x hx => hproper x (List.mem_append_left _ hx))
    have hlast : (s, c) ∈ trace ++ [(s, c)] := List.mem_append_right _ (List.mem_singleton_self _)
    have hblanks := ((hproper _ hlast).takesFirst s).blanks hstep
    refine ⟨fun x hx => ?_, hall.trans hblanks, fun x hx k hk => ?_, ?_⟩
    · rcases List.mem_append.mp hx with hx | hx
      · exact hbefore x hx
      · rw [List.mem_singleton.mp hx]
        exact hall
    · rcases List.mem_append.mp hx with hx | hx
      · exact hblanks.getElem? (hblank x hx k hk)
      · rw [List.mem_singleton.mp hx] at hk
        obtain ⟨p', r, hrun', -, hk⟩ := hk
        obtain ⟨r', hstep⟩ := hstep
        rw [hstep] at hrun'
        obtain ⟨rfl, -⟩ := Prod.mk.inj (Option.some.inj hrun')
        exact hk
    · refine List.pairwise_append.mpr ⟨hdisjoint, List.pairwise_singleton _ _, ?_⟩
      intro x hx y hy
      rw [List.mem_singleton.mp hy]
      refine Set.eq_empty_of_forall_notMem ?_
      rintro k ⟨hk, hk'⟩
      -- what was taken before is blank when the call is made
      obtain ⟨-, -, -, ⟨i, hi, hne⟩, -⟩ := hk'
      rw [hblank x hx k hk] at hi
      exact hne (Option.some.inj hi).symm

/-- **`PopWithTimelimit` takes the first track that fits, and nothing else.**
Over any sequence of calls no slot is taken twice, and from a list in
nonincreasing order of duration each call delivers a longest track that is
left and fits.

The calls may find different databases. That the list is ordered is asked of
the list before the first call only, for taking slots keeps the order of the
others. -/
theorem pops_take_first (fp : FloatOps) {p p' : Playlist} {trace : List (Playlist × PopCall)}
    (hrun : Transitions.Run (PopStep fp) p trace p') (hproper : ∀ x ∈ trace, x.2.Proper) :
    (∀ (c : PopCall) (q : Playlist), c.Proper → TakesFirst fp c q)
      ∧ trace.Pairwise (fun x y => taken fp x.2 x.1 ∩ taken fp y.2 y.1 = ∅)
      ∧ ∀ x ∈ trace, Descending x.2.db p.playableItemID → TakesLongest fp x.2 x.1 := by
  obtain ⟨hbefore, -, -, hdisjoint⟩ := blank_of_run hrun hproper
  refine ⟨fun c q hc => hc.takesFirst q, hdisjoint, fun x hx hdesc => ?_⟩
  exact ((hproper x hx).takesFirst x.1).longest ((hbefore x hx).pairwise hdesc)

/-! ## Two songs -/

/-- A song of two minutes, and one of one. -/
def twoSongsDb : Db :=
  databaseOf [.item { filename := some (ascii "a.ogg"), duration := some 120 },
    .item { filename := some (ascii "b.ogg"), duration := some 60 }]

theorem itemTable_twoSongsDb : ItemTable twoSongsDb where
  valid :=
    (show Consistent twoSongsDb from consistent_of_isConsistent (by decide +kernel)).playableItems
  ids r hr n hn := by
    have hall : ∀ r ∈ (twoSongsDb "PlayableItem").rows,
        0 < (r "PlayableItemID").toInt64 ∧ FitsInt32 (r "PlayableItemID").toInt64 := by
      decide +kernel
    have hread := hall r hr
    rwa [hn] at hread
  durations := by decide +kernel

/-- The longer song is taken first, and then the other one. -/
theorem pops_two_songs :
    ∃ trace p', Transitions.Run (PopStep .whole) { playableItemID := [1, 2] } trace p'
      ∧ p'.playableItemID = [0, 0]
      ∧ ∀ x ∈ trace, Descending x.2.db [1, 2] → TakesLongest .whole x.2 x.1 := by
  have hproper : PopCall.Proper ⟨twoSongsDb, .stored, 200⟩ := ⟨itemTable_twoSongsDb, by decide⟩
  have hrun : Transitions.Run (PopStep .whole) { playableItemID := [1, 2] }
      [({ playableItemID := [1, 2] }, ⟨twoSongsDb, .stored, 200⟩),
        ({ playableItemID := [0, 2] }, ⟨twoSongsDb, .stored, 200⟩)]
      { playableItemID := [0, 0] } :=
    .snoc (.snoc .nil ⟨_, rfl⟩) ⟨_, rfl⟩
  refine ⟨_, _, hrun, rfl, (pops_take_first .whole hrun (fun x hx => ?_)).2.2⟩
  rcases List.mem_cons.mp hx with rfl | hx
  · exact hproper
  · rw [List.mem_singleton.mp hx]
    exact hproper

end Playlist
