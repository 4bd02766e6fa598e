import Mathlib.Data.List.Sort
import RctAutomation.Replacement
import RctAutomation.PrefixDraw

/-!
# The mainshow at random

`Playlists_random_weight` draws a number up to the sum of all weights, and
shows of the playlists whose prefix sum reaches it the one of the largest
weight. The prefix sums go by the ID, so that the draw is proportional to the
weights when these decrease with the ID: `proportionalDraw_iff` says that it is
proportional only then.
-/

open Sql PrefixDraw

/-! ## Sorted rows -/

/-- **The first row of the largest value** comes first: the sort is stable,
so ties keep the order in which the rows were read. By induction on the rows:
the first one stays in front unless a later one is larger. -/
theorem orderDesc_first {col : String} {f : Row → ℤ} {rows : List Row}
    (hf : ∀ r ∈ rows, r col = .integer (f r)) (hne : rows ≠ []) :
    ∃ h t l₁ l₂, orderDesc col rows = h :: t ∧ rows = l₁ ++ h :: l₂
      ∧ (∀ x ∈ l₁, f x < f h) ∧ ∀ x ∈ rows, f x ≤ f h := by
  induction rows with
  | nil => exact absurd rfl hne
  | cons a rows ih =>
    have hsort : orderDesc col (a :: rows)
        = (orderDesc col rows).orderedInsert (fun a b => ((b col).le (a col)) = true) a := rfl
    by_cases hrows : rows = []
    · subst hrows
      exact ⟨a, [], [], [], rfl, rfl, fun x hx => absurd hx List.not_mem_nil,
        fun x hx => le_of_eq (by rw [List.mem_singleton.mp hx])⟩
    · obtain ⟨h, t, l₁, l₂, hord, hsplit, hlt, hle⟩ :=
        ih (fun r hr => hf r (List.mem_cons_of_mem _ hr)) hrows
      have hh : h ∈ rows := by
        rw [hsplit]
        exact List.mem_append_right _ (List.mem_cons_self ..)
      rw [hsort, hord]
      by_cases hfirst : f h ≤ f a
      · refine ⟨a, h :: t, [], rows, ?_, rfl, fun x hx => absurd hx List.not_mem_nil,
          fun x hx => ?_⟩
        · rw [List.orderedInsert_cons, if_pos]
          rw [hf h (List.mem_cons_of_mem _ hh), hf a (List.mem_cons_self ..)]
          exact decide_eq_true hfirst
        · rcases List.mem_cons.mp hx with rfl | hx
          · exact le_refl _
          · exact le_trans (hle x hx) hfirst
      · refine ⟨h, t.orderedInsert (fun a b => ((b col).le (a col)) = true) a, a :: l₁, l₂, ?_,
          by rw [hsplit]; rfl, fun x hx => ?_, fun x hx => ?_⟩
        · rw [List.orderedInsert_cons, if_neg]
          rw [hf h (List.mem_cons_of_mem _ hh), hf a (List.mem_cons_self ..)]
          exact fun hdec => hfirst (of_decide_eq_true hdec)
        · rcases List.mem_cons.mp hx with rfl | hx
          · exact not_le.mp hfirst
          · exact hlt x hx
        · rcases List.mem_cons.mp hx with rfl | hx
          · exact le_of_lt (not_le.mp hfirst)
          · exact hle x hx

/-- Rows are sorted by an integer column. -/
theorem orderDesc_sorted {col : String} {f : Row → ℤ} {rows : List Row}
    (hf : ∀ r ∈ rows, r col = .integer (f r)) :
    (orderDesc col rows).Pairwise (fun a b => f b ≤ f a) := by
  have hmap : (orderDesc col rows).map f = (rows.map f).insertionSort (· ≥ ·) := by
    refine List.map_insertionSort _ _ f rows (fun a ha b hb => ?_)
    rw [hf a ha, hf b hb]
    exact decide_eq_true_iff
  have hsorted := List.pairwise_insertionSort (fun a b : ℤ => a ≥ b) (rows.map f)
  rw [← hmap] at hsorted
  exact List.pairwise_map.mp hsorted

/-! ## Sums -/

/-- A sum that does not overflow. -/
theorem foldlM_addInt64 {ns : List ℤ} {acc s : ℤ} (h : ns.foldlM addInt64 acc = some s) :
    s = acc + ns.sum ∧ (fitsInt64 acc = true → fitsInt64 s = true) := by
  induction ns generalizing acc with
  | nil =>
    obtain rfl := Option.some.inj h
    exact ⟨by simp, id⟩
  | cons n ns ih =>
    rw [List.foldlM_cons] at h
    obtain ⟨acc', hadd, hrest⟩ := Option.bind_eq_some_iff.mp h
    unfold addInt64 at hadd
    split at hadd
    · rename_i hfits
      obtain rfl := Option.some.inj hadd
      obtain ⟨hsum, hs⟩ := ih hrest
      exact ⟨by rw [hsum, List.sum_cons]; omega, fun _ => hs hfits⟩
    · cases hadd

/-- Non-negative integers are added without an overflow when their sum fits. -/
theorem foldlM_addInt64_of_nonneg {ns : List ℤ} (hns : ∀ n ∈ ns, 0 ≤ n) {acc : ℤ}
    (hacc : 0 ≤ acc) (hfits : fitsInt64 (acc + ns.sum) = true) :
    ns.foldlM addInt64 acc = some (acc + ns.sum) := by
  induction ns generalizing acc with
  | nil => simp
  | cons n ns ih =>
    have hn : 0 ≤ n := hns n (List.mem_cons_self ..)
    have hsum : 0 ≤ ns.sum := List.sum_nonneg (fun m hm => hns m (List.mem_cons_of_mem _ hm))
    rw [List.sum_cons, ← add_assoc] at hfits ⊢
    have hstep : addInt64 acc n = some (acc + n) := by
      unfold addInt64
      refine if_pos ?_
      unfold fitsInt64 at hfits ⊢
      simp only [Bool.and_eq_true, decide_eq_true_eq] at hfits ⊢
      omega
    rw [List.foldlM_cons, hstep]
    exact ih (fun m hm => hns m (List.mem_cons_of_mem _ hm)) (by omega) hfits

/-! ## The weights of the playlists -/

/-- The IDs of the playlists. -/
def playlistIds (db : Db) : Finset ℤ :=
  ((db "Playlist").rows.map (fun r => (r "PlaylistID").toInt64)).toFinset

/-- The weight of a playlist. -/
def weightOf (db : Db) (p : ℤ) : ℤ :=
  (((db "Playlist").rows.find? (fun r => r "PlaylistID" = .integer p)).map
    (fun r => (r "weight").toInt64)).getD 0

/-- **Playlists that can be drawn**: the weights are non-negative integers,
and every playlist has an item. A playlist without one has a weight that
counts and no row in the view. -/
structure Drawable (db : Db) : Prop where
  weights : ∀ r ∈ (db "Playlist").rows, ∃ n : ℤ, 0 ≤ n ∧ r "weight" = .integer n
  items : ∀ p, HasPlaylist db p → (itemsOf db p).Nonempty

variable {fp : FloatOps} {ch : Chance} {db : Db} {p : ℤ} {r : Row}

namespace Consistent

theorem id_eq (hc : Consistent db) (hr : r ∈ (db "Playlist").rows) :
    r "PlaylistID" = .integer (r "PlaylistID").toInt64 := by
  obtain ⟨n, hn⟩ := hc.playlists.keys "PlaylistID" rfl r hr
  rw [hn]
  rfl

theorem mem_playlistIds (hc : Consistent db) : p ∈ playlistIds db ↔ HasPlaylist db p := by
  unfold playlistIds HasPlaylist
  rw [List.mem_toFinset, List.mem_map]
  constructor
  · rintro ⟨r, hr, rfl⟩
    exact ⟨r, hr, hc.id_eq hr⟩
  · rintro ⟨r, hr, hp⟩
    exact ⟨r, hr, by rw [hp]; rfl⟩

/-- The IDs are different. -/
theorem ids_nodup (hc : Consistent db) {rows : List Row}
    (hsub : rows.Sublist (db "Playlist").rows) :
    (rows.map (fun r => (r "PlaylistID").toInt64)).Nodup := by
  refine List.pairwise_map.mpr (((hc.playlists.distinct.sublist hsub).imp_of_mem ?_))
  intro a b ha hb hne heq
  have hid := hc.id_eq (hsub.subset ha)
  rw [heq] at hid
  rw [TableDef.conflicts_of_key (k := "PlaylistID") rfl hid (hc.id_eq (hsub.subset hb))] at hne
  cases hne

theorem weightOf_row (hc : Consistent db) (hr : r ∈ (db "Playlist").rows)
    (hp : r "PlaylistID" = .integer p) : weightOf db p = (r "weight").toInt64 := by
  unfold weightOf
  cases hfind : (db "Playlist").rows.find? (fun r => r "PlaylistID" = .integer p) with
  | none => exact absurd hp (by simpa using List.find?_eq_none.mp hfind r hr)
  | some r' =>
    have hp' : r' "PlaylistID" = .integer p := by simpa using List.find?_some hfind
    rw [hc.row_unique hr (List.mem_of_find?_eq_some hfind) hp hp']
    rfl

/-- **The weights of some rows** are those of their IDs. It brings the sums
that the queries take over rows to sums over a set of IDs. -/
theorem sum_weights (hc : Consistent db) (q : Row → Bool) (P : ℤ → Prop) [DecidablePred P]
    (hq : ∀ r ∈ (db "Playlist").rows, q r = true ↔ P (r "PlaylistID").toInt64) :
    (((db "Playlist").rows.filter q).map (fun r => (r "weight").toInt64)).sum
      = ∑ p ∈ playlistIds db with P p, weightOf db p := by
  have hids : (((db "Playlist").rows.filter q).map (fun r => (r "PlaylistID").toInt64)).toFinset
      = (playlistIds db).filter P := by
    ext p
    simp only [playlistIds, List.mem_toFinset, List.mem_map, List.mem_filter, Finset.mem_filter]
    constructor
    · rintro ⟨r, ⟨hr, hqr⟩, rfl⟩
      exact ⟨⟨r, hr, rfl⟩, (hq r hr).mp hqr⟩
    · rintro ⟨⟨r, hr, rfl⟩, hP⟩
      exact ⟨r, ⟨hr, (hq r hr).mpr hP⟩, rfl⟩
  rw [← hids, List.sum_toFinset _ (hc.ids_nodup List.filter_sublist), List.map_map]
  refine congrArg List.sum (List.map_congr_left (fun r hr => ?_))
  have hr := (List.mem_filter.mp hr).1
  exact (hc.weightOf_row hr (hc.id_eq hr)).symm

end Consistent

namespace Drawable

theorem weight_eq (hd : Drawable db) (hc : Consistent db) (hr : r ∈ (db "Playlist").rows)
    (hp : r "PlaylistID" = .integer p) : r "weight" = .integer (weightOf db p) := by
  obtain ⟨n, -, hn⟩ := hd.weights r hr
  rw [hc.weightOf_row hr hp, hn]
  rfl

theorem weightOf_nonneg (hd : Drawable db) (hc : Consistent db) :
    ∀ p ∈ playlistIds db, 0 ≤ weightOf db p := by
  intro p hp
  obtain ⟨r, hr, hrp⟩ := hc.mem_playlistIds.mp hp
  obtain ⟨n, h0, hn⟩ := hd.weights r hr
  rw [hc.weightOf_row hr hrp, hn]
  exact h0

/-- The sum of the view is the sum of the weights. -/
theorem total_eq (hc : Consistent db) {S : ℤ} (hS : totalWeight db = some S) :
    total (playlistIds db) (weightOf db) = S ∧ fitsInt64 S = true := by
  unfold totalWeight sumOf at hS
  split at hS
  · cases hS
  · obtain ⟨hsum, hfits⟩ := foldlM_addInt64 hS
    have hall := hc.sum_weights (fun _ => true) (fun _ => True) (fun _ _ => by simp)
    rw [List.filter_true, Finset.filter_true] at hall
    refine ⟨?_, hfits (by decide)⟩
    rw [hsum, zero_add, List.map_map]
    exact hall.symm

/-- **The prefix sums of the view**, by the ID. The sum of the weights fits
64 bits, and so do those of its parts, as no weight is negative. -/
theorem weightUpTo_eq (hd : Drawable db) (hc : Consistent db) {S : ℤ}
    (hS : totalWeight db = some S) (hp : p ∈ playlistIds db) :
    weightUpTo db (.integer p) = some (upTo (playlistIds db) (weightOf db) p) := by
  obtain ⟨htotal, hfits⟩ := total_eq hc hS
  have hle : ∀ r ∈ (db "Playlist").rows,
      (r "PlaylistID").le (.integer p) = true ↔ (r "PlaylistID").toInt64 ≤ p := by
    intro r hr
    rw [hc.id_eq hr]
    exact decide_eq_true_iff
  have hsum := hc.sum_weights (fun r => (r "PlaylistID").le (.integer p)) (fun q => q ≤ p) hle
  unfold weightUpTo sumOf
  rw [if_neg]
  · have hnonneg : ∀ n ∈ (((db "Playlist").rows.filter
        (fun r => (r "PlaylistID").le (.integer p))).map (fun r => (r "weight").toInt64)),
        0 ≤ n := by
      intro n hn
      obtain ⟨r, hr, rfl⟩ := List.mem_map.mp hn
      obtain ⟨m, h0, hm⟩ := hd.weights r (List.mem_filter.mp hr).1
      rw [hm]
      exact h0
    have h0 := List.sum_nonneg hnonneg
    have hbound := upTo_le_total (hd.weightOf_nonneg hc) p
    rw [List.map_map]
    refine (foldlM_addInt64_of_nonneg hnonneg (le_refl 0) ?_).trans ?_
    · rw [hsum] at h0 ⊢
      change 0 ≤ upTo (playlistIds db) (weightOf db) p at h0
      change fitsInt64 (0 + upTo (playlistIds db) (weightOf db) p) = true
      unfold fitsInt64 at hfits ⊢
      simp only [Bool.and_eq_true, decide_eq_true_eq] at hfits ⊢
      omega
    · rw [hsum, zero_add]
      rfl
  · -- the playlist itself has a weight
    obtain ⟨r, hr, hrp⟩ := hc.mem_playlistIds.mp hp
    intro hall
    have hnull := List.all_eq_true.mp hall (r "weight") (List.mem_map.mpr ⟨r, List.mem_filter.mpr
      ⟨hr, (hle r hr).mpr (le_of_eq (by rw [hrp]; rfl))⟩, rfl⟩)
    rw [hd.weight_eq hc hr hrp] at hnull
    cases hnull

end Drawable

/-! ## The rows that are reached -/

/-- The rows that `Playlists_random_weight` orders. -/
def reachedRows (fp : FloatOps) (ch : Chance) (db : Db) : List Row :=
  ((withShuffledChildren fp).rows db).filter fun p =>
    leOption (drawWeight ch.random (totalWeight db)) (weightUpTo db (p "PlaylistID"))

/-- **The playlist that is drawn**: the ID of the row of the view. -/
def drawn (fp : FloatOps) (ch : Chance) (db : Db) : Option ℤ :=
  ((randomWeight fp ch).rows db).head?.map fun p => (p "PlaylistID").toInt64

theorem drawn_eq : drawn fp ch db = (orderDesc "weight"
    (ch.shuffle.run (reachedRows fp ch db))).head?.map fun p => (p "PlaylistID").toInt64 := by
  show ((orderDesc "weight" (ch.shuffle.run (reachedRows fp ch db))).take 1).head?.map _ = _
  cases orderDesc "weight" (ch.shuffle.run (reachedRows fp ch db)) <;> rfl

/-- Every number can be drawn. -/
theorem drawWeight_sub_one {S n : ℤ} (hn : n ∈ Finset.Icc 1 S) :
    drawWeight (n - 1) (some S) = some n := by
  obtain ⟨h₁, h₂⟩ := Finset.mem_Icc.mp hn
  unfold drawWeight
  dsimp only
  rw [if_neg (by omega), Int.tmod_eq_of_lt (by omega) (by omega), abs_of_nonneg (by omega),
    add_sub_cancel]

/-- A row of the view is a playlist, with its items added. -/
theorem row_of_withShuffledChildren {v : Row} (hv : v ∈ (withShuffledChildren fp).rows db) :
    ∃ r ∈ (db "Playlist").rows, v "PlaylistID" = r "PlaylistID" ∧ v "weight" = r "weight" := by
  obtain ⟨r, hr, hshown⟩ := List.mem_filterMap.mp hv
  dsimp only at hshown
  split at hshown
  · cases hshown
  · obtain rfl := Option.some.inj hshown
    exact ⟨r, hr, Function.update_of_ne (by decide) .., Function.update_of_ne (by decide) ..⟩

/-- A playlist with items has a row in the view. -/
theorem withShuffledChildren_of_items (fp : FloatOps) (hc : Consistent db)
    (hr : r ∈ (db "Playlist").rows) (hp : r "PlaylistID" = .integer p)
    (hitems : (itemsOf db p).Nonempty) :
    ∃ v ∈ (withShuffledChildren fp).rows db,
      v "PlaylistID" = r "PlaylistID" ∧ v "weight" = r "weight" := by
  obtain ⟨ns, hns, hmem⟩ := childIds_eq hc (listedItems_perm db) hp
  obtain ⟨i, hi⟩ := hitems
  have hne : childIds db (listedItems db) r ≠ [] := by
    rw [hns]
    intro h
    have hnil := List.map_eq_nil_iff.mp h
    rw [hnil] at hmem
    exact absurd ((hmem i).mpr hi) List.not_mem_nil
  exact ⟨_, List.mem_filterMap.mpr ⟨r, hr, if_neg hne⟩, Function.update_of_ne (by decide) ..,
    Function.update_of_ne (by decide) ..⟩

namespace Drawable

/-- **A row that is reached** is a playlist whose prefix sum reaches the
number. -/
theorem of_reachedRows (hd : Drawable db) (hc : Consistent db) {S n : ℤ}
    (hS : totalWeight db = some S) (hn : drawWeight ch.random (some S) = some n) {v : Row}
    (hv : v ∈ reachedRows fp ch db) :
    ∃ p ∈ playlistIds db, v "PlaylistID" = .integer p ∧ v "weight" = .integer (weightOf db p)
      ∧ n ≤ upTo (playlistIds db) (weightOf db) p := by
  obtain ⟨hv, hle⟩ := List.mem_filter.mp hv
  obtain ⟨r, hr, hid, hweight⟩ := row_of_withShuffledChildren hv
  have hrid := hc.id_eq hr
  have hp := hc.mem_playlistIds.mpr ⟨r, hr, hrid⟩
  rw [hid, hrid, hS, hn, hd.weightUpTo_eq hc hS hp] at hle
  exact ⟨_, hp, hid.trans hrid, hweight.trans (hd.weight_eq hc hr hrid), of_decide_eq_true hle⟩

/-- A playlist whose prefix sum reaches the number has a row. -/
theorem mem_reachedRows (fp : FloatOps) (ch : Chance) (hd : Drawable db) (hc : Consistent db)
    {S n : ℤ} (hS : totalWeight db = some S) (hn : drawWeight ch.random (some S) = some n)
    (hp : p ∈ playlistIds db) (hle : n ≤ upTo (playlistIds db) (weightOf db) p) :
    ∃ v ∈ reachedRows fp ch db,
      v "PlaylistID" = .integer p ∧ v "weight" = .integer (weightOf db p) := by
  obtain ⟨r, hr, hrp⟩ := hc.mem_playlistIds.mp hp
  obtain ⟨v, hv, hid, hweight⟩ :=
    withShuffledChildren_of_items fp hc hr hrp (hd.items p ⟨r, hr, hrp⟩)
  refine ⟨v, List.mem_filter.mpr ⟨hv, ?_⟩, hid.trans hrp,
    hweight.trans (hd.weight_eq hc hr hrp)⟩
  rw [hid, hrp, hS, hn, hd.weightUpTo_eq hc hS hp]
  exact decide_eq_true hle

/-- **What is drawn** is a heaviest playlist among those reached, and of
several the one whose row is read first. The order in which rows are read is
left open, and this is all that depends on it. -/
theorem drawn_heaviest (fp : FloatOps) (ch : Chance) (hd : Drawable db) (hc : Consistent db)
    {S n : ℤ} (hS : totalWeight db = some S) (hn : drawWeight ch.random (some S) = some n)
    (hmem : n ∈ Finset.Icc 1 S) :
    ∃ h l₁ l₂ p, ch.shuffle.run (reachedRows fp ch db) = l₁ ++ h :: l₂
      ∧ h "PlaylistID" = .integer p ∧ drawn fp ch db = some p
      ∧ Heaviest (playlistIds db) (weightOf db) n p
      ∧ ∀ x ∈ l₁, (x "weight").toInt64 < weightOf db p := by
  have hperm := ch.shuffle.perm (reachedRows fp ch db)
  have hweights : ∀ v ∈ ch.shuffle.run (reachedRows fp ch db),
      v "weight" = .integer (v "weight").toInt64 := by
    intro v hv
    obtain ⟨p, -, -, hweight, -⟩ := hd.of_reachedRows hc hS hn (hperm.mem_iff.mp hv)
    rw [hweight]
    rfl
  have hne : ch.shuffle.run (reachedRows fp ch db) ≠ [] := by
    rw [← (total_eq hc hS).1] at hmem
    obtain ⟨p, hp, hshare⟩ := exists_share hmem
    obtain ⟨v, hv, -⟩ := hd.mem_reachedRows fp ch hc hS hn hp (Finset.mem_Ioc.mp hshare).2
    exact List.ne_nil_of_mem (hperm.mem_iff.mpr hv)
  obtain ⟨h, t, l₁, l₂, hord, hsplit, hlt, hle⟩ := orderDesc_first hweights hne
  have hh : h ∈ reachedRows fp ch db := by
    rw [← hperm.mem_iff, hsplit]
    exact List.mem_append_right _ (List.mem_cons_self ..)
  obtain ⟨p, hp, hid, hweight, hreached⟩ := hd.of_reachedRows hc hS hn hh
  rw [hweight] at hlt hle
  refine ⟨h, l₁, l₂, p, hsplit, hid, ?_, ⟨hp, hreached, fun q hq hqr => ?_⟩, hlt⟩
  · rw [drawn_eq, hord]
    show some (h "PlaylistID").toInt64 = some p
    rw [hid]
    rfl
  · obtain ⟨v, hv, -, hvw⟩ := hd.mem_reachedRows fp ch hc hS hn hq hqr
    have hvle := hle v (hperm.mem_iff.mpr hv)
    rw [hvw] at hvle
    exact hvle

end Drawable

/-- **The playlist that is drawn is loaded**, with its items in some order.
The row that the view shows is that of the playlist. -/
theorem fetch_of_drawn (hc : Consistent db) (h : drawn fp ch db = some p) :
    ∃ r ∈ (db "Playlist").rows, ∃ ns, r "PlaylistID" = .integer p
      ∧ (∀ i, i ∈ ns ↔ i ∈ itemsOf db p)
      ∧ Playlist.fetch (catalog fp ch) db = some (true, loadedPlaylist fp r ns) := by
  have hfetch : Playlist.fetch (catalog fp ch) db
      = loadRows fp {} (((randomWeight fp ch).rows db).filter (fun _ => true)) := rfl
  rw [hfetch, List.filter_true]
  unfold drawn at h
  cases hrows : (randomWeight fp ch).rows db with
  | nil =>
    rw [hrows] at h
    cases h
  | cons v rest =>
    rw [hrows] at h
    have hv : v ∈ orderDesc "weight" (ch.shuffle.run (reachedRows fp ch db)) := by
      refine List.mem_of_mem_take (i := 1) ?_
      change v ∈ (randomWeight fp ch).rows db
      rw [hrows]
      exact List.mem_cons_self ..
    have hreached := (ch.shuffle.perm _).mem_iff.mp ((orderDesc_perm _ _).mem_iff.mp hv)
    obtain ⟨r, p', ns, hshown⟩ := load_viewRow hc (listedItems_perm db)
      (List.mem_filter.mp hreached).1
    have hp : (v "PlaylistID").toInt64 = p := Option.some.inj h
    rw [hshown.shown] at hp
    obtain rfl : p' = p := hp
    exact ⟨r, hshown.row, ns, hshown.id, hshown.items, hshown.loaded none rest⟩

/-! ## When the draw is proportional -/

/-- **A proportional draw**: of the numbers that are drawn, as many choose a
playlist as it has weight, whatever the order of rows that are equal. It is
said for every way in which rows may be read for each number. -/
def ProportionalDraw (fp : FloatOps) (db : Db) (S : ℤ) : Prop :=
  ∀ (shuffle : ℤ → Shuffle), ∀ p ∈ playlistIds db,
    (((Finset.Icc 1 S).filter (fun n => drawn fp ⟨shuffle n, n - 1⟩ db = some p)).card : ℤ)
      = weightOf db p

/-- The rows with the largest IDs first. -/
def Shuffle.latestFirst : Shuffle := ⟨orderDesc "PlaylistID", orderDesc_perm _⟩

/-- A playlist before one that is no lighter is not drawn when that one is
read first. Where its prefix sum reaches the number, that of the later one
does too. -/
theorem Drawable.drawn_ne_of_later (hd : Drawable db) (hc : Consistent db) {S n : ℤ}
    (hS : totalWeight db = some S) (hmem : n ∈ Finset.Icc 1 S) {q : ℤ}
    (hq : q ∈ playlistIds db) (hlt : p < q) (hle : weightOf db p ≤ weightOf db q) :
    drawn fp ⟨Shuffle.latestFirst, n - 1⟩ db ≠ some p := by
  intro hdrawn
  have hn := drawWeight_sub_one hmem
  obtain ⟨h, l₁, l₂, p', hsplit, hid, hdrawn', hheavy, hfirst⟩ :=
    hd.drawn_heaviest fp ⟨Shuffle.latestFirst, n - 1⟩ hc hS hn hmem
  obtain rfl := Option.some.inj (hdrawn.symm.trans hdrawn')
  obtain ⟨v, hv, hvid, hvw⟩ := hd.mem_reachedRows fp ⟨Shuffle.latestFirst, n - 1⟩ hc hS hn hq
    (le_trans hheavy.reached (upTo_mono (hd.weightOf_nonneg hc) hq (le_of_lt hlt)))
  have hsorted : (l₁ ++ h :: l₂).Pairwise
      (fun a b => (b "PlaylistID").toInt64 ≤ (a "PlaylistID").toInt64) := by
    rw [← hsplit]
    refine orderDesc_sorted (fun r hr => ?_)
    obtain ⟨p', -, hp', -⟩ := hd.of_reachedRows hc hS hn hr
    rw [hp']
    rfl
  have hvmem : v ∈ l₁ ++ h :: l₂ := by
    rw [← hsplit]
    exact (Shuffle.latestFirst.perm _).mem_iff.mpr hv
  rcases List.mem_append.mp hvmem with hv₁ | hv₂
  · -- the rows before the one drawn are lighter
    have hlight := hfirst v hv₁
    rw [hvw] at hlight
    exact absurd hle (not_le.mpr hlight)
  · rcases List.mem_cons.mp hv₂ with rfl | hv₂
    · rw [hid] at hvid
      exact absurd (Value.integer.inj hvid) (ne_of_lt hlt)
    · -- and the rows after it have smaller IDs
      have hle' := List.rel_of_pairwise_cons (List.pairwise_append.mp hsorted).2.1 hv₂
      rw [hvid, hid] at hle'
      exact absurd hlt (not_lt.mpr hle')

/-- **When the mainshow is drawn in proportion to the weights**: the weights
decrease with the ID. If a playlist is followed by one that is as heavy or
heavier, then its share goes to that one, for some order of rows.

It is about each playlist and each order in which rows of one weight can
come, since SQLite promises none. The prefix sums go by the ID and the choice
among them goes by the weight; only where the two orders are opposite is the
first prefix the one that is chosen. -/
theorem proportionalDraw_iff (fp : FloatOps) (db : Db) (hc : Consistent db) (hd : Drawable db)
    (S : ℤ) (hS : totalWeight db = some S) :
    ProportionalDraw fp db S ↔ Decreasing (playlistIds db) (weightOf db) := by
  obtain ⟨htotal, -⟩ := Drawable.total_eq hc hS
  have hw := hd.weightOf_nonneg hc
  constructor
  · intro h p hp q hq hlt hpos _
    by_contra hle
    have hcount := h (fun _ => Shuffle.latestFirst) p hp
    rw [Finset.filter_false_of_mem (fun n hn =>
      hd.drawn_ne_of_later hc hS hn hq hlt (not_lt.mp hle)), Finset.card_empty] at hcount
    omega
  · intro hdec shuffle p hp
    rw [← htotal]
    refine card_filter_heaviest hw hdec (fun n hn => ?_) hp
    rw [htotal] at hn
    obtain ⟨-, -, -, q, -, -, hdrawn, hheavy, -⟩ :=
      hd.drawn_heaviest fp ⟨shuffle n, n - 1⟩ hc hS (drawWeight_sub_one hn) hn
    exact ⟨q, hdrawn, hheavy⟩

/-- Playlists can be drawn when their rows say so. -/
theorem drawable_of_rows (h : ∀ r ∈ (db "Playlist").rows,
    (0 ≤ (r "weight").toInt64 ∧ r "weight" = .integer (r "weight").toInt64)
      ∧ ∃ j ∈ (db "Playlist_PlayableItemID").rows, j "PlaylistID" = r "PlaylistID"
        ∧ j "PlayableItemID" = .integer (j "PlayableItemID").toInt64) : Drawable db where
  weights r hr := ⟨_, (h r hr).1⟩
  items p := by
    rintro ⟨r, hr, hp⟩
    obtain ⟨-, j, hj, hjp, hji⟩ := h r hr
    exact ⟨_, j, hj, hjp.trans hp, hji⟩

/-- Two playlists with one item, and weights that decrease. -/
def lighterLater : Db :=
  databaseOf [.item { filename := some (ascii "a.ogg") },
    .playlist { name := some (ascii "day"), weight := some 2, playableItemID := [1] },
    .playlist { name := some (ascii "night"), weight := some 1, playableItemID := [1] }]

/-- Of three numbers two choose the first playlist, which is the heavier one,
and one the second. -/
theorem proportionalDraw_lighterLater : ProportionalDraw .whole lighterLater 3 :=
  (proportionalDraw_iff .whole lighterLater (consistent_of_isConsistent (by decide +kernel))
    (drawable_of_rows (by decide +kernel)) 3 (by decide +kernel)).mpr
    (by unfold Decreasing; decide +kernel)

/-- Two playlists with one item, and weights that increase. -/
def heavierLater : Db :=
  databaseOf [.item { filename := some (ascii "a.ogg") },
    .playlist { name := some (ascii "day"), weight := some 1, playableItemID := [1] },
    .playlist { name := some (ascii "night"), weight := some 2, playableItemID := [1] }]

/-- **A playlist that is never drawn**: the number that is its share reaches
the heavier one after it as well, and the view shows the heavier one. None of
the three numbers that can come up shows the first playlist. -/
theorem draw_heavierLater :
    Consistent heavierLater ∧ Drawable heavierLater ∧ totalWeight heavierLater = some 3
      ∧ weightOf heavierLater 1 = 1
      ∧ ((Finset.Icc 1 3).filter
          (fun n => drawn .whole ⟨Shuffle.id, n - 1⟩ heavierLater = some 1)).card = 0 :=
  ⟨consistent_of_isConsistent (by decide +kernel), drawable_of_rows (by decide +kernel),
    by decide +kernel, by decide +kernel, by decide +kernel⟩
