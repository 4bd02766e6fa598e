import Mathlib.Order.Bounds.Basic
import RctAutomation.LegalId
import RctAutomation.PlayCounts
import RctAutomation.ReachableDatabases

/-!
# Legal IDs one after the other

The playlist of legal IDs is fetched with `FetchShuffled`, from a view whose items are
meant to come least played first. They come by their IDs, however often they were
played, and a command starts from the beginning of the list each time.

So legal IDs do not take turns. In every run of them, whatever happens to other playlists
and items in between, each one that is played is the same: the item of the least ID among
those that fit. The other items of the playlist are never played, and their rows stay as
they are (`legalId_repeats`).
-/

open Sql Transitions

namespace LegalID

/-! ## The command and what it leaves -/

/-- **`LEGAL_ID`**, and the database after it. It is `handleCommand` with the
contents that it leaves on the disk: the lock, if that could be taken, and
the raised play count, if that could be stored. -/
def run (fp : FloatOps) (ch : ℕ → Chance) (lockBusy busy : Bool) (name : Bytes) (max_length : ℤ)
    (db : Db) : PlayableItem.PlayEnd × Db :=
  match Playlist.lockByName fp lockBusy name ⟨db, none, 0⟩ with
  | none => (.aborted, db)
  | some c =>
    match Playlist.fetchShuffled (catalog fp (ch 0)) c.db name with
    | some (true, legalid) =>
      if legalid.size ≤ 0 then (.aborted, c.db)
      else
        match legalid.popWithTimelimit (catalog fp (ch 1)) c.db max_length {} with
        | some (_, item) => ((item.play fp busy c).1, (item.play fp busy c).2.durable)
        | none => (.aborted, c.db)
    | _ => (.aborted, c.db)

/-- It ends as `handleCommand` does. -/
theorem run_fst (fp : FloatOps) (ch : ℕ → Chance) (lockBusy busy : Bool) (name : Bytes)
    (max_length : ℤ) (db : Db) :
    (run fp ch lockBusy busy name max_length db).1
      = handleCommand fp ch lockBusy busy name max_length db := by
  unfold run handleCommand
  cases Playlist.lockByName fp lockBusy name ⟨db, none, 0⟩ with
  | none => rfl
  | some c =>
    dsimp only
    cases Playlist.fetchShuffled (catalog fp (ch 0)) c.db name with
    | none => rfl
    | some found =>
      obtain ⟨found, legalid⟩ := found
      cases found with
      | false => rfl
      | true =>
        dsimp only
        by_cases hsize : legalid.size ≤ 0
        · rw [if_pos hsize, if_pos hsize]
        · rw [if_neg hsize, if_neg hsize]
          cases legalid.popWithTimelimit (catalog fp (ch 1)) c.db max_length {} <;> rfl

variable {fp : FloatOps} {name : Bytes} {max_length : ℤ}

/-- A database as the program keeps it, on the disk: sane, and without a lock
on a playlist that does not exist. -/
def OnDisk (db : Db) : Prop := (⟨db, none, 0⟩ : Conn).Sound (catalog .whole .stored) Sane

theorem OnDisk.sane {db : Db} (h : OnDisk db) : Sane db := h.seen

theorem OnDisk.consistent {db : Db} (h : OnDisk db) : Consistent db := h.sane.consistent

/-- **A store that is made alone leaves it so**, however it ends, and so are
the contents that the connection sees. -/
theorem OnDisk.store {c : Conn} (h : OnDisk c.durable) (hseen : Sane c.db) (m : StoredMessage)
    (hfits : m.IntsFit) (cmd : StoreCmd) (hlock : ∀ l, m = .lock l → cmd ≠ .update) (busy : Bool) :
    OnDisk (m.store (catalog fp .stored) busy cmd c).conn.durable
      ∧ Sane (m.store (catalog fp .stored) busy cmd c).conn.db := by
  have hsound : c.Sound (catalog fp .stored) Sane := ⟨hseen, h.sane, h.deferred⟩
  have hrun : (m.store (catalog fp .stored) busy cmd c).conn.Sound (catalog fp .stored) Sane :=
    hsound.run (invariant_sane fp .stored) (steps_insertOrReplace hfits hlock)
  exact ⟨⟨hrun.durable, hrun.durable, hrun.deferred⟩, hrun.seen⟩

/-- A lock that was taken leaves the playlists and items as they should be,
as every store does. -/
theorem OnDisk.lockByName {db : Db} (h : OnDisk db) {busy : Bool} {c : Conn}
    (hclosed : c.saved = none) (hlock : Playlist.lockByName fp busy name ⟨db, none, 0⟩ = some c) :
    OnDisk c.db := by
  obtain ⟨c₀, hc₀⟩ : ∃ c₀ : Conn, c₀ = ⟨db, none, 0⟩ := ⟨_, rfl⟩
  have hsound : OnDisk c₀.durable ∧ Sane c₀.db := by
    rw [hc₀]
    exact ⟨h, h.sane⟩
  rw [← hc₀] at hlock
  obtain ⟨run, hrun⟩ : ∃ run, (StoredMessage.lock { name := some name }).store
      (catalog fp .stored) busy .replace c₀ = run := ⟨_, rfl⟩
  have hreplace : StoreCmd.replace ≠ .update := by decide
  have hstore : OnDisk run.conn.durable := by
    rw [← hrun]
    exact (hsound.1.store hsound.2 (.lock { name := some name }) trivial .replace
      (fun _ _ => hreplace) busy).1
  unfold Playlist.lockByName at hlock
  rw [hrun] at hlock
  dsimp only at hlock
  cases hout : run.outcome with
  | raised e =>
    rw [hout] at hlock
    cases hlock
  | aborted =>
    rw [hout] at hlock
    cases hlock
  | returned a =>
    rw [hout] at hlock
    obtain rfl := Option.some.inj hlock
    unfold Conn.durable at hstore
    rw [hclosed] at hstore
    exact hstore

/-- A database that differs in the locks only. -/
def FramesLocks (db db' : Db) : Prop := ∀ t, t ≠ "PlaylistLock" → db' t = db t

/-- **What `LEGAL_ID` does**: it ends the process and leaves no more than a
lock, or it plays the first choice that looks as if it fits, or the empty
track. -/
theorem run_cases (fp : FloatOps) (ch : ℕ → Chance) (lockBusy busy : Bool)
    (hmax : FitsInt32 max_length) {db : Db} (h : OnDisk db) :
    (∃ db', run fp ch lockBusy busy name max_length db = (.aborted, db')
      ∧ OnDisk db' ∧ FramesLocks db db')
    ∨ ∃ c : Conn, c.saved = none ∧ OnDisk c.db ∧ FramesLocks db c.db ∧ lockBusy = false
      ∧ ∃ item, item = ((firstFit fp name max_length db).map (PlayableItem.ofRow fp)).getD {}
        ∧ run fp ch lockBusy busy name max_length db
          = ((item.play fp busy c).1, (item.play fp busy c).2.durable) := by
  have hc : Consistent db := h.consistent
  obtain ⟨hlocked, -⟩ := Playlist.lockByName_spec fp lockBusy name (c := ⟨db, none, 0⟩) rfl
  unfold run
  cases hlock : Playlist.lockByName fp lockBusy name ⟨db, none, 0⟩ with
  | none => exact Or.inl ⟨db, rfl, h, fun _ _ => rfl⟩
  | some c =>
    obtain ⟨hidle, hclosed, hframe⟩ := hlocked c hlock
    have hdisk : OnDisk c.db := h.lockByName hclosed hlock
    dsimp only
    rw [fetchShuffled_frame fp (ch 0) hframe]
    rcases fetchShuffled_choices fp (ch 0) hc name with ⟨-, hfetch⟩ | ⟨legalid, hids, hfetch⟩
    · rw [hfetch]
      exact Or.inl ⟨c.db, rfl, hdisk, hframe⟩
    · rw [hfetch]
      dsimp only
      by_cases hsize : legalid.size ≤ 0
      · rw [if_pos hsize]
        exact Or.inl ⟨c.db, rfl, hdisk, hframe⟩
      · rw [if_neg hsize]
        have hrow := row?_frame hframe
        have hids' : ∀ i ∈ choices fp db name, (PlayableItem.row? c.db i).isSome = true := by
          rw [hrow]
          exact row?_of_choices fp hc name
        obtain ⟨ids', hloop⟩ := popLoop_looksFit fp (ch 1) max_length hdisk.consistent.playableItems
          hids' PlayableItem.plain_empty
        unfold Playlist.popWithTimelimit
        rw [toInt32_of_fits hmax, hids, hloop, hrow]
        exact Or.inr ⟨c, hclosed, hdisk, hframe, hidle, _, rfl, rfl⟩

/-! ## The order of the choices -/

/-- `ORDER BY` sorts, here by a column of integers. -/
theorem orderAsc_sorted {col : String} {f : Row → ℤ} {rows : List Row}
    (hf : ∀ r ∈ rows, r col = .integer (f r)) :
    (orderAsc col rows).Pairwise fun a b => f a ≤ f b := by
  have hmap : (orderAsc col rows).map f = (rows.map f).insertionSort (· ≤ ·) := by
    refine List.map_insertionSort _ _ f rows fun a ha b hb => ?_
    rw [hf a ha, hf b hb]
    exact decide_eq_true_iff
  have hsorted := List.pairwise_insertionSort (fun a b : ℤ => a ≤ b) (rows.map f)
  rw [← hmap] at hsorted
  exact List.pairwise_map.mp hsorted

/-- **The choices are sorted**: what is listed for an item is its ID, and
items are listed by their IDs. The shuffled view has no other order, whatever
its subquery sorts by. -/
theorem choices_sorted (fp : FloatOps) {db : Db} (hc : Consistent db) (name : Bytes) :
    (choices fp db name).Pairwise (· ≤ ·) := by
  unfold choices
  cases (db "Playlist").rows.find? (fun r => (r "name").same (numericOfText fp name)) with
  | none => exact List.Pairwise.nil
  | some x =>
    dsimp only
    unfold childIds
    rw [List.map_flatMap, List.pairwise_flatMap]
    have hkeys : ∀ it ∈ (db "PlayableItem").rows,
        it "PlayableItemID" = .integer (it "PlayableItemID").toInt64 := by
      intro it hit
      obtain ⟨n, hn⟩ := hc.playableItems.keys "PlayableItemID" rfl it hit
      rw [hn]
      rfl
    have hitem : ∀ it ∈ listedItems db, ∀ i ∈ (((db "Playlist_PlayableItemID").rows.filter
        fun j => (j "PlaylistID").same (x "PlaylistID")
          && (j "PlayableItemID").same (it "PlayableItemID")).map
        fun j => j "PlayableItemID").map Value.toInt64, i = (it "PlayableItemID").toInt64 := by
      intro it hit i hi
      have hrow : it ∈ (db "PlayableItem").rows := (listedItems_perm db).mem_iff.mp hit
      obtain ⟨v, hv, rfl⟩ := List.mem_map.mp hi
      obtain ⟨j, hj, rfl⟩ := List.mem_map.mp hv
      obtain ⟨hjoin, hsame⟩ := List.mem_filter.mp hj
      obtain ⟨-, n, -, hn⟩ := hc.integers j hjoin
      rw [Value.eq_of_same hn (hkeys it hrow) (Bool.and_eq_true_iff.mp hsame).2]
    refine ⟨fun it hit => ?_, (orderAsc_sorted hkeys).imp_of_mem ?_⟩
    · refine List.pairwise_of_forall_mem_list fun i hi j hj => ?_
      rw [hitem it hit i hi, hitem it hit j hj]
    · intro it it' hit hit' hle i hi j hj
      rw [hitem it hit i hi, hitem it' hit' j hj]
      exact hle

/-! ## The items that fit -/

/-- An item of the playlist with the name. Where names are unique there is
one such playlist at most. -/
def Listed (fp : FloatOps) (db : Db) (name : Bytes) (i : ℤ) : Prop :=
  ∃ x ∈ (db "Playlist").rows, (x "name").same (numericOfText fp name) = true
    ∧ ∃ p, x "PlaylistID" = .integer p ∧ i ∈ itemsOf db p

/-- An item looks as if it fits: it has a row that does. -/
def Fits (max_length : ℤ) (db : Db) (i : ℤ) : Prop :=
  ∃ r, PlayableItem.row? db i = some r ∧ looksFit max_length r = true

/-- The items of the playlist that look as if they fit. -/
def fitting (fp : FloatOps) (name : Bytes) (max_length : ℤ) (db : Db) : Set ℤ :=
  {i | Listed fp db name i ∧ Fits max_length db i}

/-- A choice is an item of the playlist. -/
theorem mem_choices (fp : FloatOps) {db : Db} (hc : Consistent db) (i : ℤ) :
    i ∈ choices fp db name ↔ Listed fp db name i := by
  constructor
  · intro hi
    rcases choices_cases fp hc name with hnil | ⟨x, hx, hsame, p, hp, hmem⟩
    · rw [hnil] at hi
      exact absurd hi List.not_mem_nil
    · exact ⟨x, hx, hsame, p, hp, (hmem i).mp hi⟩
  · rintro ⟨x, hx, hsame, p, hp, hi⟩
    unfold choices
    rw [find?_named hc hx hsame]
    obtain ⟨ns, hns, hmem⟩ := childIds_eq hc (listedItems_perm db) hp
    dsimp only
    rw [hns, List.map_map]
    exact List.mem_map.mpr ⟨i, (hmem i).mpr hi, rfl⟩

/-- **The first choice that looks as if it fits** is the one of the least ID,
and without one there is none. This is where the order of the view decides:
as the choices are sorted, the first that is found is the least of those that
fit. -/
theorem firstFit_cases (fp : FloatOps) (name : Bytes) (max_length : ℤ) {db : Db}
    (hc : Consistent db) :
    (fitting fp name max_length db = ∅ ∧ firstFit fp name max_length db = none)
    ∨ ∃ i r, IsLeast (fitting fp name max_length db) i ∧ PlayableItem.row? db i = some r
      ∧ firstFit fp name max_length db = some r := by
  have hfits : ∀ i, (PlayableItem.row? db i).any (looksFit max_length) = true
      ↔ Fits max_length db i := fun i => Option.any_eq_true ..
  unfold firstFit
  rw [List.find?_filterMap]
  cases hfind : (choices fp db name).find?
      fun i => (PlayableItem.row? db i).any (looksFit max_length) with
  | none =>
    refine Or.inl ⟨Set.eq_empty_of_forall_notMem fun i hi => ?_, rfl⟩
    exact List.find?_eq_none.mp hfind i ((mem_choices fp hc i).mpr hi.1) ((hfits i).mpr hi.2)
  | some i =>
    obtain ⟨hany, before, after, hsplit, hbefore⟩ := List.find?_eq_some_iff_append.mp hfind
    obtain ⟨r, hrow, hfit⟩ := (hfits i).mp hany
    have hi : i ∈ choices fp db name := List.mem_of_find?_eq_some hfind
    refine Or.inr ⟨i, r, ⟨⟨(mem_choices fp hc i).mp hi, r, hrow, hfit⟩, fun j hj => ?_⟩, hrow, hrow⟩
    have hj' := (mem_choices fp hc j).mpr hj.1
    have hsorted := choices_sorted fp hc name
    rw [hsplit] at hj' hsorted
    rcases List.mem_append.mp hj' with hj' | hj'
    · -- what is listed before it does not fit
      have hnot := hbefore j hj'
      rw [(hfits j).mpr hj.2] at hnot
      cases hnot
    · rcases List.mem_cons.mp hj' with rfl | hj'
      · exact le_refl j
      · exact List.rel_of_pairwise_cons (List.pairwise_append.mp hsorted).2.1 hj'

/-! ## What stays -/

/-- **What is changed elsewhere**: the playlist has the items that it had,
and their rows are as they were.

Other playlists and items can come, change and go, and so can schedules and
locks, as long as the database is one that the program keeps. -/
structure Elsewhere (fp : FloatOps) (name : Bytes) (db db' : Db) : Prop where
  disk : OnDisk db'
  listed : ∀ i, Listed fp db' name i ↔ Listed fp db name i
  rows : ∀ i, Listed fp db name i → PlayableItem.row? db' i = PlayableItem.row? db i

/-- A lock is elsewhere. -/
theorem elsewhere_of_framesLocks {db db' : Db} (hdisk : OnDisk db') (h : FramesLocks db db') :
    Elsewhere fp name db db' := by
  refine ⟨hdisk, fun i => ?_, fun i _ => by rw [row?_frame h]⟩
  unfold Listed itemsOf
  rw [h "Playlist" (by decide), h "Playlist_PlayableItemID" (by decide)]

/-- Whether a row looks as if it fits is a matter of what is read of it. -/
theorem looksFit_eq {a b : Row} (fp : FloatOps)
    (hid : (PlayableItem.ofRow fp a).playableItemID = (PlayableItem.ofRow fp b).playableItemID)
    (hduration : (PlayableItem.ofRow fp a).duration = (PlayableItem.ofRow fp b).duration)
    (seconds : ℤ) : looksFit seconds a = looksFit seconds b := by
  unfold looksFit
  rw [show (a "PlayableItemID").toColumnInt = (b "PlayableItemID").toColumnInt from
    Option.some.inj hid, show (a "duration").toColumnInt = (b "duration").toColumnInt from
    Option.some.inj hduration]

/-- The integers of an item that was fetched are of their types. -/
theorem intsFit_incrementPlaycount (fp : FloatOps) (r : Row) :
    (StoredMessage.item (PlayableItem.ofRow fp r).incrementPlaycount).IntsFit := by
  have hfits : ∀ n, Wire.FitsInt64 (toInt32 n) := by
    intro n
    have hrange := fitsInt32_toInt32 n
    unfold FitsInt32 int32Min int32Max at hrange
    unfold Wire.FitsInt64
    omega
  refine ⟨fun n hn => ?_, fun n hn => ?_, nofun, fun n hn => ?_⟩
  · rw [← Option.some.inj hn]
    exact hfits _
  · rw [← Option.some.inj hn]
    exact hfits _
  · rw [← Option.some.inj hn]
    exact fitsInt32_toInt32 _

/-- The database once a count was raised. -/
theorem OnDisk.play {c : Conn} (h : OnDisk c.db) (hclosed : c.saved = none) {busy : Bool} {r : Row}
    (hraise : PlayableItem.Raisable fp busy c.db r) : OnDisk (PlayableItem.raisedDb fp c.db r) := by
  have hdurable : c.durable = c.db := by
    unfold Conn.durable
    rw [hclosed]
    rfl
  have hlock : ∀ l, StoredMessage.item (PlayableItem.ofRow fp r).incrementPlaycount = .lock l →
      StoreCmd.update ≠ .update := nofun
  have hstore : OnDisk ((StoredMessage.item (PlayableItem.ofRow fp r).incrementPlaycount).store
      (catalog fp .stored) busy .update c).conn.durable :=
    (OnDisk.store (hdurable.symm ▸ h) h.sane _ (intsFit_incrementPlaycount fp r) .update
      hlock busy).1
  obtain ⟨-, hdb, hsaved⟩ :=
    (PlayableItem.play_ofRow fp busy hclosed h.consistent.playableItems r).1 hraise
  rw [← PlayableItem.play_conn] at hstore
  unfold Conn.durable at hstore
  rw [hsaved, hdb] at hstore
  exact hstore

/-- **What every run keeps**, compared with the database that it started
from: the playlist has the same items, the same ones fit, and only the row of
the least one that fits can have changed. -/
structure Repeats (fp : FloatOps) (name : Bytes) (max_length : ℤ) (db₀ db : Db) : Prop where
  disk : OnDisk db
  listed : ∀ i, Listed fp db name i ↔ Listed fp db₀ name i
  fits : ∀ i, Listed fp db₀ name i → (Fits max_length db i ↔ Fits max_length db₀ i)
  others : ∀ i, Listed fp db₀ name i → ¬IsLeast (fitting fp name max_length db₀) i →
    PlayableItem.row? db i = PlayableItem.row? db₀ i

theorem Repeats.fitting {db₀ db : Db} (h : Repeats fp name max_length db₀ db) :
    fitting fp name max_length db = fitting fp name max_length db₀ := by
  ext i
  exact (and_congr_left' (h.listed i)).trans (and_congr_right (h.fits i))

/-- It stays so when something elsewhere is changed. -/
theorem Repeats.elsewhere {db₀ db db' : Db} (h : Repeats fp name max_length db₀ db)
    (helse : Elsewhere fp name db db') : Repeats fp name max_length db₀ db' where
  disk := helse.disk
  listed i := (helse.listed i).trans (h.listed i)
  fits i hi := by
    unfold Fits
    rw [helse.rows i ((h.listed i).mpr hi)]
    exact h.fits i hi
  others i hi hne := (helse.rows i ((h.listed i).mpr hi)).trans (h.others i hi hne)

/-- **And when the count of the least item that fits is raised.** Its ID is
an `int`, so that it is the row that the update finds; its ID and its
duration are written back as they were read, so it fits as before. -/
theorem Repeats.raised {db₀ db : Db} (h : Repeats fp name max_length db₀ db) {i : ℤ} {r : Row}
    (hleast : IsLeast (LegalID.fitting fp name max_length db₀) i)
    (hrow : PlayableItem.row? db i = some r) (hint : FitsInt32 i)
    (hdisk : OnDisk (PlayableItem.raisedDb fp db r)) :
    Repeats fp name max_length db₀ (PlayableItem.raisedDb fp db r) := by
  have hv := h.disk.consistent.playableItems
  obtain ⟨-, hid⟩ := PlayableItem.row?_id hv hrow
  have hread : (r "PlayableItemID").toColumnInt = i := by
    rw [hid]
    exact toInt32_of_fits hint
  have hothers : ∀ j, j ≠ i →
      PlayableItem.row? (PlayableItem.raisedDb fp db r) j = PlayableItem.row? db j := by
    intro j hji
    rw [PlayableItem.row?_raisedDb hv]
    cases hx : PlayableItem.row? db j with
    | none => rfl
    | some x =>
      obtain ⟨-, hxid⟩ := PlayableItem.row?_id hv hx
      exact congrArg some (PlayableItem.raisedRow_of_ne r hxid (hread.symm ▸ hji))
  have hsame : PlayableItem.row? (PlayableItem.raisedDb fp db r) i
      = some (PlayableItem.raisedRow fp r r) := by
    rw [PlayableItem.row?_raisedDb hv, hrow]
    rfl
  -- the ID and the duration are written back as they were read
  have hfit : looksFit max_length (PlayableItem.raisedRow fp r r) = looksFit max_length r := by
    have hloaded := PlayableItem.ofRow_raisedRow fp (r := r) (by rw [hread, hid])
    refine looksFit_eq fp ?_ ?_ max_length <;> rw [hloaded]
  refine ⟨hdisk, h.listed, fun j hj => ?_, fun j hj hne => ?_⟩
  · refine Iff.trans ?_ (h.fits j hj)
    unfold Fits
    by_cases hji : j = i
    · subst hji
      simp only [hsame, hrow, Option.some.injEq, exists_eq_left', hfit]
    · rw [hothers j hji]
  · exact (hothers j fun hji => hne (hji ▸ hleast)).trans (h.others j hj hne)

/-! ## One after the other -/

/-- A command, with what it leaves to chance, and whether other connections keep it from
committing the lock and the raised count. -/
structure Call where
  ch : ℕ → Chance
  lockBusy : Bool
  busy : Bool

/-- **What happens to the database**: a legal ID is due, or something
elsewhere is changed. A command that ends the process is followed by others,
as the process is started again. -/
inductive Turn (fp : FloatOps) (name : Bytes) (max_length : ℤ) : Db → Option Call → Db → Prop
  | command {db : Db} (call : Call) :
    Turn fp name max_length db (some call)
      (run fp call.ch call.lockBusy call.busy name max_length db).2
  | elsewhere {db db' : Db} (h : Elsewhere fp name db db') : Turn fp name max_length db none db'

/-- The track that a command can play, given what fitted at first: the item of the least
ID, or the empty track where nothing fitted. -/
def SameTrack (fp : FloatOps) (name : Bytes) (max_length : ℤ) (db₀ : Db) (track : PlayableItem) :
    Prop :=
  (∃ i, IsLeast (fitting fp name max_length db₀) i ∧ track.playableItemID = some i)
    ∨ (fitting fp name max_length db₀ = ∅ ∧ track = {})

/-- The contents on the disk when the count cannot be raised are those of
before: the store is refused and rolled back, or the process ends with its
transaction open. -/
theorem durable_of_not_raisable {c : Conn} (hclosed : c.saved = none) (hdisk : OnDisk c.db)
    {busy : Bool} {r : Row} (hr : ¬PlayableItem.Raisable fp busy c.db r) :
    ((PlayableItem.ofRow fp r).play fp busy c).2.durable = c.db := by
  have hv := hdisk.consistent.playableItems
  have hdb := PlayableItem.play_db_of_not_raisable hclosed hv hr
  by_cases hid : (r "PlayableItemID").toColumnInt = -1
  · have hunknown : localId (PlayableItem.ofRow fp r).incrementPlaycount.toMessage = -1 :=
      (PlayableItem.localId_raised r).trans hid
    have hconn : ((StoredMessage.item (PlayableItem.ofRow fp r).incrementPlaycount).store
        (catalog fp .stored) busy .update c).conn = { c with saved := some c.db } :=
      conn_of_unknownId (catalog fp .stored) busy hclosed hunknown
    rw [PlayableItem.play_conn, hconn]
    rfl
  · have hrun := run_insertOrReplace (catalog fp .stored) busy .update
      (PlayableItem.ofRow fp r).incrementPlaycount.toMessage hclosed
    have hsaved : ((PlayableItem.ofRow fp r).play fp busy c).2.saved = none := by
      rw [PlayableItem.play_conn]
      rcases (PlayableItem.save_raised fp busy hv r).2.2 hid hr with hend | hend <;>
        rw [hend] at hrun
      · exact hrun.2.2.1
      · exact hrun.2.2.1
    unfold Conn.durable
    rw [hsaved, hdb]
    rfl

/-- **A command plays the same track**, and leaves what fits: it raises the
count of the row that it plays, which is not looked at when the next one is
chosen. -/
theorem Repeats.run (hmax : FitsInt32 max_length) {db₀ db : Db}
    (h : Repeats fp name max_length db₀ db) (hids : ∀ i, Listed fp db₀ name i → FitsInt32 i)
    (call : Call) :
    (∀ track, handleCommand fp call.ch call.lockBusy call.busy name max_length db = .played track →
      SameTrack fp name max_length db₀ track)
      ∧ Repeats fp name max_length db₀
        (LegalID.run fp call.ch call.lockBusy call.busy name max_length db).2 := by
  rw [← run_fst]
  rcases run_cases fp call.ch call.lockBusy call.busy hmax h.disk with
    ⟨db', hrun, hdisk, hframe⟩ | ⟨c, hclosed, hdisk, hframe, -, item, hitem, hrun⟩
  · rw [hrun]
    exact ⟨nofun, h.elsewhere (elsewhere_of_framesLocks hdisk hframe)⟩
  · rw [hrun]
    have hc : Repeats fp name max_length db₀ c.db :=
      h.elsewhere (elsewhere_of_framesLocks hdisk hframe)
    rcases firstFit_cases fp name max_length h.disk.consistent with
      ⟨hempty, hnone⟩ | ⟨i, r, hleast, hrow, hfirst⟩
    · -- the empty track is played as it is
      rw [hnone] at hitem
      obtain rfl : item = {} := hitem
      have hplay : PlayableItem.play fp call.busy {} c = (.played {}, c) := rfl
      have hdurable : c.durable = c.db := by
        unfold Conn.durable
        rw [hclosed]
        rfl
      rw [hplay]
      dsimp only
      rw [hdurable]
      refine ⟨fun track htrack => Or.inr ⟨h.fitting ▸ hempty, ?_⟩, hc⟩
      exact (PlayableItem.PlayEnd.played.inj htrack).symm
    · rw [hfirst] at hitem
      obtain rfl : item = PlayableItem.ofRow fp r := hitem
      rw [h.fitting] at hleast
      rw [← row?_frame hframe] at hrow
      have hint : FitsInt32 i := hids i hleast.1.1
      have hv := hdisk.consistent.playableItems
      by_cases hraise : PlayableItem.Raisable fp call.busy c.db r
      · obtain ⟨hplayed, hdb, hsaved⟩ :=
          (PlayableItem.play_ofRow fp call.busy hclosed hv r).1 hraise
        have hdurable : ((PlayableItem.ofRow fp r).play fp call.busy c).2.durable
            = PlayableItem.raisedDb fp c.db r := by
          unfold Conn.durable
          rw [hsaved, hdb]
          rfl
        rw [hdurable, hplayed]
        refine ⟨fun track htrack => Or.inl ⟨i, hleast, ?_⟩,
          hc.raised hleast hrow hint (hdisk.play hclosed hraise)⟩
        obtain rfl := PlayableItem.PlayEnd.played.inj htrack
        obtain ⟨-, hid⟩ := PlayableItem.row?_id hv hrow
        show some (r "PlayableItemID").toColumnInt = some i
        rw [hid]
        exact congrArg some (toInt32_of_fits hint)
      · rw [durable_of_not_raisable hclosed hdisk hraise]
        exact ⟨fun track htrack =>
          absurd htrack (PlayableItem.play_ofRow_ne fp hclosed hv hraise track), hc⟩

/-- **Legal IDs do not take turns.** In every run of legal IDs, between which
anything may happen to other playlists and items, each one that is played is
the item of the least ID among those of the playlist that fitted at the
start, or the empty track each time if none did. The rows of the other items
stay as they are.

The view that is fetched sorts the items by their play counts, least played
first, in a subquery; what it lists does not come in that order. -/
theorem legalId_repeats (fp : FloatOps) (name : Bytes) {max_length : ℤ}
    (hmax : FitsInt32 max_length) {db₀ db : Db} (h₀ : OnDisk db₀)
    (hids : ∀ i, Listed fp db₀ name i → FitsInt32 i) {trace : List (Db × Option Call)}
    (hrun : Transitions.Run (Turn fp name max_length) db₀ trace db) :
    (∀ x ∈ trace, ∀ call, x.2 = some call → ∀ track,
      handleCommand fp call.ch call.lockBusy call.busy name max_length x.1 = .played track →
        SameTrack fp name max_length db₀ track)
      ∧ ∀ i, Listed fp db₀ name i → ¬IsLeast (fitting fp name max_length db₀) i →
        PlayableItem.row? db i = PlayableItem.row? db₀ i := by
  have hstart : Repeats fp name max_length db₀ db₀ :=
    ⟨h₀, fun _ => Iff.rfl, fun _ _ => Iff.rfl, fun _ _ _ => rfl⟩
  have hinv := hrun.invariant (Repeats fp name max_length db₀) (fun _ _ => True) hstart
    (fun db a db' h _ hstep => ?_) fun _ _ => trivial
  · refine ⟨fun x hx call _ => ?_, hinv.1.others⟩
    exact ((hinv.2 x hx).run hmax hids call).1
  · cases hstep with
    | command call => exact (h.run hmax hids call).2
    | elsewhere helse => exact h.elsewhere helse

/-! ## Two tracks -/

/-- A track of half a minute. -/
def idTrack (filename : String) : StoredMessage :=
  .item { filename := some (ascii filename), duration := some 30 }

/-- The playlist of legal IDs. -/
def idPlaylist : StoredMessage :=
  .playlist { name := some (ascii "legalid"), weight := some 1, playableItemID := [1, 2] }

/-- A playlist of legal IDs with two tracks. -/
def pairDb : Db := databaseOf [idTrack "a.ogg", idTrack "b.ogg", idPlaylist]

/-- A command that nobody gets in the way of. -/
def freeCall : Call := ⟨fun _ => .stored, false, false⟩

/-- A database that a message is added to. -/
theorem OnDisk.insert {db : Db} (h : OnDisk db) (m : StoredMessage) (hfits : m.IntsFit)
    (hdeferred : (catalog .whole .stored).orphans true
      (m.store (catalog .whole .stored) false .insert ⟨db, none, 0⟩).conn.db = 0) :
    OnDisk (m.store (catalog .whole .stored) false .insert ⟨db, none, 0⟩).conn.db := by
  obtain ⟨c, hc⟩ : ∃ c : Conn, c = ⟨db, none, 0⟩ := ⟨_, rfl⟩
  have hsound : OnDisk c.durable ∧ Sane c.db := by
    rw [hc]
    exact ⟨h, h.sane⟩
  rw [← hc] at hdeferred ⊢
  have hinsert : StoreCmd.insert ≠ .update := by decide
  have hseen : Sane (m.store (catalog .whole .stored) false .insert c).conn.db :=
    (hsound.1.store hsound.2 m hfits .insert (fun _ _ => hinsert) false).2
  exact ⟨hseen, hseen, hdeferred⟩

theorem onDisk_pairDb : OnDisk pairDb := by
  have hempty : OnDisk emptyDb := ⟨sane_emptyDb, sane_emptyDb, rfl⟩
  have htrack : ∀ filename, (idTrack filename).IntsFit := fun filename =>
    ⟨nofun, fun _ hn => Option.some.inj hn ▸ ⟨by decide, by decide⟩, nofun, nofun⟩
  have hplaylist : idPlaylist.IntsFit := by
    refine ⟨nofun, fun _ hn => Option.some.inj hn ▸ ⟨by decide, by decide⟩, fun n hn => ?_, nofun,
      nofun⟩
    have hsmall : n = 1 ∨ n = 2 := by simpa using hn
    unfold Wire.FitsInt64
    omega
  exact ((hempty.insert (idTrack "a.ogg") (htrack _) (by decide +kernel)).insert (idTrack "b.ogg")
    (htrack _) (by decide +kernel)).insert idPlaylist hplaylist (by decide +kernel)

/-- Three legal IDs all play the first of two tracks, although the second one is never
played. -/
theorem legalId_repeats_pair :
    ∃ trace db, Transitions.Run (Turn .whole (ascii "legalid") 60) pairDb trace db
      ∧ trace.length = 3
      ∧ (PlayableItem.row? db 1).map (fun r => r "playcount") = some (.integer 3)
      ∧ PlayableItem.row? db 2 = PlayableItem.row? pairDb 2
      ∧ ∀ x ∈ trace, ∀ call, x.2 = some call → ∀ track,
        handleCommand .whole call.ch call.lockBusy call.busy (ascii "legalid") 60 x.1
          = .played track → track.playableItemID = some 1 := by
  have hrun : Transitions.Run (Turn .whole (ascii "legalid") 60) pairDb _ _ :=
    .snoc (.snoc (.snoc .nil (.command freeCall)) (.command freeCall)) (.command freeCall)
  have hlisted : ∀ i, Listed .whole pairDb (ascii "legalid") i → i = 1 ∨ i = 2 := by
    rintro i ⟨-, -, -, p, -, j, hj, -, hi⟩
    have hrows : ∀ j ∈ (pairDb "Playlist_PlayableItemID").rows,
        j "PlayableItemID" = .integer 1 ∨ j "PlayableItemID" = .integer 2 := by decide +kernel
    exact (hrows j hj).imp (fun h => Value.integer.inj (hi.symm.trans h))
      fun h => Value.integer.inj (hi.symm.trans h)
  have hlist : ∀ i, i = 1 ∨ i = 2 → Listed .whole pairDb (ascii "legalid") i := by
    intro i hi
    obtain ⟨x, hx, hname, hkey⟩ : ∃ x ∈ (pairDb "Playlist").rows,
        (x "name").same (numericOfText .whole (ascii "legalid")) = true
          ∧ x "PlaylistID" = .integer 1 := by decide +kernel
    refine ⟨x, hx, hname, 1, hkey, ?_⟩
    rcases hi with rfl | rfl
    · exact show (1 : ℤ) ∈ itemsOf pairDb 1 by decide +kernel
    · exact show (2 : ℤ) ∈ itemsOf pairDb 1 by decide +kernel
  have hleast : IsLeast (fitting .whole (ascii "legalid") 60 pairDb) 1 := by
    refine ⟨⟨hlist 1 (Or.inl rfl), ?_⟩, fun i hi => ?_⟩
    · have hfit : (PlayableItem.row? pairDb 1).any (looksFit 60) = true := by decide +kernel
      exact (Option.any_eq_true ..).mp hfit
    · rcases hlisted i hi.1 with rfl | rfl <;> decide
  have hall := legalId_repeats .whole (ascii "legalid") (by decide) onDisk_pairDb
    (fun i hi => by rcases hlisted i hi with rfl | rfl <;> decide) hrun
  refine ⟨_, _, hrun, rfl, by decide +kernel, ?_, fun x hx call hcall track htrack => ?_⟩
  · refine hall.2 2 (hlist 2 (Or.inr rfl)) fun htwo => ?_
    exact absurd (htwo.unique hleast) (by decide)
  · rcases hall.1 x hx call hcall track htrack with ⟨i, hi, hid⟩ | ⟨hempty, -⟩
    · rw [hid, hi.unique hleast]
    · rw [hempty] at hleast
      exact absurd hleast.1 (Set.notMem_empty _)

end LegalID
