import Mathlib.Data.List.Find
import RctAutomation.LoadTwice
import RctAutomation.RaisedPlaycounts
import RctAutomation.Runs

/-!
# Playing items counts them

Each `Play` of an item that was fetched reads its playcount, and writes all that
was fetched back with a count that is one more. So a play should be seen in that
one number, and nothing else should change, however often the items are played.

`plays_counted_iff` says when it is so, for every sequence of plays. A row is
not only read, but written back through the encoder: its ID has to be an `int`
that is not taken for a missing one, its count has to have room, and its texts
have to survive the columns they are stored in. Above all the file name, which
is the empty text where there was none, must not be another row's.
-/

open Sql Transitions
open Acmd (fileRow? fetchFile_eq)

namespace PlayableItem

/-! ## Plays -/

/-- **An item that was fetched from the row with an ID**, by the ID or by the
file name. The object that it is fetched into may have been used before, as
long as it holds nothing that is not a column. -/
inductive Fetched (fp : FloatOps) (db : Db) : ℤ → PlayableItem → Prop
  | byId (ch : Chance) {used item : PlayableItem} {id : ℤ} (hused : used.Plain)
      (h : used.fetch (catalog fp ch) db id = some (true, item)) : Fetched fp db id item
  | byName {durations : FileDurations} {name : Bytes} {item : PlayableItem} {r : Row} {id : ℤ}
      (hrow : fileRow? fp (db "PlayableItem").rows name = some r)
      (hid : r "PlayableItemID" = .integer id)
      (h : fetchFile (catalog fp .stored) durations db name = some (true, item)) :
      Fetched fp db id item

/-- A call of `Play`: the ID of the row the item was fetched from, and whether
another connection keeps this one from committing. -/
structure PlayCall where
  id : ℤ
  busy : Bool

/-- **A call of `Play`**, right after the item was fetched. No call is under
way when it starts. Between two calls nothing else happens to the database. -/
def PlayStep (fp : FloatOps) (c : Conn) (call : PlayCall) (c' : Conn) : Prop :=
  c.saved = none ∧ ∃ item, Fetched fp c.db call.id item ∧ c' = (item.play fp call.busy c).2

/-! ## What should be seen of them -/

/-- The row with an ID, as `MessageStore` loads it: what can be seen of a
row. -/
def loaded (fp : FloatOps) (db : Db) (id : ℤ) : Option PlayableItem :=
  match ({} : PlayableItem).fetch (catalog fp .stored) db id with
  | some (true, item) => some item
  | _ => none

/-- An item that was played some more times. -/
def playedMore (n : ℕ) (item : PlayableItem) : PlayableItem :=
  { item with playcount := item.playcount.map (· + (n : ℤ)) }

/-- How often a row was played. -/
def playsOf (id : ℤ) (calls : List (Conn × PlayCall)) : ℕ := calls.countP (fun x => x.2.id == id)

/-- **The plays are counted and nothing else changes**: each item reads as
before, with as many plays more as there were calls for it, and the other
tables are as they were. -/
structure PlaysCounted (fp : FloatOps) (c₀ : Conn) (calls : List (Conn × PlayCall)) (c : Conn) :
    Prop where
  items : ∀ id, loaded fp c.db id = (loaded fp c₀.db id).map (playedMore (playsOf id calls))
  others : ∀ table, table ≠ "PlayableItem" → c.db table = c₀.db table

/-- **A row that survives being played**: the count can be raised, and what
is written back reads as it did. -/
structure SurvivesPlay (fp : FloatOps) (busy : Bool) (db : Db) (r : Row) : Prop where
  raisable : Raisable fp busy db r
  id : r "PlayableItemID" = .integer (r "PlayableItemID").toColumnInt
  playcount : (r "playcount").toColumnInt < int32Max
  filename : TextKept fp ((r "filename").toText fp)
  description : TextKept fp ((r "description").toText fp)

/-- A call whose row survives it. -/
def PlayCall.Survived (fp : FloatOps) (c : Conn) (call : PlayCall) : Prop :=
  ∀ r, row? c.db call.id = some r → SurvivesPlay fp call.busy c.db r

variable {fp : FloatOps}

/-! ## What is loaded -/

theorem loaded_eq (fp : FloatOps) (db : Db) (id : ℤ) :
    loaded fp db id = (row? db id).map (ofRow fp) := by
  unfold loaded
  rw [fetch_plain plain_empty]
  cases row? db id <;> rfl

/-- An item that was fetched is that of its row. -/
theorem Fetched.exists_row {db : Db} (hv : playableItemDef.Valid (db "PlayableItem")) {id : ℤ}
    {item : PlayableItem} (h : Fetched fp db id item) :
    ∃ r, row? db id = some r ∧ item = ofRow fp r := by
  cases h with
  | byId ch hused h =>
    rw [fetch_plain hused] at h
    obtain ⟨hfound, hitem⟩ := Prod.mk.inj (Option.some.inj h)
    obtain ⟨r, hr⟩ := Option.isSome_iff_exists.mp hfound
    rw [hr] at hitem
    exact ⟨r, hr, hitem.symm⟩
  | @byName durations name _ r _ hrow hid h =>
    rw [fetchFile_eq, hrow] at h
    obtain ⟨-, hitem⟩ := Prod.mk.inj (Option.some.inj h)
    exact ⟨r, (row?_eq_some_iff hv).mpr ⟨List.mem_of_find?_eq_some hrow, hid⟩, hitem.symm⟩

theorem playedMore_zero (item : PlayableItem) : playedMore 0 item = item := by
  obtain ⟨_, _, _, _, _, _, playcount⟩ := item
  cases playcount <;> simp [playedMore]

theorem map_playedMore_zero (o : Option PlayableItem) : o.map (playedMore 0) = o := by
  rw [funext playedMore_zero]
  exact Option.map_id'

theorem playedMore_add (m n : ℕ) (item : PlayableItem) :
    playedMore n (playedMore m item) = playedMore (m + n) item := by
  obtain ⟨_, _, _, _, _, _, playcount⟩ := item
  cases playcount <;> simp [playedMore, add_assoc]

/-- It is a matter of the calls alone. -/
theorem playsOf_eq_countP (id : ℤ) (calls : List (Conn × PlayCall)) :
    playsOf id calls = (calls.map Prod.snd).countP (fun call => call.id == id) := by
  rw [List.countP_map]
  rfl

theorem playsOf_append (id : ℤ) (calls : List (Conn × PlayCall)) (c : Conn) (call : PlayCall) :
    playsOf id (calls ++ [(c, call)]) = playsOf id calls + if call.id = id then 1 else 0 := by
  unfold playsOf
  rw [List.countP_append, List.countP_singleton]
  simp only [beq_iff_eq]

/-! ## What a play writes -/

/-- **The row with the ID, as it is loaded** after its count was raised. The
texts have gone through the affinity of their columns, and all numbers
through an `int`. -/
theorem ofRow_raisedRow (fp : FloatOps) {r : Row}
    (hid : r "PlayableItemID" = .integer (r "PlayableItemID").toColumnInt) :
    ofRow fp (raisedRow fp r r) =
      { ofRow fp r with
        filename := some ((Affinity.numeric.apply fp (.text ((r "filename").toText fp))).toText fp)
        description :=
          some ((Affinity.numeric.apply fp (.text ((r "description").toText fp))).toText fp)
        playcount := some (toInt32 ((r "playcount").toColumnInt + 1)) } := by
  have hrow : raisedRow fp r r = fun c => if c ∈ fetchedColumns then
      (playableItemDef.affinity c).apply fp (TableDef.assigned fetchedColumns (raisedParams fp r) c)
      else r c := by
    unfold raisedRow TableDef.updatedRow
    refine if_pos ?_
    rw [hid]
    exact beq_iff_eq.mpr (toInt32_toInt32 _).symm
  have hread : ∀ c, (Value.integer (r c).toColumnInt).toColumnInt = (r c).toColumnInt :=
    fun c => toInt32_toInt32 _
  rw [hrow]
  show PlayableItem.mk (some (Value.integer (r "PlayableItemID").toColumnInt).toColumnInt) _
    (some (Value.integer (r "duration").toColumnInt).toColumnInt) _ _ _
    (some (toInt32 (toInt32 ((r "playcount").toColumnInt + 1)))) = _
  rw [hread, hread, toInt32_toInt32]
  rfl

/-- **What is loaded once a count was raised.** Only the row with the ID can be
another one. -/
theorem loaded_raisedDb {db : Db} (hv : playableItemDef.Valid (db "PlayableItem")) (r : Row)
    {i : ℤ} (hi : i ≠ (r "PlayableItemID").toColumnInt) :
    loaded fp (raisedDb fp db r) i = loaded fp db i := by
  rw [loaded_eq, loaded_eq, row?_raisedDb hv]
  cases hx : row? db i with
  | none => rfl
  | some x =>
    obtain ⟨-, hid⟩ := row?_id hv hx
    show some (ofRow fp (raisedRow fp r x)) = some (ofRow fp x)
    rw [raisedRow_of_ne r hid hi]

/-! ## One play -/

/-- **A play is counted**: its row has one more, and the others are as they
were. -/
structure PlayCounted (fp : FloatOps) (c : Conn) (id : ℤ) (c' : Conn) : Prop where
  items : ∀ i, loaded fp c'.db i = (loaded fp c.db i).map (playedMore (if id = i then 1 else 0))
  others : ∀ table, table ≠ "PlayableItem" → c'.db table = c.db table

/-- An item with a count is not the same with one more. -/
theorem ofRow_ne_playedMore (r : Row) : ofRow fp r ≠ playedMore 1 (ofRow fp r) := by
  intro h
  have hcount : (r "playcount").toColumnInt = (r "playcount").toColumnInt + 1 :=
    Option.some.inj (congrArg PlayableItem.playcount h)
  omega

theorem playCount_range (r : Row) : FitsInt32 (r "playcount").toColumnInt := fitsInt32_toInt32 _

/-- **What is written back reads as it did, with one more, exactly when the
count has room and the texts are kept.** Numbers are read as ints before they
are written back, so they are kept. -/
theorem ofRow_raisedRow_iff (fp : FloatOps) {r : Row}
    (hid : r "PlayableItemID" = .integer (r "PlayableItemID").toColumnInt) :
    ofRow fp (raisedRow fp r r) = playedMore 1 (ofRow fp r) ↔
      (r "playcount").toColumnInt < int32Max ∧ TextKept fp ((r "filename").toText fp)
        ∧ TextKept fp ((r "description").toText fp) := by
  rw [ofRow_raisedRow fp hid, ← toText_numeric_iff, ← toText_numeric_iff]
  have hroom : toInt32 ((r "playcount").toColumnInt + 1) = (r "playcount").toColumnInt + 1
      ↔ (r "playcount").toColumnInt < int32Max := by
    have hrange := playCount_range r
    rw [toInt32_eq_self_iff]
    unfold FitsInt32 int32Min int32Max at *
    omega
  rw [← hroom]
  simp [playedMore, ofRow]
  tauto

/-- A play that leaves its row as it was is not counted. -/
theorem not_playCounted_of_same {c c' : Conn} {id : ℤ} {r : Row} (hr : row? c.db id = some r)
    (h : loaded fp c'.db id = loaded fp c.db id) : ¬PlayCounted fp c id c' := by
  intro hcounted
  have hone := hcounted.items id
  rw [if_pos rfl, h, loaded_eq, hr] at hone
  exact ofRow_ne_playedMore r (Option.some.inj hone)

/-- Where the count was raised, the play is counted if the row reads as it
did, with one more. The other items read as before in any case. -/
theorem playCounted_raised_iff {c c' : Conn} {id : ℤ} {r : Row}
    (hv : playableItemDef.Valid (c.db "PlayableItem")) (hr : row? c.db id = some r)
    (hid : id = (r "PlayableItemID").toColumnInt) (hdb : c'.db = raisedDb fp c.db r) :
    PlayCounted fp c id c' ↔ ofRow fp (raisedRow fp r r) = playedMore 1 (ofRow fp r) := by
  have hloaded : loaded fp c.db id = some (ofRow fp r) := by
    rw [loaded_eq, hr]
    rfl
  have hafter : loaded fp c'.db id = some (ofRow fp (raisedRow fp r r)) := by
    rw [hdb, loaded_eq, row?_raisedDb hv, hr]
    rfl
  constructor
  · intro h
    have hone := h.items id
    rw [if_pos rfl, hafter, hloaded] at hone
    exact Option.some.inj hone
  · intro h
    refine ⟨fun i => ?_, fun table ht => ?_⟩
    · by_cases hi : id = i
      · rw [if_pos hi, ← hi, hafter, hloaded, h]
        rfl
      · rw [if_neg hi, map_playedMore_zero, hdb,
          loaded_raisedDb hv r (fun h => hi (hid.trans h.symm))]
    · rw [hdb]
      exact Function.update_of_ne ht _ _

/-- **A play is counted exactly when its row survives it.** A call whose ID
has no row is no call of a fetched item.

Where the count cannot be raised, nothing is stored, and it is not counted.
Where the row's ID does not fit an `int` another row is raised, or none. -/
theorem playCounted_iff {c c' : Conn} {call : PlayCall}
    (hv : playableItemDef.Valid (c.db "PlayableItem")) (hstep : PlayStep fp c call c') :
    PlayCounted fp c call.id c' ↔ call.Survived fp c := by
  obtain ⟨hs, item, hitem, rfl⟩ := hstep
  obtain ⟨r, hr, rfl⟩ := hitem.exists_row hv
  obtain ⟨-, hid⟩ := row?_id hv hr
  have hsurvived : call.Survived fp c ↔ SurvivesPlay fp call.busy c.db r := by
    refine ⟨fun h => h r hr, fun h r' hr' => ?_⟩
    rw [← Option.some.inj (hr.symm.trans hr')]
    exact h
  rw [hsurvived]
  by_cases hraise : Raisable fp call.busy c.db r
  · obtain ⟨-, hdb, -⟩ := (play_ofRow fp call.busy hs hv r).1 hraise
    by_cases hint : call.id = (r "PlayableItemID").toColumnInt
    · have hrow : r "PlayableItemID" = .integer (r "PlayableItemID").toColumnInt :=
        hid.trans (congrArg Value.integer hint)
      rw [playCounted_raised_iff hv hr hint hdb, ofRow_raisedRow_iff fp hrow]
      exact ⟨fun ⟨hp, hf, hd⟩ => ⟨hraise, hrow, hp, hf, hd⟩,
        fun h => ⟨h.playcount, h.filename, h.description⟩⟩
    · refine iff_of_false (not_playCounted_of_same hr ?_) (fun h => hint ?_)
      · rw [hdb, loaded_raisedDb hv r hint]
      · exact Value.integer.inj (hid.symm.trans h.id)
  · refine iff_of_false (not_playCounted_of_same hr ?_) (fun h => hraise h.raisable)
    rw [play_db_of_not_raisable hs hv hraise]

/-- The items stay valid, whatever becomes of a play. -/
theorem valid_of_playStep {c c' : Conn} {call : PlayCall}
    (hv : playableItemDef.Valid (c.db "PlayableItem")) (hstep : PlayStep fp c call c') :
    playableItemDef.Valid (c'.db "PlayableItem") := by
  obtain ⟨hs, item, hitem, rfl⟩ := hstep
  obtain ⟨r, hr, rfl⟩ := hitem.exists_row hv
  by_cases hraise : Raisable fp call.busy c.db r
  · rw [((play_ofRow fp call.busy hs hv r).1 hraise).2.1]
    exact valid_raisedDb hv hraise.free
  · rw [play_db_of_not_raisable hs hv hraise]
    exact hv

/-! ## Any number of plays -/

theorem plays_nil (fp : FloatOps) (c : Conn) : PlaysCounted fp c [] c where
  items id := (map_playedMore_zero (loaded fp c.db id)).symm
  others _ _ := rfl

/-- One more play. -/
theorem PlaysCounted.snoc_iff {c₀ c c' : Conn} {calls : List (Conn × PlayCall)} {call : PlayCall}
    (h : PlaysCounted fp c₀ calls c) :
    PlaysCounted fp c₀ (calls ++ [(c, call)]) c' ↔ PlayCounted fp c call.id c' := by
  have hitems : ∀ i, (loaded fp c₀.db i).map (playedMore (playsOf i (calls ++ [(c, call)])))
      = (loaded fp c.db i).map (playedMore (if call.id = i then 1 else 0)) := by
    intro i
    rw [h.items, Option.map_map, playsOf_append]
    refine congrFun (congrArg Option.map (funext fun item => ?_)) _
    exact (playedMore_add _ _ item).symm
  constructor
  · intro hall
    refine ⟨fun i => (hall.items i).trans (hitems i), fun table ht => ?_⟩
    rw [hall.others table ht, h.others table ht]
  · intro hone
    refine ⟨fun i => (hone.items i).trans (hitems i).symm, fun table ht => ?_⟩
    rw [hone.others table ht, h.others table ht]

/-- **Plays are counted, all along, exactly when every row that is played
survives it.** All along means after each prefix of the calls: a call that is
not counted cannot be made up for by a later one.

A row survives when its count can be raised and what is written back reads as
it did. A file name that is `NULL` is written back as an empty text, of which
the table can have only one. -/
theorem plays_counted_iff (fp : FloatOps) {c₀ c : Conn} {calls : List (Conn × PlayCall)}
    (hv : playableItemDef.Valid (c₀.db "PlayableItem")) (hrun : Run (PlayStep fp) c₀ calls c) :
    (∀ calls' c', calls' <+: calls → Run (PlayStep fp) c₀ calls' c' →
        PlaysCounted fp c₀ calls' c')
      ↔ ∀ x ∈ calls, x.2.Survived fp x.1 :=
  hrun.prefixes_iff (fun c => playableItemDef.Valid (c.db "PlayableItem")) (PlaysCounted fp c₀)
    (fun c call => call.Survived fp c) hv (fun _ _ _ hv hstep => valid_of_playStep hv hstep)
    (plays_nil fp c₀)
    (fun _ _ _ _ hv h hstep => h.snoc_iff.trans (playCounted_iff hv hstep))

/-! ## Plays that can be computed -/

instance (fp : FloatOps) (db : Db) (r : Row) : Decidable (NameFree fp db r) :=
  inferInstanceAs (Decidable ((∃ x ∈ (db "PlayableItem").rows,
      x "PlayableItemID" = .integer (r "PlayableItemID").toColumnInt) →
    ∀ y ∈ (db "PlayableItem").rows,
      y "PlayableItemID" ≠ .integer (r "PlayableItemID").toColumnInt →
        (restoredName fp r).same (y "filename") = false))

instance (fp : FloatOps) (busy : Bool) (db : Db) (r : Row) : Decidable (Raisable fp busy db r) :=
  decidable_of_iff (busy = false ∧ (r "PlayableItemID").toColumnInt ≠ -1 ∧ NameFree fp db r)
    ⟨fun h => ⟨h.1, h.2.1, h.2.2⟩, fun h => ⟨h.idle, h.known, h.free⟩⟩

instance (fp : FloatOps) (busy : Bool) (db : Db) (r : Row) :
    Decidable (SurvivesPlay fp busy db r) :=
  decidable_of_iff (Raisable fp busy db r
      ∧ r "PlayableItemID" = .integer (r "PlayableItemID").toColumnInt
      ∧ (r "playcount").toColumnInt < int32Max ∧ TextKept fp ((r "filename").toText fp)
      ∧ TextKept fp ((r "description").toText fp))
    ⟨fun h => ⟨h.1, h.2.1, h.2.2.1, h.2.2.2.1, h.2.2.2.2⟩,
      fun h => ⟨h.raisable, h.id, h.playcount, h.filename, h.description⟩⟩

instance (fp : FloatOps) (c : Conn) (call : PlayCall) : Decidable (call.Survived fp c) :=
  decidable_of_iff (∀ r ∈ row? c.db call.id, SurvivesPlay fp call.busy c.db r) Iff.rfl

/-- The connection after a play, if there is a row to fetch and no call is under way. -/
def played (fp : FloatOps) (c : Conn) (call : PlayCall) : Option Conn :=
  if c.saved.isNone then
    (row? c.db call.id).map fun r => ((ofRow fp r).play fp call.busy c).2
  else none

theorem playStep_of_played {c c' : Conn} {call : PlayCall} (h : played fp c call = some c') :
    PlayStep fp c call c' := by
  obtain ⟨hs, h⟩ := Option.ite_none_right_eq_some.mp h
  obtain ⟨r, hr, rfl⟩ := Option.map_eq_some_iff.mp h
  refine ⟨Option.isNone_iff_eq_none.mp hs, ofRow fp r, .byId .stored plain_empty ?_, rfl⟩
  rw [fetch_plain plain_empty, hr]
  rfl

/-- A database with two songs. -/
def twoSongsDb : Db :=
  databaseOf
    [.item { filename := some (ascii "a.ogg") }, .item { filename := some (ascii "b.ogg") }]

/-- **Three plays of two songs**: the first song is played again after the
other one. It is counted twice, and the other one once. -/
theorem plays_counted_twoSongs :
    ∃ calls c, Run (PlayStep .whole) ⟨twoSongsDb, none, 2⟩ calls c
      ∧ calls.map Prod.snd = [⟨1, false⟩, ⟨2, false⟩, ⟨1, false⟩]
      ∧ PlaysCounted .whole ⟨twoSongsDb, none, 2⟩ calls c
      ∧ (loaded .whole c.db 1).map PlayableItem.playcount = some (some 2)
      ∧ (loaded .whole c.db 2).map PlayableItem.playcount = some (some 1) := by
  have hc : Consistent twoSongsDb := consistent_of_isConsistent (by decide +kernel)
  obtain ⟨c, hcalls⟩ : ∃ c, [⟨1, false⟩, ⟨2, false⟩, ⟨1, false⟩].foldlM
      (fun c (call : PlayCall) => if call.Survived .whole c then played .whole c call else none)
      (⟨twoSongsDb, none, 2⟩ : Conn) = some c :=
    Option.isSome_iff_exists.mp (by decide +kernel)
  obtain ⟨calls, hrun, hacts, hsurvived⟩ :=
    Run.of_foldlM_ok (played .whole) (fun c call => call.Survived .whole c) hcalls
  replace hrun := (hrun.mono fun _ _ _ => playStep_of_played :
    Run (PlayStep .whole) _ calls c)
  have hcounted := (plays_counted_iff .whole hc.playableItems hrun).mpr hsurvived _ _
    (List.prefix_refl _) hrun
  refine ⟨calls, c, hrun, hacts, hcounted, ?_, ?_⟩
  · rw [hcounted.items, playsOf_eq_countP, hacts]
    decide +kernel
  · rw [hcounted.items, playsOf_eq_countP, hacts]
    decide +kernel

/-- A database with two items that have no file name. -/
def namelessDb : Db :=
  databaseOf [.item { description := some (ascii "a") }, .item { description := some (ascii "b") }]

/-- **The second of two items without a file name is not counted**: the
first was given the empty name when it was played, and the other one is
refused it. -/
theorem plays_not_counted :
    ∃ c₁ c₂, Run (PlayStep .whole) ⟨namelessDb, none, 2⟩
        [(⟨namelessDb, none, 2⟩, ⟨1, false⟩), (c₁, ⟨2, false⟩)] c₂
      ∧ ¬PlaysCounted .whole ⟨namelessDb, none, 2⟩
        [(⟨namelessDb, none, 2⟩, ⟨1, false⟩), (c₁, ⟨2, false⟩)] c₂ := by
  refine ⟨_, _, .snoc (.snoc .nil ⟨rfl, _, .byId .stored plain_empty rfl, rfl⟩)
    ⟨by decide +kernel, _, .byId .stored plain_empty rfl, rfl⟩, fun h => ?_⟩
  have htwo := congrArg (Option.map PlayableItem.playcount) (h.items 2)
  revert htwo
  decide +kernel

end PlayableItem
