import Mathlib.Data.List.Find
import RctAutomation.FetchedItems
import RctAutomation.StatementBinding

/-!
# Playing an item raises its count

`MplayerSession::Play` of an item with an ID raises its playcount and stores it
before the track is handed to mplayer. The store is an update of all that was
fetched, so it can be refused: a file name that was null is stored as the empty
text, and may then be another item's. `play_ofRow` says how that ends.
-/

open Sql

namespace PlayableItem

/-- `IncrementPlaycount`, of an `int32` count. A count that is not set is
taken for zero. -/
def incrementPlaycount (item : PlayableItem) : PlayableItem :=
  { item with playcount := some (toInt32 (item.playcount.getD 0 + 1)) }

/-- **How `Play` ends**: a track is handed to mplayer, an exception leaves it, or
a failed check ends the process. -/
inductive PlayEnd
  | played (track : PlayableItem)
  | raised
  | aborted
  deriving DecidableEq

/-- **`Play` of an item**, and the connection after it: up to the point at
which the track is handed to mplayer. An item without an ID is handed over as
it is. -/
def play (fp : FloatOps) (busy : Bool) (item : PlayableItem) (c : Conn) : PlayEnd × Conn :=
  if item.playableItemID.isSome then
    let item := item.incrementPlaycount
    let r := (StoredMessage.item item).store (catalog fp .stored) busy .update c
    match r.outcome with
    | .returned _ => (.played item, r.conn)
    | .raised _ => (.raised, r.conn)
    | .aborted => (.aborted, r.conn)
  else (.played item, c)

theorem Plain.incrementPlaycount {item : PlayableItem} (h : item.Plain) :
    item.incrementPlaycount.Plain := ⟨h.type, h.cache⟩

/-! ## The update -/

variable {fp : FloatOps} {busy : Bool}

/-- The columns of an item that was fetched. -/
def fetchedColumns : List String :=
  ["PlayableItemID", "filename", "duration", "description", "playcount"]

/-- What the columns are assigned when the count of a row is raised, and the
ID that selects the row. All columns that were read are written back as they
were read. -/
def raisedParams (fp : FloatOps) (r : Row) : List Value :=
  [.integer (r "PlayableItemID").toColumnInt, .text ((r "filename").toText fp),
    .integer (r "duration").toColumnInt, .text ((r "description").toText fp),
    .integer (toInt32 ((r "playcount").toColumnInt + 1)),
    .integer (r "PlayableItemID").toColumnInt]

/-- A row of the table once the count of the row `r` was raised. -/
def raisedRow (fp : FloatOps) (r : Row) : Row → Row :=
  playableItemDef.updatedRow fp fetchedColumns (raisedParams fp r) "PlayableItemID"
    (.integer (r "PlayableItemID").toColumnInt)

/-- The file name of a row, as it is stored back. -/
def restoredName (fp : FloatOps) (r : Row) : Value :=
  Affinity.numeric.apply fp (.text ((r "filename").toText fp))

theorem localId_raised (r : Row) :
    localId (ofRow fp r).incrementPlaycount.toMessage = (r "PlayableItemID").toColumnInt :=
  toInt32_toInt32 _

theorem rootStatement_raised (r : Row) :
    rootStatement (catalog fp .stored) .update (ofRow fp r).incrementPlaycount.toMessage
      = some ⟨.update "PlayableItem" fetchedColumns "PlayableItemID", raisedParams fp r⟩ := by
  have h : rootStatement (catalog fp .stored) .update (ofRow fp r).incrementPlaycount.toMessage
      = some ⟨.update "PlayableItem" fetchedColumns "PlayableItemID",
        (raisedParams fp r).take 5
          ++ [.integer (localId (ofRow fp r).incrementPlaycount.toMessage)]⟩ := rfl
  rw [h, localId_raised]
  rfl

/-- Every row keeps its ID. -/
theorem raisedRow_id (r x : Row) {n : ℤ} (hx : x "PlayableItemID" = .integer n) :
    raisedRow fp r x "PlayableItemID" = .integer n := by
  unfold raisedRow TableDef.updatedRow
  rw [hx]
  split
  · rename_i hsame
    have hn : n = (r "PlayableItemID").toColumnInt := eq_of_beq hsame
    rw [hn]
    rfl
  · exact hx

/-- A row with another ID is left as it is. -/
theorem raisedRow_of_ne (r : Row) {x : Row} {n : ℤ} (hx : x "PlayableItemID" = .integer n)
    (hn : n ≠ (r "PlayableItemID").toColumnInt) : raisedRow fp r x = x := by
  unfold raisedRow TableDef.updatedRow
  rw [hx]
  exact if_neg (fun h => hn (eq_of_beq h))

/-- The row with the ID has its file name stored back. -/
theorem raisedRow_filename (r x : Row) {n : ℤ} (hx : x "PlayableItemID" = .integer n) :
    raisedRow fp r x "filename"
      = if n = (r "PlayableItemID").toColumnInt then restoredName fp r else x "filename" := by
  unfold raisedRow TableDef.updatedRow
  rw [hx]
  show (if (n == (r "PlayableItemID").toColumnInt) = true then _ else x) "filename" = _
  by_cases hn : n = (r "PlayableItemID").toColumnInt
  · rw [if_pos hn, if_pos (beq_iff_eq.mpr hn)]
    rfl
  · rw [if_neg hn, if_neg (fun h => hn (eq_of_beq h))]

/-- The file name that is stored back is no other item's. If there is no row
with the ID, the update changes nothing and is not refused. -/
def NameFree (fp : FloatOps) (db : Db) (r : Row) : Prop :=
  HasItem db (r "PlayableItemID").toColumnInt → ∀ y ∈ (db "PlayableItem").rows,
    y "PlayableItemID" ≠ .integer (r "PlayableItemID").toColumnInt →
      (restoredName fp r).same (y "filename") = false

/-- **The rows do not conflict exactly when the file name is free.** No other
column that is written back is unique, apart from the ID, which stays. Two
rows of which neither is raised are as they were. -/
theorem raisedRow_pairwise_iff (fp : FloatOps) {db : Db}
    (hv : playableItemDef.Valid (db "PlayableItem")) (r : Row) :
    ((db "PlayableItem").rows.map (raisedRow fp r)).Pairwise
        (fun a b => playableItemDef.conflicts a b = false) ↔ NameFree fp db r := by
  rw [List.pairwise_map]
  constructor
  · rintro hpw ⟨x, hx, hxk⟩ y hy hyk
    obtain ⟨n, hn⟩ := hv.keys "PlayableItemID" rfl y hy
    have hsymm : Std.Symm (fun a b : Row =>
        playableItemDef.conflicts (raisedRow fp r a) (raisedRow fp r b) = false) :=
      ⟨fun a b h => (TableDef.conflicts_comm ..).trans h⟩
    have hne : x ≠ y := by
      rintro rfl
      exact hyk hxk
    have hxy := hpw.forall hx hy hne
    rw [playableItem_conflicts, Bool.or_eq_false_iff, raisedRow_filename r x hxk, if_pos rfl,
      raisedRow_filename r y hn, if_neg (fun h => hyk (by rw [hn, h]))] at hxy
    exact hxy.2
  · intro hfree
    refine hv.distinct.imp_of_mem (fun {a b} ha hb hab => ?_)
    obtain ⟨m, hm⟩ := hv.keys "PlayableItemID" rfl a ha
    obtain ⟨n, hn⟩ := hv.keys "PlayableItemID" rfl b hb
    rw [playableItem_conflicts, Bool.or_eq_false_iff] at hab ⊢
    have hmn : m ≠ n := by
      rintro rfl
      rw [hm, hn] at hab
      exact absurd (beq_self_eq_true m) (Bool.eq_false_iff.mp hab.1)
    rw [raisedRow_id r a hm, raisedRow_id r b hn, ← hm, ← hn]
    refine ⟨hab.1, ?_⟩
    rw [raisedRow_filename r a hm, raisedRow_filename r b hn]
    -- one of the two is the row with the ID, or neither is
    by_cases hak : m = (r "PlayableItemID").toColumnInt
    · rw [if_pos hak, if_neg (fun h => hmn (hak.trans h.symm))]
      refine hfree ⟨a, ha, by rw [hm, hak]⟩ b hb (fun h => hmn ?_)
      rw [hak]
      exact (Value.integer.inj (hn.symm.trans h)).symm
    · rw [if_neg hak]
      by_cases hbk : n = (r "PlayableItemID").toColumnInt
      · rw [if_pos hbk, Value.same_comm]
        refine hfree ⟨b, hb, by rw [hn, hbk]⟩ a ha (fun h => hak ?_)
        exact Value.integer.inj (hm.symm.trans h)
      · rw [if_neg hbk]
        exact hab.2

/-! ## Whether it is accepted -/

/-- The database once the count of a row was raised. -/
def raisedDb (fp : FloatOps) (db : Db) (r : Row) : Db :=
  Function.update db "PlayableItem"
    ⟨(db "PlayableItem").rows.map (raisedRow fp r), (db "PlayableItem").seq⟩

/-- The rows are found where they were. -/
theorem row?_raisedDb {db : Db} (hv : playableItemDef.Valid (db "PlayableItem")) (r : Row) (i : ℤ) :
    row? (raisedDb fp db r) i = (row? db i).map (raisedRow fp r) := by
  show ((db "PlayableItem").rows.map (raisedRow fp r)).find? _ = _
  rw [List.find?_map]
  unfold row?
  congr 1
  refine List.find?_congr (fun x hx => ?_)
  obtain ⟨n, hn⟩ := hv.keys "PlayableItemID" rfl x hx
  show (raisedRow fp r x "PlayableItemID").same _ = (x "PlayableItemID").same _
  rw [raisedRow_id r x hn, hn]

/-- **Raising the count of a row is accepted**: nobody else keeps the connection
from committing, the ID is not taken for a missing one, and the file name is
free. -/
structure Raisable (fp : FloatOps) (busy : Bool) (db : Db) (r : Row) : Prop where
  idle : busy = false
  known : (r "PlayableItemID").toColumnInt ≠ -1
  free : NameFree fp db r

/-- The items keep their IDs, so the foreign keys refer to what they did:
those of the join table, and none refers to another column of an item. -/
theorem orphans_raisedDb (ch : Chance) {db : Db} (hv : playableItemDef.Valid (db "PlayableItem"))
    (r : Row) (deferred : Bool) :
    (catalog fp ch).orphans deferred (raisedDb fp db r) = (catalog fp ch).orphans deferred db := by
  have hitem : ∀ v : Value,
      ((raisedDb fp db r) "PlayableItem").rows.any (fun p => (p "PlayableItemID").same v)
        = (db "PlayableItem").rows.any (fun p => (p "PlayableItemID").same v) := by
    intro v
    show ((db "PlayableItem").rows.map (raisedRow fp r)).any _ = _
    rw [List.any_map, Bool.eq_iff_iff, List.any_eq_true, List.any_eq_true]
    refine exists_congr (fun p => and_congr_right (fun hp => ?_))
    obtain ⟨n, hn⟩ := hv.keys "PlayableItemID" rfl p hp
    rw [Function.comp_apply, raisedRow_id r p hn, hn]
  have horphan : ∀ fk ∈ schemaForeignKeys,
      ((raisedDb fp db r) fk.child).rows.countP (Catalog.isOrphan (raisedDb fp db r) fk)
        = (db fk.child).rows.countP (Catalog.isOrphan db fk) := by
    intro fk hfk
    simp only [schemaForeignKeys, List.mem_cons, List.not_mem_nil, or_false] at hfk
    rcases hfk with rfl | rfl | rfl
    · rfl
    · refine List.countP_congr (fun j _ => ?_)
      unfold Catalog.isOrphan
      rw [hitem]
    · rfl
  unfold Catalog.orphans
  congr 1
  refine List.map_congr_left (fun fk hfk => horphan fk ?_)
  exact (List.mem_filter.mp hfk).1

/-- The statement that raises a count is accepted when the file name is free,
and refused by the unique column otherwise. No foreign key has anything
against it. -/
theorem exec_raised (fp : FloatOps) {db : Db}
    (hv : playableItemDef.Valid (db "PlayableItem")) (r : Row) :
    (NameFree fp db r →
      (catalog fp .stored).exec db
          ⟨.update "PlayableItem" fetchedColumns "PlayableItemID", raisedParams fp r⟩
        = .ok (raisedDb fp db r, none))
    ∧ (¬NameFree fp db r →
      (catalog fp .stored).exec db
          ⟨.update "PlayableItem" fetchedColumns "PlayableItemID", raisedParams fp r⟩
        = .error .constraint) := by
  have hexec : (catalog fp .stored).exec db
      ⟨.update "PlayableItem" fetchedColumns "PlayableItemID", raisedParams fp r⟩
      = (playableItemDef.update fp (db "PlayableItem") fetchedColumns (raisedParams fp r)
          "PlayableItemID" (.integer (r "PlayableItemID").toColumnInt)).bind
        fun tab => (catalog fp .stored).checked db (Function.update db "PlayableItem" tab) none :=
    rfl
  have hupdate : playableItemDef.update fp (db "PlayableItem") fetchedColumns (raisedParams fp r)
      "PlayableItemID" (.integer (r "PlayableItemID").toColumnInt)
      = if ((db "PlayableItem").rows.map (raisedRow fp r)).Pairwise
          (fun a b => playableItemDef.conflicts a b = false) then
          .ok ⟨(db "PlayableItem").rows.map (raisedRow fp r), (db "PlayableItem").seq⟩
        else .error .constraint :=
    TableDef.update_of_key hv rfl (by decide) (by decide) (fun _ => rfl)
  have hpw := raisedRow_pairwise_iff fp hv r
  rw [hexec, hupdate]
  constructor
  · intro hfree
    rw [if_pos (hpw.mpr hfree)]
    show (catalog fp .stored).checked db (raisedDb fp db r) none = _
    unfold Catalog.checked
    rw [orphans_raisedDb .stored hv r false, if_neg (lt_irrefl _)]
  · intro hfree
    rw [if_neg (fun h => hfree (hpw.mp h))]
    rfl

/-- **How the store of a raised count ends**: it is saved where the count can
be raised, aborts where the ID is taken for a missing one, and is refused
otherwise. -/
theorem save_raised (fp : FloatOps) (busy : Bool) {c : Conn}
    (hv : playableItemDef.Valid (c.db "PlayableItem")) (r : Row) :
    (Raisable fp busy c.db r →
      save (catalog fp .stored) busy .update (ofRow fp r).incrementPlaycount.toMessage c
        = .saved (ofRow fp r).incrementPlaycount.toMessage (raisedDb fp c.db r))
    ∧ ((r "PlayableItemID").toColumnInt = -1 →
      save (catalog fp .stored) busy .update (ofRow fp r).incrementPlaycount.toMessage c = .aborted)
    ∧ ((r "PlayableItemID").toColumnInt ≠ -1 → ¬Raisable fp busy c.db r →
      save (catalog fp .stored) busy .update (ofRow fp r).incrementPlaycount.toMessage c
          = .rootRefused
        ∨ save (catalog fp .stored) busy .update (ofRow fp r).incrementPlaycount.toMessage c
          = .commitRefused (ofRow fp r).incrementPlaycount.toMessage) := by
  obtain ⟨hfree, hnot⟩ := exec_raised fp hv r
  unfold save
  rw [rootStatement_raised, localId_raised]
  by_cases hid : (r "PlayableItemID").toColumnInt = -1
  · rw [if_pos ⟨rfl, hid⟩]
    exact ⟨fun h => absurd hid h.known, fun _ => rfl, fun h => absurd hid h⟩
  · rw [if_neg (fun h => hid h.2)]
    dsimp only
    have hafter : messageAfter (ofRow fp r).incrementPlaycount.toMessage
        ((none : Option ℤ).getD c.lastRowid) = (ofRow fp r).incrementPlaycount.toMessage := by
      unfold messageAfter
      rw [localId_raised, if_neg hid]
    by_cases hname : NameFree fp c.db r
    · rw [hfree hname]
      dsimp only
      rw [hafter]
      have hall : allRepeatedDb (catalog fp .stored) .update
          (ofRow fp r).incrementPlaycount.toMessage
          (idAfter (ofRow fp r).incrementPlaycount.toMessage ((none : Option ℤ).getD c.lastRowid))
          ((ofRow fp r).incrementPlaycount.toMessage.listFields.filter FieldDescriptor.repeated)
          (raisedDb fp c.db r) = some (raisedDb fp c.db r) := rfl
      rw [hall]
      dsimp only
      rw [orphans_raisedDb .stored hv r true]
      cases hbusy : busy with
      | false =>
        rw [if_neg (by simp)]
        exact ⟨fun _ => rfl, fun h => absurd h hid, fun _ h => absurd ⟨rfl, hid, hname⟩ h⟩
      | true =>
        rw [if_pos (Or.inl rfl)]
        exact ⟨fun h => absurd h.idle (by simp), fun h => absurd h hid, fun _ _ => Or.inr rfl⟩
    · rw [hnot hname]
      exact ⟨fun h => absurd h.free hname, fun h => absurd h hid, fun _ _ => Or.inl rfl⟩

/-- **How `Play` of the item of a row ends**: the item is played when its
count can be raised, and the count is raised then. Otherwise nothing is
handed to mplayer. -/
theorem play_ofRow (fp : FloatOps) (busy : Bool) {c : Conn} (hs : c.saved = none)
    (hv : playableItemDef.Valid (c.db "PlayableItem")) (r : Row) :
    (Raisable fp busy c.db r →
      ((ofRow fp r).play fp busy c).1 = .played (ofRow fp r).incrementPlaycount
      ∧ ((ofRow fp r).play fp busy c).2.db = raisedDb fp c.db r
      ∧ ((ofRow fp r).play fp busy c).2.saved = none)
    ∧ ((r "PlayableItemID").toColumnInt = -1 → ((ofRow fp r).play fp busy c).1 = .aborted)
    ∧ ((r "PlayableItemID").toColumnInt ≠ -1 → ¬Raisable fp busy c.db r →
      ((ofRow fp r).play fp busy c).1 = .raised) := by
  obtain ⟨hsaved, haborted, hrefused⟩ := save_raised fp busy hv r
  obtain ⟨run, hstore⟩ : ∃ run, (StoredMessage.item (ofRow fp r).incrementPlaycount).store
      (catalog fp .stored) busy .update c = run := ⟨_, rfl⟩
  have hplay : (ofRow fp r).play fp busy c
      = match run.outcome with
        | .returned _ => (.played (ofRow fp r).incrementPlaycount, run.conn)
        | .raised _ => (.raised, run.conn)
        | .aborted => (.aborted, run.conn) := by
    rw [← hstore]
    rfl
  have hrun := run_insertOrReplace (catalog fp .stored) busy .update
    (ofRow fp r).incrementPlaycount.toMessage hs
  have hdescribes : Save.Describes (ofRow fp r).incrementPlaycount.toMessage.desc.name
      (ofRow fp r).incrementPlaycount.toMessage c.db run
      (save (catalog fp .stored) busy .update (ofRow fp r).incrementPlaycount.toMessage c) := by
    rw [← hstore]
    exact hrun
  rw [hplay]
  refine ⟨fun hr => ?_, fun hid => ?_, fun hid hr => ?_⟩
  · rw [hsaved hr] at hdescribes
    obtain ⟨hout, hdb, hclosed, -⟩ := hdescribes
    rw [hout]
    exact ⟨rfl, hdb, hclosed⟩
  · rw [haborted hid] at hdescribes
    rw [hdescribes.1]
  · rcases hrefused hid hr with hend | hend <;> rw [hend] at hdescribes <;> rw [hdescribes.1]

/-- The item of a row is played only if its count can be raised. -/
theorem play_ofRow_ne (fp : FloatOps) {busy : Bool} {c : Conn} (hs : c.saved = none)
    (hv : playableItemDef.Valid (c.db "PlayableItem")) {r : Row}
    (hr : ¬Raisable fp busy c.db r) (track : PlayableItem) :
    ((ofRow fp r).play fp busy c).1 ≠ .played track := by
  obtain ⟨-, haborted, hraised⟩ := play_ofRow fp busy hs hv r
  by_cases hid : (r "PlayableItemID").toColumnInt = -1
  · rw [haborted hid]
    exact fun h => (by cases h)
  · rw [hraised hid hr]
    exact fun h => (by cases h)

/-- The connection is left as the store leaves it. -/
theorem play_conn (fp : FloatOps) (busy : Bool) (c : Conn) (r : Row) :
    ((ofRow fp r).play fp busy c).2
      = ((StoredMessage.item (ofRow fp r).incrementPlaycount).store (catalog fp .stored) busy
          .update c).conn := by
  unfold play
  rw [if_pos (show (ofRow fp r).playableItemID.isSome = true from rfl)]
  dsimp only
  cases ((StoredMessage.item (ofRow fp r).incrementPlaycount).store (catalog fp .stored) busy
    .update c).outcome <;> rfl

/-- **A count that cannot be raised leaves the contents as they were.** -/
theorem play_db_of_not_raisable {c : Conn} (hs : c.saved = none)
    (hv : playableItemDef.Valid (c.db "PlayableItem")) {r : Row}
    (hr : ¬Raisable fp busy c.db r) : ((ofRow fp r).play fp busy c).2.db = c.db := by
  rw [play_conn]
  by_cases hid : (r "PlayableItemID").toColumnInt = -1
  · have hunknown : localId (ofRow fp r).incrementPlaycount.toMessage = -1 :=
      (localId_raised r).trans hid
    have hconn : ((StoredMessage.item (ofRow fp r).incrementPlaycount).store (catalog fp .stored)
        busy .update c).conn = { c with saved := some c.db } :=
      conn_of_unknownId (catalog fp .stored) busy hs hunknown
    rw [hconn]
  · have hrun := run_insertOrReplace (catalog fp .stored) busy .update
      (ofRow fp r).incrementPlaycount.toMessage hs
    rcases (save_raised fp busy hv r).2.2 hid hr with hend | hend <;> rw [hend] at hrun <;>
      exact hrun.2.1

/-- The items are valid once a count was raised. -/
theorem valid_raisedDb {db : Db} (hv : playableItemDef.Valid (db "PlayableItem")) {r : Row}
    (hfree : NameFree fp db r) : playableItemDef.Valid ((raisedDb fp db r) "PlayableItem") where
  distinct := (raisedRow_pairwise_iff fp hv r).mpr hfree
  keys k hk x hx := by
    obtain rfl := Option.some.inj hk
    obtain ⟨y, hy, rfl⟩ := List.mem_map.mp hx
    obtain ⟨n, hn⟩ := hv.keys "PlayableItemID" rfl y hy
    exact ⟨n, raisedRow_id r y hn⟩

end PlayableItem
