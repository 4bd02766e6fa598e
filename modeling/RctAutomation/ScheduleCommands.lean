import RctAutomation.RaisedPlaycounts

/-!
# The commands that play

`PLAY_FILES` goes through the items that a requirement lists. One that carries
an ID is fetched into an object that all of them share, and played from there
whether the fetch found it or not. `playFiles_iff` says when every entry
plays what it lists.
-/

open Sql

namespace PlayFiles

/-- **The loop of `PLAY_FILES`**: the tracks that are handed to mplayer, until an
entry ends the command, and the connection after them. The object that is
fetched into holds what was played last from it. -/
def handleCommand (fp : FloatOps) (busy : Bool) :
    List PlayableItem → PlayableItem → Conn → List PlayableItem × Conn
  | [], _, c => ([], c)
  | entry :: entries, item, c =>
    match entry.playableItemID with
    | some id =>
      match item.fetch (catalog fp .stored) c.db id with
      | none => ([], c)
      | some (_, item) =>
        match item.play fp busy c with
        | (.played track, c) =>
          let (tracks, c) := handleCommand fp busy entries track c
          (track :: tracks, c)
        | (_, c) => ([], c)
    | none =>
      let (tracks, c) := handleCommand fp busy entries item c
      (entry :: tracks, c)

/-- **What a list of entries should play**: a bare item itself, and the row of an ID that
exists, whose count is raised.

An ID without a row plays nothing and changes nothing, so there is no track for it. -/
def listed (fp : FloatOps) (busy : Bool) :
    List PlayableItem → Conn → List PlayableItem × Conn
  | [], c => ([], c)
  | entry :: entries, c =>
    match entry.playableItemID with
    | some id =>
      match PlayableItem.row? c.db id with
      | none => listed fp busy entries c
      | some r =>
        let (tracks, c) := listed fp busy entries ((PlayableItem.ofRow fp r).play fp busy c).2
        ((PlayableItem.ofRow fp r).incrementPlaycount :: tracks, c)
    | none =>
      let (tracks, c) := listed fp busy entries c
      (entry :: tracks, c)

/-- **`PLAY_FILES` plays what it lists**: the tracks that are handed to mplayer are those
of the entries, in order and once each, and the counts that are raised are those of what
is listed.

A command that passed over an ID without a row would do so; nothing here asks for the row
of every ID to exist. -/
def PlaysListed (fp : FloatOps) (busy : Bool) (entries : List PlayableItem) (item : PlayableItem)
    (c : Conn) : Prop :=
  (handleCommand fp busy entries item c).1 = (listed fp busy entries c).1
    ∧ (handleCommand fp busy entries item c).2.db = (listed fp busy entries c).2.db

/-- **Every ID that is listed has a row**, and the count of the row can be
raised when it is the entry's turn. -/
def AllPlayable (fp : FloatOps) (busy : Bool) : List PlayableItem → Db → Prop
  | [], _ => True
  | entry :: entries, db =>
    match entry.playableItemID with
    | some id => ∃ r, PlayableItem.row? db id = some r ∧ PlayableItem.Raisable fp busy db r
      ∧ AllPlayable fp busy entries (PlayableItem.raisedDb fp db r)
    | none => AllPlayable fp busy entries db

variable {fp : FloatOps} {busy : Bool}

/-! ## One entry -/

/-- A bare entry is handed over as it is. -/
theorem handleCommand_bare {entry : PlayableItem} (h : entry.playableItemID = none)
    (entries : List PlayableItem) (item : PlayableItem) (c : Conn) :
    handleCommand fp busy (entry :: entries) item c
      = (entry :: (handleCommand fp busy entries item c).1,
        (handleCommand fp busy entries item c).2) := by
  rw [handleCommand]
  simp only [h]

theorem listed_bare {entry : PlayableItem} (h : entry.playableItemID = none)
    (entries : List PlayableItem) (c : Conn) :
    listed fp busy (entry :: entries) c
      = (entry :: (listed fp busy entries c).1, (listed fp busy entries c).2) := by
  rw [listed]
  simp only [h]

/-- What is played for an ID: the row that was found, or what the object holds. -/
theorem handleCommand_id {entry : PlayableItem} {id : ℤ} (h : entry.playableItemID = some id)
    {item : PlayableItem} (hplain : item.Plain) (entries : List PlayableItem) {c c' : Conn}
    {track : PlayableItem}
    (hplay : (item.overwritten fp (PlayableItem.row? c.db id)).play fp busy c
      = (.played track, c')) :
    handleCommand fp busy (entry :: entries) item c
      = (track :: (handleCommand fp busy entries track c').1,
        (handleCommand fp busy entries track c').2) := by
  rw [handleCommand]
  simp only [h, PlayableItem.fetch_plain hplain, hplay]

theorem listed_missing {entry : PlayableItem} {id : ℤ} (h : entry.playableItemID = some id)
    {c : Conn} (hrow : PlayableItem.row? c.db id = none) (entries : List PlayableItem) :
    listed fp busy (entry :: entries) c = listed fp busy entries c := by
  rw [listed]
  simp only [h, hrow]

theorem listed_row {entry : PlayableItem} {id : ℤ} (h : entry.playableItemID = some id)
    {c : Conn} {r : Row} (hrow : PlayableItem.row? c.db id = some r)
    (entries : List PlayableItem) :
    listed fp busy (entry :: entries) c
      = ((PlayableItem.ofRow fp r).incrementPlaycount
          :: (listed fp busy entries ((PlayableItem.ofRow fp r).play fp busy c).2).1,
        (listed fp busy entries ((PlayableItem.ofRow fp r).play fp busy c).2).2) := by
  rw [listed]
  simp only [h, hrow]

/-- A row whose count can be raised is played. -/
theorem play_row {c : Conn} (hs : c.saved = none)
    (hv : playableItemDef.Valid (c.db "PlayableItem")) {r : Row}
    (hr : PlayableItem.Raisable fp busy c.db r) :
    ∃ c', (PlayableItem.ofRow fp r).play fp busy c
        = (.played (PlayableItem.ofRow fp r).incrementPlaycount, c')
      ∧ c'.saved = none ∧ c'.db = PlayableItem.raisedDb fp c.db r := by
  obtain ⟨hplayed, hdb, hclosed⟩ := (PlayableItem.play_ofRow fp busy hs hv r).1 hr
  exact ⟨_, Prod.ext hplayed rfl, hclosed, hdb⟩

/-! ## Playing an item again

An ID without a row plays what the object holds, which is what was played before it. That
item was stored a moment ago, and storing it once more meets the same file names, so it is
played as often as there are such IDs. -/

/-- Two rows are read with the same ID and the same file name. Their counts
may differ: one may be what the other is after some plays. -/
structure Alike (fp : FloatOps) (q r : Row) : Prop where
  id : (r "PlayableItemID").toColumnInt = (q "PlayableItemID").toColumnInt
  filename : (r "filename").toText fp = (q "filename").toText fp

namespace Alike

variable {q r : Row}

theorem refl (q : Row) : Alike fp q q := ⟨rfl, rfl⟩

/-- Their file names are stored back as the same value. -/
theorem restoredName (h : Alike fp q r) :
    PlayableItem.restoredName fp r = PlayableItem.restoredName fp q := by
  unfold PlayableItem.restoredName
  rw [h.filename]

/-- Whether a count can be raised is a matter of the ID and the file name. -/
theorem raisable {db : Db} (h : Alike fp q r) (hq : PlayableItem.Raisable fp busy db q) :
    PlayableItem.Raisable fp busy db r := by
  obtain ⟨hidle, hknown, hfree⟩ := hq
  refine ⟨hidle, by rwa [h.id], ?_⟩
  unfold PlayableItem.NameFree at hfree ⊢
  rwa [h.id, h.restoredName]

/-- They are alike if they are read alike. -/
theorem of_track {track : PlayableItem}
    (hq : track.playableItemID = some (q "PlayableItemID").toColumnInt
      ∧ track.filename = some ((q "filename").toText fp))
    (hr : (PlayableItem.ofRow fp r).incrementPlaycount = track) : Alike fp q r := by
  obtain ⟨hid, hname⟩ := hq
  subst hr
  exact ⟨Option.some.inj hid, Option.some.inj hname⟩

end Alike

/-- The row as which an item can be taken that was read from the row `r` and counted. -/
def counted (r : Row) : Row :=
  Function.update r "playcount" (.integer (toInt32 ((r "playcount").toColumnInt + 1)))

theorem ofRow_counted (fp : FloatOps) (r : Row) :
    PlayableItem.ofRow fp (counted r) = (PlayableItem.ofRow fp r).incrementPlaycount := by
  have hother : ∀ c, c ≠ "playcount" → counted r c = r c := fun c hc =>
    Function.update_of_ne hc _ _
  have hcount : (counted r "playcount").toColumnInt
      = toInt32 ((r "playcount").toColumnInt + 1) := by
    unfold counted
    rw [Function.update_self]
    exact toInt32_toInt32 _
  unfold PlayableItem.ofRow PlayableItem.incrementPlaycount
  rw [hcount, hother "PlayableItemID" (by decide), hother "filename" (by decide),
    hother "duration" (by decide), hother "description" (by decide)]
  rfl

theorem alike_counted (fp : FloatOps) (r : Row) : Alike fp r (counted r) :=
  ⟨by rw [counted, Function.update_of_ne (by decide)],
    by rw [counted, Function.update_of_ne (by decide)]⟩

/-- **An item was stored**: the row with its ID, if there is one, has the
file name as it was stored back, and the count can be raised again. -/
structure Stored (fp : FloatOps) (busy : Bool) (q : Row) (db : Db) : Prop where
  valid : playableItemDef.Valid (db "PlayableItem")
  raisable : PlayableItem.Raisable fp busy db q
  filename : ∀ r, PlayableItem.row? db (q "PlayableItemID").toColumnInt = some r →
    r "filename" = PlayableItem.restoredName fp q

/-- Raising a count leaves the item stored, with the count that the object
has by then. -/
theorem stored_raisedDb {q r : Row} {db : Db} (halike : Alike fp q r)
    (hv : playableItemDef.Valid (db "PlayableItem"))
    (hraise : PlayableItem.Raisable fp busy db q) :
    Stored fp busy q (PlayableItem.raisedDb fp db r) := by
  have hr := halike.raisable hraise
  refine ⟨PlayableItem.valid_raisedDb hv hr.free, ⟨hraise.idle, hraise.known, ?_⟩, ?_⟩
  · rintro ⟨x, hx, hxid⟩ y hy hyid
    obtain ⟨x₀, hx₀, rfl⟩ := List.mem_map.mp hx
    obtain ⟨y₀, hy₀, rfl⟩ := List.mem_map.mp hy
    obtain ⟨m, hm⟩ := hv.keys "PlayableItemID" rfl x₀ hx₀
    obtain ⟨n, hn⟩ := hv.keys "PlayableItemID" rfl y₀ hy₀
    rw [PlayableItem.raisedRow_id r x₀ hm] at hxid
    rw [PlayableItem.raisedRow_id r y₀ hn] at hyid
    rw [PlayableItem.raisedRow_filename r y₀ hn,
      if_neg fun h => hyid (by rw [h, halike.id])]
    exact hraise.free ⟨x₀, hx₀, hm.trans hxid⟩ y₀ hy₀ (by rwa [hn])
  · intro x hx
    rw [PlayableItem.row?_raisedDb hv] at hx
    obtain ⟨x₀, hx₀, rfl⟩ := Option.map_eq_some_iff.mp hx
    obtain ⟨-, hid⟩ := PlayableItem.row?_id hv hx₀
    rw [PlayableItem.raisedRow_filename r x₀ hid, if_pos halike.id.symm]
    exact halike.restoredName

/-- **Two databases that agree on all items but one**, whose row both have or
both lack. They are those of the command and of the list, once the command
has played an item more often. -/
structure AgreeBut (i : ℤ) (db db' : Db) : Prop where
  others : ∀ j, j ≠ i → PlayableItem.row? db' j = PlayableItem.row? db j
  both : (PlayableItem.row? db' i).isSome = (PlayableItem.row? db i).isSome

/-- They go on to agree when the count of that item is raised in one of them. -/
theorem row?_raised {r : Row} {db : Db} (hv : playableItemDef.Valid (db "PlayableItem")) :
    AgreeBut (r "PlayableItemID").toColumnInt db (PlayableItem.raisedDb fp db r) := by
  refine ⟨fun j hj => ?_, ?_⟩
  · rw [PlayableItem.row?_raisedDb hv]
    cases hx : PlayableItem.row? db j with
    | none => rfl
    | some x =>
      obtain ⟨-, hid⟩ := PlayableItem.row?_id hv hx
      exact congrArg some (PlayableItem.raisedRow_of_ne r hid hj)
  · rw [PlayableItem.row?_raisedDb hv, Option.isSome_map]

theorem AgreeBut.trans {i : ℤ} {db₁ db₂ db₃ : Db} (h : AgreeBut i db₁ db₂)
    (h' : AgreeBut i db₂ db₃) : AgreeBut i db₁ db₃ :=
  ⟨fun j hj => (h'.others j hj).trans (h.others j hj), h'.both.trans h.both⟩

theorem AgreeBut.symm {i : ℤ} {db₁ db₂ : Db} (h : AgreeBut i db₁ db₂) : AgreeBut i db₂ db₁ :=
  ⟨fun j hj => (h.others j hj).symm, h.both.symm⟩

/-! ## An ID without a row

From such an ID on, the command is ahead of the list by at least one track. The two lists
of tracks can only be equal if the command ends early, and it does not: the tracks that it
is ahead by are all of the item that it plays again, so the entries whose tracks they
would have to be are read like that item, and can be played. -/

/-- The tracks of an item: they have its ID and its file name. -/
def TracksOf (fp : FloatOps) (q : Row) (tracks : List PlayableItem) : Prop :=
  ∀ t ∈ tracks, t.playableItemID = some (q "PlayableItemID").toColumnInt
    ∧ t.filename = some ((q "filename").toText fp)

theorem tracksOf_concat {q r : Row} {tracks : List PlayableItem} (h : TracksOf fp q tracks)
    (halike : Alike fp q r) :
    TracksOf fp q (tracks ++ [(PlayableItem.ofRow fp r).incrementPlaycount]) := by
  intro t ht
  rcases List.mem_append.mp ht with ht | ht
  · exact h t ht
  · obtain rfl := List.mem_singleton.mp ht
    exact ⟨congrArg some halike.id, congrArg some halike.filename⟩

/-- **Ahead without an item**: the object holds one that was never fetched,
and each entry whose ID has no row hands it over once more. The only tracks
of the list without an ID are those of bare entries, and the command hands
these over as well, so it stays ahead. -/
theorem ahead_ne_listed_of_bare (entries : List PlayableItem) {item : PlayableItem}
    (hitem : item.playableItemID = none) (hplain : item.Plain) {ahead : List PlayableItem}
    (hne : ahead ≠ []) (hahead : ∀ t ∈ ahead, t.playableItemID = none) (c : Conn) :
    ahead ++ (handleCommand fp busy entries item c).1 ≠ (listed fp busy entries c).1 := by
  induction entries generalizing ahead with
  | nil =>
    intro heq
    exact hne (List.append_eq_nil_iff.mp heq).1
  | cons entry entries ih =>
    have hconcat : ∀ t : PlayableItem, t.playableItemID = none → ∀ u ∈ ahead ++ [t],
        u.playableItemID = none := by
      intro t ht u hu
      rcases List.mem_append.mp hu with hu | hu
      · exact hahead u hu
      · obtain rfl := List.mem_singleton.mp hu
        exact ht
    cases hid : entry.playableItemID with
    | none =>
      rw [handleCommand_bare hid, listed_bare hid]
      intro heq
      obtain ⟨t, ts, rfl⟩ := List.exists_cons_of_ne_nil hne
      obtain ⟨-, hrest⟩ := List.cons.inj heq
      refine @ih (ts ++ [entry]) (by simp) (fun u hu => ?_) ?_
      · exact hconcat entry hid u (List.mem_cons_of_mem t hu)
      · rw [List.append_assoc]
        exact hrest
    | some id =>
      cases hrow : PlayableItem.row? c.db id with
      | none =>
        have hplay : (item.overwritten fp (PlayableItem.row? c.db id)).play fp busy c
            = (.played item, c) := by
          rw [hrow]
          exact if_neg (by
            rw [show (item.overwritten fp none).playableItemID = none from hitem]; simp)
        rw [handleCommand_id hid hplain entries hplay, listed_missing hid hrow]
        intro heq
        refine @ih (ahead ++ [item]) (by simp) (hconcat item hitem) ?_
        rw [List.append_assoc]
        exact heq
      | some r =>
        rw [listed_row hid hrow]
        intro heq
        obtain ⟨t, ts, rfl⟩ := List.exists_cons_of_ne_nil hne
        have hhead := hahead t (List.mem_cons_self ..)
        rw [(List.cons.inj heq).1] at hhead
        cases hhead

/-- **Ahead by some plays of an item.** The command is always ahead by at
least one track, all of them of this item. The induction is on the entries
that are left. If one is to match, it is of an item that reads the same; so
it can be played, and the command stays ahead. -/
theorem ahead_ne_listed (entries : List PlayableItem) {q p : Row} (halike : Alike fp q p)
    {ahead : List PlayableItem} (hne : ahead ≠ []) (hahead : TracksOf fp q ahead) {c c' : Conn}
    (hs : c.saved = none) (hs' : c'.saved = none) (hstored : Stored fp busy q c.db)
    (hstored' : Stored fp busy q c'.db)
    (hagree : AgreeBut (q "PlayableItemID").toColumnInt c.db c'.db) :
    ahead ++ (handleCommand fp busy entries (PlayableItem.ofRow fp p) c').1
      ≠ (listed fp busy entries c).1 := by
  induction entries generalizing p ahead c c' with
  | nil =>
    intro heq
    exact hne (List.append_eq_nil_iff.mp heq).1
  | cons entry entries ih =>
    -- whatever is read like the item is played, and leaves everything as it is asked for
    have hplays : ∀ {r : Row} {d : Conn}, Alike fp q r → d.saved = none →
        Stored fp busy q d.db → ∃ d', (PlayableItem.ofRow fp r).play fp busy d
            = (.played (PlayableItem.ofRow fp r).incrementPlaycount, d')
          ∧ d'.saved = none ∧ Stored fp busy q d'.db
          ∧ AgreeBut (q "PlayableItemID").toColumnInt d.db d'.db := by
      intro r d hr hclosed hd
      obtain ⟨d', hplay, hclosed', hdb⟩ :=
        play_row hclosed hd.valid (hr.raisable hd.raisable)
      refine ⟨d', hplay, hclosed', ?_, ?_⟩
      · rw [hdb]
        exact stored_raisedDb hr hd.valid hd.raisable
      · rw [hdb, ← hr.id]
        exact row?_raised hd.valid
    cases hid : entry.playableItemID with
    | none =>
      rw [listed_bare hid]
      intro heq
      obtain ⟨t, ts, rfl⟩ := List.exists_cons_of_ne_nil hne
      have hhead := (hahead t (List.mem_cons_self ..)).1
      rw [(List.cons.inj heq).1, hid] at hhead
      cases hhead
    | some id =>
      cases hrow : PlayableItem.row? c.db id with
      | none =>
        -- the item is played once more
        have hrow' : PlayableItem.row? c'.db id = none := by
          by_cases hi : id = (q "PlayableItemID").toColumnInt
          · have hnone := hagree.both
            rw [← hi, hrow] at hnone
            exact Option.not_isSome_iff_eq_none.mp (by rw [hnone]; simp)
          · rw [hagree.others id hi, hrow]
        obtain ⟨d', hplay, hclosed, hd', hagree'⟩ := hplays halike hs' hstored'
        have hover : ((PlayableItem.ofRow fp p).overwritten fp
            (PlayableItem.row? c'.db id)).play fp busy c'
            = (.played (PlayableItem.ofRow fp p).incrementPlaycount, d') := by
          rw [hrow']
          exact hplay
        rw [handleCommand_id hid (PlayableItem.plain_ofRow fp p) entries hover,
          listed_missing hid hrow, ← ofRow_counted]
        intro heq
        have hcounted : Alike fp q (counted p) :=
          ⟨(alike_counted fp p).id.trans halike.id,
            (alike_counted fp p).filename.trans halike.filename⟩
        have hahead' : TracksOf fp q (ahead ++ [PlayableItem.ofRow fp (counted p)]) := by
          rw [ofRow_counted]
          exact tracksOf_concat hahead halike
        refine ih hcounted (by simp) hahead' hs hclosed hstored hd' (hagree.trans hagree') ?_
        rw [List.append_assoc]
        exact heq
      | some r =>
        rw [listed_row hid hrow]
        intro heq
        obtain ⟨t, ts, rfl⟩ := List.exists_cons_of_ne_nil hne
        obtain ⟨hhead, htail⟩ := List.cons.inj heq
        have hr : Alike fp q r := Alike.of_track (hahead t (List.mem_cons_self ..)) hhead.symm
        -- the row that the command finds is read like the item as well
        obtain ⟨r', hrow', hr'⟩ : ∃ r', PlayableItem.row? c'.db id = some r' ∧ Alike fp q r' := by
          by_cases hi : id = (q "PlayableItemID").toColumnInt
          · have hsome := hagree.both
            rw [← hi, hrow] at hsome
            obtain ⟨r', hrow'⟩ := Option.isSome_iff_exists.mp hsome
            refine ⟨r', hrow', ?_, ?_⟩
            · rw [(PlayableItem.row?_id hstored'.valid hrow').2,
                ← (PlayableItem.row?_id hstored.valid hrow).2]
              exact hr.id
            · rw [hstored'.filename r' (hi ▸ hrow'), ← hstored.filename r (hi ▸ hrow)]
              exact hr.filename
          · exact ⟨r, (hagree.others id hi).trans hrow, hr⟩
        obtain ⟨d, hplay, hclosed, hd, hagreed⟩ := hplays hr hs hstored
        obtain ⟨d', hplay', hclosed', hd', hagreed'⟩ := hplays hr' hs' hstored'
        have hover : ((PlayableItem.ofRow fp p).overwritten fp
            (PlayableItem.row? c'.db id)).play fp busy c'
            = (.played (PlayableItem.ofRow fp r').incrementPlaycount, d') := by
          rw [hrow']
          exact hplay'
        rw [handleCommand_id hid (PlayableItem.plain_ofRow fp p) entries hover, hplay,
          ← ofRow_counted] at htail
        have hcounted : Alike fp q (counted r') :=
          ⟨(alike_counted fp r').id.trans hr'.id, (alike_counted fp r').filename.trans hr'.filename⟩
        have hahead' : TracksOf fp q (ts ++ [PlayableItem.ofRow fp (counted r')]) := by
          rw [ofRow_counted]
          exact tracksOf_concat (fun u hu => hahead u (List.mem_cons_of_mem t hu)) hr'
        refine ih hcounted (by simp) hahead' hclosed hclosed' hd hd'
          (hagreed.symm.trans (hagree.trans hagreed')) ?_
        rw [List.append_assoc]
        exact htail

/-- What the object holds between two entries: an item that was never fetched, or the one
that was played last. -/
def Held (fp : FloatOps) (busy : Bool) (item : PlayableItem) (db : Db) : Prop :=
  item.playableItemID = none ∨ ∃ p, item = PlayableItem.ofRow fp p ∧ Stored fp busy p db

/-- **An ID without a row plays something else**: the command hands over the
object as it is, and is ahead of the list from there on. If the object holds
an item, it is played again, and counted again. -/
theorem not_playsListed_missing {entry : PlayableItem} {id : ℤ} (h : entry.playableItemID = some id)
    {c : Conn} (hs : c.saved = none) (hrow : PlayableItem.row? c.db id = none)
    {item : PlayableItem} (hplain : item.Plain) (hheld : Held fp busy item c.db)
    (entries : List PlayableItem) : ¬PlaysListed fp busy (entry :: entries) item c := by
  rintro ⟨htracks, -⟩
  rw [listed_missing h hrow] at htracks
  rcases hheld with hitem | ⟨p, rfl, hstored⟩
  · have hplay : (item.overwritten fp (PlayableItem.row? c.db id)).play fp busy c
        = (.played item, c) := by
      rw [hrow]
      exact if_neg (by rw [show (item.overwritten fp none).playableItemID = none from hitem]; simp)
    rw [handleCommand_id h hplain entries hplay] at htracks
    refine ahead_ne_listed_of_bare entries hitem hplain (List.cons_ne_nil item []) ?_ c htracks
    intro t ht
    rw [List.mem_singleton.mp ht]
    exact hitem
  · obtain ⟨c', hplay, hclosed, hdb⟩ := play_row hs hstored.valid hstored.raisable
    have hover : ((PlayableItem.ofRow fp p).overwritten fp
        (PlayableItem.row? c.db id)).play fp busy c
        = (.played (PlayableItem.ofRow fp p).incrementPlaycount, c') := by
      rw [hrow]
      exact hplay
    rw [handleCommand_id h hplain entries hover, ← ofRow_counted] at htracks
    refine ahead_ne_listed entries (alike_counted fp p)
      (List.cons_ne_nil (PlayableItem.ofRow fp (counted p)) []) ?_ hs hclosed hstored ?_ ?_ htracks
    · rw [ofRow_counted]
      exact @tracksOf_concat _ _ _ [] nofun (Alike.refl p)
    · rw [hdb]
      exact stored_raisedDb (Alike.refl p) hstored.valid hstored.raisable
    · rw [hdb]
      exact row?_raised hstored.valid

/-! ## All entries -/

/-- A bare entry is played as it is. -/
theorem playsListed_bare {entry : PlayableItem} (h : entry.playableItemID = none)
    (entries : List PlayableItem) (item : PlayableItem) (c : Conn) :
    PlaysListed fp busy (entry :: entries) item c ↔ PlaysListed fp busy entries item c := by
  unfold PlaysListed
  rw [handleCommand_bare h, listed_bare h]
  exact and_congr_left' ⟨fun heq => (List.cons.inj heq).2, congrArg _⟩

/-- An ID with a row plays it as far as its count can be raised. What the
object held before makes no difference, as all its fields are overwritten. -/
theorem playsListed_row {entry : PlayableItem} {id : ℤ} (h : entry.playableItemID = some id)
    {c : Conn} (hs : c.saved = none) (hv : playableItemDef.Valid (c.db "PlayableItem")) {r : Row}
    (hrow : PlayableItem.row? c.db id = some r) {item : PlayableItem} (hplain : item.Plain)
    (entries : List PlayableItem) :
    PlaysListed fp busy (entry :: entries) item c
      ↔ PlayableItem.Raisable fp busy c.db r
        ∧ PlaysListed fp busy entries (PlayableItem.ofRow fp r).incrementPlaycount
          ((PlayableItem.ofRow fp r).play fp busy c).2 := by
  have hheld : item.overwritten fp (PlayableItem.row? c.db id) = PlayableItem.ofRow fp r := by
    rw [hrow]
    rfl
  unfold PlaysListed
  rw [listed_row h hrow]
  by_cases hr : PlayableItem.Raisable fp busy c.db r
  · obtain ⟨c', hplay, -, -⟩ := play_row hs hv hr
    rw [handleCommand_id h hplain entries (by rw [hheld, hplay]), and_iff_right hr, hplay]
    exact and_congr_left' ⟨fun heq => (List.cons.inj heq).2, congrArg _⟩
  · refine iff_of_false (fun htracks => ?_) (fun hboth => hr hboth.1)
    have hends := PlayableItem.play_ofRow_ne fp hs hv hr
    replace htracks := htracks.1
    rw [handleCommand] at htracks
    simp only [h, PlayableItem.fetch_plain hplain, hheld] at htracks
    -- no track is handed over for the entry, and the command ends there
    cases htracks

/-- The same for an object that something was fetched into. By induction on
the entries, with what the object holds; an entry has no ID, an ID without a
row, or one with a row. -/
theorem playsListed_iff (fp : FloatOps) (busy : Bool) (entries : List PlayableItem)
    {item : PlayableItem} (hplain : item.Plain) {c : Conn} (hs : c.saved = none)
    (hv : playableItemDef.Valid (c.db "PlayableItem")) (hheld : Held fp busy item c.db) :
    PlaysListed fp busy entries item c ↔ AllPlayable fp busy entries c.db := by
  induction entries generalizing item c with
  | nil => exact iff_of_true ⟨rfl, rfl⟩ trivial
  | cons entry entries ih =>
    unfold AllPlayable
    cases hid : entry.playableItemID with
    | none => exact (playsListed_bare hid entries item c).trans (ih hplain hs hv hheld)
    | some id =>
      dsimp only
      cases hrow : PlayableItem.row? c.db id with
      | none =>
        refine iff_of_false (not_playsListed_missing hid hs hrow hplain hheld entries) ?_
        rintro ⟨r, hr, -⟩
        cases hr
      | some r =>
        rw [playsListed_row hid hs hv hrow hplain entries]
        have hstep : PlayableItem.Raisable fp busy c.db r →
            (PlaysListed fp busy entries (PlayableItem.ofRow fp r).incrementPlaycount
                ((PlayableItem.ofRow fp r).play fp busy c).2
              ↔ AllPlayable fp busy entries (PlayableItem.raisedDb fp c.db r)) := by
          intro hr
          obtain ⟨c', hplay, hclosed, hdb⟩ := play_row hs hv hr
          have hstored : Stored fp busy (counted r) (PlayableItem.raisedDb fp c.db r) :=
            stored_raisedDb ⟨(alike_counted fp r).id.symm, (alike_counted fp r).filename.symm⟩ hv
              ((alike_counted fp r).raisable hr)
          rw [hplay, ← hdb]
          refine ih (PlayableItem.plain_ofRow fp r).incrementPlaycount hclosed ?_ ?_
          · rw [hdb]
            exact PlayableItem.valid_raisedDb hv hr.free
          · rw [hdb]
            exact Or.inr ⟨counted r, (ofRow_counted fp r).symm, hstored⟩
        constructor
        · rintro ⟨hr, hrest⟩
          exact ⟨r, rfl, hr, (hstep hr).mp hrest⟩
        · rintro ⟨r', hr', hraise, hrest⟩
          obtain rfl := Option.some.inj hr'
          exact ⟨hraise, (hstep hraise).mpr hrest⟩

/-- **When `PLAY_FILES` plays what it lists**: every ID that it lists has a
row, and the count of the row can be raised. One direction is along the
entries; for the other, an ID without a row puts the command ahead, and a
count that cannot be raised ends it.

What it should play are the listed tracks that there are, in their order: an
ID without a row is passed over. The command plays something for each entry,
so it is ahead by a track from there on, and stays ahead. -/
theorem playFiles_iff (fp : FloatOps) (busy : Bool) (entries : List PlayableItem) (c : Conn)
    (hs : c.saved = none) (hv : playableItemDef.Valid (c.db "PlayableItem")) :
    PlaysListed fp busy entries {} c ↔ AllPlayable fp busy entries c.db :=
  playsListed_iff fp busy entries PlayableItem.plain_empty hs hv (Or.inl rfl)

/-- A song and a bare stream are both played, and the song is counted. -/
theorem playFiles_song :
    PlaysListed .whole false
      [{ playableItemID := some 1 }, { filename := some (ascii "http://stream") }] {}
      ⟨songDb, none, 1⟩ := by
  have hc : Consistent songDb := consistent_of_isConsistent (by decide +kernel)
  refine (playFiles_iff .whole false _ ⟨songDb, none, 1⟩ rfl hc.playableItems).mpr ?_
  obtain ⟨r, hr⟩ := Option.isSome_iff_exists.mp
    (show (PlayableItem.row? songDb 1).isSome = true by decide +kernel)
  obtain ⟨hmem, hid⟩ := PlayableItem.row?_id hc.playableItems hr
  have hone : (r "PlayableItemID").toColumnInt = 1 := by
    rw [hid]
    rfl
  refine ⟨r, hr, ⟨rfl, by rw [hone]; decide, fun _ y hy hne => absurd ?_ hne⟩, trivial⟩
  rw [hone]
  have hall : ∀ y ∈ (songDb "PlayableItem").rows, y "PlayableItemID" = .integer 1 := by
    decide +kernel
  exact hall y hy

/-- **A missing ID plays the song before it again**, and raises its count,
where one track is listed; and without a song before it, it plays an item
that is empty. -/
theorem playFiles_repeats :
    (handleCommand .whole false [{ playableItemID := some 1 }, { playableItemID := some 9 }] {}
        ⟨songDb, none, 1⟩).1.map (fun track => (track.filename, track.playcount))
      = [(some (ascii "a.ogg"), some 1), (some (ascii "a.ogg"), some 2)]
    ∧ (listed .whole false [{ playableItemID := some 1 }, { playableItemID := some 9 }]
        ⟨songDb, none, 1⟩).1.map (fun track => (track.filename, track.playcount))
      = [(some (ascii "a.ogg"), some 1)]
    ∧ (handleCommand .whole false [{ playableItemID := some 9 }] {} ⟨songDb, none, 1⟩).1 = [{}]
    ∧ ¬PlaysListed .whole false [{ playableItemID := some 1 }, { playableItemID := some 9 }] {}
        ⟨songDb, none, 1⟩ := by
  refine ⟨by decide +kernel, by decide +kernel, by decide +kernel, ?_⟩
  rintro ⟨htracks, -⟩
  have hlength := congrArg List.length htracks
  revert hlength
  decide +kernel

end PlayFiles
