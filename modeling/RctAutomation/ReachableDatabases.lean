import RctAutomation.Sql.File
import RctAutomation.StoredPlaylists
import RctAutomation.StatementBinding
import RctAutomation.StoreAtomic
import RctAutomation.WireMessages

/-!
# The databases that the program reaches

A database starts with empty tables, and all that the program does to it, unless it
is told to expose SQL to its users, is to store messages and to forget the locks
when it starts. Any number of threads of any number of processes do so, on
connections of their own or on ones that they share, and a process can end in the
middle of a store.

Whatever they do, the database is consistent: what a playlist or an item is known
by is unique, and a playlist has only items that exist. When no connection
is about to change it, every name that is locked is that of a playlist
(`reached_consistent`), and until the automation starts again a name that was locked
stays one (`locked_of_run`).
-/

open Sql Prog

/-! ## What a statement keeps -/

/-- The columns of the IDs of playlists and items, wherever they occur: as
keys, and in the join table as references. -/
def idColumns : List String := ["PlaylistID", "PlayableItemID"]

/-- An ID, or none: a 64-bit integer or the null, as the key of a row that is
inserted may be either. -/
def IsId (v : Value) : Prop := v = .null ∨ ∃ n, v = .integer n ∧ fitsInt64 n = true

/-- An ID is stored as it is. -/
theorem IsId.apply {v : Value} (h : IsId v) (fp : FloatOps) :
    IsId (Affinity.integer.apply fp v) := by
  rcases h with rfl | ⟨n, rfl, hn⟩
  · exact Or.inl rfl
  · exact Or.inr ⟨n, rfl, hn⟩

/-- The columns that a statement gives values to. -/
def Sql.Stmt.columns : Stmt → List String
  | .insert _ _ cols => cols
  | .update _ set _ => set
  | .select _ _ => []

/-- **A statement gives IDs to the columns of IDs**, as far as it names them. -/
def BindsIds (p : Prepared) : Prop :=
  ∀ c ∈ idColumns, IsId (TableDef.assigned p.stmt.columns p.params c)

/-- **A statement of a store**: it gives IDs to the columns of IDs, and
changes no lock into another one. -/
structure OfStore (p : Prepared) : Prop where
  ids : BindsIds p
  locks : ∀ set w, p.stmt ≠ .update "PlaylistLock" set w

/-- The columns of IDs are integers wherever they are, so an ID is stored as
it is. -/
def Sql.TableDef.IntegerIds (t : TableDef) : Prop :=
  ∀ c ∈ idColumns, (t.column? c).isSome = true → t.affinity c = .integer

/-- **A table as the program keeps it**: valid, with a value in every column
that has to have one, and with IDs in the columns of IDs. -/
structure SaneTable (t : TableDef) (tab : Table) : Prop where
  valid : t.Valid tab
  complete : t.Complete tab
  ids : ∀ c ∈ idColumns, (t.column? c).isSome = true → ∀ r ∈ tab.rows, IsId (r c)
  /-- No key was ever chosen below zero. -/
  seq : 0 ≤ tab.seq

namespace SaneTable

variable {t : TableDef} {tab tab' : Table} {fp : FloatOps}

theorem affinity_of_column {c : String} {col : Column} (h : t.column? c = some col) :
    t.affinity c = col.affinity := by
  unfold TableDef.affinity
  rw [h]
  rfl

/-- A key that is chosen is an ID. -/
theorem isId_lastKey (h : SaneTable t tab) {k : String}
    (hk : TableDef.lastKey k tab < TableDef.maxKey) :
    IsId (.integer (TableDef.lastKey k tab + 1)) := by
  have hseq : 0 ≤ TableDef.lastKey k tab := h.seq.trans (TableDef.seq_le_lastKey k tab)
  refine Or.inr ⟨_, rfl, ?_⟩
  unfold TableDef.maxKey at hk
  unfold fitsInt64
  simp only [Bool.and_eq_true, decide_eq_true_eq]
  omega

/-- **An insertion of IDs keeps a table as it should be.** An ID that is
given fits an `int`; of a key that is chosen nothing is said. -/
theorem insert (h : SaneTable t tab) (hints : t.IntegerIds) {given : String → Value}
    (hgiven : ∀ c ∈ idColumns, IsId (given c)) {oc : OnConflict} {id : Option ℤ}
    (hinsert : t.insert oc tab (t.toStore fp given) = .ok (tab', id)) : SaneTable t tab' where
  valid := h.valid.insert hinsert
  complete := h.complete.insert hinsert
  seq := h.seq.trans (TableDef.seq_le_of_insert hinsert)
  ids c hc hcol x hx := by
    rcases TableDef.mem_of_insert hinsert hx with hold | ⟨hkeyed, -⟩
    · exact h.ids c hc hcol x hold
    · have hstored : IsId (t.toStore fp given c) := by
        obtain ⟨col, hcol'⟩ := Option.isSome_iff_exists.mp hcol
        unfold TableDef.toStore
        rw [hcol']
        show IsId (col.affinity.apply fp (given c))
        rw [← affinity_of_column hcol', hints c hc hcol]
        exact (hgiven c hc).apply fp
      by_cases hkey : t.key = some c
      · rcases hstored with hnull | ⟨n, hn, hfits⟩
        · rw [TableDef.keyed_of_null hkey hnull] at hkeyed
          split at hkeyed
          · rename_i hlt
            cases hkeyed
            rw [Function.update_self]
            exact h.isId_lastKey hlt
          · cases hkeyed
        · rw [TableDef.keyed_of_integer hkey hn] at hkeyed
          cases hkeyed
          exact Or.inr ⟨n, hn, hfits⟩
      · rw [TableDef.keyed_other hkeyed hkey]
        exact hstored

/-- **And so does an update.** -/
theorem update (h : SaneTable t tab) (hints : t.IntegerIds) {set : List String}
    {params : List Value} (hgiven : ∀ c ∈ idColumns, IsId (TableDef.assigned set params c))
    {w : String} {v : Value} (hupdate : t.update fp tab set params w v = .ok tab') :
    SaneTable t tab' where
  valid := h.valid.update hupdate
  complete := h.complete.update hupdate
  seq := (TableDef.seq_of_update hupdate).symm ▸ h.seq
  ids c hc hcol x hx := by
    rw [TableDef.update_rows hupdate] at hx
    obtain ⟨r, hr, rfl⟩ := List.mem_map.mp hx
    unfold TableDef.updatedRow
    split
    · show IsId (if c ∈ set then _ else r c)
      split
      · rw [hints c hc hcol]
        exact (hgiven c hc).apply fp
      · exact h.ids c hc hcol r hr
    · exact h.ids c hc hcol r hr

end SaneTable

/-- **A database as the program keeps it**: each of its tables is, and no row
lacks a parent under a key that is checked with each statement. -/
structure Sane (db : Db) : Prop where
  tables : ∀ t ∈ schemaTables, SaneTable t (db t.name)
  orphans : (catalog .whole .stored).orphans false db = 0

theorem integerIds_of_mem : ∀ t ∈ schemaTables, t.IntegerIds := by
  unfold TableDef.IntegerIds
  decide

theorem sane_emptyDb : Sane emptyDb where
  tables t ht := ⟨consistent_emptyDb.valid t ht, nofun, nofun, le_refl 0⟩
  orphans := rfl

variable {fp : FloatOps} {ch : Chance}

/-- A table of the catalog is one of the schema, under its name. -/
theorem mem_of_table? {name : String} {t : TableDef} (h : (catalog fp ch).table? name = some t) :
    t ∈ schemaTables ∧ t.name = name := by
  unfold Catalog.table? at h
  have hname := List.find?_some h
  exact ⟨List.mem_of_find?_eq_some h, eq_of_beq hname⟩

theorem eq_of_name {t t' : TableDef} (ht : t ∈ schemaTables) (ht' : t' ∈ schemaTables)
    (hname : t.name = t'.name) : t = t' :=
  List.inj_on_of_nodup_map (f := TableDef.name) (by decide) ht ht' hname

/-- One table changes to another one that is as it should be. -/
theorem Sane.tables_update {db : Db} (h : Sane db) {t : TableDef} (ht : t ∈ schemaTables)
    {tab : Table} (htab : SaneTable t tab) :
    ∀ t' ∈ schemaTables, SaneTable t' (Function.update db t.name tab t'.name) := by
  intro t' ht'
  by_cases hname : t'.name = t.name
  · obtain rfl := eq_of_name ht' ht hname
    rw [Function.update_self]
    exact htab
  · rw [Function.update_of_ne hname]
    exact h.tables t' ht'

/-- **A statement that gives IDs keeps the database as it should be**: an
insertion or an update keeps its table so, and one that would leave a row
without a parent is refused. -/
theorem invariant_sane (fp : FloatOps) (ch : Chance) :
    (catalog fp ch).Invariant OfStore Sane := by
  intro db db' p id hp h hexec
  have hbinds := hp.ids
  have horphans : (catalog .whole .stored).orphans false db' = 0 := by
    have hle : (catalog fp ch).orphans false db' ≤ (catalog fp ch).orphans false db :=
      Catalog.orphans_of_exec hexec
    have hnone : (catalog fp ch).orphans false db = 0 := h.orphans
    exact Nat.le_zero.mp (hnone ▸ hle)
  unfold BindsIds at hbinds
  rcases Catalog.exec_ok hexec with ⟨oc, name, cols, t, tab, hstmt, ht, hinsert, rfl⟩
    | ⟨name, set, w, t, tab, hstmt, ht, hupdate, rfl⟩ | ⟨s, w, -, rfl⟩
  · obtain ⟨hmem, rfl⟩ := mem_of_table? ht
    rw [hstmt] at hbinds
    exact ⟨h.tables_update hmem
      ((h.tables t hmem).insert (integerIds_of_mem t hmem) hbinds hinsert), horphans⟩
  · obtain ⟨hmem, rfl⟩ := mem_of_table? ht
    rw [hstmt] at hbinds
    exact ⟨h.tables_update hmem
      ((h.tables t hmem).update (integerIds_of_mem t hmem) hbinds hupdate), horphans⟩
  · exact h

/-- **Such a database is consistent.** So the results about the store, which
assume consistency, apply to whatever the program reaches. The foreign keys
of the join table are what makes its pairs refer to rows, as neither of its
columns can be null. -/
theorem Sane.consistent {db : Db} (h : Sane db) : Consistent db := by
  have hjoin : SaneTable joinDef (db "Playlist_PlayableItemID") :=
    h.tables joinDef (by simp [schemaTables])
  have hitems : SaneTable playableItemDef (db "PlayableItem") :=
    h.tables playableItemDef (by simp [schemaTables])
  have hlists : SaneTable playlistDef (db "Playlist") :=
    h.tables playlistDef (by simp [schemaTables])
  have hints : ∀ j ∈ (db "Playlist_PlayableItemID").rows, ∃ p i,
      j "PlaylistID" = .integer p ∧ j "PlayableItemID" = .integer i := by
    intro j hj
    -- neither column of the join table can be null
    have hvalues : j "PlaylistID" ≠ .null ∧ j "PlayableItemID" ≠ .null := by
      have hcomplete := hjoin.complete j hj
      simpa [TableDef.lacksValue, joinDef] using hcomplete
    rcases hjoin.ids "PlaylistID" (by decide) (by decide) j hj with hnull | ⟨p, hp, -⟩
    · exact absurd hnull hvalues.1
    · rcases hjoin.ids "PlayableItemID" (by decide) (by decide) j hj with hnull | ⟨i, hi, -⟩
      · exact absurd hnull hvalues.2
      · exact ⟨p, i, hp, hi⟩
  refine ⟨fun t ht => (h.tables t ht).valid, hints,
    (orphans_eq_zero_iff .whole .stored db hlists.valid hitems.valid hints).mp h.orphans, ?_⟩
  rintro i ⟨r, hr, hri⟩
  rcases hitems.ids "PlayableItemID" (by decide) (by decide) r hr with hnull | ⟨n, hn, hfits⟩
  · cases hri.symm.trans hnull
  · rwa [← Value.integer.inj (hri.symm.trans hn)] at hfits

/-! ## What a store steps -/

/-- The integers of a message are of their types, as those of a protocol
buffer are. -/
def StoredMessage.IntsFit : StoredMessage → Prop
  | playlist p => p.IntsFit
  | item i => i.IntsFit
  | lock _ => True
  | proto _ => True

theorem fitsInt64_of_wire {n : ℤ} (h : Wire.FitsInt64 n) : fitsInt64 n = true := by
  obtain ⟨hmin, hmax⟩ := h
  unfold fitsInt64
  simp only [Bool.and_eq_true, decide_eq_true_eq]
  omega

theorem fitsInt64_toInt32 (n : ℤ) : fitsInt64 (toInt32 n) = true := by
  obtain ⟨hmin, hmax⟩ := fitsInt32_toInt32 n
  unfold fitsInt64
  unfold int32Min at hmin
  unfold int32Max at hmax
  simp only [Bool.and_eq_true, decide_eq_true_eq]
  omega

theorem isId_ofInt {o : Option ℤ} (h : ∀ n ∈ o, Wire.FitsInt64 n) :
    IsId (FieldValue.ofInt o).toValue := by
  cases o with
  | none => exact Or.inl rfl
  | some n => exact Or.inr ⟨n, rfl, fitsInt64_of_wire (h n rfl)⟩

@[simp] theorem FieldValue.ofInt_ne_ints (o : Option ℤ) (l : List ℤ) :
    FieldValue.ofInt o ≠ .ints l := by
  cases o <;> exact nofun

@[simp] theorem FieldValue.ofStr_ne_ints (o : Option Bytes) (l : List ℤ) :
    FieldValue.ofStr o ≠ .ints l := by
  cases o <;> exact nofun

namespace StoredMessage

variable {m : StoredMessage}

/-- The fields of IDs have IDs. -/
theorem isId_val (h : m.IntsFit) : ∀ c ∈ idColumns, IsId (m.toMessage.val c).toValue := by
  intro c hc
  simp only [idColumns, List.mem_cons, List.not_mem_nil, or_false] at hc
  cases m with
  | playlist p =>
    rcases hc with rfl | rfl
    · exact isId_ofInt h.playlistID
    · exact Or.inl rfl
  | item i =>
    rcases hc with rfl | rfl
    · exact Or.inl rfl
    · exact isId_ofInt h.playableItemID
  | lock l => rcases hc with rfl | rfl <;> exact Or.inl rfl
  | proto p => rcases hc with rfl | rfl <;> exact Or.inl rfl

/-- And so have the elements of repeated fields. -/
theorem fits_of_ints (h : m.IntsFit) {c : String} {l : List ℤ}
    (hval : m.toMessage.val c = .ints l) : ∀ n ∈ l, fitsInt64 n = true := by
  cases m with
  | playlist p =>
    simp only [toMessage, Playlist.toMessage] at hval
    split at hval <;> simp at hval
    subst hval
    exact fun n hn => fitsInt64_of_wire (h.playableItemID n hn)
  | item i =>
    simp only [toMessage, PlayableItem.toMessage] at hval
    split at hval <;> simp at hval
  | lock i =>
    simp only [toMessage, PlaylistLock.toMessage] at hval
    split at hval <;> simp at hval
  | proto i =>
    simp only [toMessage, ProtoTable.toMessage] at hval
    split at hval <;> simp at hval

end StoredMessage

/-! ### The statement for the scalar fields -/

/-- A message whose fields could be bound has scalar fields of types that are stored. -/
theorem encodes_of_bindFromFields {m : Message} {fds : List FieldDescriptor}
    {acc acc' : Prepared × ℕ} (h : fds.foldlM (bindField m) acc = some acc') :
    ∀ fd ∈ fds, fd.repeated = false → ∃ v, encodeField fd (m.val fd.name) = some v := by
  induction fds generalizing acc with
  | nil => exact nofun
  | cons fd fds ih =>
    rw [List.foldlM_cons] at h
    obtain ⟨acc₁, hfirst, hrest⟩ := Option.bind_eq_some_iff.mp h
    refine List.forall_mem_cons.mpr ⟨fun hscalar => ?_, ih hrest⟩
    unfold bindField at hfirst
    rw [hscalar, if_neg Bool.false_ne_true] at hfirst
    obtain ⟨v, hv, -⟩ := Option.map_eq_some_iff.mp hfirst
    exact ⟨v, hv⟩

/-- What is bound is never null. -/
theorem encodeField_ne_null {fd : FieldDescriptor} {v : FieldValue} {x : Value}
    (h : encodeField fd v = some x) : x ≠ .null := by
  unfold encodeField at h
  split at h <;> cases h <;> exact nofun

/-- **An update binds its columns to their fields**, like an insertion, in
front of the ID of its condition. -/
theorem take_params_update {cat : Catalog} {m : Message} (ht : m.Typed) (ho : m.Ordered)
    {ps : Prepared} (h : rootStatement cat .update m = some ps) :
    ps.params.take (scalarNames m).length = (scalarNames m).map fun c => (m.val c).toValue := by
  obtain ⟨ps₀, hps₀, hbound⟩ := Option.bind_eq_some_iff.mp h
  obtain ⟨⟨ps₁, n⟩, hfold, rfl⟩ := Option.map_eq_some_iff.mp hbound
  have hps₀' : ps₀ = ⟨rootStmt .update m.desc.name (scalarNames m) m.desc.field0.name,
      [] ++ (List.replicate m.scalars.length .null ++ [.null])⟩ := by
    rw [(prepare_rootText hps₀).2.2, ← List.replicate_succ', ← scalarNames_length]
    rfl
  rw [hps₀'] at hfold
  have hencodes : ∀ fd ∈ m.listFields, fd.repeated = false →
      encodeField fd (m.val fd.name) = some (m.val fd.name).toValue := by
    intro fd hfd hscalar
    obtain ⟨v, hv⟩ := encodes_of_bindFromFields hfold fd hfd hscalar
    obtain ⟨hmem, hpop⟩ := Message.mem_listFields.mp hfd
    rw [hv, ht.scalar fd hmem hscalar v hpop hv]
  have hfill := foldlM_bindField m
    (rootStmt .update m.desc.name (scalarNames m) m.desc.field0.name) m.listFields hencodes []
    (List.replicate m.scalars.length .null ++ [.null])
  obtain ⟨rfl, rfl⟩ := Prod.mk.inj (Option.some.inj (hfold.symm.trans hfill))
  have hvalues := (boundTo_eq_iff m m.listFields fun fd hfd hscalar =>
    encodeField_ne_null (hencodes fd hfd hscalar)).mpr ho
  have hle : m.scalars.length ≤ m.listFields.length := List.length_filter_le ..
  dsimp only
  rw [if_pos rfl, scalarNames_length]
  unfold Prepared.bind
  rw [if_neg (Nat.succ_ne_zero _)]
  dsimp only
  rw [List.take_set_of_le (by simpa using hle), List.nil_append]
  have htake := boundTo_append m m.listFields (List.replicate m.scalars.length .null) [.null]
  rw [List.length_replicate] at htake
  rw [htake]
  exact hvalues.trans (by simp [scalarNames, List.map_map, Function.comp_def])

/-- Values beyond the last column are given to none. -/
theorem assigned_take (cols : List String) (params : List Value) (c : String) :
    TableDef.assigned cols (params.take cols.length) c = TableDef.assigned cols params c := by
  have hzip : cols.zip (params.take cols.length) = cols.zip params := by
    induction cols generalizing params with
    | nil => rfl
    | cons d cols ih =>
      cases params with
      | nil => rfl
      | cons v params => exact congrArg ((d, v) :: ·) (ih params)
  unfold TableDef.assigned
  rw [hzip]

/-- **The root statement gives IDs to the columns of IDs**, whichever of the
three it is. -/
theorem StoredMessage.bindsIds {m : StoredMessage} (hfits : m.IntsFit) {cmd : StoreCmd}
    {ps : Prepared} (h : rootStatement (catalog fp ch) cmd m.toMessage = some ps) :
    BindsIds ps := by
  have hcolumns : ps.stmt.columns = scalarNames m.toMessage := by
    rw [rootStatement_stmt h]
    cases cmd <;> rfl
  have hvalues : ps.params.take (scalarNames m.toMessage).length
      = (scalarNames m.toMessage).map fun c => (m.toMessage.val c).toValue := by
    by_cases hcmd : cmd = .update
    · subst hcmd
      exact take_params_update m.typed (StoredMessage.ordered h) h
    · rw [(rootStatement_params hcmd m.typed (StoredMessage.ordered h) h).2]
      exact List.take_of_length_le (List.length_map _).le
  intro c hc
  rw [hcolumns, ← assigned_take, hvalues, assigned_map]
  split
  · exact m.isId_val hfits c hc
  · exact Or.inl rfl

/-! ### The whole program -/

section Steps

variable {α : Type} {cat : Catalog} {value : Message} {P : Prepared → Prop}

theorem steps_check (b : Bool) : (check b : Prog Message Unit).Steps cat P := by
  cases b with
  | true => exact .ret ()
  | false => exact .abort

theorem steps_rollbackAndThrow : (rollbackAndThrow value : Prog Message α).Steps cat P :=
  .exec fun _ => (steps_check _).bind fun _ => .raise value

/-- The row of an element is for an ID, and has one. -/
theorem ofStore_child {oc : OnConflict} {table field0 field : String} {a b : ℤ}
    (ha : fitsInt64 a = true) (hb : fitsInt64 b = true) :
    OfStore ⟨.insert oc table [field0, field], [.integer a, .integer b]⟩ := by
  refine ⟨fun c _ => ?_, nofun⟩
  show IsId ((([(field0, Value.integer a), (field, .integer b)]).lookup c).getD .null)
  rw [List.lookup_cons]
  cases c == field0 with
  | true => exact Or.inr ⟨a, rfl, ha⟩
  | false =>
    dsimp only
    rw [List.lookup_cons]
    cases c == field with
    | true => exact Or.inr ⟨b, rfl, hb⟩
    | false => exact Or.inl rfl

theorem steps_storeChild {cmd : StoreCmd} {table field0 field : String} {ps : Prepared}
    (hps : cat.prepare (childText cmd table field0 field) = some ps) {a b : ℤ}
    (ha : fitsInt64 a = true) (hb : fitsInt64 b = true) :
    (storeChild value ps a b).Steps cat OfStore := by
  obtain ⟨hstmt, hparams⟩ := prepare_childText hps
  obtain ⟨stmt, params⟩ := ps
  obtain rfl : stmt = _ := hstmt
  obtain rfl : params = [.null, .null] := hparams
  refine .step (ofStore_child ha hb) fun code => ?_
  cases code with
  | constraint => exact (steps_check _).bind fun _ => steps_rollbackAndThrow
  | done => exact steps_check _
  | _ => exact .abort

theorem steps_storeChildren {cmd : StoreCmd} {table field0 field : String} {ps : Prepared}
    (hps : cat.prepare (childText cmd table field0 field) = some ps) {a : ℤ}
    (ha : fitsInt64 a = true) {items : List ℤ} (hitems : ∀ n ∈ items, fitsInt64 n = true) :
    (storeChildren value ps a items).Steps cat OfStore := by
  induction items with
  | nil => exact .ret ()
  | cons item items ih =>
    obtain ⟨hitem, hrest⟩ := List.forall_mem_cons.mp hitems
    exact (steps_storeChild hps ha hitem).bind fun _ => ih hrest

theorem steps_storeAllRepeated {cmd : StoreCmd} {a : ℤ} (ha : fitsInt64 a = true)
    (hval : ∀ c l, value.val c = .ints l → ∀ n ∈ l, fitsInt64 n = true)
    (fds : List FieldDescriptor) : (storeAllRepeated cmd value a fds).Steps cat OfStore := by
  induction fds with
  | nil => exact .ret ()
  | cons fd fds ih =>
    refine Steps.bind (.prepare ?_) fun _ => ih
    cases hps : cat.prepare (childText cmd value.desc.name value.desc.field0.name fd.name) with
    | none => exact .abort
    | some ps =>
      simp only [Prog.bind]
      split
      · exact steps_storeChildren hps ha (hval _ _ ‹_›)
      · exact .abort

theorem steps_commitOrThrow : (commitOrThrow value).Steps cat P := by
  refine .exec fun code => ?_
  show (if code ≠ .ok then rollbackAndThrow value else _ :
    Prog Message (Code × Message)).Steps cat P
  split
  · exact steps_rollbackAndThrow
  · exact .ret _

end Steps

/-- **A store steps its statements only**, whatever it is answered, unless it
updates a lock, which the program never does. This is about all branches of
the program, those that no database would let it take included. -/
theorem steps_insertOrReplace {m : StoredMessage} (hfits : m.IntsFit) {cmd : StoreCmd}
    (hlock : ∀ l, m = .lock l → cmd ≠ .update) :
    (insertOrReplace false m.toMessage cmd).Steps (catalog fp ch) OfStore := by
  have hroot : ∀ ps, rootStatement (catalog fp ch) cmd m.toMessage = some ps → OfStore ps := by
    refine fun ps hps => ⟨m.bindsIds hfits hps, fun set w hset => ?_⟩
    rw [rootStatement_stmt hps] at hset
    cases cmd with
    | insert | replace => cases hset
    | update =>
      cases m with
      | lock l => exact hlock l rfl rfl
      | playlist p => exact absurd (Stmt.update.inj hset).1 (show "Playlist" ≠ _ by decide)
      | item i => exact absurd (Stmt.update.inj hset).1 (show "PlayableItem" ≠ _ by decide)
      | proto p => exact absurd (Stmt.update.inj hset).1 (show "ProtoTable" ≠ _ by decide)
  have hlocal : fitsInt64 (localId m.toMessage) = true := by
    unfold localId
    split
    · split
      · exact fitsInt64_toInt32 _
      · rfl
    · rfl
  have hrest : (storeRest cmd m.toMessage (localId m.toMessage)).Steps (catalog fp ch) OfStore := by
    unfold storeRest writeBackId
    split
    · refine .lastInsertRowid fun rowid => ?_
      refine (steps_storeAllRepeated (fitsInt64_toInt32 rowid) (fun c l hl => ?_) _).bind
        fun _ => steps_commitOrThrow
      -- the ID that is written back is no repeated field
      by_cases hc : c = m.toMessage.desc.field0.name
      · subst hc
        rw [Message.val_set_self] at hl
        cases hl
      · rw [Message.val_set_of_ne _ _ _ hc] at hl
        exact m.fits_of_ints hfits hl
    · exact (steps_storeAllRepeated hlocal (fun c l hl => m.fits_of_ints hfits hl) _).bind
        fun _ => steps_commitOrThrow
  refine .exec fun r => (steps_check _).bind fun _ => (steps_check _).bind fun _ => .prepare ?_
  simp only [Prog.bind]
  unfold rootStatement at hroot
  cases hps : ((catalog fp ch).prepare (rootText cmd m.toMessage.desc.name
    (scalarNames m.toMessage) m.toMessage.desc.field0.name)).bind (bindRoot cmd m.toMessage) with
  | none => exact .abort
  | some ps =>
    refine .step (hroot ps hps) fun code => ?_
    cases code with
    | constraint => exact steps_rollbackAndThrow
    | ok | done => exact hrest
    | _ => exact .abort

/-! ## The program -/

/-- **A store of the program's**, of a message of the stored types. No lock
is ever updated: a lock is replaced, and forgotten with all others. -/
structure StoreCall where
  message : StoredMessage
  cmd : StoreCmd
  fits : message.IntsFit
  lock : ∀ l, message = .lock l → cmd ≠ .update

/-- What it runs. -/
def StoreCall.program (o : StoreCall) : Prog Message (Code × Message) :=
  insertOrReplace false o.message.toMessage o.cmd

/-- What the automation does to the database when it starts: it forgets the
locks, by `DELETE FROM PlaylistLock`. -/
def deleteLocks (db : Db) : Db :=
  Function.update db "PlaylistLock" ⟨[], (db "PlaylistLock").seq⟩

theorem StoreCall.steps (o : StoreCall) : o.program.Steps (catalog fp ch) OfStore :=
  steps_insertOrReplace o.fits o.lock

/-- A database without locks is as it should be. -/
theorem Sane.withoutLocks {db : Db} (h : Sane db) (_ : (catalog fp ch).orphans true db = 0) :
    Sane (deleteLocks db) ∧ (catalog fp ch).orphans true (deleteLocks db) = 0 := by
  have hlocks : SaneTable playlistLockDef ⟨[], (db "PlaylistLock").seq⟩ :=
    ⟨⟨List.Pairwise.nil, nofun⟩, nofun, nofun,
      (h.tables playlistLockDef (by simp [schemaTables])).seq⟩
  unfold deleteLocks
  refine ⟨⟨h.tables_update (by simp [schemaTables]) hlocks, ?_⟩, ?_⟩
  · rw [orphans_false, Function.update_of_ne (by decide)]
    exact h.orphans
  · rw [orphans_true, Function.update_self]
    rfl

/-! ## Locks -/

/-- Two rows have one name: the same one, or two that compare as the same, as
a name that is a number may be stored as either class. -/
def SameName (r₁ r₂ : Row) : Prop := r₂ "name" = r₁ "name" ∨ (r₂ "name").same (r₁ "name") = true

/-- **Every name that is locked stays locked**, by the same row or by another
one with the name. -/
def LocksKept (db₁ db₂ : Db) : Prop :=
  ∀ r₁ ∈ (db₁ "PlaylistLock").rows, ∃ r₂ ∈ (db₂ "PlaylistLock").rows, SameName r₁ r₂

instance : IsPreorder Db LocksKept where
  refl db r hr := ⟨r, hr, Or.inl rfl⟩
  trans db₁ db₂ db₃ h₁₂ h₂₃ r hr := by
    obtain ⟨r', hr', hsame⟩ := h₁₂ r hr
    obtain ⟨r'', hr'', hsame'⟩ := h₂₃ r' hr'
    refine ⟨r'', hr'', ?_⟩
    rcases hsame with heq | hsame
    · unfold SameName at hsame' ⊢
      rwa [← heq]
    · rcases hsame' with heq' | hsame'
      · exact Or.inr (heq' ▸ hsame)
      · exact Or.inr (Value.same_trans hsame' hsame)

/-- **A statement of a store keeps the locks**: a row of the table of locks
gives way to one of its name only, and no statement deletes from it
otherwise. -/
theorem extends_locksKept (fp : FloatOps) (ch : Chance) :
    (catalog fp ch).Extends OfStore Sane LocksKept := by
  intro db db' p id hp h hexec
  rcases Catalog.exec_ok hexec with ⟨oc, name, cols, t, tab, hstmt, ht, hinsert, rfl⟩
    | ⟨name, set, w, t, tab, hstmt, ht, -, rfl⟩ | ⟨s, w, -, rfl⟩
  · by_cases hname : name = "PlaylistLock"
    · subst hname
      obtain ⟨hmem, htable⟩ := mem_of_table? ht
      have hlock : playlistLockDef ∈ schemaTables := by simp [schemaTables]
      obtain rfl := eq_of_name hmem hlock htable
      intro r hr
      rw [Function.update_self]
      rcases TableDef.insert_ok hinsert with ⟨r', -, -, hrows⟩ | ⟨rfl, -⟩
      · rw [hrows]
        by_cases hconflict : playlistLockDef.conflicts r' r = true
        · refine ⟨r', List.mem_append_right _ (List.mem_singleton_self r'), Or.inr ?_⟩
          simpa [TableDef.conflicts, TableDef.indexes, TableDef.agreeOn, playlistLockDef]
            using hconflict
        · refine ⟨r, List.mem_append_left _ (List.mem_filter.mpr ⟨hr, ?_⟩), Or.inl rfl⟩
          simpa using hconflict
      · exact ⟨r, hr, Or.inl rfl⟩
    · intro r hr
      rw [Function.update_of_ne (Ne.symm hname)]
      exact ⟨r, hr, Or.inl rfl⟩
  · have hname : name ≠ "PlaylistLock" := by
      rintro rfl
      exact hp.locks set w hstmt
    intro r hr
    rw [Function.update_of_ne hname.symm]
    exact ⟨r, hr, Or.inl rfl⟩
  · exact refl _

/-- Where no lock is an orphan, every name that is locked is that of a playlist. -/
theorem exists_playlist_of_lock {db : Db} (h : Sane db)
    (hdeferred : (catalog fp ch).orphans true db = 0) {r : Row}
    (hr : r ∈ (db "PlaylistLock").rows) :
    ∃ p ∈ (db "Playlist").rows, (p "name").same (r "name") = true := by
  rw [orphans_true, List.countP_eq_zero] at hdeferred
  have hparent := hdeferred r hr
  have hcomplete := (h.tables playlistLockDef (by simp [schemaTables])).complete r hr
  have hname : r "name" ≠ .null := by
    simpa [TableDef.lacksValue, playlistLockDef] using hcomplete
  unfold Catalog.isOrphan at hparent
  simpa [hname] using hparent

section Run

variable {ι κ : Type} [DecidableEq ι] [DecidableEq κ]

/-- The threads of the program, and of other processes that use its database,
like `acmd`. Each store is on a connection `κ`, which may be a shared one. -/
abbrev Program (ι κ : Type) := Users ι κ StoreCall Message (Code × Message)

/-- A step of theirs. A process that starts forgets the locks. -/
def Program.Step (fp : FloatOps) (ch : Chance) :
    Program ι κ → Users.Act ι κ StoreCall → Program ι κ → Prop :=
  Users.Step (catalog fp ch) StoreCall.program deleteLocks

theorem sound_of_run {trace : List (Program ι κ × Users.Act ι κ StoreCall)} {s : Program ι κ}
    (hrun : Transitions.Run (Program.Step fp ch) (Users.start emptyDb) trace s) :
    s.Sound (catalog fp ch) OfStore Sane :=
  (Users.sound_start sane_emptyDb rfl).run (invariant_sane fp ch) StoreCall.steps
    (fun _ => Sane.withoutLocks) hrun

/-- The state after an action of a thread. -/
def Program.next (fp : FloatOps) (ch : Chance) :
    Program ι κ → Users.Act ι κ StoreCall → Option (Program ι κ) :=
  Users.next (catalog fp ch) StoreCall.program deleteLocks

theorem Program.run_of_next {as : List (Users.Act ι κ StoreCall)} {s s' : Program ι κ}
    (h : as.foldlM (Program.next fp ch) s = some s') :
    ∃ trace, Transitions.Run (Program.Step fp ch) s trace s' ∧ trace.map Prod.snd = as :=
  Users.run_of_next h

/-- **Every database that the program reaches is consistent**, and so is what
any connection sees of it. On the disk every name that is locked is that of a
playlist.

The run is any: threads may share connections and meet each other's
transactions, stores may be refused, and processes may end in the middle of
one. -/
theorem reached_consistent (fp : FloatOps) (ch : Chance)
    {trace : List (Program ι κ × Users.Act ι κ StoreCall)} {s : Program ι κ}
    (hrun : Transitions.Run (Program.Step fp ch) (Users.start emptyDb) trace s) :
    Consistent s.file.db ∧ (∀ k, Consistent (s.file.conn k).db)
      ∧ ∀ r ∈ (s.file.db "PlaylistLock").rows,
        ∃ p ∈ (s.file.db "Playlist").rows, (p "name").same (r "name") = true := by
  have hsound := (sound_of_run hrun).file
  exact ⟨hsound.disk.consistent, fun k => (hsound.conn k).seen.consistent,
    fun r hr => exists_playlist_of_lock hsound.disk hsound.deferred hr⟩

end Run

/-- A playlist is stored. -/
def eveningStore : StoreCall where
  message := .playlist { name := some (ascii "evening"), weight := some 1 }
  cmd := .insert
  fits := ⟨nofun, fun _ hn => Option.some.inj hn ▸ ⟨by decide, by decide⟩, nofun, nofun, nofun⟩
  lock := nofun

/-- Its name is locked. -/
def eveningLock : StoreCall where
  message := .lock { name := some (ascii "evening") }
  cmd := .insert
  fits := trivial
  lock := nofun

/-- A track is stored. -/
def trackStore : StoreCall where
  message := .item { filename := some (ascii "a.ogg") }
  cmd := .insert
  fits := ⟨nofun, nofun, nofun, nofun⟩
  lock := nofun

/-- One thread stores the playlist and locks its name, while another one begins to store
a track. -/
def eveningActs : List (Users.Act Bool Bool StoreCall) :=
  [.enter true true eveningStore, .call true false, .enter false false trackStore,
    .call true false, .call false false, .call true false, .call true false, .call true false,
    .leave true, .enter true true eveningLock, .call true false, .call true false,
    .call false false, .call true false, .call true false, .leave true]

/-- The other one goes on. -/
def trackActs : List (Users.Act Bool Bool StoreCall) :=
  [.call false false, .call false false, .call false false, .leave false]

/-- A database with a lock that two threads reach: it is consistent, and the
name that is locked is that of a playlist. -/
theorem reached_consistent_evening :
    ∃ trace, ∃ s : Program Bool Bool,
      Transitions.Run (Program.Step .whole .stored) (Users.start emptyDb) trace s
        ∧ (s.file.db "PlaylistLock").rows.length = 1 ∧ Consistent s.file.db
        ∧ (∀ k, Consistent (s.file.conn k).db)
        ∧ ∀ r ∈ (s.file.db "PlaylistLock").rows,
          ∃ p ∈ (s.file.db "Playlist").rows, (p "name").same (r "name") = true := by
  have hlock : (eveningActs.foldlM (Program.next .whole .stored) (Users.start emptyDb)).map
      (fun s => (s.file.db "PlaylistLock").rows.length) = some 1 := by decide +kernel
  obtain ⟨s, hs, hrows⟩ := Option.map_eq_some_iff.mp hlock
  obtain ⟨trace, hrun, -⟩ := Program.run_of_next hs
  exact ⟨trace, s, hrun, hrows, reached_consistent .whole .stored hrun⟩

section Run

variable {ι κ : Type} [DecidableEq ι] [DecidableEq κ]

/-- **A name that is locked stays that of a playlist** until the automation
starts again. The key of the locks is deferred, so this is decided at the
commits: one that would leave a lock without its playlist is refused. -/
theorem locked_of_run (fp : FloatOps) (ch : Chance)
    {trace trace' : List (Program ι κ × Users.Act ι κ StoreCall)} {s s' : Program ι κ}
    (hrun : Transitions.Run (Program.Step fp ch) (Users.start emptyDb) trace s)
    {r : Row} (hr : r ∈ (s.file.db "PlaylistLock").rows)
    (hrun' : Transitions.Run (Program.Step fp ch) s trace' s')
    (hno : ∀ x ∈ trace', x.2 ≠ .boot) :
    ∃ p ∈ (s'.file.db "Playlist").rows, (p "name").same (r "name") = true := by
  have hahead := ((Users.sound_start sane_emptyDb rfl).extends_run (invariant_sane fp ch)
    (extends_locksKept fp ch) StoreCall.steps (fun _ => Sane.withoutLocks) nofun hrun).1
  have hkept := ((sound_of_run hrun).extends_run (invariant_sane fp ch) (extends_locksKept fp ch)
    StoreCall.steps (fun _ => Sane.withoutLocks) hahead hrun').2 hno
  have hsound := ((sound_of_run hrun).run (invariant_sane fp ch) StoreCall.steps
    (fun _ => Sane.withoutLocks) hrun').file
  obtain ⟨r', hr', hsame⟩ := hkept r hr
  obtain ⟨p, hp, hname⟩ := exists_playlist_of_lock hsound.disk hsound.deferred hr'
  refine ⟨p, hp, ?_⟩
  rcases hsame with heq | hsame
  · rwa [← heq]
  · exact Value.same_trans hname hsame

end Run

/-- The name is still that of a playlist once the track is stored. -/
theorem locked_of_run_evening :
    ∃ trace trace', ∃ s s' : Program Bool Bool,
      Transitions.Run (Program.Step .whole .stored) (Users.start emptyDb) trace s
        ∧ Transitions.Run (Program.Step .whole .stored) s trace' s'
        ∧ (s'.file.db "PlayableItem").rows.length = 1
        ∧ ∃ r ∈ (s.file.db "PlaylistLock").rows,
          ∃ p ∈ (s'.file.db "Playlist").rows, (p "name").same (r "name") = true := by
  have hlock : (eveningActs.foldlM (Program.next .whole .stored) (Users.start emptyDb)).map
      (fun s => (s.file.db "PlaylistLock").rows.length) = some 1 := by decide +kernel
  have hwhole : ((eveningActs ++ trackActs).foldlM (Program.next .whole .stored)
      (Users.start emptyDb)).map (fun s => (s.file.db "PlayableItem").rows.length) = some 1 := by
    decide +kernel
  obtain ⟨s', hs', hitems⟩ := Option.map_eq_some_iff.mp hwhole
  rw [List.foldlM_append] at hs'
  obtain ⟨s, hs, hrest⟩ := Option.bind_eq_some_iff.mp hs'
  rw [hs] at hlock
  obtain ⟨r, hr⟩ := List.exists_mem_of_length_pos
    (Nat.lt_of_lt_of_eq Nat.zero_lt_one (Option.some.inj hlock).symm)
  obtain ⟨trace, hrun, -⟩ := Program.run_of_next hs
  obtain ⟨trace', hrun', hacts⟩ := Program.run_of_next hrest
  refine ⟨trace, trace', s, s', hrun, hrun', hitems, r, hr,
    locked_of_run .whole .stored hrun hr hrun' fun x hx hboot => ?_⟩
  have hmem : x.2 ∈ trackActs := hacts ▸ List.mem_map_of_mem hx
  rw [hboot] at hmem
  simp [trackActs] at hmem
