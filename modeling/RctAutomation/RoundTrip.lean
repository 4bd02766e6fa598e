import RctAutomation.StoreAtomic
import RctAutomation.StoredPlaylists

/-!
# Whether a stored message is read back

A field is written by `BindFromFields`, converted by the column it is stored
in, and read by `ProtoFromRows`. The three agree on a field exactly when it is
`FieldKept`: integers are read as an `int`, and a text in a numeric column
must not be another way of writing a number. `roundTrip_iff` puts this
together for the rows that are stored, fetched by ID and fetched by their
unique text.
-/

open Sql

/-! ## One field -/

/-- The value of a column, read into a field. Integers are read as an `int`,
whether the field has 32 bits or 64. -/
def readField (fp : FloatOps) (fd : FieldDescriptor) (v : Value) : FieldValue :=
  match fd.type with
  | .int32 | .int64 => .int v.toColumnInt
  | .string | .bytes => .str (v.toText fp)
  | _ => .unset

theorem readField_int {fp : FloatOps} {fd : FieldDescriptor} (v : Value)
    (h : fd.type = .int32 ∨ fd.type = .int64) : readField fp fd v = .int v.toColumnInt := by
  unfold readField
  rcases h with h | h <;> rw [h]

theorem readField_str {fp : FloatOps} {fd : FieldDescriptor} (v : Value)
    (h : fd.type = .string ∨ fd.type = .bytes) : readField fp fd v = .str (v.toText fp) := by
  unfold readField
  rcases h with h | h <;> rw [h]

/-- **A text survives a numeric column**: it is no number, or it is written
the way the number is printed. The file name `007` does not, as it comes back
as `7`. -/
def TextKept (fp : FloatOps) (b : Bytes) : Prop :=
  match intLiteral? b with
  | some n => if fitsInt64 n then b = decimal n else (fp.ofLiteral b).toValue.toText fp = b
  | none => isRealLiteral b = true → (fp.ofLiteral b).toValue.toText fp = b

theorem toText_numeric_iff (fp : FloatOps) (b : Bytes) :
    (Affinity.numeric.apply fp (.text b)).toText fp = b ↔ TextKept fp b := by
  show (numericOfText fp b).toText fp = b ↔ _
  unfold numericOfText TextKept
  cases intLiteral? b with
  | some n =>
    dsimp only
    split
    · exact eq_comm
    · rfl
  | none =>
    dsimp only
    split
    · rename_i h
      exact ⟨fun hb _ => hb, fun hb => hb h⟩
    · rename_i h
      exact ⟨fun _ hr => absurd hr h, fun _ => rfl⟩

instance (fp : FloatOps) (b : Bytes) : Decidable (TextKept fp b) :=
  decidable_of_iff _ (toText_numeric_iff fp b)

/-- **A field that is stored and read back unchanged**: a number that is an
`int`, and a text that survives its column. What lies in between is one
conversion when it is stored and one when it is read. -/
def FieldKept (fp : FloatOps) (t : TableDef) (c : String) : FieldValue → Prop
  | .int n => FitsInt32 n
  | .str b => t.affinity c = .numeric → TextKept fp b
  | _ => True

instance (fp : FloatOps) (t : TableDef) (c : String) :
    (v : FieldValue) → Decidable (FieldKept fp t c v)
  | .int n => inferInstanceAs (Decidable (FitsInt32 n))
  | .str b => inferInstanceAs (Decidable (t.affinity c = .numeric → TextKept fp b))
  | .unset | .ints _ | .messages _ => inferInstanceAs (Decidable True)

/-- All the populated scalar fields of a message are kept. -/
def Kept (fp : FloatOps) (t : TableDef) (m : Message) : Prop :=
  ∀ c ∈ scalarNames m, FieldKept fp t c (m.val c)

instance (fp : FloatOps) (t : TableDef) (m : Message) : Decidable (Kept fp t m) :=
  inferInstanceAs (Decidable (∀ c ∈ scalarNames m, FieldKept fp t c (m.val c)))

/-! ## Types with a key and a unique text -/

/-- A stored type with the columns its rows are looked up by, and the
messages they are looked up with. -/
structure RowType where
  table : TableDef
  desc : Descriptor
  key : String
  unique : String
  empty : Message
  withText : Bytes → Message

/-- Playlists are looked up by ID and by name. -/
def playlistType : RowType where
  table := playlistDef
  desc := playlistDesc
  key := "PlaylistID"
  unique := "name"
  empty := Playlist.toMessage {}
  withText b := Playlist.toMessage { name := some b }

/-- Items are looked up by ID and by the name of their file. -/
def playableItemType : RowType where
  table := playableItemDef
  desc := playableItemDesc
  key := "PlayableItemID"
  unique := "filename"
  empty := PlayableItem.toMessage {}
  withText b := PlayableItem.toMessage { filename := some b }

/-- Stored messages are looked up by ID and by their label. -/
def protoTableType : RowType where
  table := protoTableDef
  desc := protoTableDesc
  key := "ProtoStoreID"
  unique := "label"
  empty := ProtoTable.toMessage {}
  withText b := ProtoTable.toMessage { label := some b }

/-- The types whose rows can be looked up. Locks are written and never read. -/
def rowTypes : List RowType := [playlistType, playableItemType, protoTableType]

/-- The type of a message that is looked up by ID and text. Locks have no key
of their own. -/
def StoredMessage.rowType? : StoredMessage → Option RowType
  | playlist _ => some playlistType
  | item _ => some playableItemType
  | lock _ => none
  | proto _ => some protoTableType

/-- The column shows a scalar field, and converts values as the field's type
needs it: an integer column for a number, a numeric one for a string, and one
without a conversion for bytes. -/
def showsField (d : Descriptor) (col : Column) : Bool :=
  match d.findFieldByName col.name with
  | some fd => !fd.repeated &&
    match fd.type with
    | .int32 | .int64 => col.affinity == .integer
    | .string => col.affinity == .numeric
    | .bytes => col.affinity == .blob
    | _ => false
  | none => false

section RowTypes

variable {T : RowType} (hT : T ∈ rowTypes)

include hT

theorem RowType.showsField : ∀ col ∈ T.table.columns, showsField T.desc col = true := by
  simp only [rowTypes, List.mem_cons, List.not_mem_nil, or_false] at hT
  rcases hT with rfl | rfl | rfl <;> decide

theorem RowType.nodup : (T.table.columns.map Column.name).Nodup := by
  simp only [rowTypes, List.mem_cons, List.not_mem_nil, or_false] at hT
  rcases hT with rfl | rfl | rfl <;> decide

theorem RowType.table_key : T.table.key = some T.key := by
  simp only [rowTypes, List.mem_cons, List.not_mem_nil, or_false] at hT
  rcases hT with rfl | rfl | rfl <;> rfl

theorem RowType.table_uniques : T.table.uniques = [[T.unique]] := by
  simp only [rowTypes, List.mem_cons, List.not_mem_nil, or_false] at hT
  rcases hT with rfl | rfl | rfl <;> rfl

theorem RowType.table? (fp : FloatOps) (ch : Chance) :
    (catalog fp ch).table? T.desc.name = some T.table := by
  simp only [rowTypes, List.mem_cons, List.not_mem_nil, or_false] at hT
  rcases hT with rfl | rfl | rfl <;> rfl

/-- The rows a fetch by ID selects. -/
theorem RowType.loadById_eq (fp : FloatOps) (ch : Chance) (db : Db) (n : ℤ) :
    MessageStore.loadById (catalog fp ch) T.desc T.desc.name db T.empty n
      = protoFromRows fp T.desc (((db T.desc.name).rows.filter
          (fun r => (r T.key).same (.integer n))).map
        (fun r => T.table.columns.map (fun col => (col.name, r col.name)))) T.empty := by
  simp only [rowTypes, List.mem_cons, List.not_mem_nil, or_false] at hT
  rcases hT with rfl | rfl | rfl <;> rfl

/-- The rows a fetch by the unique text selects: the text is converted as the
column converts it. -/
theorem RowType.load_eq (fp : FloatOps) (ch : Chance) (db : Db) (b : Bytes) :
    MessageStore.load (catalog fp ch) T.desc T.desc.name db (T.withText b)
      = protoFromRows fp T.desc (((db T.desc.name).rows.filter
          (fun r => (r T.unique).same (Affinity.numeric.apply fp (.text b)))).map
        (fun r => T.table.columns.map (fun col => (col.name, r col.name)))) (T.withText b) := by
  simp only [rowTypes, List.mem_cons, List.not_mem_nil, or_false] at hT
  rcases hT with rfl | rfl | rfl <;> rfl

end RowTypes

/-! ## Reading a row -/

variable {fp : FloatOps} {ch : Chance}

/-- A column of a row is read into its field and no other. The type of the
field has to be one that the column shows. -/
theorem setColumn_of_showsField (fp : FloatOps) {d : Descriptor} {col : Column}
    (h : showsField d col = true)
    (m : Message) (v : Value) :
    ∃ fd, d.findFieldByName col.name = some fd ∧ fd.name = col.name
      ∧ setColumn fp d m (col.name, v) = some (m.set fd (readField fp fd v)) := by
  unfold showsField at h
  cases hfd : d.findFieldByName col.name with
  | none =>
    rw [hfd] at h
    cases h
  | some fd =>
    rw [hfd] at h
    obtain ⟨hrep, hty⟩ := Bool.and_eq_true_iff.mp h
    have hname : fd.name = col.name := by
      have := List.find?_some hfd
      simpa using this
    have hrep' : fd.repeated = false := by simpa using hrep
    refine ⟨fd, rfl, hname, ?_⟩
    unfold setColumn readField
    dsimp only
    rw [hfd]
    dsimp only
    cases hft : fd.type with
    | int64 => simp [hrep']
    | int32 | string | bytes => rfl
    | enum | message =>
      rw [hft] at hty
      cases hty

/-- **A row is read column by column**: each field has the reading of its
column, and fields without a column keep what the message had. The columns
have names of their own, so none is read over another. -/
theorem foldlM_setColumn (fp : FloatOps) {d : Descriptor} (r : Row) (cols : List Column)
    (hnd : (cols.map Column.name).Nodup) (hshow : ∀ col ∈ cols, showsField d col = true)
    (lookup : Message) :
    ∃ m', (cols.map (fun col => (col.name, r col.name))).foldlM (setColumn fp d) lookup = some m'
      ∧ (∀ c, c ∉ cols.map Column.name → m'.val c = lookup.val c)
      ∧ ∀ col ∈ cols, ∃ fd, d.findFieldByName col.name = some fd
        ∧ m'.val col.name = readField fp fd (r col.name) := by
  induction cols generalizing lookup with
  | nil => exact ⟨lookup, rfl, fun _ _ => rfl, fun col hcol => absurd hcol List.not_mem_nil⟩
  | cons col cols ih =>
    obtain ⟨fd, hfd, hname, hset⟩ :=
      setColumn_of_showsField fp (hshow col (List.mem_cons_self ..)) lookup (r col.name)
    rw [List.map_cons, List.nodup_cons] at hnd
    obtain ⟨m', hm', hother, hcols⟩ := ih hnd.2
      (fun c hc => hshow c (List.mem_cons_of_mem _ hc))
      (lookup.set fd (readField fp fd (r col.name)))
    refine ⟨m', ?_, fun c hc => ?_, fun c hc => ?_⟩
    · rw [List.map_cons, List.foldlM_cons, hset]
      exact hm'
    · rw [List.map_cons, List.mem_cons, not_or] at hc
      rw [hother c hc.2, Message.val_set_of_ne _ _ _ (by rw [hname]; exact hc.1)]
    · rcases List.mem_cons.mp hc with rfl | hc
      · refine ⟨fd, hfd, ?_⟩
        rw [hother c.name hnd.1, ← hname, Message.val_set_self, hname]
      · exact hcols c hc

/-- A field of a typed message holds a value of the field's type: an integer
where the type is one of integers, and bytes where it is text or bytes. -/
theorem Message.Typed.val_eq {m : Message} (ht : m.Typed) {fd : FieldDescriptor}
    (hfd : fd ∈ m.desc.fields) (hrep : fd.repeated = false)
    (hp : (m.val fd.name).populated = true) :
    ((fd.type = .int32 ∨ fd.type = .int64) → ∃ n, m.val fd.name = .int n)
      ∧ ((fd.type = .string ∨ fd.type = .bytes) → ∃ b, m.val fd.name = .str b) := by
  have henc := ht.scalar fd hfd hrep
  constructor
  · intro hty
    have := henc (.integer ((m.val fd.name).int?.getD 0)) hp (by
      unfold encodeField
      rcases hty with h | h <;> rw [h])
    cases hval : m.val fd.name with
    | int n => exact ⟨n, rfl⟩
    | _ =>
      rw [hval] at this
      cases this
  · intro hty
    have := henc (.text ((m.val fd.name).str?.getD [])) hp (by
      unfold encodeField
      rcases hty with h | h <;> rw [h])
    cases hval : m.val fd.name with
    | str b => exact ⟨b, rfl⟩
    | _ =>
      rw [hval] at this
      cases this

/-- An integer that an integer column stores is read back if it is an `int`. -/
theorem readField_integer_iff {fp : FloatOps} {fd : FieldDescriptor} (n : ℤ)
    (h : fd.type = .int32 ∨ fd.type = .int64) :
    readField fp fd (Affinity.integer.apply fp (.integer n)) = .int n ↔ FitsInt32 n := by
  rw [readField_int _ h]
  show FieldValue.int (toInt32 n) = .int n ↔ FitsInt32 n
  rw [← toInt32_eq_self_iff]
  exact ⟨FieldValue.int.inj, congrArg _⟩

/-- A text that a numeric column stores is read back if it survives it. -/
theorem readField_numeric_iff {fp : FloatOps} {fd : FieldDescriptor} (b : Bytes)
    (h : fd.type = .string) :
    readField fp fd (Affinity.numeric.apply fp (.text b)) = .str b ↔ TextKept fp b := by
  rw [readField_str _ (Or.inl h), ← toText_numeric_iff]
  exact ⟨FieldValue.str.inj, congrArg _⟩

/-- **One field round-trips exactly when it is kept.** This is where writing,
conversion and reading meet; everything else is about which row is read. An
integer is read back through an `int`, and a text through the affinity of its
column. -/
theorem readField_rowOf_iff {t : TableDef} {m : Message} (ht : m.Typed) {col : Column}
    (hcol : t.column? col.name = some col) (hshow : showsField m.desc col = true)
    {fd : FieldDescriptor} (hfd : m.desc.findFieldByName col.name = some fd)
    (hp : (m.val col.name).populated = true) :
    readField fp fd (rowOf t fp m col.name) = m.val col.name
      ↔ FieldKept fp t col.name (m.val col.name) := by
  have hrow : rowOf t fp m col.name = col.affinity.apply fp (m.val col.name).toValue := by
    unfold rowOf TableDef.toStore
    rw [hcol]
  have haff : t.affinity col.name = col.affinity := by
    unfold TableDef.affinity
    rw [hcol]
    rfl
  unfold showsField at hshow
  rw [hfd] at hshow
  obtain ⟨hrep, hty⟩ := Bool.and_eq_true_iff.mp hshow
  have hname : fd.name = col.name := by simpa using List.find?_some hfd
  have hmem : fd ∈ m.desc.fields := List.mem_of_find?_eq_some hfd
  obtain ⟨hint, hstr⟩ := ht.val_eq hmem (by simpa using hrep) (by rw [hname]; exact hp)
  rw [hname] at hint hstr
  have hcase : ∀ n : ℤ, m.val col.name = .int n → col.affinity = .integer →
      (fd.type = .int32 ∨ fd.type = .int64) → (readField fp fd (rowOf t fp m col.name)
        = m.val col.name ↔ FieldKept fp t col.name (m.val col.name)) := by
    intro n hn ha hft
    rw [hrow, hn, ha]
    exact readField_integer_iff n hft
  cases hft : fd.type with
  | int32 =>
    rw [hft] at hty
    obtain ⟨n, hn⟩ := hint (Or.inl hft)
    exact hcase n hn (eq_of_beq hty) (Or.inl hft)
  | int64 =>
    rw [hft] at hty
    obtain ⟨n, hn⟩ := hint (Or.inr hft)
    exact hcase n hn (eq_of_beq hty) (Or.inr hft)
  | string =>
    rw [hft] at hty
    obtain ⟨b, hb⟩ := hstr (Or.inl hft)
    have ha : col.affinity = .numeric := eq_of_beq hty
    rw [hrow, hb, ha]
    refine (readField_numeric_iff b hft).trans ?_
    show TextKept fp b ↔ (t.affinity col.name = .numeric → TextKept fp b)
    rw [haff, ha]
    exact ⟨fun h _ => h, fun h => h rfl⟩
  | bytes =>
    rw [hft] at hty
    obtain ⟨b, hb⟩ := hstr (Or.inr hft)
    have ha : col.affinity = .blob := eq_of_beq hty
    rw [hrow, hb, ha, readField_str _ (Or.inr hft)]
    refine iff_of_true rfl (fun hnum => ?_)
    rw [haff, ha] at hnum
    cases hnum
  | enum =>
    rw [hft] at hty
    cases hty
  | message =>
    rw [hft] at hty
    cases hty

/-! ## Fetching a saved row -/

/-- A fetch that returns every populated scalar field of a message. The fetch
may set other fields as well, since it reads all columns. -/
def LoadsBack (m : Message) (fetched : Option (Bool × Message)) : Prop :=
  ∃ m', fetched = some (true, m') ∧ ∀ c ∈ scalarNames m, m'.val c = m.val c

/-- **A message read back from the database**, by the ID of its row and by
its unique text, whatever the queries leave to chance. -/
structure RoundTrips (fp : FloatOps) (T : RowType) (db : Db) (m : Message) (n : ℤ) : Prop where
  byId : ∀ ch, LoadsBack m
    (MessageStore.loadById (catalog fp ch) T.desc T.desc.name db T.empty n)
  byText : ∀ ch b, m.val T.unique = .str b → LoadsBack m
    (MessageStore.load (catalog fp ch) T.desc T.desc.name db (T.withText b))

/-- The ID of the row a message is stored in: its own, or the next one. It is
known before the message is stored. -/
def rowKey (T : RowType) (tab : Table) (m : Message) : ℤ :=
  match m.val T.key with
  | .int n => n
  | _ => TableDef.lastKey T.key tab + 1

/-- The row of a message is stored, with an ID. -/
def StoredAs (fp : FloatOps) (T : RowType) (db : Db) (m : Message) (n : ℤ) : Prop :=
  ∃ r ∈ (db T.desc.name).rows, r T.key = .integer n
    ∧ ∀ c, c ≠ T.key → r c = rowOf T.table fp m c

/-- The rows that a condition selects right after a row was placed: that row
alone, if the condition only selects rows in its way. -/
theorem filter_placed {t : TableDef} {old : List Row} {r : Row} {keep : Row → Bool}
    (hold : ∀ x ∈ old, keep x = true → t.conflicts r x = true) (hr : keep r = true) :
    (old.filter (fun x => !t.conflicts r x) ++ [r]).filter keep = [r] := by
  rw [List.filter_append, List.filter_filter, List.filter_eq_nil_iff.mpr, List.nil_append,
    List.filter_cons_of_pos hr, List.filter_nil]
  intro x hx hboth
  obtain ⟨hk, hno⟩ := Bool.and_eq_true_iff.mp hboth
  rw [hold x hx hk] at hno
  cases hno

/-- **One row is read back exactly when its message is kept**, from whatever
message it is looked up with. What was set in that one does not show, since
each column sets its field, a null one included. -/
theorem loadsBack_iff {T : RowType} (hT : T ∈ rowTypes) {m : Message} (hdesc : m.desc = T.desc)
    (ht : m.Typed) (hcols : ∀ c ∈ scalarNames m, (T.table.column? c).isSome = true) {r : Row}
    (hr : ∀ c ∈ scalarNames m, r c = rowOf T.table fp m c) (lookup : Message) :
    LoadsBack m (protoFromRows fp T.desc
      ([r].map (fun r => T.table.columns.map (fun col => (col.name, r col.name)))) lookup)
      ↔ Kept fp T.table m := by
  obtain ⟨m', hm', -, hval⟩ := foldlM_setColumn fp (d := T.desc) r T.table.columns
    (T.nodup hT) (T.showsField hT) lookup
  have hload : protoFromRows fp T.desc
      ([r].map (fun r => T.table.columns.map (fun col => (col.name, r col.name)))) lookup
      = some (true, m') := by
    show (List.foldlM (setColumn fp T.desc) lookup _).map _ = _
    rw [hm']
    rfl
  have hfield : ∀ c ∈ scalarNames m,
      (m'.val c = m.val c ↔ FieldKept fp T.table c (m.val c)) := by
    intro c hc
    obtain ⟨col, hcol⟩ := Option.isSome_iff_exists.mp (hcols c hc)
    have hname : col.name = c := by simpa using List.find?_some hcol
    subst hname
    have hmem : col ∈ T.table.columns := List.mem_of_find?_eq_some hcol
    obtain ⟨fd, hfd, hv⟩ := hval col hmem
    obtain ⟨-, -, -, -, hp⟩ := Message.mem_scalarNames.mp hc
    rw [hv, hr _ hc]
    exact readField_rowOf_iff ht hcol (by rw [hdesc]; exact T.showsField hT col hmem)
      (by rw [hdesc]; exact hfd) hp
  rw [hload]
  constructor
  · rintro ⟨m'', h, hback⟩
    cases h
    exact fun c hc => (hfield c hc).mp (hback c hc)
  · exact fun h => ⟨m', rfl, fun c hc => (hfield c hc).mpr (h c hc)⟩

/-- The key column of a message's row, before a key is chosen: the ID that is
set, as it is, or null. -/
theorem StoredMessage.rowOf_key (fp : FloatOps) {m : StoredMessage} {T : RowType}
    (hm : m.rowType? = some T) :
    (∃ n, m.toMessage.val T.key = .int n ∧ rowOf T.table fp m.toMessage T.key = .integer n)
      ∨ (m.toMessage.val T.key = .unset ∧ rowOf T.table fp m.toMessage T.key = .null) := by
  have hof : ∀ o : Option ℤ, (∃ n, FieldValue.ofInt o = .int n
      ∧ Affinity.integer.apply fp (FieldValue.ofInt o).toValue = .integer n)
      ∨ (FieldValue.ofInt o = .unset
        ∧ Affinity.integer.apply fp (FieldValue.ofInt o).toValue = .null) := by
    intro o
    cases o with
    | none => exact Or.inr ⟨rfl, rfl⟩
    | some n => exact Or.inl ⟨n, rfl, rfl⟩
  cases m with
  | playlist p =>
    obtain rfl := Option.some.inj hm
    exact hof p.playlistID
  | item i =>
    obtain rfl := Option.some.inj hm
    exact hof i.playableItemID
  | lock l => cases hm
  | proto p =>
    obtain rfl := Option.some.inj hm
    exact hof p.protoStoreID

theorem StoredMessage.mem_rowTypes {m : StoredMessage} {T : RowType}
    (hm : m.rowType? = some T) : T ∈ rowTypes ∧ m.toMessage.desc = T.desc := by
  cases m with
  | playlist p =>
    obtain rfl := Option.some.inj hm
    exact ⟨by simp [rowTypes], rfl⟩
  | item i =>
    obtain rfl := Option.some.inj hm
    exact ⟨by simp [rowTypes], rfl⟩
  | lock l => cases hm
  | proto p =>
    obtain rfl := Option.some.inj hm
    exact ⟨by simp [rowTypes], rfl⟩

/-- **The row a save leaves**, and what it takes the place of: the rows it
conflicts with, by its ID or by its unique text. -/
structure SavedRow (fp : FloatOps) (T : RowType) (old tab : Table) (m : Message) (r : Row) :
    Prop where
  key : r T.key = .integer (rowKey T old m)
  columns : ∀ c, c ≠ T.key → r c = rowOf T.table fp m c
  fields : ∀ c ∈ scalarNames m, r c = rowOf T.table fp m c
  declared : ∀ c ∈ scalarNames m, (T.table.column? c).isSome = true
  rows : tab.rows = old.rows.filter (fun x => !T.table.conflicts r x) ++ [r]

theorem savedRow_of_save {busy : Bool} {m : StoredMessage} {T : RowType}
    (hm : m.rowType? = some T) {cmd : StoreCmd} (hcmd : cmd ≠ .update) {c : Conn}
    {value' : Message} {db' : Db}
    (h : save (catalog fp ch) busy cmd m.toMessage c = .saved value' db') :
    ∃ r, SavedRow fp T (c.db T.desc.name) (db' T.desc.name) m.toMessage r := by
  obtain ⟨hT, hdesc⟩ := StoredMessage.mem_rowTypes hm
  obtain ⟨ps, db₁, id, hps, hex, hvalue, hall⟩ := save_saved h
  have htab : (catalog fp ch).table? m.toMessage.desc.name = some T.table := by
    rw [hdesc]
    exact T.table? hT fp ch
  obtain ⟨r, tab, hk, -, hrows, rfl⟩ :=
    rootStatement_ok hcmd m.typed (StoredMessage.ordered hps) hps htab hex
  have hframe := allRepeatedDb_frame hall
  have hname : value'.desc.name = m.toMessage.desc.name := by
    rw [hvalue]
    unfold messageAfter
    split <;> rfl
  rw [hname, Function.update_self] at hframe
  rw [hdesc] at hk hrows hframe
  change T.table.keyed (c.db T.desc.name) (rowOf T.table fp m.toMessage) = .ok r at hk
  have hother : ∀ c, c ≠ T.key → r c = rowOf T.table fp m.toMessage c := fun c hc =>
    TableDef.keyed_other hk (fun e => hc (Option.some.inj ((T.table_key hT).symm.trans e)).symm)
  rcases StoredMessage.rowOf_key fp hm with ⟨n, hn, hrow⟩ | ⟨hn, hrow⟩
  · rw [TableDef.keyed_of_integer (T.table_key hT) hrow] at hk
    cases hk
    refine ⟨rowOf T.table fp m.toMessage, ?_, fun _ _ => rfl, fun _ _ => rfl,
      (columns_of_rootStatement hps htab).2, by rw [hframe, hrows]⟩
    unfold rowKey
    rw [hn, hrow]
  · refine ⟨r, ?_, hother, fun c hc => hother c ?_, (columns_of_rootStatement hps htab).2,
      by rw [hframe, hrows]⟩
    · unfold TableDef.keyed at hk
      rw [T.table_key hT] at hk
      dsimp only at hk
      rw [hrow] at hk
      dsimp only at hk
      split at hk
      · cases hk
        unfold rowKey
        rw [hn, Function.update_self]
      · cases hk
    · rintro rfl
      obtain ⟨-, -, -, -, hp⟩ := Message.mem_scalarNames.mp hc
      rw [hn] at hp
      cases hp

section Unique

variable {T : RowType} (hT : T ∈ rowTypes)

include hT

theorem RowType.unique_ne_key : T.unique ≠ T.key := by
  simp only [rowTypes, List.mem_cons, List.not_mem_nil, or_false] at hT
  rcases hT with rfl | rfl | rfl <;> decide

/-- The unique text of a type is stored in a numeric column. -/
theorem RowType.unique_column :
    ∃ col, T.table.column? T.unique = some col ∧ col.affinity = .numeric := by
  simp only [rowTypes, List.mem_cons, List.not_mem_nil, or_false] at hT
  rcases hT with rfl | rfl | rfl <;> exact ⟨_, rfl, by decide⟩

/-- Two rows of a type conflict by their keys or by their unique texts. -/
theorem RowType.conflicts_eq (a b : Row) :
    T.table.conflicts a b
      = ((a T.key).same (b T.key) || (a T.unique).same (b T.unique)) := by
  simp [TableDef.conflicts, TableDef.indexes, TableDef.agreeOn, T.table_key hT,
    T.table_uniques hT]

theorem RowType.rowOf_unique {m : Message} {b : Bytes} (hb : m.val T.unique = .str b) :
    rowOf T.table fp m T.unique = Affinity.numeric.apply fp (.text b) := by
  obtain ⟨col, hcol, ha⟩ := T.unique_column hT
  unfold rowOf TableDef.toStore
  rw [hcol]
  dsimp only
  rw [ha, hb]
  rfl

end Unique

theorem playableItem_conflicts (a b : Row) :
    playableItemDef.conflicts a b
      = ((a "PlayableItemID").same (b "PlayableItemID") || (a "filename").same (b "filename")) :=
  RowType.conflicts_eq (T := playableItemType) (List.mem_cons_of_mem _ (List.mem_cons_self ..)) a b

/-- **A saved row round-trips exactly when its message is kept.** In a valid
table it is the only row with its ID and the only one with its text, so a
lookup finds it. -/
theorem SavedRow.roundTrips_iff {m : StoredMessage} {T : RowType} (hm : m.rowType? = some T)
    {old : Table} (hv : T.table.Valid old) {db : Db} {r : Row}
    (h : SavedRow fp T old (db T.desc.name) m.toMessage r) :
    RoundTrips fp T db m.toMessage (rowKey T old m.toMessage) ↔ Kept fp T.table m.toMessage := by
  obtain ⟨hT, hdesc⟩ := StoredMessage.mem_rowTypes hm
  have hread := fun lookup => loadsBack_iff hT hdesc m.typed h.declared h.fields lookup
  have hid : ∀ ch, LoadsBack m.toMessage (MessageStore.loadById (catalog fp ch) T.desc
      T.desc.name db T.empty (rowKey T old m.toMessage)) ↔ Kept fp T.table m.toMessage := by
    intro ch
    rw [T.loadById_eq hT, h.rows, filter_placed]
    · exact hread _
    · intro x hx hsame
      obtain ⟨k, hk⟩ := hv.keys T.key (T.table_key hT) x hx
      rw [hk] at hsame
      refine TableDef.conflicts_of_key (T.table_key hT) h.key ?_
      rw [hk, eq_of_beq hsame]
    · rw [h.key]
      exact beq_self_eq_true _
  refine ⟨fun hrt => (hid .stored).mp (hrt.byId .stored),
    fun hkept => ⟨fun ch => (hid ch).mpr hkept, ?_⟩⟩
  intro ch b hb
  have hr : r T.unique = Affinity.numeric.apply fp (.text b) :=
    (h.columns _ (T.unique_ne_key hT)).trans (T.rowOf_unique hT hb)
  rw [T.load_eq hT, h.rows, filter_placed]
  · exact (hread _).mpr hkept
  · intro x hx hsame
    refine TableDef.conflicts_of_unique (u := T.unique) ?_ ?_
    · rw [T.table_uniques hT]
      exact List.mem_singleton_self _
    · rw [hr, Value.same_comm]
      exact hsame
  · rw [hr]
    exact Value.same_self (numericOfText_ne_null fp b)

/-- A saved row is stored. -/
theorem SavedRow.storedAs {T : RowType} {old : Table} {db : Db} {m : Message} {r : Row}
    (h : SavedRow fp T old (db T.desc.name) m r) : StoredAs fp T db m (rowKey T old m) :=
  ⟨r, by rw [h.rows]; exact List.mem_append_right _ (List.mem_singleton_self r), h.key, h.columns⟩

/-- The texts are writings of one number, as a numeric column compares them.
Two different texts can be that, like `1` and `01`. -/
def SameNumber (fp : FloatOps) (b₁ b₂ : Bytes) : Bool :=
  (Affinity.numeric.apply fp (.text b₁)).same (Affinity.numeric.apply fp (.text b₂))

/-- **Another row stays** when a row with another ID is saved, unless their
texts are one number. Then the new row takes its place, and it is deleted
without a word. -/
theorem SavedRow.storedAs_iff {m₁ m₂ : StoredMessage} {T : RowType}
    (hm₂ : m₂.rowType? = some T) {db db' : Db} {r : Row} {n₁ : ℤ}
    (h : SavedRow fp T (db T.desc.name) (db' T.desc.name) m₂.toMessage r)
    (hst : StoredAs fp T db m₁.toMessage n₁)
    (hn : n₁ ≠ rowKey T (db T.desc.name) m₂.toMessage) {b₁ b₂ : Bytes}
    (hb₁ : m₁.toMessage.val T.unique = .str b₁) (hb₂ : m₂.toMessage.val T.unique = .str b₂) :
    StoredAs fp T db' m₁.toMessage n₁ ↔ SameNumber fp b₁ b₂ = false := by
  obtain ⟨hT, -⟩ := StoredMessage.mem_rowTypes hm₂
  have hconf : ∀ x : Row, x T.key = .integer n₁ →
      (∀ c, c ≠ T.key → x c = rowOf T.table fp m₁.toMessage c) →
        T.table.conflicts r x = SameNumber fp b₁ b₂ := by
    intro x hx hcols
    have hkey : (r T.key).same (x T.key) = false := by
      rw [h.key, hx]
      exact beq_eq_false_iff_ne.mpr hn.symm
    rw [T.conflicts_eq hT, hkey, Bool.false_or, h.columns _ (T.unique_ne_key hT),
      hcols _ (T.unique_ne_key hT), T.rowOf_unique hT hb₁, T.rowOf_unique hT hb₂, Value.same_comm]
    rfl
  constructor
  · rintro ⟨x, hx, hxk, hcols⟩
    rw [h.rows] at hx
    rcases List.mem_append.mp hx with hx | hx
    · rw [← hconf x hxk hcols]
      simpa using (List.mem_filter.mp hx).2
    · rw [List.mem_singleton.mp hx, h.key] at hxk
      exact absurd (Value.integer.inj hxk).symm hn
  · intro hne
    obtain ⟨x, hx, hxk, hcols⟩ := hst
    refine ⟨x, ?_, hxk, hcols⟩
    rw [h.rows]
    refine List.mem_append_left _ (List.mem_filter.mpr ⟨hx, ?_⟩)
    rw [hconf x hxk hcols, hne]
    rfl

/-- **When stored fields round-trip.** Two saves are read back, and leave
each other alone, exactly when every integer is an `int`, every text in a
numeric column is written as it is printed, and the unique texts are not one
number.

The saves need not follow each other at once. Between them anything may be
stored, as long as the row of the first is still there before the second. -/
theorem roundTrip_iff (fp : FloatOps) (ch₁ ch₂ : Chance) (busy₁ busy₂ : Bool) (T : RowType)
    (m₁ m₂ : StoredMessage) (hm₁ : m₁.rowType? = some T) (hm₂ : m₂.rowType? = some T)
    (cmd₁ cmd₂ : StoreCmd) (hcmd₁ : cmd₁ ≠ .update) (hcmd₂ : cmd₂ ≠ .update) (c₁ c₂ : Conn)
    (hs₁ : c₁.saved = none) (hs₂ : c₂.saved = none) (hv₁ : T.table.Valid (c₁.db T.desc.name))
    (hv₂ : T.table.Valid (c₂.db T.desc.name))
    (hst : StoredAs fp T c₂.db m₁.toMessage (rowKey T (c₁.db T.desc.name) m₁.toMessage))
    {res₁ res₂ : Code × Message}
    (hok₁ : (m₁.store (catalog fp ch₁) busy₁ cmd₁ c₁).outcome = .returned res₁)
    (hok₂ : (m₂.store (catalog fp ch₂) busy₂ cmd₂ c₂).outcome = .returned res₂) :
    (RoundTrips fp T (m₁.store (catalog fp ch₁) busy₁ cmd₁ c₁).conn.db m₁.toMessage
        (rowKey T (c₁.db T.desc.name) m₁.toMessage)
      ∧ RoundTrips fp T (m₂.store (catalog fp ch₂) busy₂ cmd₂ c₂).conn.db m₂.toMessage
        (rowKey T (c₂.db T.desc.name) m₂.toMessage)
      ∧ ∀ b₁ b₂, m₁.toMessage.val T.unique = .str b₁ → m₂.toMessage.val T.unique = .str b₂ →
        b₁ ≠ b₂ → rowKey T (c₁.db T.desc.name) m₁.toMessage
          ≠ rowKey T (c₂.db T.desc.name) m₂.toMessage →
        StoredAs fp T (m₂.store (catalog fp ch₂) busy₂ cmd₂ c₂).conn.db m₁.toMessage
          (rowKey T (c₁.db T.desc.name) m₁.toMessage))
      ↔ Kept fp T.table m₁.toMessage ∧ Kept fp T.table m₂.toMessage
        ∧ ∀ b₁ b₂, m₁.toMessage.val T.unique = .str b₁ → m₂.toMessage.val T.unique = .str b₂ →
          b₁ ≠ b₂ → rowKey T (c₁.db T.desc.name) m₁.toMessage
            ≠ rowKey T (c₂.db T.desc.name) m₂.toMessage → SameNumber fp b₁ b₂ = false := by
  obtain ⟨v₁, db₁, hsave₁, -, hdb₁, -⟩ := saved_of_returned hs₁ hok₁
  obtain ⟨v₂, db₂, hsave₂, -, hdb₂, -⟩ := saved_of_returned hs₂ hok₂
  obtain ⟨r₁, hr₁⟩ := savedRow_of_save hm₁ hcmd₁ hsave₁
  obtain ⟨r₂, hr₂⟩ := savedRow_of_save hm₂ hcmd₂ hsave₂
  have hend₁ : (m₁.store (catalog fp ch₁) busy₁ cmd₁ c₁).conn.db = db₁ := hdb₁
  have hend₂ : (m₂.store (catalog fp ch₂) busy₂ cmd₂ c₂).conn.db = db₂ := hdb₂
  rw [hend₁, hend₂, hr₁.roundTrips_iff hm₁ hv₁, hr₂.roundTrips_iff hm₂ hv₂]
  refine and_congr_right (fun _ => and_congr_right (fun _ => ?_))
  refine forall_congr' (fun b₁ => forall_congr' (fun b₂ => forall_congr' (fun hb₁ =>
    forall_congr' (fun hb₂ => imp_congr_right (fun _ => imp_congr_right (fun hn => ?_))))))
  exact hr₂.storedAs_iff hm₂ hst hn hb₁ hb₂

/-- A database with one song. -/
def songDb : Db := databaseOf [.item { filename := some (ascii "a.ogg") }]

/-- Two songs whose file names are no numbers come back, each as it was
saved. -/
theorem roundTrip_songs :
    RoundTrips .whole playableItemType
        ((StoredMessage.item { filename := some (ascii "b.ogg"), duration := some 180 }).store
          (catalog .whole .stored) false .replace ⟨songDb, none, 1⟩).conn.db
        (StoredMessage.item
          { filename := some (ascii "b.ogg"), duration := some 180 }).toMessage 2 := by
  have hsong : ((StoredMessage.item { filename := some (ascii "a.ogg") }).store
      (catalog .whole .stored) false .insert ⟨emptyDb, none, 0⟩).outcome
      = .returned (.ok, _) := rfl
  obtain ⟨v₁, db₁, hsave₁, -, hdb₁, -⟩ := saved_of_returned rfl hsong
  obtain ⟨r₁, hr₁⟩ := savedRow_of_save rfl (by decide) hsave₁
  rw [← hdb₁] at hr₁
  have hc : Consistent songDb := consistent_of_isConsistent (by decide +kernel)
  exact ((roundTrip_iff .whole .stored .stored false false playableItemType
    (.item { filename := some (ascii "a.ogg") })
    (.item { filename := some (ascii "b.ogg"), duration := some 180 }) rfl rfl .insert .replace
    (by decide) (by decide) ⟨emptyDb, none, 0⟩ ⟨songDb, none, 1⟩ rfl rfl
    consistent_emptyDb.playableItems hc.playableItems hr₁.storedAs rfl rfl).mpr
      ⟨by decide, by decide, fun b₁ b₂ h₁ h₂ _ _ => by cases h₁; cases h₂; decide⟩).2.1

/-- **Fields that do not round-trip**: a name that is a number written another
way, and a duration that is no `int`. The name even takes the row of the same
number away. -/
theorem roundTrip_numbers :
    ((∃ res, ((StoredMessage.item
          { filename := some (ascii "007"), duration := some 4294967296 }).store
          (catalog .whole .stored) false .insert ⟨emptyDb, none, 0⟩).outcome = .returned res)
      ∧ ¬RoundTrips .whole playableItemType ((StoredMessage.item
          { filename := some (ascii "007"), duration := some 4294967296 }).store
          (catalog .whole .stored) false .insert ⟨emptyDb, none, 0⟩).conn.db (StoredMessage.item
          { filename := some (ascii "007"), duration := some 4294967296 }).toMessage 1)
    ∧ ((∃ res, ((StoredMessage.item { filename := some (ascii "007") }).store
          (catalog .whole .stored) false .replace
          ⟨databaseOf [.item { filename := some (ascii "7") }], none, 1⟩).outcome = .returned res)
      ∧ ¬StoredAs .whole playableItemType
        ((StoredMessage.item { filename := some (ascii "007") }).store
          (catalog .whole .stored) false .replace
          ⟨databaseOf [.item { filename := some (ascii "7") }], none, 1⟩).conn.db
        (StoredMessage.item { filename := some (ascii "7") }).toMessage 1) := by
  refine ⟨⟨⟨_, rfl⟩, fun h => ?_⟩, ⟨⟨_, rfl⟩, ?_⟩⟩
  · obtain ⟨m', hm', hback⟩ := h.byId .stored
    cases hm'
    exact absurd (hback "duration" (by decide)) (by decide +kernel)
  · rintro ⟨r, hr, hkey, -⟩
    have hno : ∀ r ∈ ((((StoredMessage.item { filename := some (ascii "007") }).store
        (catalog .whole .stored) false .replace
        ⟨databaseOf [.item { filename := some (ascii "7") }], none, 1⟩).conn.db)
          "PlayableItem").rows, r "PlayableItemID" ≠ .integer 1 := by decide +kernel
    exact hno r hr hkey
