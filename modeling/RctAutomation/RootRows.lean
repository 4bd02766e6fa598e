import RctAutomation.StoreRuns
import RctAutomation.Schema

/-!
# The row a message is stored as

The root statement of an insertion names the populated scalar fields and binds
one placeholder for each. `BindFromFields` numbers the placeholders by all the
populated fields, repeated ones included, so the numbers are right as long as
the repeated fields come last (`Message.Ordered`). Then what is stored is
`rowOf`: each column has its field's value, converted by the column
(`exec_rootStatement`).
-/

open Sql

/-- The value a field is stored as. A repeated field has none of its own: its
elements are rows of another table. -/
def FieldValue.toValue : FieldValue → Value
  | .int n => .integer n
  | .str b => .text b
  | _ => .null

@[simp] theorem FieldValue.toValue_ofInt (o : Option ℤ) :
    (FieldValue.ofInt o).toValue = (o.map Value.integer).getD .null := by cases o <;> rfl

@[simp] theorem FieldValue.toValue_ofStr (o : Option Bytes) :
    (FieldValue.ofStr o).toValue = (o.map Value.text).getD .null := by cases o <;> rfl

/-- **The row a message is stored as**, before its key is chosen: each column
has the value of the field with its name, converted by the column, and the
null where the field is not set. -/
def rowOf (t : TableDef) (fp : FloatOps) (m : Message) : Row :=
  t.toStore fp (fun c => (m.val c).toValue)

namespace Message

/-- The populated scalar fields. -/
def scalars (m : Message) : List FieldDescriptor := m.listFields.filter (fun fd => !fd.repeated)

/-- The populated repeated fields. -/
def repeateds (m : Message) : List FieldDescriptor := m.listFields.filter FieldDescriptor.repeated

/-- **A message whose values are those of its fields' types.** All messages
that come from the structures of the `.proto` files are. It lets a field be
bound without a case for a value of another type. -/
structure Typed (m : Message) : Prop where
  scalar : ∀ fd ∈ m.desc.fields, fd.repeated = false → ∀ v,
    (m.val fd.name).populated = true → encodeField fd (m.val fd.name) = some v →
      v = (m.val fd.name).toValue
  repeated : ∀ fd ∈ m.desc.fields, fd.repeated = true → (m.val fd.name).toValue = .null
  other : ∀ c, (∀ fd ∈ m.desc.fields, fd.name ≠ c) → m.val c = .unset

/-- The populated scalar fields come before the repeated ones, in the order
of their numbers. Where a scalar field comes later it is bound to the wrong
placeholder, which is what the condition excludes. -/
def Ordered (m : Message) : Prop := m.listFields = m.scalars ++ m.repeateds

end Message

/-! ## The placeholders -/

/-- Binding scalar fields fills the placeholders in order. What was bound in
front of them, and what comes behind, stays as it is. -/
theorem foldlM_bindField_scalars (m : Message) (stmt : Stmt) (ss : List FieldDescriptor)
    (hs : ∀ fd ∈ ss, fd.repeated = false
      ∧ ∀ v, encodeField fd (m.val fd.name) = some v → v = (m.val fd.name).toValue)
    (pre rest : List Value) (hlen : rest.length = ss.length) {acc : Prepared × ℕ}
    (h : ss.foldlM (bindField m) (⟨stmt, pre ++ rest⟩, pre.length + 1) = some acc) :
    acc = (⟨stmt, pre ++ ss.map (fun fd => (m.val fd.name).toValue)⟩,
      pre.length + ss.length + 1) := by
  induction ss generalizing pre rest with
  | nil =>
    obtain rfl := Option.some.inj h
    rw [List.length_eq_zero_iff.mp hlen]
    rfl
  | cons fd ss ih =>
    obtain ⟨r, rest', rfl⟩ := List.exists_cons_of_length_eq_add_one hlen
    rw [List.foldlM_cons] at h
    obtain ⟨acc', hacc', hrest⟩ := Option.bind_eq_some_iff.mp h
    obtain ⟨hrep, henc⟩ := hs fd (List.mem_cons_self ..)
    unfold bindField at hacc'
    rw [if_neg (by simp [hrep])] at hacc'
    obtain ⟨v, hv, rfl⟩ := Option.map_eq_some_iff.mp hacc'
    have hbind : ((⟨stmt, pre ++ r :: rest'⟩ : Prepared).bind (pre.length + 1) v)
        = ⟨stmt, (pre ++ [v]) ++ rest'⟩ := by
      simp [Prepared.bind]
    have hnum : pre.length + 1 + 1 = (pre ++ [v]).length + 1 := by simp
    dsimp only at hrest
    rw [hbind, hnum] at hrest
    have := ih (fun fd' h' => hs fd' (List.mem_cons_of_mem _ h')) (pre ++ [v]) rest'
      (by simpa using hlen) hrest
    rw [this, henc v hv]
    simp
    omega

/-- A repeated field takes up a number and binds nothing. -/
theorem foldlM_bindField_repeated (m : Message) (rs : List FieldDescriptor)
    (hr : ∀ fd ∈ rs, fd.repeated = true) (ps : Prepared) (i : ℕ) :
    rs.foldlM (bindField m) (ps, i) = some (ps, i + rs.length) := by
  induction rs generalizing i with
  | nil => rfl
  | cons fd rs ih =>
    rw [List.foldlM_cons]
    have hfd : bindField m (ps, i) fd = some (ps, i + 1) := by
      unfold bindField
      rw [if_pos (hr fd (List.mem_cons_self ..))]
    rw [hfd]
    show rs.foldlM (bindField m) (ps, i + 1) = _
    rw [ih (fun fd' h' => hr fd' (List.mem_cons_of_mem _ h')), List.length_cons]
    congr 2
    omega

/-- **What the placeholders hold**, in a message whose repeated fields come
last: the values of the scalar fields, in the order in which the statement
names them. -/
theorem bindFromFields_params {m : Message} (ht : m.Typed) (ho : m.Ordered) {stmt : Stmt}
    {ps : Prepared} {n : ℕ}
    (h : bindFromFields m ⟨stmt, List.replicate m.scalars.length .null⟩ = some (ps, n)) :
    ps.params = (scalarNames m).map (fun c => (m.val c).toValue) := by
  unfold bindFromFields at h
  rw [ho, List.foldlM_append] at h
  obtain ⟨acc, hacc, hrest⟩ := Option.bind_eq_some_iff.mp h
  have hscalar : ∀ fd ∈ m.scalars, fd.repeated = false
      ∧ ∀ v, encodeField fd (m.val fd.name) = some v → v = (m.val fd.name).toValue := by
    intro fd hfd
    obtain ⟨hmem, hrep⟩ := List.mem_filter.mp hfd
    obtain ⟨hdesc, hpop⟩ := Message.mem_listFields.mp hmem
    have hrep' : fd.repeated = false := by simpa using hrep
    exact ⟨hrep', fun v hv => ht.scalar fd hdesc hrep' v hpop hv⟩
  have hrepeated : ∀ fd ∈ m.repeateds, fd.repeated = true := fun fd hfd =>
    (List.mem_filter.mp hfd).2
  have hparams := foldlM_bindField_scalars m stmt m.scalars hscalar [] _
    (List.length_replicate ..) hacc
  rw [hparams, foldlM_bindField_repeated m m.repeateds hrepeated] at hrest
  obtain ⟨rfl, -⟩ := Prod.mk.inj (Option.some.inj hrest)
  simp [scalarNames, Message.scalars, List.map_map, Function.comp_def]

/-- The value given to a column that is named. -/
theorem assigned_map (cols : List String) (f : String → Value) (c : String) :
    TableDef.assigned cols (cols.map f) c = if c ∈ cols then f c else .null := by
  unfold TableDef.assigned
  induction cols with
  | nil => rfl
  | cons d cols ih =>
    rw [List.map_cons, List.zip_cons_cons, List.lookup_cons]
    by_cases h : c = d
    · subst h
      simp
    · have hb : (c == d) = false := by simpa using h
      rw [hb]
      simp only [List.mem_cons, h, false_or]
      exact ih

/-- A field that is not among the populated scalar ones stores nothing. -/
theorem toValue_of_not_mem {m : Message} (ht : m.Typed) {c : String} (hc : c ∉ scalarNames m) :
    (m.val c).toValue = .null := by
  by_cases hfd : ∃ fd ∈ m.desc.fields, fd.name = c
  · obtain ⟨fd, hmem, rfl⟩ := hfd
    cases hrep : fd.repeated with
    | true => exact ht.repeated fd hmem hrep
    | false =>
      have hpop : (m.val fd.name).populated = false := by
        refine Bool.eq_false_iff.mpr (fun hp => hc ?_)
        refine List.mem_map_of_mem (List.mem_filter.mpr ⟨Message.mem_listFields.mpr ⟨hmem, hp⟩, ?_⟩)
        rw [hrep]
        rfl
      revert hpop
      cases m.val fd.name with
      | int n => exact fun h => (by cases h)
      | str b => exact fun h => (by cases h)
      | _ => exact fun _ => rfl
  · rw [ht.other c (fun fd hfd' h => hfd ⟨fd, hfd', h⟩)]
    rfl

/-! ## The statement of an insertion -/

/-- What the root statement does with the rows in its way: a replacement
deletes them, and is otherwise refused where there are any. -/
def rootPolicy (cmd : StoreCmd) : OnConflict := if cmd = .replace then .replace else .abort

variable {cat : Catalog}

theorem rootStatement_params {cmd : StoreCmd} (hcmd : cmd ≠ .update) {m : Message} (ht : m.Typed)
    (ho : m.Ordered) {ps : Prepared} (h : rootStatement cat cmd m = some ps) :
    ps.stmt = .insert (rootPolicy cmd) m.desc.name (scalarNames m)
      ∧ ps.params = (scalarNames m).map (fun c => (m.val c).toValue) := by
  have hroot : rootStmt cmd m.desc.name (scalarNames m) m.desc.field0.name
      = .insert (rootPolicy cmd) m.desc.name (scalarNames m) := by
    cases cmd with
    | update => exact absurd rfl hcmd
    | _ => rfl
  refine ⟨(rootStatement_stmt h).trans hroot, ?_⟩
  obtain ⟨ps₀, hps₀, hb⟩ := Option.bind_eq_some_iff.mp h
  obtain ⟨⟨ps₁, n⟩, hf, rfl⟩ := Option.map_eq_some_iff.mp hb
  have hps₀' : ps₀ = ⟨.insert (rootPolicy cmd) m.desc.name (scalarNames m),
      List.replicate m.scalars.length .null⟩ := by
    rw [(prepare_rootText hps₀).2.2, hroot]
    simp [Stmt.marks, scalarNames, Message.scalars]
  rw [hps₀'] at hf
  simp only [hcmd, if_false]
  exact bindFromFields_params ht ho hf

/-- **The root statement of an insertion inserts the message's row.** Text,
parser and binding are gone from here on; what is shown of a store goes by
the row. -/
theorem exec_rootStatement {cmd : StoreCmd} (hcmd : cmd ≠ .update) {m : Message} (ht : m.Typed)
    (ho : m.Ordered) {ps : Prepared} (h : rootStatement cat cmd m = some ps) {t : TableDef}
    (htab : cat.table? m.desc.name = some t) (db : Db) :
    cat.exec db ps
      = (t.insert (rootPolicy cmd) (db m.desc.name) (rowOf t cat.fp m)).bind
          fun (tab, id) => cat.checked db (Function.update db m.desc.name tab) id := by
  obtain ⟨hstmt, hparams⟩ := rootStatement_params hcmd ht ho h
  have hgiven : TableDef.assigned (scalarNames m) ps.params = fun c => (m.val c).toValue := by
    funext c
    rw [hparams, assigned_map]
    split
    · rfl
    · rename_i hc
      exact (toValue_of_not_mem ht hc).symm
  unfold Catalog.exec
  rw [hstmt]
  dsimp only
  rw [htab]
  dsimp only
  rw [hgiven]
  rfl

/-- What an accepted root statement of an insertion did: the row, with its key
chosen, joined the rows it does not conflict with. -/
theorem rootStatement_ok {cmd : StoreCmd} (hcmd : cmd ≠ .update) {m : Message} (ht : m.Typed)
    (ho : m.Ordered) {ps : Prepared} (h : rootStatement cat cmd m = some ps) {t : TableDef}
    (htab : cat.table? m.desc.name = some t) {db db₁ : Db} {id : Option ℤ}
    (hex : cat.exec db ps = .ok (db₁, id)) :
    ∃ r tab, t.keyed (db m.desc.name) (rowOf t cat.fp m) = .ok r ∧ id = t.rowid r
      ∧ tab.rows = (db m.desc.name).rows.filter (fun x => !t.conflicts r x) ++ [r]
      ∧ db₁ = Function.update db m.desc.name tab := by
  rw [exec_rootStatement hcmd ht ho h htab] at hex
  cases hi : t.insert (rootPolicy cmd) (db m.desc.name) (rowOf t cat.fp m) with
  | error e =>
    rw [hi] at hex
    cases hex
  | ok res =>
    obtain ⟨tab, id'⟩ := res
    rw [hi] at hex
    obtain ⟨rfl, rfl⟩ := Catalog.checked_ok hex
    have hoc : rootPolicy cmd ≠ .ignore := by
      unfold rootPolicy
      split <;> decide
    obtain ⟨r, hk, hid, hrows⟩ := TableDef.insert_placed hoc hi
    exact ⟨r, tab, hk, hid, hrows, rfl⟩

/-- **A row keeps the ID its message has.** So the ID that is remembered
after the statement is that of the message, where it has one. -/
theorem rowid_of_rootStatement {cmd : StoreCmd} (hcmd : cmd ≠ .update) {m : Message}
    (ht : m.Typed) (ho : m.Ordered) {ps : Prepared} (h : rootStatement cat cmd m = some ps)
    {t : TableDef} (htab : cat.table? m.desc.name = some t) {k : String} (hkey : t.key = some k)
    {n : ℤ} (hn : rowOf t cat.fp m k = .integer n) {db db₁ : Db} {id : Option ℤ}
    (hex : cat.exec db ps = .ok (db₁, id)) : id = some n := by
  obtain ⟨r, tab, hk, rfl, -, -⟩ := rootStatement_ok hcmd ht ho h htab hex
  rw [TableDef.keyed_of_integer hkey hn] at hk
  cases hk
  unfold TableDef.rowid
  rw [hkey]
  dsimp only
  rw [hn]

/-! ## The stored message types -/

theorem encodeField_ofInt {fd : FieldDescriptor} {o : Option ℤ} {v : Value}
    (hty : fd.type ≠ .string ∧ fd.type ≠ .bytes) (hp : (FieldValue.ofInt o).populated = true)
    (h : encodeField fd (.ofInt o) = some v) : v = (FieldValue.ofInt o).toValue := by
  obtain ⟨n, rfl⟩ := Option.isSome_iff_exists.mp ((FieldValue.populated_ofInt o).symm.trans hp)
  unfold encodeField at h
  cases hfd : fd.type with
  | string => exact absurd hfd hty.1
  | bytes => exact absurd hfd hty.2
  | int32 | int64 | enum | message =>
    rw [hfd] at h
    cases h <;> rfl

theorem encodeField_ofStr {fd : FieldDescriptor} {o : Option Bytes} {v : Value}
    (hty : fd.type = .string ∨ fd.type = .bytes) (hp : (FieldValue.ofStr o).populated = true)
    (h : encodeField fd (.ofStr o) = some v) : v = (FieldValue.ofStr o).toValue := by
  obtain ⟨n, rfl⟩ := Option.isSome_iff_exists.mp ((FieldValue.populated_ofStr o).symm.trans hp)
  unfold encodeField at h
  rcases hty with hty | hty <;> rw [hty] at h <;> cases h <;> rfl

namespace Message

/-- Scalar fields in front of repeated ones are in order. -/
theorem ordered_of_listFields {m : Message} {ss rs : List FieldDescriptor}
    (h : m.listFields = ss ++ rs) (hs : ∀ fd ∈ ss, fd.repeated = false)
    (hr : ∀ fd ∈ rs, fd.repeated = true) : m.Ordered := by
  have h₁ : ss.filter (fun fd => !fd.repeated) = ss :=
    List.filter_eq_self.mpr (fun fd hfd => by rw [hs fd hfd]; rfl)
  have h₂ : rs.filter (fun fd => !fd.repeated) = [] :=
    List.filter_eq_nil_iff.mpr (fun fd hfd => by rw [hr fd hfd]; decide)
  have h₃ : ss.filter FieldDescriptor.repeated = [] :=
    List.filter_eq_nil_iff.mpr (fun fd hfd => by rw [hs fd hfd]; exact Bool.false_ne_true)
  have h₄ : rs.filter FieldDescriptor.repeated = rs := List.filter_eq_self.mpr hr
  unfold Ordered scalars repeateds
  rw [h, List.filter_append, List.filter_append, h₁, h₂, h₃, h₄, List.append_nil,
    List.nil_append]

/-- The repeated fields come last when no field after them is populated. -/
theorem ordered_of_fields {m : Message} {A B C : List FieldDescriptor}
    (h : m.desc.fields = A ++ B ++ C) (hA : ∀ fd ∈ A, fd.repeated = false)
    (hB : ∀ fd ∈ B, fd.repeated = true) (hC : ∀ fd ∈ C, (m.val fd.name).populated = false) :
    m.Ordered := by
  have hC' : C.filter (fun fd => (m.val fd.name).populated) = [] :=
    List.filter_eq_nil_iff.mpr (fun fd hfd => by rw [hC fd hfd]; exact Bool.false_ne_true)
  have hl : m.listFields = A.filter (fun fd => (m.val fd.name).populated)
      ++ B.filter (fun fd => (m.val fd.name).populated) := by
    unfold listFields
    rw [h, List.filter_append, List.filter_append, hC', List.append_nil]
  exact ordered_of_listFields hl (fun fd hfd => hA fd (List.mem_filter.mp hfd).1)
    (fun fd hfd => hB fd (List.mem_filter.mp hfd).1)

/-- A message without repeated fields is in order. -/
theorem ordered_of_scalar {m : Message} (h : ∀ fd ∈ m.desc.fields, fd.repeated = false) :
    m.Ordered :=
  ordered_of_fields (B := []) (C := []) (by simp) h (fun _ hfd => absurd hfd List.not_mem_nil)
    (fun _ hfd => absurd hfd List.not_mem_nil)

theorem mem_scalarNames {m : Message} {c : String} :
    c ∈ scalarNames m
      ↔ ∃ fd ∈ m.desc.fields, fd.name = c ∧ fd.repeated = false
        ∧ (m.val c).populated = true := by
  unfold scalarNames
  simp only [List.mem_map, List.mem_filter, mem_listFields, Bool.not_eq_true']
  constructor
  · rintro ⟨fd, ⟨⟨hmem, hp⟩, hr⟩, rfl⟩
    exact ⟨fd, hmem, rfl, hr, hp⟩
  · rintro ⟨fd, hmem, rfl, hr, hp⟩
    exact ⟨fd, ⟨⟨hmem, hp⟩, hr⟩, rfl⟩

end Message

/-- A root statement that can be prepared names columns of its table, and at
least one. -/
theorem columns_of_rootStatement {cmd : StoreCmd} {m : Message} {ps : Prepared}
    (h : rootStatement cat cmd m = some ps) {t : TableDef}
    (htab : cat.table? m.desc.name = some t) :
    scalarNames m ≠ [] ∧ ∀ c ∈ scalarNames m, (t.column? c).isSome = true := by
  obtain ⟨ps₀, hps₀, -⟩ := Option.bind_eq_some_iff.mp h
  obtain ⟨hne, hres, -⟩ := prepare_rootText hps₀
  refine ⟨hne, fun c hc => ?_⟩
  unfold Catalog.resolves rootStmt at hres
  cases cmd with
  | update =>
    dsimp only at hres
    rw [htab] at hres
    exact List.all_eq_true.mp hres c (List.mem_cons_of_mem _ hc)
  | insert | replace =>
    dsimp only at hres
    rw [htab] at hres
    exact List.all_eq_true.mp hres c hc

theorem Playlist.typed (p : Playlist) : p.toMessage.Typed where
  scalar fd hfd hr v hp hv := by
    simp only [Playlist.toMessage, playlistDesc, List.mem_cons, List.not_mem_nil, or_false] at hfd
    rcases hfd with rfl | rfl | rfl | rfl | rfl | rfl
    · exact encodeField_ofInt (by decide) hp hv
    · exact encodeField_ofStr (by decide) hp hv
    · exact encodeField_ofInt (by decide) hp hv
    · cases hr
    · cases hr
    · exact encodeField_ofInt (by decide) hp hv
  repeated fd hfd hr := by
    simp only [Playlist.toMessage, playlistDesc, List.mem_cons, List.not_mem_nil, or_false] at hfd
    rcases hfd with rfl | rfl | rfl | rfl | rfl | rfl <;> first | rfl | cases hr
  other c hc := by
    simp only [Playlist.toMessage, playlistDesc] at hc ⊢
    split <;> first | rfl | simp at hc

theorem Playlist.ordered {p : Playlist} (h : p.length = none) : p.toMessage.Ordered := by
  refine Message.ordered_of_fields
    (A := [⟨"PlaylistID", 1, .int64, false⟩, ⟨"name", 2, .string, false⟩,
      ⟨"weight", 3, .int64, false⟩])
    (B := [⟨"PlayableItemID", 4, .int64, true⟩, ⟨"items", 5, .message, true⟩])
    (C := [⟨"length", 6, .int64, false⟩]) rfl (by decide) (by decide) (fun fd hfd => ?_)
  rw [List.mem_singleton.mp hfd]
  show (FieldValue.ofInt p.length).populated = false
  rw [h]
  rfl

theorem PlayableItem.typed (i : PlayableItem) : i.toMessage.Typed where
  scalar fd hfd hr v hp hv := by
    simp only [PlayableItem.toMessage, playableItemDesc, List.mem_cons, List.not_mem_nil,
      or_false] at hfd
    rcases hfd with rfl | rfl | rfl | rfl | rfl | rfl | rfl
    · exact encodeField_ofInt (by decide) hp hv
    · exact encodeField_ofStr (by decide) hp hv
    · exact encodeField_ofInt (by decide) hp hv
    · exact encodeField_ofStr (by decide) hp hv
    · exact encodeField_ofInt (by decide) hp hv
    · exact encodeField_ofInt (by decide) hp hv
    · exact encodeField_ofInt (by decide) hp hv
  repeated fd hfd hr := by
    simp only [PlayableItem.toMessage, playableItemDesc, List.mem_cons, List.not_mem_nil,
      or_false] at hfd
    rcases hfd with rfl | rfl | rfl | rfl | rfl | rfl | rfl <;> cases hr
  other c hc := by
    simp only [PlayableItem.toMessage, playableItemDesc] at hc ⊢
    split <;> first | rfl | simp at hc

theorem PlayableItem.ordered (i : PlayableItem) : i.toMessage.Ordered :=
  Message.ordered_of_scalar (show ∀ fd ∈ playableItemDesc.fields, fd.repeated = false by decide)

theorem PlaylistLock.typed (l : PlaylistLock) : l.toMessage.Typed where
  scalar fd hfd hr v hp hv := by
    simp only [PlaylistLock.toMessage, playlistLockDesc, List.mem_cons, List.not_mem_nil,
      or_false] at hfd
    obtain rfl := hfd
    exact encodeField_ofStr (by decide) hp hv
  repeated fd hfd hr := by
    simp only [PlaylistLock.toMessage, playlistLockDesc, List.mem_cons, List.not_mem_nil,
      or_false] at hfd
    obtain rfl := hfd
    cases hr
  other c hc := by
    simp only [PlaylistLock.toMessage, playlistLockDesc] at hc ⊢
    split <;> first | rfl | simp at hc

theorem PlaylistLock.ordered (l : PlaylistLock) : l.toMessage.Ordered :=
  Message.ordered_of_scalar (show ∀ fd ∈ playlistLockDesc.fields, fd.repeated = false by decide)

theorem ProtoTable.typed (p : ProtoTable) : p.toMessage.Typed where
  scalar fd hfd hr v hp hv := by
    simp only [ProtoTable.toMessage, protoTableDesc, List.mem_cons, List.not_mem_nil,
      or_false] at hfd
    rcases hfd with rfl | rfl | rfl
    · exact encodeField_ofInt (by decide) hp hv
    · exact encodeField_ofStr (by decide) hp hv
    · exact encodeField_ofStr (by decide) hp hv
  repeated fd hfd hr := by
    simp only [ProtoTable.toMessage, protoTableDesc, List.mem_cons, List.not_mem_nil,
      or_false] at hfd
    rcases hfd with rfl | rfl | rfl <;> cases hr
  other c hc := by
    simp only [ProtoTable.toMessage, protoTableDesc] at hc ⊢
    split <;> first | rfl | simp at hc

theorem ProtoTable.ordered (p : ProtoTable) : p.toMessage.Ordered :=
  Message.ordered_of_scalar (show ∀ fd ∈ protoTableDesc.fields, fd.repeated = false by decide)

/-- A playlist that can be saved shows no length, which is no column. -/
theorem Playlist.length_of_rootStatement {fp : FloatOps} {ch : Chance} {cmd : StoreCmd}
    {p : Playlist} {ps : Prepared} (h : rootStatement (catalog fp ch) cmd p.toMessage = some ps) :
    p.length = none := by
  have hcol := (columns_of_rootStatement h (t := playlistDef) rfl).2 "length"
  cases hlen : p.length with
  | none => rfl
  | some n =>
    have hmem : "length" ∈ scalarNames p.toMessage :=
      Message.mem_scalarNames.mpr ⟨⟨"length", 6, .int64, false⟩,
        by simp [Playlist.toMessage, playlistDesc], rfl, rfl,
        show (FieldValue.ofInt p.length).populated = true by rw [hlen]; rfl⟩
    exact absurd (hcol hmem) (by decide)
