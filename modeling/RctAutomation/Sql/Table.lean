import Mathlib.Logic.Function.Basic
import RctAutomation.Sql.Value

/-!
# Tables with unique indexes

A row gives a value to every column name. A table definition lists its
columns, the column that aliases its integer key, and its unique indexes; two
rows *conflict* when they agree, as SQL compares, on every column of one of
these (`TableDef.conflicts`).

`TableDef.insert` is the insertion of one row under a conflict policy and
`TableDef.update` the assignment of some columns of the rows a key selects.
Both keep `TableDef.Valid`: no two rows of a table conflict, and every key is
an integer.
-/

namespace Sql

/-- A row: the value of each column, by name. A name that the table does not
have is given the null, and is never read. -/
abbrev Row := String → Value

/-- A column as declared. The type is kept as the words it was declared with,
since these decide how values are converted. -/
structure Column where
  name : String
  decl : String
  notNull : Bool := false

/-- The affinity of a column is the one of its declared type. -/
def Column.affinity (c : Column) : Affinity := affinityOf c.decl

/-- A table as declared: its columns in their order, with what is declared of
them. -/
structure TableDef where
  name : String
  columns : List Column
  /-- The column declared `INTEGER PRIMARY KEY AUTOINCREMENT`, if any. -/
  key : Option String
  /-- The unique indexes, by their columns. -/
  uniques : List (List String)

/-- The contents of a table: its rows in the order in which they were placed,
and the largest key it has ever held, which `AUTOINCREMENT` does not give out
again. -/
structure Table where
  rows : List Row
  seq : ℤ

/-- What SQLite answers to a call: `done` for a statement that has run, `row`
where it has a row to give, and otherwise the reason why it was refused. -/
inductive Code
  | ok | row | done | constraint | busy | error | full | mismatch | misuse
  deriving DecidableEq

/-- The code reports that a statement did not happen, and that nothing of it
is left in the database. -/
def Code.failed : Code → Bool
  | .constraint | .error | .full | .mismatch => true
  | _ => false

/-- What an insertion does with the rows in its way: it is refused, it does
nothing, or it deletes them first. -/
inductive OnConflict
  | abort | ignore | replace
  deriving DecidableEq

namespace TableDef

variable (t : TableDef)

/-- The declaration of a column. -/
def column? (c : String) : Option Column := t.columns.find? (fun col => col.name == c)

/-- The affinity of a column, by name. -/
def affinity (c : String) : Affinity := ((t.column? c).map Column.affinity).getD .blob

/-- Everything that has to be unique: the key and the unique indexes, each as
the columns it is about. The order of the list does not matter, since a row
conflicts as soon as one of them is met. -/
def indexes : List (List String) := (t.key.toList.map (fun k => [k])) ++ t.uniques

/-- Two rows agree on all the columns of an index. -/
def agreeOn (cols : List String) (a b : Row) : Bool := cols.all (fun c => (a c).same (b c))

/-- **Two rows conflict** when they agree on an index, as SQL compares: a
null in one of its columns keeps a row out of the conflicts of that index. -/
def conflicts (a b : Row) : Bool := t.indexes.any (fun cols => agreeOn cols a b)

theorem agreeOn_comm (cols : List String) (a b : Row) : agreeOn cols a b = agreeOn cols b a := by
  unfold agreeOn
  exact congrArg (fun f => cols.all f) (funext fun c => Value.same_comm _ _)

theorem conflicts_comm (a b : Row) : t.conflicts a b = t.conflicts b a := by
  unfold conflicts
  exact congrArg (fun f => t.indexes.any f) (funext fun cols => agreeOn_comm cols a b)

variable {t} in
/-- Rows with the same key conflict. -/
theorem conflicts_of_key {k : String} (hk : t.key = some k) {a b : Row} {n : ℤ}
    (ha : a k = .integer n) (hb : b k = .integer n) : t.conflicts a b = true := by
  unfold conflicts indexes agreeOn
  simp [hk, ha, hb]

variable {t} in
/-- Rows that agree on a unique column conflict. -/
theorem conflicts_of_unique {u : String} (hu : [u] ∈ t.uniques) {a b : Row}
    (h : (a u).same (b u) = true) : t.conflicts a b = true := by
  unfold conflicts
  refine List.any_eq_true.mpr ⟨[u], List.mem_append_right _ hu, ?_⟩
  simpa [agreeOn] using h

/-! ## Rows to store -/

/-- The values given to columns, in the order of the columns named. A
column that is named twice gets the first value, and one that is not
named the null. -/
def assigned (cols : List String) (params : List Value) (c : String) : Value :=
  ((cols.zip params).lookup c).getD .null

/-- The row that a statement giving values to some columns stores, before its
key is chosen: each value converted by its column, and the null elsewhere.
Conflicts are decided between rows as they are stored, so after this
conversion. -/
def toStore (fp : FloatOps) (given : String → Value) : Row := fun c =>
  match t.column? c with
  | some col => col.affinity.apply fp (given c)
  | none => .null

/-- The largest key of a table, or the largest it has ever had. Deleting the
row with the largest key does not make its key available. -/
def lastKey (k : String) (tab : Table) : ℤ :=
  tab.rows.foldl (fun m r => match r k with | .integer n => max m n | _ => m) tab.seq

/-- The largest key there is. -/
def maxKey : ℤ := 9223372036854775807

/-- **The key of a row to insert**: the one it has, and one more than the
largest ever used where it has none. There is no key left above the largest
integer, and what is no integer cannot be a key. -/
def keyed (tab : Table) (r : Row) : Except Code Row :=
  match t.key with
  | none => .ok r
  | some k =>
    match r k with
    | .integer _ => .ok r
    | .null =>
      if lastKey k tab < maxKey then
        .ok (Function.update r k (.integer (lastKey k tab + 1)))
      else .error .full
    | _ => .error .mismatch

/-- The key of a row, as the connection remembers it after an insertion. A
table that declares no integer key has none here. -/
def rowid (r : Row) : Option ℤ :=
  match t.key with
  | none => none
  | some k =>
    match r k with
    | .integer n => some n
    | _ => none

/-- A column declared `NOT NULL` has no value. -/
def lacksValue (r : Row) : Bool := t.columns.any (fun c => c.notNull && r c.name == .null)

/-- The table with a row appended; what it remembers as its largest key grows
with the key of the row. -/
def append (tab : Table) (r : Row) : Table :=
  ⟨tab.rows ++ [r], ((t.rowid r).map (max tab.seq)).getD tab.seq⟩

/-- **Placing a row that has its key**, under a conflict policy. The result
is the table and whether the row was placed: an insertion that ignores its
conflicts can succeed without placing anything. -/
def place (oc : OnConflict) (tab : Table) (r : Row) : Except Code (Table × Bool) :=
  if t.lacksValue r then
    if oc = .ignore then .ok (tab, false) else .error .constraint
  else if tab.rows.any (t.conflicts r) then
    match oc with
    | .abort => .error .constraint
    | .ignore => .ok (tab, false)
    | .replace => .ok (t.append ⟨tab.rows.filter (fun x => !t.conflicts r x), tab.seq⟩ r, true)
  else .ok (t.append tab r, true)

/-- **Inserting a row**: its key is chosen, and it is placed. The result is
the table after it, and the key of the row where one was placed. -/
def insert (oc : OnConflict) (tab : Table) (r : Row) : Except Code (Table × Option ℤ) :=
  (t.keyed tab r).bind fun r =>
    (t.place oc tab r).map fun (tab', placed) => (tab', if placed then t.rowid r else none)

/-- **Assigning columns of the rows that a column value selects.** The rows
are compared after all of them have been changed, and an update that leaves
rows in conflict is refused as a whole. One that selects no row is not. -/
def update (fp : FloatOps) (tab : Table) (set : List String) (params : List Value) (w : String)
    (v : Value) : Except Code Table :=
  let hit := fun r : Row => (r w).same ((t.affinity w).apply fp v)
  let put : Row → Row := fun r c =>
    if c ∈ set then (t.affinity c).apply fp (assigned set params c) else r c
  let rows := tab.rows.map (fun r => if hit r then put r else r)
  if !tab.rows.any hit then .ok tab
  else if rows.any (fun r => t.key.isSome && (t.rowid r).isNone) then .error .mismatch
  else if rows.any t.lacksValue then .error .constraint
  else if rows.Pairwise (fun a b => t.conflicts a b = false) then .ok { tab with rows := rows }
  else .error .constraint

/-! ## What the operations keep -/

/-- **A valid table**: no two rows conflict, and every key is an integer.
This is what SQLite promises of a table whatever is done to it, and every
operation below is shown to keep it. -/
structure Valid (tab : Table) : Prop where
  distinct : tab.rows.Pairwise (fun a b => t.conflicts a b = false)
  keys : ∀ k, t.key = some k → ∀ r ∈ tab.rows, ∃ n, r k = .integer n

variable {t}

/-- **A row is determined by its conflicts**: two rows of a valid table that
conflict are one row. In particular a key, or the columns of a unique index,
select at most one row. -/
theorem Valid.eq_of_conflicts {tab : Table} (h : t.Valid tab) {a b : Row} (ha : a ∈ tab.rows)
    (hb : b ∈ tab.rows) (hc : t.conflicts a b = true) : a = b := by
  by_contra hne
  obtain ⟨i, hi, rfl⟩ := List.getElem_of_mem ha
  obtain ⟨j, hj, rfl⟩ := List.getElem_of_mem hb
  have hp := List.pairwise_iff_getElem.mp h.distinct
  rcases Nat.lt_trichotomy i j with hij | rfl | hij
  · exact absurd hc (by rw [hp i j hi hj hij]; exact Bool.false_ne_true)
  · exact hne rfl
  · rw [conflicts_comm] at hc
    exact absurd hc (by rw [hp j i hj hi hij]; exact Bool.false_ne_true)

/-- The key of the row an insertion places is an integer. -/
theorem keyed_key {tab : Table} {r r' : Row} (h : t.keyed tab r = .ok r') {k : String}
    (hk : t.key = some k) : ∃ n, r' k = .integer n := by
  unfold keyed at h
  rw [hk] at h
  dsimp only at h
  split at h
  · rename_i n hn
    cases h
    exact ⟨n, hn⟩
  · split at h
    · cases h
      exact ⟨_, Function.update_self ..⟩
    · cases h
  · cases h

/-- Choosing the key changes no other column. -/
theorem keyed_other {tab : Table} {r r' : Row} (h : t.keyed tab r = .ok r') {c : String}
    (hc : t.key ≠ some c) : r' c = r c := by
  unfold keyed at h
  split at h
  · cases h
    rfl
  · rename_i k hk
    split at h
    · cases h
      rfl
    · split at h
      · cases h
        exact Function.update_of_ne (fun e => hc (by rw [hk, e])) ..
      · cases h
    · cases h

/-- A key that is given is kept. -/
theorem keyed_of_integer {tab : Table} {r : Row} {k : String} {n : ℤ} (hk : t.key = some k)
    (hn : r k = .integer n) : t.keyed tab r = .ok r := by
  unfold keyed
  rw [hk]
  dsimp only
  rw [hn]

/-- A key that is not given is the next one, if there is one. -/
theorem keyed_of_null {r : Row} {k : String} (hk : t.key = some k) (hn : r k = .null)
    (tab : Table) :
    t.keyed tab r = if lastKey k tab < maxKey then
      .ok (Function.update r k (.integer (lastKey k tab + 1))) else .error .full := by
  unfold keyed
  rw [hk]
  dsimp only
  rw [hn]

theorem le_foldl_lastKey (k : String) (rows : List Row) (m : ℤ) :
    m ≤ rows.foldl (fun m r => match r k with | .integer n => max m n | _ => m) m := by
  induction rows generalizing m with
  | nil => exact le_refl m
  | cons r rows ih =>
    rw [List.foldl_cons]
    refine le_trans ?_ (ih _)
    split
    · exact le_max_left _ _
    · exact le_refl m

/-- Every key of the table is at most the last one. -/
theorem le_lastKey {k : String} {tab : Table} {r : Row} {n : ℤ} (hr : r ∈ tab.rows)
    (hn : r k = .integer n) : n ≤ lastKey k tab := by
  unfold lastKey
  generalize tab.seq = m
  generalize hrows : tab.rows = rows at hr
  clear hrows
  induction rows generalizing m with
  | nil => cases hr
  | cons x rows ih =>
    rw [List.foldl_cons]
    rcases List.mem_cons.mp hr with rfl | hr
    · refine le_trans ?_ (le_foldl_lastKey k rows _)
      rw [hn]
      exact le_max_right _ _
    · exact ih _ hr

/-- A row that conflicts with none is appended to all of them. -/
theorem append_rows {tab : Table} {r : Row} (hno : ¬tab.rows.any (t.conflicts r) = true) :
    (t.append tab r).rows = tab.rows.filter (fun x => !t.conflicts r x) ++ [r] := by
  have hall : tab.rows.filter (fun x => !t.conflicts r x) = tab.rows := by
    refine List.filter_eq_self.mpr (fun x hx => ?_)
    rw [Bool.not_eq_true']
    exact Bool.eq_false_iff.mpr (fun hc => hno (List.any_eq_true.mpr ⟨x, hx, hc⟩))
  rw [hall]
  rfl

/-- **A placed row joins the rows it does not conflict with**, whatever the
policy: where conflicts are not replaced there are none, so that nothing is
filtered out. -/
theorem place_ok {oc : OnConflict} {tab tab' : Table} {r : Row}
    (h : t.place oc tab r = .ok (tab', true)) :
    tab'.rows = tab.rows.filter (fun x => !t.conflicts r x) ++ [r] := by
  unfold place at h
  split at h
  · split at h <;> cases h
  · split at h
    · cases oc <;> cases h
      rfl
    · rename_i hno
      cases h
      exact append_rows hno

/-- A row that is not placed leaves the table as it is. -/
theorem place_not {oc : OnConflict} {tab tab' : Table} {r : Row}
    (h : t.place oc tab r = .ok (tab', false)) : tab' = tab := by
  unfold place at h
  split at h
  · split at h
    · cases h
      rfl
    · cases h
  · split at h
    · cases oc <;> cases h
      rfl
    · cases h

/-- The rows an insertion under `REPLACE` leaves: what does not conflict with
the row placed, and that row. -/
theorem place_replace (tab : Table) {r : Row} (h : t.lacksValue r = false) :
    ∃ tab', t.place .replace tab r = .ok (tab', true)
      ∧ tab'.rows = tab.rows.filter (fun x => !t.conflicts r x) ++ [r] := by
  unfold place
  rw [h]
  simp only [Bool.false_eq_true, if_false]
  split
  · exact ⟨_, rfl, rfl⟩
  · rename_i hno
    exact ⟨_, rfl, append_rows hno⟩

theorem Valid.append {tab : Table} (h : t.Valid tab) {r : Row} {rows : List Row}
    (hrows : rows = tab.rows.filter (fun x => !t.conflicts r x) ++ [r])
    (hk : ∀ k, t.key = some k → ∃ n, r k = .integer n) (seq : ℤ) : t.Valid ⟨rows, seq⟩ where
  distinct := by
    subst hrows
    refine List.pairwise_append.mpr ⟨h.distinct.filter _, List.pairwise_singleton _ _, ?_⟩
    intro a ha b hb
    rw [List.mem_singleton.mp hb, conflicts_comm]
    simpa using (List.mem_filter.mp ha).2
  keys k hk' x hx := by
    subst hrows
    rcases List.mem_append.mp hx with hx | hx
    · exact h.keys k hk' x (List.mem_filter.mp hx).1
    · rw [List.mem_singleton.mp hx]
      exact hk k hk'

/-! ### Refusals -/

theorem keyed_error {tab : Table} {r : Row} {e : Code} (h : t.keyed tab r = .error e) :
    e.failed = true := by
  unfold keyed at h
  split at h
  · cases h
  · split at h
    · cases h
    · split at h
      · cases h
      · cases h
        rfl
    · cases h
      rfl

/-- Only a constraint keeps a row that has its key from being placed. -/
theorem place_error {oc : OnConflict} {tab : Table} {r : Row} {e : Code}
    (h : t.place oc tab r = .error e) : e = .constraint := by
  unfold place at h
  split at h
  · split at h
    · cases h
    · cases h
      rfl
  · split at h
    · cases oc <;> cases h
      rfl
    · cases h

theorem insert_error {oc : OnConflict} {tab : Table} {r : Row} {e : Code}
    (h : t.insert oc tab r = .error e) : e.failed = true := by
  unfold insert at h
  cases hk : t.keyed tab r with
  | error e' =>
    rw [hk] at h
    cases h
    exact keyed_error hk
  | ok r' =>
    rw [hk] at h
    simp only [Except.bind] at h
    cases hp : t.place oc tab r' with
    | error e' =>
      rw [hp] at h
      cases h
      rw [place_error hp]
      rfl
    | ok res =>
      rw [hp] at h
      cases h

theorem update_error {fp : FloatOps} {tab : Table} {set : List String} {params : List Value}
    {w : String} {v : Value} {e : Code} (h : t.update fp tab set params w v = .error e) :
    e.failed = true := by
  unfold TableDef.update at h
  dsimp only at h
  split at h
  · cases h
  · split at h
    · cases h
      rfl
    · split at h
      · cases h
        rfl
      · split at h
        · cases h
        · cases h
          rfl

/-! ### What is placed, and what stays -/

/-- **An insertion that is not refused**: the row got its key and was placed,
or not. This takes an insertion apart once and for all; what is shown of
insertions below is shown of these two steps. -/
theorem place_of_insert {oc : OnConflict} {tab tab' : Table} {r : Row} {id : Option ℤ}
    (h : t.insert oc tab r = .ok (tab', id)) :
    ∃ r' placed, t.keyed tab r = .ok r' ∧ t.place oc tab r' = .ok (tab', placed)
      ∧ id = if placed then t.rowid r' else none := by
  unfold insert at h
  cases hk : t.keyed tab r with
  | error e =>
    rw [hk] at h
    cases h
  | ok r' =>
    rw [hk] at h
    simp only [Except.bind] at h
    cases hp : t.place oc tab r' with
    | error e =>
      rw [hp] at h
      cases h
    | ok res =>
      obtain ⟨tab'', placed⟩ := res
      rw [hp] at h
      simp only [Except.map, Except.ok.injEq, Prod.mk.injEq] at h
      obtain ⟨rfl, rfl⟩ := h
      exact ⟨r', placed, rfl, hp, rfl⟩

/-- The two outcomes of an insertion that is not refused: the row is placed,
with its key, or the table stays as it is. -/
theorem insert_ok {oc : OnConflict} {tab tab' : Table} {r : Row} {id : Option ℤ}
    (h : t.insert oc tab r = .ok (tab', id)) :
    (∃ r', t.keyed tab r = .ok r' ∧ id = t.rowid r'
      ∧ tab'.rows = tab.rows.filter (fun x => !t.conflicts r' x) ++ [r'])
    ∨ (tab' = tab ∧ id = none) := by
  obtain ⟨r', placed, hk, hp, rfl⟩ := place_of_insert h
  cases placed with
  | true => exact Or.inl ⟨r', hk, rfl, place_ok hp⟩
  | false => exact Or.inr ⟨place_not hp, rfl⟩

/-- A policy that does not ignore rows places every row it does not refuse. -/
theorem place_placed {oc : OnConflict} {tab tab' : Table} {r : Row} {placed : Bool}
    (hoc : oc ≠ .ignore) (h : t.place oc tab r = .ok (tab', placed)) : placed = true := by
  unfold place at h
  split at h
  · cases h
  · split at h
    · cases oc with
      | abort => cases h
      | ignore => exact absurd rfl hoc
      | replace =>
        cases h
        rfl
    · cases h
      rfl

/-- What an insertion that ignores no row did. -/
theorem insert_placed {oc : OnConflict} {tab tab' : Table} {r : Row} {id : Option ℤ}
    (hoc : oc ≠ .ignore) (h : t.insert oc tab r = .ok (tab', id)) :
    ∃ r', t.keyed tab r = .ok r' ∧ id = t.rowid r'
      ∧ tab'.rows = tab.rows.filter (fun x => !t.conflicts r' x) ++ [r'] := by
  obtain ⟨r', placed, hk, hp, rfl⟩ := place_of_insert h
  obtain rfl := place_placed hoc hp
  exact ⟨r', hk, rfl, place_ok hp⟩

/-- **An insertion keeps the table valid.** The row that is placed has an
integer for its key, and conflicts with none of the rows that are kept. -/
theorem Valid.insert {oc : OnConflict} {tab tab' : Table} {r : Row} {id : Option ℤ}
    (hv : t.Valid tab) (h : t.insert oc tab r = .ok (tab', id)) : t.Valid tab' := by
  rcases insert_ok h with ⟨r', hk, -, hrows⟩ | ⟨rfl, -⟩
  · exact hv.append hrows (fun _ => keyed_key hk) tab'.seq
  · exact hv

/-- A row after an update: if the column value selects it, some columns are
assigned, each with the value converted by its column; the others stay. -/
def updatedRow (t : TableDef) (fp : FloatOps) (set : List String) (params : List Value)
    (w : String) (v : Value) (r : Row) : Row :=
  if (r w).same ((t.affinity w).apply fp v) then
    fun c => if c ∈ set then (t.affinity c).apply fp (assigned set params c) else r c
  else r

/-- **The rows after an update** are those before it, each one updated, in
their order: nothing is deleted or added. -/
theorem update_rows {fp : FloatOps} {tab tab' : Table} {set : List String} {params : List Value}
    {w : String} {v : Value} (h : t.update fp tab set params w v = .ok tab') :
    tab'.rows = tab.rows.map (t.updatedRow fp set params w v) := by
  unfold TableDef.update at h
  dsimp only at h
  split at h
  · rename_i hnone
    cases h
    rw [Bool.not_eq_true', List.any_eq_false] at hnone
    refine ((List.map_congr_left (fun r hr => ?_)).trans (List.map_id _)).symm
    exact if_neg (hnone r hr)
  · split at h
    · cases h
    · split at h
      · cases h
      · split at h
        · cases h
          rfl
        · cases h

/-- **An update of the row with a key** is refused exactly when it makes rows
conflict. The key stays as it is, and no other column has to have a value, so
the two other reasons for which an update can be refused do not occur. -/
theorem update_of_key {fp : FloatOps} {tab : Table} (hv : t.Valid tab) {k : String}
    (hkey : t.key = some k) (haff : t.affinity k = .integer)
    (hnn : ∀ col ∈ t.columns, col.notNull = true → col.name = k) {set : List String}
    {params : List Value} {n : ℤ} (hset : k ∈ set → assigned set params k = .integer n) :
    t.update fp tab set params k (.integer n)
      = if (tab.rows.map (t.updatedRow fp set params k (.integer n))).Pairwise
          (fun a b => t.conflicts a b = false) then
          .ok ⟨tab.rows.map (t.updatedRow fp set params k (.integer n)), tab.seq⟩
        else .error .constraint := by
  -- every row keeps its key
  have hkeys : ∀ r ∈ tab.rows.map (t.updatedRow fp set params k (.integer n)),
      ∃ n, r k = .integer n := by
    intro r' hr'
    obtain ⟨r, hr, rfl⟩ := List.mem_map.mp hr'
    obtain ⟨m, hm⟩ := hv.keys k hkey r hr
    unfold updatedRow
    split
    · dsimp only
      split
      · rename_i hk
        rw [hset hk, haff]
        exact ⟨n, rfl⟩
      · exact ⟨m, hm⟩
    · exact ⟨m, hm⟩
  have hrowids : ¬(tab.rows.map (t.updatedRow fp set params k (.integer n))).any
      (fun r => t.key.isSome && (t.rowid r).isNone) = true := by
    intro hany
    obtain ⟨r, hr, hnone⟩ := List.any_eq_true.mp hany
    obtain ⟨m, hm⟩ := hkeys r hr
    unfold rowid at hnone
    rw [hkey] at hnone
    dsimp only at hnone
    rw [hm] at hnone
    cases hnone
  have hvalues : ¬(tab.rows.map (t.updatedRow fp set params k (.integer n))).any
      t.lacksValue = true := by
    intro hany
    obtain ⟨r, hr, hlacks⟩ := List.any_eq_true.mp hany
    obtain ⟨col, hcol, hnull⟩ := List.any_eq_true.mp hlacks
    obtain ⟨m, hm⟩ := hkeys r hr
    rw [Bool.and_eq_true] at hnull
    rw [hnn col hcol hnull.1, hm] at hnull
    cases hnull.2
  unfold TableDef.update
  show (if (!tab.rows.any _) = true then _ else
    if (tab.rows.map (t.updatedRow fp set params k (.integer n))).any _ = true then _ else
    if (tab.rows.map (t.updatedRow fp set params k (.integer n))).any _ = true then _ else _) = _
  by_cases hhit : tab.rows.any (fun r => (r k).same ((t.affinity k).apply fp (.integer n))) = true
  · rw [if_neg (by rw [hhit]; exact Bool.false_ne_true), if_neg hrowids, if_neg hvalues]
    rfl
  · have hsame : tab.rows.map (t.updatedRow fp set params k (.integer n)) = tab.rows := by
      refine (List.map_congr_left (fun r hr => ?_)).trans (List.map_id _)
      exact if_neg (fun h => hhit (List.any_eq_true.mpr ⟨r, hr, h⟩))
    rw [if_pos (by simpa using hhit), hsame, if_pos hv.distinct]

/-- **An update keeps the table valid.** It is refused where it would leave
rows in conflict or a key that is no integer, so those of the rows that it
leaves are not. -/
theorem Valid.update {fp : FloatOps} {tab tab' : Table} {set : List String} {params : List Value}
    {w : String} {v : Value} (hv : t.Valid tab)
    (h : t.update fp tab set params w v = .ok tab') : t.Valid tab' := by
  unfold TableDef.update at h
  dsimp only at h
  split at h
  · cases h
    exact hv
  · split at h
    · cases h
    · rename_i hkeys
      split at h
      · cases h
      · split at h
        · rename_i hpw
          cases h
          refine ⟨hpw, fun k hk x hx => ?_⟩
          have hnot := fun hc => hkeys (List.any_eq_true.mpr ⟨x, hx, hc⟩)
          simp only [hk, Option.isSome_some, Bool.true_and, Option.isNone_iff_eq_none] at hnot
          unfold rowid at hnot
          rw [hk] at hnot
          dsimp only at hnot
          split at hnot
          · rename_i n hn
            exact ⟨n, hn⟩
          · exact absurd rfl hnot
        · cases h

/-! ### Values and keys -/

/-- Every row has a value where the table says so. It is not part of `Valid`
because the results that rest on unique rows do not need it. -/
def Complete (t : TableDef) (tab : Table) : Prop := ∀ r ∈ tab.rows, t.lacksValue r = false

/-- A row that is placed lacks no value. -/
theorem lacksValue_of_place {oc : OnConflict} {tab tab' : Table} {r : Row}
    (h : t.place oc tab r = .ok (tab', true)) : t.lacksValue r = false := by
  unfold place at h
  split at h
  · split at h <;> cases h
  · rename_i hlacks
    exact Bool.eq_false_iff.mpr hlacks

/-- **What an insertion puts into the rows**: those of the table before, and
a row that lacks no value. An invariant of the rows one by one is kept if the
new row has it. -/
theorem mem_of_insert {oc : OnConflict} {tab tab' : Table} {r : Row} {id : Option ℤ}
    (h : t.insert oc tab r = .ok (tab', id)) {x : Row} (hx : x ∈ tab'.rows) :
    x ∈ tab.rows ∨ t.keyed tab r = .ok x ∧ t.lacksValue x = false := by
  obtain ⟨r', placed, hk, hp, -⟩ := place_of_insert h
  cases placed with
  | false =>
    rw [place_not hp] at hx
    exact Or.inl hx
  | true =>
    rw [place_ok hp] at hx
    rcases List.mem_append.mp hx with hx | hx
    · exact Or.inl (List.mem_filter.mp hx).1
    · rw [List.mem_singleton.mp hx]
      exact Or.inr ⟨hk, lacksValue_of_place hp⟩

theorem Complete.insert {oc : OnConflict} {tab tab' : Table} {r : Row} {id : Option ℤ}
    (hc : t.Complete tab) (h : t.insert oc tab r = .ok (tab', id)) : t.Complete tab' := by
  intro x hx
  rcases mem_of_insert h hx with hold | ⟨-, hnew⟩
  · exact hc x hold
  · exact hnew

theorem Complete.update {fp : FloatOps} {tab tab' : Table} {set : List String}
    {params : List Value} {w : String} {v : Value} (hc : t.Complete tab)
    (h : t.update fp tab set params w v = .ok tab') : t.Complete tab' := by
  unfold TableDef.update at h
  dsimp only at h
  split at h
  · cases h
    exact hc
  · split at h
    · cases h
    · split at h
      · cases h
      · rename_i hcomplete
        split at h
        · cases h
          intro x hx
          exact Bool.eq_false_iff.mpr fun hlacks =>
            hcomplete (List.any_eq_true.mpr ⟨x, hx, hlacks⟩)
        · cases h

/-- The largest key ever used never gets smaller. -/
theorem seq_le_of_insert {oc : OnConflict} {tab tab' : Table} {r : Row} {id : Option ℤ}
    (h : t.insert oc tab r = .ok (tab', id)) : tab.seq ≤ tab'.seq := by
  have happend : ∀ (rows : List Row) (r : Row), tab.seq ≤ (t.append ⟨rows, tab.seq⟩ r).seq := by
    intro rows r
    show tab.seq ≤ ((t.rowid r).map (max tab.seq)).getD tab.seq
    cases t.rowid r with
    | none => exact le_refl _
    | some n => exact le_max_left _ _
  obtain ⟨r', placed, -, hp, -⟩ := place_of_insert h
  unfold place at hp
  split at hp
  · split at hp
    · cases hp
      exact le_refl _
    · cases hp
  · split at hp
    · cases oc <;> cases hp
      · exact le_refl _
      · exact happend _ r'
    · cases hp
      exact happend tab.rows r'

theorem seq_of_update {fp : FloatOps} {tab tab' : Table} {set : List String}
    {params : List Value} {w : String} {v : Value}
    (h : t.update fp tab set params w v = .ok tab') : tab'.seq = tab.seq := by
  unfold TableDef.update at h
  dsimp only at h
  split at h
  · cases h
    rfl
  · split at h
    · cases h
    · split at h
      · cases h
      · split at h
        · cases h
          rfl
        · cases h

/-- The last key is none below those that were used. -/
theorem seq_le_lastKey (k : String) (tab : Table) : tab.seq ≤ lastKey k tab :=
  le_foldl_lastKey k tab.rows tab.seq

end TableDef

end Sql
