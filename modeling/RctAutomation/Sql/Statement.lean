import Mathlib.Algebra.Order.BigOperators.Group.List
import RctAutomation.Sql.Table

/-!
# Statements: their text, their preparation and their effect

A statement reaches SQLite as text. `Token` is that text after lexical
analysis, where the spacing of the source and the case of its keywords are
gone, and `parse` recognises the part of SQL the development needs: an
insertion under a conflict policy, an update of the rows a column selects,
and the reading of a table or view. A statement is prepared when it parses
and names a table and columns the catalog has (`Catalog.prepare`).

`Catalog.exec` is the effect of a prepared statement on the contents of the
database. It checks the foreign keys that are not deferred when the statement
ends, the way SQLite does: by whether the statement leaves more rows without
a parent than it found (`Catalog.orphans`).
-/

namespace Sql

/-! ## Text -/

/-- The keywords of the part of SQL that is recognised. -/
inductive Keyword
  | insert | or | ignore | replace | into | values | update | set | select | «from» | «where»
  deriving DecidableEq

/-- A token of SQL text. A word is the name of a table or a column, and a
number only occurs as the condition of a reading of everything. -/
inductive Token
  | kw (k : Keyword)
  | word (w : String)
  | mark | comma | lparen | rparen | eq | star
  | num (n : ℕ)
  deriving DecidableEq

/-- The pieces of a text joined by commas, as a loop writes them that puts a
comma before each piece but the first. -/
def commaSep : List (List Token) → List Token
  | [] => []
  | [p] => p
  | p :: q :: r => p ++ .comma :: commaSep (q :: r)

/-- A statement, by what its text says. The values are not part of it: a text
has placeholders, and what is bound to them comes with the prepared
statement. -/
inductive Stmt
  /-- Insert one row, giving values to some columns. -/
  | insert (oc : OnConflict) (table : String) (cols : List String)
  /-- Assign some columns of the rows a column selects. -/
  | update (table : String) (set : List String) (whereCol : String)
  /-- Read the rows of a table or view, all of them or those a column
  selects. -/
  | select (source : String) (whereCol : Option String)
  deriving DecidableEq

namespace Stmt

/-- The table or view the statement is about. -/
def table : Stmt → String
  | insert _ t _ => t
  | update t _ _ => t
  | select s _ => s

/-- The number of placeholders of the statement, which are numbered from one
in the order of the text: an update has those it assigns, and one more for
the row it selects. -/
def marks : Stmt → ℕ
  | insert _ _ cols => cols.length
  | update _ set _ => set.length + 1
  | select _ c => c.toList.length

end Stmt

/-- A nonempty list of column names, and what follows it. The list ends at
the first name without a comma after it. -/
def wordList : List Token → Option (List String × List Token)
  | .word c :: .comma :: r => (wordList r).map fun (cs, r') => (c :: cs, r')
  | .word c :: r => some ([c], r)
  | _ => none

/-- A nonempty list of placeholders, by its length. -/
def markList : List Token → Option (ℕ × List Token)
  | .mark :: .comma :: r => (markList r).map fun (n, r') => (n + 1, r')
  | .mark :: r => some (1, r)
  | _ => none

/-- A nonempty list of assignments of a placeholder to a column. -/
def assignList : List Token → Option (List String × List Token)
  | .word c :: .eq :: .mark :: .comma :: r => (assignList r).map fun (cs, r') => (c :: cs, r')
  | .word c :: .eq :: .mark :: r => some ([c], r)
  | _ => none

/-- What follows `INTO`: the table, its columns and as many placeholders
as there are columns. A text with a different number of them is not well
formed. -/
def parseInto (oc : OnConflict) : List Token → Option Stmt
  | .word t :: .lparen :: r =>
    match wordList r with
    | some (cols, .rparen :: .kw .values :: .lparen :: r') =>
      match markList r' with
      | some (n, [.rparen]) => if n = cols.length then some (.insert oc t cols) else none
      | _ => none
    | _ => none
  | _ => none

/-- **The statement a text is, if it is well formed.** Everything has to be
there and nothing may follow: an update without its assignments, or one whose
condition lacks a word, is no statement at all. -/
def parse : List Token → Option Stmt
  | .kw .insert :: .kw .into :: r => parseInto .abort r
  | .kw .insert :: .kw .or :: .kw .ignore :: .kw .into :: r => parseInto .ignore r
  | .kw .replace :: .kw .into :: r => parseInto .replace r
  | .kw .update :: .word t :: .kw .set :: r =>
    match assignList r with
    | some (cols, [.kw .where, .word k, .eq, .mark]) => some (.update t cols k)
    | _ => none
  | [.kw .select, .star, .kw .from, .word s, .kw .where, .num 1] => some (.select s none)
  | [.kw .select, .star, .kw .from, .word s, .kw .where, .word c, .eq, .mark] =>
    some (.select s (some c))
  | _ => none

/-! ### The texts that parse -/

theorem wordList_commaSep (cs : List String) (hcs : cs ≠ []) (r : List Token)
    (hr : ∀ r', r ≠ .comma :: r') :
    wordList (commaSep (cs.map (fun c => [Token.word c])) ++ r) = some (cs, r) := by
  induction cs with
  | nil => exact absurd rfl hcs
  | cons c cs ih =>
    cases cs with
    | nil =>
      show wordList (.word c :: r) = _
      cases r with
      | nil => rfl
      | cons t r' =>
        cases t <;> first | rfl | exact absurd rfl (hr r')
    | cons d ds =>
      show wordList (.word c :: .comma :: (commaSep ((d :: ds).map (fun c => [Token.word c])) ++ r))
        = _
      rw [wordList, ih (List.cons_ne_nil _ _)]
      rfl

theorem markList_commaSep (n : ℕ) (hn : n ≠ 0) (r : List Token) (hr : ∀ r', r ≠ .comma :: r') :
    markList (commaSep (List.replicate n [Token.mark]) ++ r) = some (n, r) := by
  induction n with
  | zero => exact absurd rfl hn
  | succ n ih =>
    cases n with
    | zero =>
      show markList (.mark :: r) = _
      cases r with
      | nil => rfl
      | cons t r' =>
        cases t <;> first | rfl | exact absurd rfl (hr r')
    | succ n =>
      show markList (.mark :: .comma :: (commaSep (List.replicate (n + 1) [Token.mark]) ++ r)) = _
      rw [markList, ih (Nat.succ_ne_zero n)]
      rfl

theorem assignList_commaSep (cs : List String) (hcs : cs ≠ []) (r : List Token)
    (hr : ∀ r', r ≠ .comma :: r') :
    assignList (commaSep (cs.map (fun c => [Token.word c, .eq, .mark])) ++ r) = some (cs, r) := by
  induction cs with
  | nil => exact absurd rfl hcs
  | cons c cs ih =>
    cases cs with
    | nil =>
      show assignList (.word c :: .eq :: .mark :: r) = _
      cases r with
      | nil => rfl
      | cons t r' =>
        cases t <;> first | rfl | exact absurd rfl (hr r')
    | cons d ds =>
      show assignList (.word c :: .eq :: .mark :: .comma
        :: (commaSep ((d :: ds).map (fun c => [Token.word c, .eq, .mark])) ++ r)) = _
      rw [assignList, ih (List.cons_ne_nil _ _)]
      rfl

/-- The text after `INTO` for a nonempty list of columns. -/
theorem parseInto_text (oc : OnConflict) (t : String) (cs : List String) (hcs : cs ≠ []) :
    parseInto oc (.word t :: .lparen :: (commaSep (cs.map (fun c => [Token.word c]))
      ++ .rparen :: .kw .values :: .lparen
      :: (commaSep (cs.map (fun _ => [Token.mark])) ++ [.rparen]))) = some (.insert oc t cs) := by
  have hmarks : cs.map (fun _ => [Token.mark]) = List.replicate cs.length [Token.mark] :=
    List.map_const' ..
  unfold parseInto
  dsimp only
  rw [wordList_commaSep cs hcs _ (by simp), hmarks]
  dsimp only
  rw [markList_commaSep cs.length (by simpa using hcs) _ (by simp)]
  simp

/-! ## The catalog -/

/-- The contents of a database, by the name of the table. A name that the
catalog does not have is never looked at. -/
abbrev Db := String → Table

/-- A foreign key: each value of a column of the child table is the value of
a column of the parent table, unless it is the null. A deferred one is only
checked when a transaction ends, the others when a statement does. -/
structure ForeignKey where
  child : String
  childCol : String
  parent : String
  parentCol : String
  deferred : Bool

/-- A view: its columns and the rows it computes. A column that shows one of
a table is declared as that one, and a computed column has no type, so that
nothing is converted when it is compared. -/
structure View where
  name : String
  columns : List Column
  rows : Db → List Row

/-- What a connection knows of its database: the declarations, which no
statement here changes, and the conversions of SQLite. -/
structure Catalog where
  tables : List TableDef
  foreignKeys : List ForeignKey
  views : List View
  fp : FloatOps

/-- A prepared statement and what is bound to its placeholders. A placeholder
to which nothing was bound is the null. -/
structure Prepared where
  stmt : Stmt
  params : List Value
  deriving DecidableEq

/-- Binding the `i`-th placeholder, counted from one. An index that the
statement does not have changes nothing. -/
def Prepared.bind (p : Prepared) (i : ℕ) (v : Value) : Prepared :=
  if i = 0 then p else { p with params := p.params.set (i - 1) v }

@[simp] theorem Prepared.bind_stmt (p : Prepared) (i : ℕ) (v : Value) :
    (p.bind i v).stmt = p.stmt := by
  unfold Prepared.bind
  split <;> rfl

namespace Catalog

variable (cat : Catalog)

/-- The declaration of a table. -/
def table? (name : String) : Option TableDef := cat.tables.find? (fun t => t.name == name)

/-- The declaration of a view. -/
def view? (name : String) : Option View := cat.views.find? (fun v => v.name == name)

/-- The columns a table or view has. -/
def columns? (source : String) : Option (List Column) :=
  match cat.table? source with
  | some t => some t.columns
  | none => (cat.view? source).map View.columns

/-- The statement names a table and columns that exist. A view can be read,
and cannot be written. -/
def resolves : Stmt → Bool
  | .insert _ t cols =>
    match cat.table? t with
    | some d => cols.all (fun c => (d.column? c).isSome)
    | none => false
  | .update t set w =>
    match cat.table? t with
    | some d => (w :: set).all (fun c => (d.column? c).isSome)
    | none => false
  | .select s w =>
    match cat.columns? s with
    | some cols => w.all (fun c => cols.any (fun col => col.name == c))
    | none => false

/-- **Preparing a text**: it has to parse and to resolve, and there is no
statement otherwise. Nothing is bound yet. -/
def prepare (sql : List Token) : Option Prepared :=
  match parse sql with
  | some s => if cat.resolves s then some ⟨s, List.replicate s.marks .null⟩ else none
  | none => none

variable {cat} in
/-- A text that can be prepared parses and resolves, and has nothing bound to
it. -/
theorem of_prepare {sql : List Token} {ps : Prepared} (h : cat.prepare sql = some ps) :
    ∃ s, parse sql = some s ∧ cat.resolves s = true ∧ ps = ⟨s, List.replicate s.marks .null⟩ := by
  unfold prepare at h
  split at h
  · rename_i s hs
    obtain ⟨hres, hps⟩ := Option.ite_none_right_eq_some.mp h
    exact ⟨s, hs, hres, (Option.some.inj hps).symm⟩
  · cases h

/-- The row has no parent under a foreign key. -/
def isOrphan (db : Db) (fk : ForeignKey) (r : Row) : Bool :=
  !(r fk.childCol == .null)
    && !(db fk.parent).rows.any (fun p => (p fk.parentCol).same (r fk.childCol))

/-- **The number of rows without a parent**, over the foreign keys that are
deferred or over those that are not. A row counts once for each key under
which it has no parent. -/
def orphans (deferred : Bool) (db : Db) : ℕ :=
  ((cat.foreignKeys.filter (fun fk => fk.deferred == deferred)).map
    (fun fk => (db fk.child).rows.countP (isOrphan db fk))).sum

/-- A statement ends: its effect stands unless it made orphans. What counts
is whether there are more than before, so a database that has some already
does not refuse every statement. -/
def checked (db db' : Db) (id : Option ℤ) : Except Code (Db × Option ℤ) :=
  if cat.orphans false db < cat.orphans false db' then .error .constraint else .ok (db', id)

/-- **The effect of a statement**: the contents after it, and the key of the
row it inserted. One that is refused leaves no effect at all, and gives the
reason. -/
def exec (db : Db) (p : Prepared) : Except Code (Db × Option ℤ) :=
  match p.stmt with
  | .insert oc name cols =>
    match cat.table? name with
    | none => .error .error
    | some t =>
      (t.insert oc (db name) (t.toStore cat.fp (TableDef.assigned cols p.params))).bind
        fun (tab, id) => cat.checked db (Function.update db name tab) id
  | .update name set w =>
    match cat.table? name with
    | none => .error .error
    | some t =>
      (t.update cat.fp (db name) set p.params w (p.params.getD set.length .null)).bind
        fun tab => cat.checked db (Function.update db name tab) none
  | .select _ _ => .ok (db, none)

/-- The rows of a table or view. Those of a view are computed from the tables
each time it is read. -/
def rowsOf (db : Db) (source : String) : List Row :=
  match cat.table? source with
  | some _ => (db source).rows
  | none => ((cat.view? source).map (fun v => v.rows db)).getD []

/-- The affinity of a column of a table or view. -/
def affinityIn (source c : String) : Affinity :=
  (((cat.columns? source).bind (fun cols => cols.find? (fun col => col.name == c))).map
    Column.affinity).getD .blob

/-- **What a `SELECT *` yields**: the rows it selects, each as its columns
with their names. The value it selects by is converted as one that is stored
in the column would be. -/
def query (db : Db) (p : Prepared) : List (List (String × Value)) :=
  match p.stmt with
  | .select s w =>
    let keep : Row → Bool := fun r =>
      w.all (fun c => (r c).same ((cat.affinityIn s c).apply cat.fp (p.params.getD 0 .null)))
    ((cat.rowsOf db s).filter keep).map
      (fun r => ((cat.columns? s).getD []).map (fun col => (col.name, r col.name)))
  | _ => []

/-- Every table of the database is valid. -/
def Valid (db : Db) : Prop := ∀ name t, cat.table? name = some t → t.Valid (db name)

/-! ## What a statement keeps -/

variable {cat}

theorem checked_ok {db db' db'' : Db} {id id' : Option ℤ}
    (h : cat.checked db db' id = .ok (db'', id')) : db'' = db' ∧ id' = id := by
  unfold checked at h
  split at h
  · cases h
  · cases h
    exact ⟨rfl, rfl⟩

theorem checked_error {db db' : Db} {id : Option ℤ} {e : Code}
    (h : cat.checked db db' id = .error e) : e = .constraint := by
  unfold checked at h
  split at h
  · cases h
    rfl
  · cases h

/-- **A statement that does not happen says so**: its code is one of those
that report a failure. So a caller that checks the code knows whether the
contents have changed. -/
theorem exec_error {db : Db} {p : Prepared} {e : Code} (h : cat.exec db p = .error e) :
    e.failed = true := by
  unfold exec at h
  split at h
  · rename_i oc name cols _
    split at h
    · cases h
      rfl
    · rename_i t _
      cases hi : t.insert oc (db name) (t.toStore cat.fp (TableDef.assigned cols p.params)) with
      | error e' =>
        rw [hi] at h
        cases h
        exact TableDef.insert_error hi
      | ok res =>
        rw [hi] at h
        rw [checked_error h]
        rfl
  · rename_i name set w _
    split at h
    · cases h
      rfl
    · rename_i t _
      cases hu : t.update cat.fp (db name) set p.params w (p.params.getD set.length .null) with
      | error e' =>
        rw [hu] at h
        cases h
        exact TableDef.update_error hu
      | ok tab =>
        rw [hu] at h
        rw [checked_error h]
        rfl
  · cases h

/-- **More parents make no orphans**: where the children are the same rows,
and no parent is gone, no row loses its parent. This is how an insertion that
only adds rows to a parent table is seen to pass the check. -/
theorem orphans_le {db db' : Db} {deferred : Bool}
    (hchild : ∀ fk ∈ cat.foreignKeys, fk.deferred = deferred →
      (db' fk.child).rows = (db fk.child).rows)
    (hparent : ∀ fk ∈ cat.foreignKeys, fk.deferred = deferred →
      (db fk.parent).rows ⊆ (db' fk.parent).rows) :
    cat.orphans deferred db' ≤ cat.orphans deferred db := by
  unfold orphans
  refine List.sum_le_sum (fun fk hfk => ?_)
  obtain ⟨hmem, hdef⟩ := List.mem_filter.mp hfk
  rw [hchild fk hmem (eq_of_beq hdef)]
  refine List.countP_mono_left (fun r _ horphan => ?_)
  unfold isOrphan at horphan ⊢
  simp only [Bool.and_eq_true, Bool.not_eq_true', List.any_eq_false] at horphan ⊢
  exact ⟨horphan.1, fun p hp => horphan.2 p (hparent fk hmem (eq_of_beq hdef) hp)⟩

/-- **What a statement that is not refused did**: it changed its table alone,
to what the table operation gives. There is one case for each kind of
statement, and the results about statements go by these cases instead of
unfolding `exec`. -/
theorem exec_ok {db db' : Db} {p : Prepared} {id : Option ℤ}
    (h : cat.exec db p = .ok (db', id)) :
    (∃ oc name cols t tab, p.stmt = .insert oc name cols ∧ cat.table? name = some t
      ∧ t.insert oc (db name) (t.toStore cat.fp (TableDef.assigned cols p.params)) = .ok (tab, id)
      ∧ db' = Function.update db name tab)
    ∨ (∃ name set w t tab, p.stmt = .update name set w ∧ cat.table? name = some t
      ∧ t.update cat.fp (db name) set p.params w (p.params.getD set.length .null) = .ok tab
      ∧ db' = Function.update db name tab)
    ∨ (∃ s w, p.stmt = .select s w ∧ db' = db) := by
  unfold exec at h
  split at h
  · rename_i oc name cols hs
    split at h
    · cases h
    · rename_i t ht
      cases hi : t.insert oc (db name) (t.toStore cat.fp (TableDef.assigned cols p.params)) with
      | error e =>
        rw [hi] at h
        cases h
      | ok res =>
        rw [hi] at h
        obtain ⟨rfl, rfl⟩ := checked_ok h
        exact Or.inl ⟨oc, name, cols, t, res.1, hs, ht, hi, rfl⟩
  · rename_i name set w hs
    split at h
    · cases h
    · rename_i t ht
      cases hu : t.update cat.fp (db name) set p.params w (p.params.getD set.length .null) with
      | error e =>
        rw [hu] at h
        cases h
      | ok tab =>
        rw [hu] at h
        obtain ⟨rfl, rfl⟩ := checked_ok h
        exact Or.inr (Or.inl ⟨name, set, w, t, tab, hs, ht, hu, rfl⟩)
  · rename_i s w hs
    cases h
    exact Or.inr (Or.inr ⟨s, w, hs, rfl⟩)

/-- **A statement changes no table but its own**, whatever it is and whether
it finds something to change or not. -/
theorem exec_frame {db db' : Db} {p : Prepared} {id : Option ℤ}
    (h : cat.exec db p = .ok (db', id)) {name : String} (hn : name ≠ p.stmt.table) :
    db' name = db name := by
  rcases exec_ok h with ⟨oc, t, cols, d, tab, hs, -, -, rfl⟩ | ⟨t, set, w, d, tab, hs, -, -, rfl⟩
    | ⟨s, w, -, rfl⟩
  · rw [hs] at hn
    exact Function.update_of_ne hn ..
  · rw [hs] at hn
    exact Function.update_of_ne hn ..
  · rfl

/-- A database stays valid when one of its tables gets valid contents. -/
theorem Valid.set {db : Db} (hv : cat.Valid db) {t : String} {d : TableDef}
    (ht : cat.table? t = some d) {tab : Table} (htab : d.Valid tab) :
    cat.Valid (Function.update db t tab) := by
  intro n d' hd'
  by_cases hn : n = t
  · subst hn
    obtain rfl := Option.some.inj (ht.symm.trans hd')
    rw [Function.update_self]
    exact htab
  · rw [Function.update_of_ne hn]
    exact hv n d' hd'

/-- **A statement keeps the database valid**: its table is valid after the
table operation, and the others are untouched. -/
theorem Valid.exec {db db' : Db} {p : Prepared} {id : Option ℤ} (hv : cat.Valid db)
    (h : cat.exec db p = .ok (db', id)) : cat.Valid db' := by
  rcases exec_ok h with ⟨oc, t, cols, d, tab, hs, hd, hi, rfl⟩
    | ⟨t, set, w, d, tab, hs, hd, hi, rfl⟩ | ⟨s, w, -, rfl⟩
  · exact hv.set hd ((hv t d hd).insert hi)
  · exact hv.set hd ((hv t d hd).update hi)
  · exact hv

end Catalog

end Sql
