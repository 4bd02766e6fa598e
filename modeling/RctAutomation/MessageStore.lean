import RctAutomation.Messages
import RctAutomation.Sql.Program

/-!
# The message store

`MessageStore` keeps messages in the tables that carry their type's name. A
message is loaded by its first field or by the fields it has
(`MessageStore.loadById`, `MessageStore.load`), and a row is written into a
message column by column (`protoFromRows`).

`insertOrReplace` is the common body of `Insert`, `Replace` and `Update`: it
opens a transaction, writes the row of the scalar fields, then one row of
another table for each element of a repeated field, and commits. It is the
program of its calls, so that the same definition can be run by itself and
among the calls of another thread. An exception carries the message as the
caller finds it.
-/

open Sql

/-- `INSERT`, `REPLACE` or `UPDATE`: the word with which `InsertOrReplace` is
called and starts its statement. -/
inductive StoreCmd
  | insert | replace | update
  deriving DecidableEq

/-! ## Texts -/

/-- `INTO table (columns) VALUES (?, …)`, with a placeholder for each column. -/
def intoText (table : String) (cols : List String) : List Token :=
  .word table :: .lparen :: (commaSep (cols.map (fun c => [Token.word c]))
    ++ .rparen :: .kw .values :: .lparen
    :: (commaSep (cols.map (fun _ => [Token.mark])) ++ [.rparen]))

/-- The statement for the scalar fields. An update assigns all of them, the
ID too, and selects the row by the ID once more. -/
def rootText (cmd : StoreCmd) (table : String) (field_names : List String) (field0 : String) :
    List Token :=
  match cmd with
  | .insert => .kw .insert :: .kw .into :: intoText table field_names
  | .replace => .kw .replace :: .kw .into :: intoText table field_names
  | .update => .kw .update :: .word table :: .kw .set
      :: (commaSep (field_names.map (fun c => [Token.word c, .eq, .mark]))
        ++ [.kw .where, .word field0, .eq, .mark])

/-- The statement for an element of a repeated field, in a table that has the
names of the message and of the field. An insertion passes over an element
that is there; no statement removes one. -/
def childText (cmd : StoreCmd) (table field0 field : String) : List Token :=
  match cmd with
  | .insert | .update =>
    .kw .insert :: .kw .or :: .kw .ignore :: .kw .into
      :: intoText (table ++ "_" ++ field) [field0, field]
  | .replace => .kw .replace :: .kw .into :: intoText (table ++ "_" ++ field) [field0, field]

/-- The query of a lookup. The conditions follow one another as they are:
nothing is put between them, so only a lookup by one field, or by none, is a
statement. -/
def loadText (table : String) (field_names : List String) : List Token :=
  .kw .select :: .star :: .kw .from :: .word table :: .kw .where
    :: if field_names = [] then [.num 1]
      else field_names.flatMap (fun c => [Token.word c, .eq, .mark])

/-! ## Binding and reading -/

/-- The value a scalar field is bound as, where its type is supported.
Strings and bytes are both bound as texts. -/
def encodeField (fd : FieldDescriptor) (v : FieldValue) : Option Value :=
  match fd.type with
  | .int32 | .int64 => some (.integer (v.int?.getD 0))
  | .string | .bytes => some (.text (v.str?.getD []))
  | _ => none

/-- One field of `BindFromFields`. A repeated field takes up a number and is
not bound, so a scalar field after it is bound to a placeholder too far. -/
def bindField (m : Message) (acc : Prepared × ℕ) (fd : FieldDescriptor) :
    Option (Prepared × ℕ) :=
  if fd.repeated then some (acc.1, acc.2 + 1)
  else (encodeField fd (m.val fd.name)).map fun v => (acc.1.bind acc.2 v, acc.2 + 1)

/-- `BindFromFields`: the statement with its placeholders bound, and the
number after the last field. It fails where a field is of a type that cannot
be bound, which ends the process. -/
def bindFromFields (m : Message) (ps : Prepared) : Option (Prepared × ℕ) :=
  m.listFields.foldlM (bindField m) (ps, 1)

/-- The pieces of a text between its commas. -/
def splitComma (b : Bytes) : List Bytes := b.splitOn 44

/-- `atoll`. -/
def atoll (b : Bytes) : ℤ := clampInt64 (intPrefix b)

/-- One column of a row written into a message, by the field that has its
name. A text of several numbers is read into a repeated field by its commas.
Any other number is read as an `int`, also where the field has 64 bits. -/
def setColumn (fp : FloatOps) (desc : Descriptor) (m : Message) (col : String × Value) :
    Option Message :=
  match desc.findFieldByName col.1 with
  | none => none
  | some fd =>
    match fd.type with
    | .int32 => some (m.set fd (.int col.2.toColumnInt))
    | .int64 =>
      if fd.repeated then
        some (m.set fd (.ints ((m.val fd.name).ints?
          ++ (splitComma (col.2.toText fp)).map atoll)))
      else some (m.set fd (.int col.2.toColumnInt))
    | .string | .bytes => some (m.set fd (.str (col.2.toText fp)))
    | _ => none

/-- `ProtoFromRows`: the first row written into a message, and whether there
was one. Without one the message stays as it is. The process aborts on a
column the message has no field for. -/
def protoFromRows (fp : FloatOps) (desc : Descriptor) (rows : List (List (String × Value)))
    (result : Message) : Option (Bool × Message) :=
  match rows with
  | [] => some (false, result)
  | row :: _ => (row.foldlM (setColumn fp desc) result).map (fun m => (true, m))

namespace MessageStore

/-- The query of `LoadById`. -/
def loadByIdText (desc : Descriptor) (table : String) : List Token :=
  loadText table ((desc.findFieldByNumber 1).toList.map FieldDescriptor.name)

/-- `LoadById`: the row with an ID, written into a message. The query is
prepared once by the source and kept, which makes no difference to what it
reads. -/
def loadById (cat : Catalog) (desc : Descriptor) (table : String) (db : Db) (lookup : Message)
    (id : ℤ) : Option (Bool × Message) :=
  match cat.prepare (loadByIdText desc table) with
  | none => none
  | some ps => protoFromRows cat.fp desc (cat.query db (ps.bind 1 (.integer id))) lookup

/-- `Load`: the first row that has the fields of the message, written into
it. Fields that are set and are not columns, or more than one field, leave no
statement that can be prepared, and the process ends. -/
def load (cat : Catalog) (desc : Descriptor) (table : String) (db : Db) (lookup : Message) :
    Option (Bool × Message) :=
  if lookup.listFields.any FieldDescriptor.repeated then none
  else
    match cat.prepare (loadText table (lookup.listFields.map FieldDescriptor.name)) with
    | none => none
    | some ps =>
      match bindFromFields lookup ps with
      | none => none
      | some (ps, _) => protoFromRows cat.fp desc (cat.query db ps) lookup

end MessageStore

/-! ## Saving -/

open Prog

/-- The ID as `InsertOrReplace` knows it, an `int`: the message's own, cut
off to 32 bits, `-1` where it has none yet, and `0` where its first field is
no ID. -/
def localId (value : Message) : ℤ :=
  match value.desc.field0.type with
  | .int64 =>
    match value.val value.desc.field0.name with
    | .int n => toInt32 n
    | _ => -1
  | _ => 0

/-- The names of the populated scalar fields. -/
def scalarNames (value : Message) : List String :=
  (value.listFields.filter (fun fd => !fd.repeated)).map FieldDescriptor.name

/-- Giving up the transaction with an exception. The rollback has to succeed,
or the process ends. -/
def rollbackAndThrow {α : Type} (value : Message) : Prog Message α := do
  let r ← ask (.exec .rollback)
  check (r == .ok)
  .raise value

/-- One row for an element of a repeated field. A refused statement is
finalized before the rollback, and finalizing it must succeed – which it does
not, as it reports the refusal once more. So the process ends where the
exception was meant. -/
def storeChild (value : Message) (ps : Prepared) (local_id item : ℤ) : Prog Message Unit := do
  let code ← ask (.step ((ps.bind 1 (.integer local_id)).bind 2 (.integer item)))
  match code with
  | .constraint => do
    check (finalizeCode code == .ok)
    rollbackAndThrow value
  | .done => check (finalizeCode code == .ok)
  | _ => .abort

/-- The rows of a repeated field, in the order of its elements, with one
prepared statement for all of them. -/
def storeChildren (value : Message) (ps : Prepared) (local_id : ℤ) : List ℤ → Prog Message Unit
  | [] => pure ()
  | item :: items => do
    storeChild value ps local_id item
    storeChildren value ps local_id items

/-- One repeated field: its statement is prepared once, and bound and stepped
for each element. A field of another type than integers ends the process. -/
def storeRepeated (cmd : StoreCmd) (value : Message) (local_id : ℤ) (fd : FieldDescriptor) :
    Prog Message Unit := do
  let ps? ← ask (.prepare (childText cmd value.desc.name value.desc.field0.name fd.name))
  match ps? with
  | none => .abort
  | some ps =>
    match value.val fd.name with
    | .ints l => storeChildren value ps local_id l
    -- reading the elements as integers is fatal for a field of another type
    | _ => .abort

/-- The repeated fields, in the order of the descriptor. The first row that
is refused ends the process. -/
def storeAllRepeated (cmd : StoreCmd) (value : Message) (local_id : ℤ) :
    List FieldDescriptor → Prog Message Unit
  | [] => pure ()
  | fd :: fds => do
    storeRepeated cmd value local_id fd
    storeAllRepeated cmd value local_id fds

/-- An ID that was not known is the last one inserted, and is written into
the message at once, before the rows of the repeated fields and before the
commit. -/
def writeBackId (value : Message) (local_id : ℤ) : Prog Message (ℤ × Message) :=
  if local_id = -1 then do
    let rowid ← ask .lastInsertRowid
    pure (toInt32 rowid, value.set value.desc.field0 (.int (toInt32 rowid)))
  else pure (local_id, value)

/-- The end of the transaction. If it cannot be committed it is rolled back,
and the exception carries the message with the ID that was written back. -/
def commitOrThrow (value : Message) : Prog Message (Code × Message) := do
  let result ← ask (.exec .commit)
  if result ≠ .ok then rollbackAndThrow value
  else pure (.ok, value)

/-- What follows the row of the scalar fields: the ID, the rows of the
repeated fields, and the commit. -/
def storeRest (cmd : StoreCmd) (value : Message) (local_id : ℤ) :
    Prog Message (Code × Message) := do
  let (local_id, value') ← writeBackId value local_id
  storeAllRepeated cmd value' local_id (value.listFields.filter FieldDescriptor.repeated)
  commitOrThrow value'

/-- The statement for the scalar fields, with everything bound: an update has
the ID as its last placeholder. -/
def bindRoot (cmd : StoreCmd) (value : Message) (ps : Prepared) : Option Prepared :=
  (bindFromFields value ps).map fun (ps, next_field) =>
    if cmd = .update then ps.bind next_field (.integer (localId value)) else ps

/-- **`InsertOrReplace`.** After `NeverSave` it answers without a call.
Otherwise it opens a transaction, and whatever SQLite answers from then on
either goes on to the commit, raises the exception after a rollback, or fails
a check and ends the process. -/
def insertOrReplace (never_save : Bool) (value : Message) (cmd : StoreCmd) :
    Prog Message (Code × Message) :=
  if never_save then pure (.misuse, value)
  else do
    let r ← ask (.exec .begin)
    check (r == .ok)
    check (!(cmd == .update) || localId value != -1)
    let ps? ← ask (.prepare (rootText cmd value.desc.name (scalarNames value)
      value.desc.field0.name))
    match ps?.bind (bindRoot cmd value) with
    | none => .abort
    | some ps => do
      let code ← ask (.step ps)
      match code with
      | .constraint => rollbackAndThrow value
      | .ok | .done => storeRest cmd value (localId value)
      | _ => .abort
