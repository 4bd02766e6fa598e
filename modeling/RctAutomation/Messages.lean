import RctAutomation.Sql.Value

/-!
# Messages

The store reads and writes protocol buffers through reflection: it asks a
message for its descriptor, lists the fields that are populated, and gets or
sets a field by its descriptor. `Message` is what reflection shows of a
message – a descriptor and a value for each field name – and is what
`MessageStore` works on.

The program itself works on the message types of the `.proto` files. Each is a
structure here, with an optional value for an optional field, and a stored
type comes with the message reflection shows (`toMessage`) and with the way a
message is written back into it (`readBack`).

A merge request and a playlist are different types with the same field
numbers, and one is read as the other through the wire format
(`Playlist.parse`, `PlaylistMergeRequest.serialize`).
-/

open Sql (Bytes ascii)

/-! ## Reflection -/

/-- The types of field the stored messages have. The store supports the
integers and the strings, and ends the process at any other type. -/
inductive FieldType
  | int32 | int64 | string | bytes | enum | message
  deriving DecidableEq

/-- A field of a message type, as reflection shows it to the store: the
column it is kept in has its name. -/
structure FieldDescriptor where
  name : String
  number : ℕ
  type : FieldType
  repeated : Bool := false
  deriving DecidableEq

/-- The value of a field. The store never looks into the messages of a
repeated message field, so only their number is kept. A field that is set to
its default is not unset. -/
inductive FieldValue
  | unset
  | int (n : ℤ)
  | str (b : Bytes)
  | ints (l : List ℤ)
  | messages (n : ℕ)
  deriving DecidableEq

namespace FieldValue

/-- A field counts as populated when it has a value, or an element. Only such
fields are listed by reflection, and only they are stored. -/
def populated : FieldValue → Bool
  | unset => false
  | int _ => true
  | str _ => true
  | ints l => !l.isEmpty
  | messages n => n != 0

def int? : FieldValue → Option ℤ
  | int n => some n
  | _ => none

def str? : FieldValue → Option Bytes
  | str b => some b
  | _ => none

def ints? : FieldValue → List ℤ
  | ints l => l
  | _ => []

def ofInt : Option ℤ → FieldValue
  | some n => int n
  | none => unset

def ofStr : Option Bytes → FieldValue
  | some b => str b
  | none => unset

@[simp] theorem int?_ofInt (o : Option ℤ) : (ofInt o).int? = o := by cases o <;> rfl

@[simp] theorem str?_ofStr (o : Option Bytes) : (ofStr o).str? = o := by cases o <;> rfl

@[simp] theorem populated_ofInt (o : Option ℤ) : (ofInt o).populated = o.isSome := by
  cases o <;> rfl

@[simp] theorem populated_ofStr (o : Option Bytes) : (ofStr o).populated = o.isSome := by
  cases o <;> rfl

end FieldValue

/-- A message type: its fields in the order of their numbers, and the one
declared first. Reflection lists fields in the former order, and the store
takes the latter for the ID. -/
structure Descriptor where
  name : String
  fields : List FieldDescriptor
  /-- `field(0)`: the first in the order of declaration. -/
  field0 : FieldDescriptor

/-- The field `FindFieldByName` finds. -/
def Descriptor.findFieldByName (d : Descriptor) (name : String) : Option FieldDescriptor :=
  d.fields.find? (fun fd => fd.name == name)

/-- The field `FindFieldByNumber` finds. -/
def Descriptor.findFieldByNumber (d : Descriptor) (n : ℕ) : Option FieldDescriptor :=
  d.fields.find? (fun fd => fd.number == n)

/-- A message as reflection shows it. The values are given for all names;
those of fields that the type does not have are unset. -/
structure Message where
  desc : Descriptor
  val : String → FieldValue

namespace Message

/-- The populated fields, in the order of their numbers: `ListFields`. -/
def listFields (m : Message) : List FieldDescriptor :=
  m.desc.fields.filter (fun fd => (m.val fd.name).populated)

/-- Setting a field. -/
def set (m : Message) (fd : FieldDescriptor) (v : FieldValue) : Message :=
  { m with val := Function.update m.val fd.name v }

@[simp] theorem desc_set (m : Message) (fd : FieldDescriptor) (v : FieldValue) :
    (m.set fd v).desc = m.desc := rfl

@[simp] theorem val_set_self (m : Message) (fd : FieldDescriptor) (v : FieldValue) :
    (m.set fd v).val fd.name = v := Function.update_self ..

theorem val_set_of_ne (m : Message) (fd : FieldDescriptor) (v : FieldValue) {n : String}
    (h : n ≠ fd.name) : (m.set fd v).val n = m.val n := Function.update_of_ne h ..

/-- Setting a field to what it holds changes nothing. -/
theorem set_eq_self_iff (m : Message) (fd : FieldDescriptor) (v : FieldValue) :
    m.set fd v = m ↔ m.val fd.name = v := by
  constructor
  · intro h
    have := congrArg (fun x => Message.val x fd.name) h
    simpa using this.symm
  · intro h
    unfold set
    rw [← h, Function.update_eq_self]

theorem mem_listFields {m : Message} {fd : FieldDescriptor} :
    fd ∈ m.listFields ↔ fd ∈ m.desc.fields ∧ (m.val fd.name).populated = true :=
  List.mem_filter

end Message

/-! ## `playableitem.proto` -/

/-- `PlayableItem.Type`. -/
inductive ItemType
  | unknown | localfile | webstream
  deriving DecidableEq

/-- The number of a type on the wire and in a column. -/
def ItemType.number : ItemType → ℤ
  | unknown => 0
  | localfile => 1
  | webstream => 2

/-- The type with a number; an unknown number reads as `unknown`. -/
def ItemType.ofNumber (n : ℤ) : ItemType :=
  if n = 1 then localfile else if n = 2 then webstream else unknown

structure PlayableItem where
  playableItemID : Option ℤ := none
  filename : Option Bytes := none
  duration : Option ℤ := none
  description : Option Bytes := none
  type : Option ItemType := none
  cache : Option ℤ := none
  playcount : Option ℤ := none
  deriving DecidableEq

def playableItemDesc : Descriptor where
  name := "PlayableItem"
  fields :=
    [⟨"PlayableItemID", 1, .int64, false⟩, ⟨"filename", 2, .string, false⟩,
      ⟨"duration", 3, .int64, false⟩, ⟨"description", 4, .string, false⟩,
      ⟨"type", 5, .enum, false⟩, ⟨"cache", 6, .int32, false⟩, ⟨"playcount", 7, .int32, false⟩]
  field0 := ⟨"PlayableItemID", 1, .int64, false⟩

namespace PlayableItem

def toMessage (i : PlayableItem) : Message where
  desc := playableItemDesc
  val := fun
    | "PlayableItemID" => .ofInt i.playableItemID
    | "filename" => .ofStr i.filename
    | "duration" => .ofInt i.duration
    | "description" => .ofStr i.description
    | "type" => .ofInt (i.type.map ItemType.number)
    | "cache" => .ofInt i.cache
    | "playcount" => .ofInt i.playcount
    | _ => .unset

/-- An item as a message shows it. -/
def readBack (m : Message) : PlayableItem where
  playableItemID := (m.val "PlayableItemID").int?
  filename := (m.val "filename").str?
  duration := (m.val "duration").int?
  description := (m.val "description").str?
  type := (m.val "type").int?.map ItemType.ofNumber
  cache := (m.val "cache").int?
  playcount := (m.val "playcount").int?

/-- **Nothing of an item is lost in reflection.** -/
theorem readBack_toMessage (i : PlayableItem) : readBack i.toMessage = i := by
  have hty : ∀ t : Option ItemType, (t.map ItemType.number).map ItemType.ofNumber = t := by
    intro t
    cases t with
    | none => rfl
    | some t => cases t <;> rfl
  unfold readBack toMessage
  simp only [FieldValue.int?_ofInt, FieldValue.str?_ofStr, hty]

end PlayableItem

/-! ## `playlist.proto` -/

structure Playlist where
  playlistID : Option ℤ := none
  name : Option Bytes := none
  weight : Option ℤ := none
  playableItemID : List ℤ := []
  items : List PlayableItem := []
  length : Option ℤ := none
  deriving DecidableEq

def playlistDesc : Descriptor where
  name := "Playlist"
  fields :=
    [⟨"PlaylistID", 1, .int64, false⟩, ⟨"name", 2, .string, false⟩, ⟨"weight", 3, .int64, false⟩,
      ⟨"PlayableItemID", 4, .int64, true⟩, ⟨"items", 5, .message, true⟩,
      ⟨"length", 6, .int64, false⟩]
  field0 := ⟨"PlaylistID", 1, .int64, false⟩

/-- A subset of `Playlist`, with the same field numbers, that can be sent as
a merge request: it leaves out the items themselves and the length. -/
structure PlaylistMergeRequest where
  playlistID : Option ℤ := none
  name : Option Bytes := none
  weight : Option ℤ := none
  playableItemID : List ℤ := []
  deriving DecidableEq

structure PlaylistLock where
  name : Option Bytes := none
  deriving DecidableEq

def playlistLockDesc : Descriptor where
  name := "PlaylistLock"
  fields := [⟨"name", 1, .string, false⟩]
  field0 := ⟨"name", 1, .string, false⟩

def PlaylistLock.toMessage (l : PlaylistLock) : Message where
  desc := playlistLockDesc
  val := fun
    | "name" => .ofStr l.name
    | _ => .unset

namespace Playlist

def toMessage (p : Playlist) : Message where
  desc := playlistDesc
  val := fun
    | "PlaylistID" => .ofInt p.playlistID
    | "name" => .ofStr p.name
    | "weight" => .ofInt p.weight
    | "PlayableItemID" => .ints p.playableItemID
    | "items" => .messages p.items.length
    | "length" => .ofInt p.length
    | _ => .unset

/-- A playlist with the fields a message shows. The store does not touch its
items. -/
def readBack (p : Playlist) (m : Message) : Playlist where
  playlistID := (m.val "PlaylistID").int?
  name := (m.val "name").str?
  weight := (m.val "weight").int?
  playableItemID := (m.val "PlayableItemID").ints?
  items := p.items
  length := (m.val "length").int?

theorem readBack_toMessage (p : Playlist) : p.readBack p.toMessage = p := by
  unfold readBack toMessage
  simp [FieldValue.ints?]

/-- `MergeFrom`: a field that is set overwrites, a repeated one is appended.
What is not set in the request stays, and nothing can be removed by merging. -/
def mergeFrom (p q : Playlist) : Playlist where
  playlistID := q.playlistID <|> p.playlistID
  name := q.name <|> p.name
  weight := q.weight <|> p.weight
  playableItemID := p.playableItemID ++ q.playableItemID
  items := p.items ++ q.items
  length := q.length <|> p.length

end Playlist

/-! ### The wire format of a merge request -/

/-- The payload of a field on the wire: a number, or a sequence of bytes. -/
inductive WireValue
  | varint (n : ℤ)
  | bytes (b : Bytes)
  deriving DecidableEq

/-- A field on the wire: its number and its payload. -/
structure WireField where
  number : ℕ
  value : WireValue
  deriving DecidableEq

/-- A merge request serialized: its populated fields in the order of their
numbers, a repeated one an element at a time. -/
def PlaylistMergeRequest.serialize (r : PlaylistMergeRequest) : List WireField :=
  r.playlistID.toList.map (fun n => ⟨1, .varint n⟩)
    ++ r.name.toList.map (fun b => ⟨2, .bytes b⟩)
    ++ r.weight.toList.map (fun n => ⟨3, .varint n⟩)
    ++ r.playableItemID.map (fun n => ⟨4, .varint n⟩)

namespace Playlist

/-- One field read into a playlist. A field whose number or wire type the
type does not have is unknown, and no merge request carries items. -/
def parseField (p : Playlist) : WireField → Playlist
  | ⟨1, .varint n⟩ => { p with playlistID := some n }
  | ⟨2, .bytes b⟩ => { p with name := some b }
  | ⟨3, .varint n⟩ => { p with weight := some n }
  | ⟨4, .varint n⟩ => { p with playableItemID := p.playableItemID ++ [n] }
  | ⟨6, .varint n⟩ => { p with length := some n }
  | _ => p

/-- The playlist a sequence of fields is read as. A field that occurs twice
has its last value. -/
def parse (w : List WireField) : Playlist := w.foldl parseField {}

theorem foldl_parseField_items (ns : List ℤ) (p : Playlist) :
    (ns.map (fun n => (⟨4, .varint n⟩ : WireField))).foldl parseField p
      = { p with playableItemID := p.playableItemID ++ ns } := by
  induction ns generalizing p with
  | nil => simp
  | cons n ns ih =>
    rw [List.map_cons, List.foldl_cons, ih]
    simp [parseField]

/-- **A merge request is read as the playlist with the same fields.** This is
why the two types have to agree on their field numbers. -/
theorem parse_serialize (r : PlaylistMergeRequest) :
    parse r.serialize
      = { playlistID := r.playlistID, name := r.name, weight := r.weight,
          playableItemID := r.playableItemID } := by
  unfold parse PlaylistMergeRequest.serialize
  simp only [List.foldl_append, foldl_parseField_items]
  obtain ⟨i, n, w, l⟩ := r
  cases i <;> cases n <;> cases w <;> rfl

end Playlist

/-! ## `protostore.proto` -/

structure ProtoTable where
  protoStoreID : Option ℤ := none
  label : Option Bytes := none
  data : Option Bytes := none
  deriving DecidableEq

def protoTableDesc : Descriptor where
  name := "ProtoTable"
  fields :=
    [⟨"ProtoStoreID", 1, .int64, false⟩, ⟨"label", 2, .string, false⟩, ⟨"data", 3, .bytes, false⟩]
  field0 := ⟨"ProtoStoreID", 1, .int64, false⟩

def ProtoTable.toMessage (p : ProtoTable) : Message where
  desc := protoTableDesc
  val := fun
    | "ProtoStoreID" => .ofInt p.protoStoreID
    | "label" => .ofStr p.label
    | "data" => .ofStr p.data
    | _ => .unset

/-! ## `requirement.proto` -/

structure TimeSpecification where
  constrained_seconds : List ℤ := []
  constrained_minutes : List ℤ := []
  constrained_hours : List ℤ := []
  constrained_dow : List ℤ := []
  constrained_dom : List ℤ := []
  only_at_times : List ℤ := []
  /-- The number of seconds we can be late. -/
  gap : Option ℤ := none
  deriving DecidableEq

/-- `Requirement.Command`: what a requirement of the schedule asks for. -/
inductive Command
  | NO_OP | PLAY_FILES | LEGAL_ID | SET_MAINSHOW
  deriving DecidableEq

/-- The name of a command, by which its callback is registered and looked up. -/
def Command.name : Command → String
  | NO_OP => "NO_OP"
  | PLAY_FILES => "PLAY_FILES"
  | LEGAL_ID => "LEGAL_ID"
  | SET_MAINSHOW => "SET_MAINSHOW"

structure Requirement where
  «when» : Option TimeSpecification := none
  type : Option Command := none
  not_before : Option ℤ := none
  reboot : Option Bool := none
  internal_time_advance : Option ℤ := none
  playlist : Option Playlist := none
  target_playlistname : Option Bytes := none
  deriving DecidableEq

namespace Requirement

/-- The time specification of a requirement, the empty one if unset. -/
def whenD (r : Requirement) : TimeSpecification := r.when.getD {}

/-- The number of seconds the requirement can be late. Without one it has to
run in its second. -/
def gapD (r : Requirement) : ℤ := r.whenD.gap.getD 0

/-- The command of a requirement; an unset enumeration reads as its first
value, so a requirement without a command is one that does nothing. -/
def typeD (r : Requirement) : Command := r.type.getD .NO_OP

/-- Whether the requirement is for the time after a reboot. -/
def rebootD (r : Requirement) : Bool := r.reboot.getD false

/-- The advance of the internal time that a requirement asks for; `-1` stands
for none, and for one that is unset. -/
def advanceD (r : Requirement) : ℤ := r.internal_time_advance.getD (-1)

end Requirement

/-- A schedule is its list of requirements. -/
structure Schedule where
  schedule : List Requirement := []
  deriving DecidableEq
