import RctAutomation.JsonRoundTrip
import RctAutomation.WireMessages

/-!
# The messages of the API in JSON

The types of the messages that requests and responses carry, as their
descriptors show them, and the messages themselves as the values of their
fields (`slots`, `ofSlots`).

All of these types can be converted (`plain_automationPool`), so what
`JsonProtobuf.comesBack_iff` says of messages of any type holds of them.
`populated_slots_iff` says, for a schedule, what it means that no message in it
is without values.
-/

open Sql (Bytes ascii)

open Proto

/-! ## The types -/

namespace JsonMessages

/-- A field of a 64-bit integer, by its name and its number. -/
def int64 (name : String) (number : ℕ) : Field := ⟨name, number, .int .int64, false⟩

/-- A repeated field of 64-bit integers. -/
def int64s (name : String) (number : ℕ) : Field := ⟨name, number, .int .int64, true⟩

/-- A field of a 32-bit integer. -/
def int32 (name : String) (number : ℕ) : Field := ⟨name, number, .int .int32, false⟩

/-- A field of text. -/
def string (name : String) (number : ℕ) : Field := ⟨name, number, .string, false⟩

/-- A field that is true or false. -/
def bool (name : String) (number : ℕ) : Field := ⟨name, number, .bool, false⟩

/-- A field of a value of an enumeration. -/
def enum (name : String) (number : ℕ) (e : EnumType) : Field :=
  ⟨name, number, .enum e, false⟩

/-- A field of a message, of the type that is named. -/
def message (name : String) (number : ℕ) (t : String) : Field :=
  ⟨name, number, .message t, false⟩

/-- A repeated field of messages. -/
def messages (name : String) (number : ℕ) (t : String) : Field :=
  ⟨name, number, .message t, true⟩

/-- `PlayableItem.Type`, with the names of its values as JSON has them. -/
def itemTypeEnum : EnumType where
  full_name := "automation.PlayableItem.Type"
  values := [(ascii "UNKNOWN", 0), (ascii "LOCALFILE", 1), (ascii "WEBSTREAM", 2)]

/-- `Requirement.Command`, with the names of its values as JSON has them. -/
def commandEnum : EnumType where
  full_name := "automation.Requirement.Command"
  values := [(ascii "NO_OP", 0), (ascii "PLAY_FILES", 1), (ascii "LEGAL_ID", 2),
    (ascii "SET_MAINSHOW", 3)]

/-- The descriptor of an item. -/
def playableItem : MessageType where
  full_name := "automation.PlayableItem"
  fields := [int64 "PlayableItemID" 1, string "filename" 2, int64 "duration" 3,
    string "description" 4, enum "type" 5 itemTypeEnum, int32 "cache" 6, int32 "playcount" 7]
  enum_types := [itemTypeEnum]

/-- The descriptor of a playlist, whose items are messages of their own. -/
def playlist : MessageType where
  full_name := "automation.Playlist"
  fields := [int64 "PlaylistID" 1, string "name" 2, int64 "weight" 3, int64s "PlayableItemID" 4,
    messages "items" 5 "automation.PlayableItem", int64 "length" 6]

/-- The descriptor of what `/playlist/update` is sent: the fields of a
playlist that a request may set. -/
def playlistMergeRequest : MessageType where
  full_name := "automation.PlaylistMergeRequest"
  fields := [int64 "PlaylistID" 1, string "name" 2, int64 "weight" 3, int64s "PlayableItemID" 4]

/-- The descriptor of some playlists, which is what `/playlist/all` returns. -/
def playlists : MessageType where
  full_name := "automation.Playlists"
  fields := [messages "item" 1 "automation.Playlist"]

/-- The descriptor of a time specification. -/
def timeSpecification : MessageType where
  full_name := "automation.TimeSpecification"
  fields := [int64s "constrained_seconds" 1, int64s "constrained_minutes" 2,
    int64s "constrained_hours" 3, int64s "constrained_dow" 4, int64s "constrained_dom" 5,
    int64s "only_at_times" 6, int64 "gap" 7]

/-- The descriptor of a requirement. The number 3 is not in use. -/
def requirement : MessageType where
  full_name := "automation.Requirement"
  fields := [message "when" 1 "automation.TimeSpecification", enum "type" 2 commandEnum,
    int64 "not_before" 4, bool "reboot" 5, int64 "internal_time_advance" 6,
    message "playlist" 7 "automation.Playlist", string "target_playlistname" 8]
  enum_types := [commandEnum]

/-- The descriptor of a schedule. -/
def schedule : MessageType where
  full_name := "automation.Schedule"
  fields := [messages "schedule" 1 "automation.Requirement"]

/-- The descriptor of the state of a player, which has the only
floating-point number of the API. -/
def playerState : MessageType where
  full_name := "automation.PlayerState"
  fields := [message "now_playing" 1 "automation.PlayableItem", bool "paused" 2,
    ⟨"time_pos", 3, .real .float, false⟩, int32 "length" 4, string "path" 5, string "metadata" 6]

/-- The descriptor of a row of the result of a statement: its texts. -/
def sqlRow : MessageType where
  full_name := "automation.SQLRow"
  fields := [⟨"data", 1, .string, true⟩]

/-- The descriptor of the result of a statement: the names of its columns,
and its rows. -/
def sqlResult : MessageType where
  full_name := "automation.SQLResult"
  fields := [message "column" 1 "automation.SQLRow", messages "row" 2 "automation.SQLRow"]

/-- The types of the messages of the API, those of requests and those of
responses. -/
def types : List MessageType :=
  [playableItem, playlist, playlistMergeRequest, playlists, timeSpecification, requirement,
    schedule, playerState, sqlRow, sqlResult]

/-- **The types by their names.** A name that is none of theirs gets a type
without fields. -/
def automationPool : Pool := fun t => (types.find? fun d => d.full_name == t).getD ⟨t, [], []⟩

open JsonProtobuf in
/-- **All types of the API can be converted**: none has a field of bytes or a
group, or a repeated double, and each enumeration is declared in the type
that has a field of it. -/
theorem plain_automationPool : PlainPool automationPool := by
  have hall : ∀ d ∈ types, d.DistinctNames ∧ ∀ fd ∈ d.fields, PlainField d fd := by
    unfold MessageType.DistinctNames
    decide +kernel
  intro t
  unfold automationPool
  cases hfind : types.find? fun d => d.full_name == t with
  | none => exact ⟨List.nodup_nil, fun fd hfd => absurd hfd List.not_mem_nil⟩
  | some d =>
    obtain ⟨hnames, hfields⟩ := hall d (List.mem_of_find?_eq_some hfind)
    exact ⟨hnames, hfields⟩

end JsonMessages

/-! ## The messages -/

namespace Proto

variable {R : Type}

namespace Value

/-- The integer, if the value is one. -/
def int? : Value R → Option ℤ
  | int n => some n
  | _ => none

/-- The text, if the value is one. -/
def str? : Value R → Option Bytes
  | str b => some b
  | _ => none

/-- The truth value, if the value is one. -/
def bool? : Value R → Option Bool
  | bool b => some b
  | _ => none

/-- The number of the value of an enumeration. -/
def enum? : Value R → Option ℤ
  | enum n => some n
  | _ => none

/-- The fields of the message, if the value is one. -/
def message? : Value R → Option (Slots R)
  | message slots => some slots
  | _ => none

end Value

/-- The values of a repeated field, as the message has them. -/
def all {α : Type} (f : Value R → Option α) (vs : List (Value R)) : List α := vs.filterMap f

/-- The value of a field that is not repeated, if it is set. -/
def one {α : Type} (f : Value R → Option α) (vs : List (Value R)) : Option α := (all f vs).head?

variable {α : Type} {f : Value R → Option α} {g : α → Value R}

/-- Values are read as what they were written from. -/
theorem all_map (h : ∀ a, f (g a) = some a) (as : List α) : all f (as.map g) = as := by
  unfold all
  rw [List.filterMap_map]
  have hsome : f ∘ g = some := funext h
  rw [hsome, List.filterMap_some]

theorem one_toList (h : ∀ a, f (g a) = some a) (o : Option α) :
    one f (o.toList.map g) = o := by
  unfold one
  rw [all_map h]
  cases o <;> rfl

/-- Some values are those of a field, if each is and there are not too many. -/
theorem typedSlot_map {RealFits : Json.RealType → R → Prop} {pool : Pool} {fd : Field}
    {as : List α} (hrep : fd.repeated = true) (h : ∀ a ∈ as, Typed RealFits pool fd.type (g a)) :
    TypedSlot RealFits pool fd (as.map g) := by
  refine ⟨fun hfalse => absurd (hrep.symm.trans hfalse) (by decide), fun v hv => ?_⟩
  obtain ⟨a, ha, rfl⟩ := List.mem_map.mp hv
  exact h a ha

/-- A message whose fields have values of their own, field by field. -/
theorem typedMessage_of_forall₂ {RealFits : Json.RealType → R → Prop} {pool : Pool} {t : String}
    {slots : Slots R} (h : List.Forall₂ (TypedSlot RealFits pool) (pool t).fields slots) :
    TypedMessage RealFits pool t slots :=
  .message h.length_eq.symm (fun _ hp => (List.forall₂_iff_zip.mp h).2 hp |>.1)
    (fun _ hp => (List.forall₂_iff_zip.mp h).2 hp |>.2)

theorem typedSlot_toList {RealFits : Json.RealType → R → Prop} {pool : Pool} {fd : Field}
    {o : Option α} (h : ∀ a ∈ o, Typed RealFits pool fd.type (g a)) :
    TypedSlot RealFits pool fd (o.toList.map g) := by
  refine ⟨fun _ => ?_, fun v hv => ?_⟩
  · cases o <;> simp
  · obtain ⟨a, ha, rfl⟩ := List.mem_map.mp hv
    exact h a (Option.mem_toList.mp ha)

end Proto

variable {R : Type}

/-- The type of an item, by its number. -/
def ItemType.ofValue? (v : Value R) : Option ItemType := v.enum?.bind ItemType.ofNumber?

/-- The command, by its number. -/
def Command.ofValue? (v : Value R) : Option Command := v.enum?.bind Command.ofNumber?

theorem ItemType.ofValue?_number (t : ItemType) :
    ItemType.ofValue? (.enum t.number : Value R) = some t := by
  cases t <;> rfl

theorem Command.ofValue?_number (c : Command) :
    Command.ofValue? (.enum c.number : Value R) = some c := by
  cases c <;> rfl

namespace PlayableItem

/-- An item as the values of its fields, in the order of its descriptor. -/
def slots (i : PlayableItem) : Slots R :=
  [i.playableItemID.toList.map .int, i.filename.toList.map .str, i.duration.toList.map .int,
    i.description.toList.map .str, i.type.toList.map fun t => .enum t.number,
    i.cache.toList.map .int, i.playcount.toList.map .int]

/-- The item that has these values of its fields. -/
def ofSlots : Slots R → PlayableItem
  | [id, filename, duration, description, type, cache, playcount] =>
    ⟨one Value.int? id, one Value.str? filename, one Value.int? duration,
      one Value.str? description, one ItemType.ofValue? type, one Value.int? cache,
      one Value.int? playcount⟩
  | _ => {}

/-- Reads an item out of a value. -/
def ofValue? (v : Value R) : Option PlayableItem := v.message?.map ofSlots

@[simp] theorem ofSlots_slots (i : PlayableItem) : ofSlots (i.slots : Slots R) = i := by
  unfold slots ofSlots
  simp only [one_toList (f := Value.int?) (g := .int) fun _ => rfl,
    one_toList (f := Value.str?) (g := .str) fun _ => rfl, one_toList ItemType.ofValue?_number]

end PlayableItem

namespace Playlist

/-- A playlist as the values of its fields. Its items are values themselves. -/
def slots (l : Playlist) : Slots R :=
  [l.playlistID.toList.map .int, l.name.toList.map .str, l.weight.toList.map .int,
    l.playableItemID.map .int, l.items.map fun i => .message i.slots, l.length.toList.map .int]

/-- The playlist that has these values of its fields. -/
def ofSlots : Slots R → Playlist
  | [id, name, weight, ids, items, length] =>
    ⟨one Value.int? id, one Value.str? name, one Value.int? weight, all Value.int? ids,
      all PlayableItem.ofValue? items, one Value.int? length⟩
  | _ => {}

/-- Reads a playlist out of a value. -/
def ofValue? (v : Value R) : Option Playlist := v.message?.map ofSlots

@[simp] theorem ofSlots_slots (l : Playlist) : ofSlots (l.slots : Slots R) = l := by
  unfold slots ofSlots
  simp only [one_toList (f := Value.int?) (g := .int) fun _ => rfl,
    one_toList (f := Value.str?) (g := .str) fun _ => rfl,
    all_map (f := Value.int?) (g := .int) fun _ => rfl,
    all_map (f := PlayableItem.ofValue?) (g := fun i => .message i.slots)
      fun i => congrArg some i.ofSlots_slots]

end Playlist

namespace PlaylistMergeRequest

/-- A merge request as the values of its fields. -/
def slots (r : PlaylistMergeRequest) : Slots R :=
  [r.playlistID.toList.map .int, r.name.toList.map .str, r.weight.toList.map .int,
    r.playableItemID.map .int]

/-- The merge request that has these values of its fields. -/
def ofSlots : Slots R → PlaylistMergeRequest
  | [id, name, weight, ids] =>
    ⟨one Value.int? id, one Value.str? name, one Value.int? weight, all Value.int? ids⟩
  | _ => {}

@[simp] theorem ofSlots_slots (r : PlaylistMergeRequest) : ofSlots (r.slots : Slots R) = r := by
  unfold slots ofSlots
  simp only [one_toList (f := Value.int?) (g := .int) fun _ => rfl,
    one_toList (f := Value.str?) (g := .str) fun _ => rfl,
    all_map (f := Value.int?) (g := .int) fun _ => rfl]

end PlaylistMergeRequest

namespace TimeSpecification

/-- A time specification as the values of its fields. -/
def slots (t : TimeSpecification) : Slots R :=
  [t.constrained_seconds.map .int, t.constrained_minutes.map .int, t.constrained_hours.map .int,
    t.constrained_dow.map .int, t.constrained_dom.map .int, t.only_at_times.map .int,
    t.gap.toList.map .int]

/-- The time specification that has these values of its fields. -/
def ofSlots : Slots R → TimeSpecification
  | [seconds, minutes, hours, dow, dom, times, gap] =>
    ⟨all Value.int? seconds, all Value.int? minutes, all Value.int? hours, all Value.int? dow,
      all Value.int? dom, all Value.int? times, one Value.int? gap⟩
  | _ => {}

/-- Reads a time specification out of a value. -/
def ofValue? (v : Value R) : Option TimeSpecification := v.message?.map ofSlots

@[simp] theorem ofSlots_slots (t : TimeSpecification) : ofSlots (t.slots : Slots R) = t := by
  unfold slots ofSlots
  simp only [one_toList (f := Value.int?) (g := .int) fun _ => rfl,
    all_map (f := Value.int?) (g := .int) fun _ => rfl]

end TimeSpecification

namespace Requirement

/-- A requirement as the values of its fields. -/
def slots (r : Requirement) : Slots R :=
  [r.when.toList.map fun t => .message t.slots, r.type.toList.map fun c => .enum c.number,
    r.not_before.toList.map .int, r.reboot.toList.map .bool,
    r.internal_time_advance.toList.map .int, r.playlist.toList.map fun l => .message l.slots,
    r.target_playlistname.toList.map .str]

/-- The requirement that has these values of its fields. -/
def ofSlots : Slots R → Requirement
  | [«when», type, not_before, reboot, advance, playlist, name] =>
    ⟨one TimeSpecification.ofValue? «when», one Command.ofValue? type,
      one Value.int? not_before, one Value.bool? reboot, one Value.int? advance,
      one Playlist.ofValue? playlist, one Value.str? name⟩
  | _ => {}

/-- Reads a requirement out of a value. -/
def ofValue? (v : Value R) : Option Requirement := v.message?.map ofSlots

@[simp] theorem ofSlots_slots (r : Requirement) : ofSlots (r.slots : Slots R) = r := by
  unfold slots ofSlots
  simp only [one_toList (f := Value.int?) (g := .int) fun _ => rfl,
    one_toList (f := Value.str?) (g := .str) fun _ => rfl,
    one_toList (f := Value.bool?) (g := .bool) fun _ => rfl, one_toList Command.ofValue?_number,
    one_toList (f := TimeSpecification.ofValue?) (g := fun t => .message t.slots)
      fun t => congrArg some t.ofSlots_slots,
    one_toList (f := Playlist.ofValue?) (g := fun l => .message l.slots)
      fun l => congrArg some l.ofSlots_slots]

end Requirement

namespace Schedule

/-- A schedule as the values of its one field. -/
def slots (s : Schedule) : Slots R := [s.schedule.map fun r => .message r.slots]

/-- The schedule that has these requirements. -/
def ofSlots : Slots R → Schedule
  | [reqlist] => ⟨all Requirement.ofValue? reqlist⟩
  | _ => {}

@[simp] theorem ofSlots_slots (s : Schedule) : ofSlots (s.slots : Slots R) = s := by
  unfold slots ofSlots
  simp only [all_map (f := Requirement.ofValue?) (g := fun r => .message r.slots)
    fun r => congrArg some r.ofSlots_slots]

end Schedule

/-! ## Messages of their types -/

section Typed

open Wire (FitsInt64)

variable {RealFits : Json.RealType → R → Prop}

namespace JsonMessages

theorem fits_int32 {n : ℤ} (h : FitsInt32 n) : Json.IntType.int32.Fits n := by
  obtain ⟨hmin, hmax⟩ := h
  exact ⟨hmin, Int.lt_of_le_sub_one hmax⟩

/-- An optional integer, and a list of them. -/
theorem typed_int64 {pool : Pool} {name : String} {number : ℕ} {o : Option ℤ}
    (h : ∀ n ∈ o, FitsInt64 n) :
    TypedSlot RealFits pool (int64 name number) (o.toList.map .int) :=
  typedSlot_toList fun n hn => .int (h n hn)

theorem typed_int64s {pool : Pool} {name : String} {number : ℕ} {l : List ℤ}
    (h : ∀ n ∈ l, FitsInt64 n) :
    TypedSlot RealFits pool (int64s name number) (l.map .int) :=
  typedSlot_map rfl fun n hn => .int (h n hn)

theorem typed_int32 {pool : Pool} {name : String} {number : ℕ} {o : Option ℤ}
    (h : ∀ n ∈ o, FitsInt32 n) :
    TypedSlot RealFits pool (int32 name number) (o.toList.map .int) :=
  typedSlot_toList fun n hn => .int (fits_int32 (h n hn))

theorem typed_string {pool : Pool} {name : String} {number : ℕ} (o : Option Bytes) :
    TypedSlot RealFits pool (string name number) (o.toList.map .str) :=
  typedSlot_toList fun b _ => .string b

end JsonMessages

open JsonMessages

theorem PlayableItem.typed_slots {i : PlayableItem} (h : i.IntsFit) :
    TypedMessage RealFits automationPool "automation.PlayableItem" i.slots :=
  typedMessage_of_forall₂ (.cons (typed_int64 h.playableItemID) (.cons (typed_string i.filename)
    (.cons (typed_int64 h.duration) (.cons (typed_string i.description)
    (.cons (typedSlot_toList fun t _ => .enum (by cases t <;> decide))
    (.cons (typed_int32 h.cache) (.cons (typed_int32 h.playcount) .nil)))))))

theorem Playlist.typed_slots {l : Playlist} (h : l.IntsFit) :
    TypedMessage RealFits automationPool "automation.Playlist" l.slots :=
  typedMessage_of_forall₂ (.cons (typed_int64 h.playlistID) (.cons (typed_string l.name)
    (.cons (typed_int64 h.weight) (.cons (typed_int64s h.playableItemID)
    (.cons (typedSlot_map rfl fun i hi => PlayableItem.typed_slots (h.items i hi))
    (.cons (typed_int64 h.length) .nil))))))

theorem TimeSpecification.typed_slots {t : TimeSpecification} (h : t.IntsFit) :
    TypedMessage RealFits automationPool "automation.TimeSpecification" t.slots :=
  typedMessage_of_forall₂ (.cons (typed_int64s h.constrained_seconds)
    (.cons (typed_int64s h.constrained_minutes) (.cons (typed_int64s h.constrained_hours)
    (.cons (typed_int64s h.constrained_dow) (.cons (typed_int64s h.constrained_dom)
    (.cons (typed_int64s h.only_at_times) (.cons (typed_int64 h.gap) .nil)))))))

theorem Requirement.typed_slots {r : Requirement} (h : r.IntsFit) :
    TypedMessage RealFits automationPool "automation.Requirement" r.slots :=
  typedMessage_of_forall₂ (.cons
    (typedSlot_toList fun t ht => TimeSpecification.typed_slots (h.when t ht))
    (.cons (typedSlot_toList fun c _ => .enum (by cases c <;> decide))
    (.cons (typed_int64 h.not_before) (.cons (typedSlot_toList fun b _ => .bool b)
    (.cons (typed_int64 h.internal_time_advance)
    (.cons (typedSlot_toList fun l hl => Playlist.typed_slots (h.playlist l hl))
    (.cons (typed_string r.target_playlistname) .nil)))))))

theorem Schedule.typed_slots {s : Schedule} (h : ∀ r ∈ s.schedule, r.IntsFit) :
    TypedMessage RealFits automationPool "automation.Schedule" s.slots :=
  typedMessage_of_forall₂
    (.cons (typedSlot_map rfl fun r hr => Requirement.typed_slots (h r hr)) .nil)

end Typed

/-! ## Messages without values -/

namespace Proto

/-- When no message in a message is without values, by when the message is, and
by its values. -/
theorem populated_iff {slots : Slots R} {p q : Prop} (hempty : (∀ vs ∈ slots, vs = []) ↔ p)
    (hdeep : (∀ vs ∈ slots, ∀ v ∈ vs, populated v = true) ↔ q) :
    populated (.message slots) = true ↔ ¬p ∧ q := by
  rw [populated_message, hdeep, ← hempty]
  push Not
  rfl

end Proto

/-- **No message in it is without values**, nor is it. An item without values
does not come back from JSON. -/
def Playlist.NoEmpty (l : Playlist) : Prop := l ≠ {} ∧ ∀ i ∈ l.items, i ≠ {}

/-- **No message in it is without values**, nor is it: not its time
specification, its playlist, or an item of that. -/
def Requirement.NoEmpty (r : Requirement) : Prop :=
  r ≠ {} ∧ (∀ t ∈ r.when, t ≠ {}) ∧ ∀ l ∈ r.playlist, l.NoEmpty

/-- **No message in it is without values**, nor is it. So a schedule without
requirements is not meant, whose JSON is null. -/
def Schedule.NoEmpty (s : Schedule) : Prop := s ≠ {} ∧ ∀ r ∈ s.schedule, r.NoEmpty

instance (l : Playlist) : Decidable l.NoEmpty := inferInstanceAs (Decidable (_ ∧ _))

instance (r : Requirement) : Decidable r.NoEmpty := inferInstanceAs (Decidable (_ ∧ _ ∧ _))

instance (s : Schedule) : Decidable s.NoEmpty := inferInstanceAs (Decidable (_ ∧ _))

theorem PlayableItem.populated_slots_iff {i : PlayableItem} :
    populated (.message (i.slots : Slots R)) = true ↔ i ≠ {} := by
  refine (populated_iff (p := i = {}) ?_ (iff_true_intro ?_)).trans (iff_of_eq (and_true _))
  · obtain ⟨id, filename, duration, description, type, cache, playcount⟩ := i
    simp [slots]
  · simp [slots]

theorem TimeSpecification.populated_slots_iff {t : TimeSpecification} :
    populated (.message (t.slots : Slots R)) = true ↔ t ≠ {} := by
  refine (populated_iff (p := t = {}) ?_ (iff_true_intro ?_)).trans (iff_of_eq (and_true _))
  · obtain ⟨seconds, minutes, hours, dow, dom, times, gap⟩ := t
    simp [slots]
  · simp [slots]

theorem Playlist.populated_slots_iff {l : Playlist} :
    populated (.message (l.slots : Slots R)) = true ↔ l.NoEmpty := by
  refine populated_iff ?_ ?_
  · obtain ⟨id, name, weight, ids, items, length⟩ := l
    simp [slots]
  · simp [slots, PlayableItem.populated_slots_iff]

theorem Requirement.populated_slots_iff {r : Requirement} :
    populated (.message (r.slots : Slots R)) = true ↔ r.NoEmpty := by
  refine populated_iff ?_ ?_
  · obtain ⟨«when», type, not_before, reboot, advance, playlist, name⟩ := r
    simp [slots]
  · unfold slots
    simp only [List.forall_mem_cons, List.forall_mem_map, Option.mem_toList,
      TimeSpecification.populated_slots_iff, Playlist.populated_slots_iff]
    simp

/-- **No message in a schedule is without values**, as its fields have it. It
takes what is said of messages of any type to schedules. -/
theorem Schedule.populated_slots_iff {s : Schedule} :
    populated (.message (s.slots : Slots R)) = true ↔ s.NoEmpty := by
  refine populated_iff ?_ ?_
  · obtain ⟨reqlist⟩ := s
    simp [slots]
  · simp [slots, Requirement.populated_slots_iff]

/-! ## Integers that are read -/

section Fits

open Wire (FitsInt64)

variable {RealFits : Json.RealType → R → Prop}

/-- A message has values of its fields' types, field by field. -/
theorem Proto.TypedMessage.forall₂ {pool : Pool} {t : String} {slots : Slots R}
    (h : TypedMessage RealFits pool t slots) :
    List.Forall₂ (TypedSlot RealFits pool) (pool t).fields slots := by
  rcases h with _ | _ | _ | _ | _ | _ | ⟨hlen, hsingle, hvalues⟩
  exact List.forall₂_iff_zip.mpr ⟨hlen.symm, fun hp => ⟨hsingle _ hp, hvalues _ hp⟩⟩

/-- The values that are read are those of the field. -/
theorem Proto.mem_of_mem_one {α : Type} {f : Value R → Option α} {vs : List (Value R)} {a : α}
    (h : a ∈ one f vs) : a ∈ all f vs := List.mem_of_head? h

theorem Proto.exists_of_mem_all {α : Type} {f : Value R → Option α} {vs : List (Value R)} {a : α}
    (h : a ∈ all f vs) : ∃ v ∈ vs, f v = some a := List.mem_filterMap.mp h

namespace JsonMessages

/-- The integers of a field are of its type. -/
theorem fits_of_typed {pool : Pool} {t : Json.IntType} {fd : Field} {vs : List (Value R)}
    (h : TypedSlot RealFits pool fd vs) (htype : fd.type = .int t) :
    ∀ n ∈ all Value.int? vs, t.Fits n := by
  intro n hn
  obtain ⟨v, hv, hint⟩ := exists_of_mem_all hn
  have htyped := h.2 v hv
  rw [htype] at htyped
  cases htyped with
  | int hfits => exact Option.some.inj hint ▸ hfits

theorem fitsInt32_of_typed {pool : Pool} {name : String} {number : ℕ} {vs : List (Value R)}
    (h : TypedSlot RealFits pool (int32 name number) vs) :
    ∀ n ∈ all Value.int? vs, FitsInt32 n := by
  intro n hn
  obtain ⟨hmin, hmax⟩ := fits_of_typed (t := .int32) h rfl n hn
  exact ⟨hmin, Int.le_sub_one_of_lt hmax⟩

/-- The messages of a field are of its type. -/
theorem typed_of_typed {pool : Pool} {t : String} {fd : Field} {vs : List (Value R)}
    (h : TypedSlot RealFits pool fd vs) (htype : fd.type = .message t) {α : Type}
    {ofSlots : Slots R → α} :
    ∀ a ∈ all (fun v => v.message?.map ofSlots) vs,
      ∃ slots, TypedMessage RealFits pool t slots ∧ ofSlots slots = a := by
  intro a ha
  obtain ⟨v, hv, hmessage⟩ := exists_of_mem_all ha
  have htyped := h.2 v hv
  rw [htype] at htyped
  cases htyped with
  | message hlen hsingle hvalues =>
    exact ⟨_, .message hlen hsingle hvalues, Option.some.inj hmessage⟩

end JsonMessages

open JsonMessages

theorem PlayableItem.intsFit_ofSlots {slots : Slots R}
    (h : TypedMessage RealFits automationPool "automation.PlayableItem" slots) :
    (ofSlots slots).IntsFit := by
  have hfields : List.Forall₂ _ playableItem.fields slots := h.forall₂
  rcases hfields with _ | ⟨hid, _ | ⟨-, _ | ⟨hduration, _ | ⟨-, _ | ⟨-, _ | ⟨hcache,
    _ | ⟨hplaycount, _ | _⟩⟩⟩⟩⟩⟩⟩
  exact ⟨fun n hn => fits_of_typed hid rfl n (mem_of_mem_one hn),
    fun n hn => fits_of_typed hduration rfl n (mem_of_mem_one hn),
    fun n hn => fitsInt32_of_typed hcache n (mem_of_mem_one hn),
    fun n hn => fitsInt32_of_typed hplaycount n (mem_of_mem_one hn)⟩

theorem Playlist.intsFit_ofSlots {slots : Slots R}
    (h : TypedMessage RealFits automationPool "automation.Playlist" slots) :
    (ofSlots slots).IntsFit := by
  have hfields : List.Forall₂ _ playlist.fields slots := h.forall₂
  rcases hfields with _ | ⟨hid, _ | ⟨-, _ | ⟨hweight, _ | ⟨hids, _ | ⟨hitems, _ | ⟨hlength,
    _ | _⟩⟩⟩⟩⟩⟩
  refine ⟨fun n hn => fits_of_typed hid rfl n (mem_of_mem_one hn),
    fun n hn => fits_of_typed hweight rfl n (mem_of_mem_one hn), fits_of_typed hids rfl,
    fun i hi => ?_, fun n hn => fits_of_typed hlength rfl n (mem_of_mem_one hn)⟩
  obtain ⟨slots, hslots, rfl⟩ := typed_of_typed hitems rfl i hi
  exact PlayableItem.intsFit_ofSlots hslots

theorem TimeSpecification.intsFit_ofSlots {slots : Slots R}
    (h : TypedMessage RealFits automationPool "automation.TimeSpecification" slots) :
    (ofSlots slots).IntsFit := by
  have hfields : List.Forall₂ _ timeSpecification.fields slots := h.forall₂
  rcases hfields with _ | ⟨hseconds, _ | ⟨hminutes, _ | ⟨hhours, _ | ⟨hdow, _ | ⟨hdom,
    _ | ⟨htimes, _ | ⟨hgap, _ | _⟩⟩⟩⟩⟩⟩⟩
  exact ⟨fits_of_typed hseconds rfl, fits_of_typed hminutes rfl, fits_of_typed hhours rfl,
    fits_of_typed hdow rfl, fits_of_typed hdom rfl, fits_of_typed htimes rfl,
    fun n hn => fits_of_typed hgap rfl n (mem_of_mem_one hn)⟩

theorem Requirement.intsFit_ofSlots {slots : Slots R}
    (h : TypedMessage RealFits automationPool "automation.Requirement" slots) :
    (ofSlots slots).IntsFit := by
  have hfields : List.Forall₂ _ requirement.fields slots := h.forall₂
  rcases hfields with _ | ⟨hwhen, _ | ⟨-, _ | ⟨hnotBefore, _ | ⟨-, _ | ⟨hadvance,
    _ | ⟨hplaylist, _ | ⟨-, _ | _⟩⟩⟩⟩⟩⟩⟩
  refine ⟨fun t ht => ?_, fun n hn => fits_of_typed hnotBefore rfl n (mem_of_mem_one hn),
    fun n hn => fits_of_typed hadvance rfl n (mem_of_mem_one hn), fun l hl => ?_⟩
  · obtain ⟨slots, hslots, rfl⟩ := typed_of_typed hwhen rfl t (mem_of_mem_one ht)
    exact TimeSpecification.intsFit_ofSlots hslots
  · obtain ⟨slots, hslots, rfl⟩ := typed_of_typed hplaylist rfl l (mem_of_mem_one hl)
    exact Playlist.intsFit_ofSlots hslots

/-- **The integers of a schedule that is made of fields fit their types**, as
its fields are of theirs. So what JSON is accepted for can be written on the
wire. -/
theorem Schedule.intsFit_ofSlots {slots : Slots R}
    (h : TypedMessage RealFits automationPool "automation.Schedule" slots) :
    ∀ r ∈ (ofSlots slots).schedule, r.IntsFit := by
  have hfields : List.Forall₂ _ JsonMessages.schedule.fields slots := h.forall₂
  rcases hfields with _ | ⟨hrequirements, _ | _⟩
  intro r hr
  obtain ⟨slots, hslots, rfl⟩ := typed_of_typed hrequirements rfl r hr
  exact Requirement.intsFit_ofSlots hslots

end Fits
