import RctAutomation.Int32
import RctAutomation.Messages
import RctAutomation.Wire

/-!
# Schedules on the wire

A schedule is sent in its serialized form, with its requirements as nested
messages, and theirs in turn. Each message type says which fields it is written
as, in the order of their numbers, and what a field that is read does to it: a
field that is set again overwrites, a repeated one is appended to, and a nested
message is merged. A field whose number or wire type the type does not have
does nothing, and neither does a value that an enumeration does not have.
-/

open Sql (Bytes)

open Wire

/-! ## `playableitem.proto` -/

/-- The type with this number. A parser passes over a value that the
enumeration does not have, so there need not be one. -/
def ItemType.ofNumber? (n : ℤ) : Option ItemType :=
  [ItemType.unknown, .localfile, .webstream].find? (fun t => t.number == n)

namespace PlayableItem

/-- The fields an item is written as, in the order of their numbers. What is
not set is not written. -/
def fields (i : PlayableItem) : List Field :=
  i.playableItemID.toList.map (intField 1) ++ i.filename.toList.map (bytesField 2)
    ++ i.duration.toList.map (intField 3) ++ i.description.toList.map (bytesField 4)
    ++ i.type.toList.map (fun t => intField 5 t.number) ++ i.cache.toList.map (intField 6)
    ++ i.playcount.toList.map (intField 7)

/-- What a field does to an item. Each overwrites what was set; one of a wire
type that the field does not have is an unknown field, and is passed over.
The fields of 32 bits keep the low half of their varint. -/
def readField (i : PlayableItem) : Field → PlayableItem × Bool
  | ⟨1, p⟩ => ({ i with playableItemID := p.int64? <|> i.playableItemID }, true)
  | ⟨2, p⟩ => ({ i with filename := p.bytes? <|> i.filename }, true)
  | ⟨3, p⟩ => ({ i with duration := p.int64? <|> i.duration }, true)
  | ⟨4, p⟩ => ({ i with description := p.bytes? <|> i.description }, true)
  | ⟨5, p⟩ =>
    ({ i with type := (p.int64?.map toInt32).bind ItemType.ofNumber? <|> i.type }, true)
  | ⟨6, p⟩ => ({ i with cache := p.int64?.map toInt32 <|> i.cache }, true)
  | ⟨7, p⟩ => ({ i with playcount := p.int64?.map toInt32 <|> i.playcount }, true)
  | _ => (i, true)

end PlayableItem

/-! ## `playlist.proto` -/

namespace Playlist

/-- The fields a playlist is written as. Its IDs are written one by one, as
they are not packed, and its items are nested messages. -/
def fields (l : Playlist) : List Field :=
  l.playlistID.toList.map (intField 1) ++ l.name.toList.map (bytesField 2)
    ++ l.weight.toList.map (intField 3) ++ l.playableItemID.map (intField 4)
    ++ l.items.map (fun i => bytesField 5 (encode i.fields)) ++ l.length.toList.map (intField 6)

/-- What a field does to a playlist. Its IDs can be read packed or one by
one. An item that cannot be read to its end ends the reading of the playlist,
with what was read of it kept. -/
def readField (l : Playlist) : Field → Playlist × Bool
  | ⟨1, p⟩ => ({ l with playlistID := p.int64? <|> l.playlistID }, true)
  | ⟨2, p⟩ => ({ l with name := p.bytes? <|> l.name }, true)
  | ⟨3, p⟩ => ({ l with weight := p.int64? <|> l.weight }, true)
  | ⟨4, p⟩ => ({ l with playableItemID := l.playableItemID ++ p.int64s.1 }, p.int64s.2)
  | ⟨5, .bytes b⟩ =>
    let item := Wire.parse PlayableItem.readField {} b
    ({ l with items := l.items ++ [item.1] }, item.2)
  | ⟨6, p⟩ => ({ l with length := p.int64? <|> l.length }, true)
  | _ => (l, true)

end Playlist

/-! ## `requirement.proto` -/

namespace TimeSpecification

/-- The fields a time specification is written as: the constraints one by
one, and the gap. -/
def fields (t : TimeSpecification) : List Field :=
  t.constrained_seconds.map (intField 1) ++ t.constrained_minutes.map (intField 2)
    ++ t.constrained_hours.map (intField 3) ++ t.constrained_dow.map (intField 4)
    ++ t.constrained_dom.map (intField 5) ++ t.only_at_times.map (intField 6)
    ++ t.gap.toList.map (intField 7)

/-- What a field does to a time specification. The constraints are appended
to. -/
def readField (t : TimeSpecification) : Field → TimeSpecification × Bool
  | ⟨1, p⟩ => ({ t with constrained_seconds := t.constrained_seconds ++ p.int64s.1 }, p.int64s.2)
  | ⟨2, p⟩ => ({ t with constrained_minutes := t.constrained_minutes ++ p.int64s.1 }, p.int64s.2)
  | ⟨3, p⟩ => ({ t with constrained_hours := t.constrained_hours ++ p.int64s.1 }, p.int64s.2)
  | ⟨4, p⟩ => ({ t with constrained_dow := t.constrained_dow ++ p.int64s.1 }, p.int64s.2)
  | ⟨5, p⟩ => ({ t with constrained_dom := t.constrained_dom ++ p.int64s.1 }, p.int64s.2)
  | ⟨6, p⟩ => ({ t with only_at_times := t.only_at_times ++ p.int64s.1 }, p.int64s.2)
  | ⟨7, p⟩ => ({ t with gap := p.int64? <|> t.gap }, true)
  | _ => (t, true)

end TimeSpecification

/-- The number of a command, as `requirement.proto` gives it. -/
def Command.number : Command → ℤ
  | NO_OP => 0
  | PLAY_FILES => 1
  | LEGAL_ID => 2
  | SET_MAINSHOW => 3

/-- The command with this number, if there is one. -/
def Command.ofNumber? (n : ℤ) : Option Command :=
  [Command.NO_OP, .PLAY_FILES, .LEGAL_ID, .SET_MAINSHOW].find? (fun c => c.number == n)

namespace Requirement

/-- The fields a requirement is written as. There is no field 3, and `reboot`
is written as a varint. -/
def fields (r : Requirement) : List Field :=
  r.when.toList.map (fun t => bytesField 1 (encode t.fields))
    ++ r.type.toList.map (fun c => intField 2 c.number) ++ r.not_before.toList.map (intField 4)
    ++ r.reboot.toList.map (fun b => intField 5 (if b then 1 else 0))
    ++ r.internal_time_advance.toList.map (intField 6)
    ++ r.playlist.toList.map (fun l => bytesField 7 (encode l.fields))
    ++ r.target_playlistname.toList.map (bytesField 8)

/-- What a field does to a requirement. Its time specification and its
playlist are merged into what was read before, if they are there more than
once. -/
def readField (r : Requirement) : Field → Requirement × Bool
  | ⟨1, .bytes b⟩ =>
    let t := Wire.parse TimeSpecification.readField r.whenD b
    ({ r with «when» := some t.1 }, t.2)
  | ⟨2, p⟩ => ({ r with type := (p.int64?.map toInt32).bind Command.ofNumber? <|> r.type }, true)
  | ⟨4, p⟩ => ({ r with not_before := p.int64? <|> r.not_before }, true)
  | ⟨5, p⟩ => ({ r with reboot := p.int64?.map (fun n => n != 0) <|> r.reboot }, true)
  | ⟨6, p⟩ => ({ r with internal_time_advance := p.int64? <|> r.internal_time_advance }, true)
  | ⟨7, .bytes b⟩ =>
    let l := Wire.parse Playlist.readField (r.playlist.getD {}) b
    ({ r with playlist := some l.1 }, l.2)
  | ⟨8, p⟩ => ({ r with target_playlistname := p.bytes? <|> r.target_playlistname }, true)
  | _ => (r, true)

end Requirement

namespace Schedule

/-- The fields a schedule is written as: its requirements, one after the
other. -/
def fields (s : Schedule) : List Field :=
  s.schedule.map fun r => bytesField 1 (encode r.fields)

/-- What a field does to a schedule. It only has its requirements, all of
which are field 1. -/
def readField (s : Schedule) : Field → Schedule × Bool
  | ⟨1, .bytes b⟩ =>
    let r := Wire.parse Requirement.readField {} b
    (⟨s.schedule ++ [r.1]⟩, r.2)
  | _ => (s, true)

/-- The schedule in its serialized form. -/
def serialize (s : Schedule) : Bytes := encode s.fields

end Schedule

/-! ## What is written is read back -/

namespace TimeSpecification

/-- The integers are of their types. In the source they cannot be anything
else; in the model they are integers without bounds. -/
structure IntsFit (t : TimeSpecification) : Prop where
  constrained_seconds : ∀ n ∈ t.constrained_seconds, FitsInt64 n
  constrained_minutes : ∀ n ∈ t.constrained_minutes, FitsInt64 n
  constrained_hours : ∀ n ∈ t.constrained_hours, FitsInt64 n
  constrained_dow : ∀ n ∈ t.constrained_dow, FitsInt64 n
  constrained_dom : ∀ n ∈ t.constrained_dom, FitsInt64 n
  only_at_times : ∀ n ∈ t.only_at_times, FitsInt64 n
  gap : ∀ n ∈ t.gap, FitsInt64 n

/-- A time specification is read back field by field: the constraints one by
one, and the gap if it is set. -/
theorem readAll_fields {t : TimeSpecification} (h : t.IntsFit) :
    readAll readField {} t.fields = (t, true) := by
  obtain ⟨secs, mins, hours, dow, dom, times, gap⟩ := t
  unfold fields
  simp only [List.append_assoc]
  refine (readAll_append (readAll_int64s readField (fun l => ⟨l, [], [], [], [], [], none⟩)
    h.constrained_seconds fun _ _ => rfl) _).trans ?_
  refine (readAll_append (readAll_int64s readField (fun l => ⟨secs, l, [], [], [], [], none⟩)
    h.constrained_minutes fun _ _ => rfl) _).trans ?_
  refine (readAll_append (readAll_int64s readField (fun l => ⟨secs, mins, l, [], [], [], none⟩)
    h.constrained_hours fun _ _ => rfl) _).trans ?_
  refine (readAll_append (readAll_int64s readField (fun l => ⟨secs, mins, hours, l, [], [], none⟩)
    h.constrained_dow fun _ _ => rfl) _).trans ?_
  refine (readAll_append (readAll_int64s readField (fun l => ⟨secs, mins, hours, dow, l, [], none⟩)
    h.constrained_dom fun _ _ => rfl) _).trans ?_
  refine (readAll_append (readAll_int64s readField (fun l => ⟨secs, mins, hours, dow, dom, l, none⟩)
    h.only_at_times fun _ _ => rfl) _).trans ?_
  exact readAll_int64 readField (fun o => ⟨secs, mins, hours, dow, dom, times, o⟩) h.gap
    fun _ => rfl

end TimeSpecification

theorem ItemType.ofNumber?_number (t : ItemType) :
    ((Payload.varint (ofInt t.number)).int64?.map toInt32).bind ItemType.ofNumber? = some t := by
  cases t <;> rfl

theorem Command.ofNumber?_number (c : Command) :
    ((Payload.varint (ofInt c.number)).int64?.map toInt32).bind Command.ofNumber? = some c := by
  cases c <;> rfl

/-- A 32-bit integer is read back. -/
theorem toInt32_int64?_ofInt {n : ℤ} (h : FitsInt32 n) :
    (Payload.varint (ofInt n)).int64?.map toInt32 = some n := by
  have hmin : -2147483648 ≤ n := h.1
  have hmax : n ≤ 2147483647 := h.2
  rw [int64?_ofInt ⟨by omega, by omega⟩]
  exact congrArg some (toInt32_of_fits h)

namespace PlayableItem

/-- The integers of an item are of their types: two of 64 bits, two of 32. -/
structure IntsFit (i : PlayableItem) : Prop where
  playableItemID : ∀ n ∈ i.playableItemID, FitsInt64 n
  duration : ∀ n ∈ i.duration, FitsInt64 n
  cache : ∀ n ∈ i.cache, FitsInt32 n
  playcount : ∀ n ∈ i.playcount, FitsInt32 n

/-- An item is read back field by field: each field that is set is written
once, and read into the same one. -/
theorem readAll_fields {i : PlayableItem} (h : i.IntsFit) :
    readAll readField {} i.fields = (i, true) := by
  obtain ⟨id, filename, duration, description, type, cache, playcount⟩ := i
  unfold fields
  simp only [List.append_assoc]
  refine (readAll_append (readAll_int64 readField (fun o => ⟨o, none, none, none, none, none, none⟩)
    h.playableItemID fun _ => rfl) _).trans ?_
  refine (readAll_append (readAll_bytes readField (fun o => ⟨id, o, none, none, none, none, none⟩)
    fun _ => rfl) _).trans ?_
  refine (readAll_append (readAll_int64 readField
    (fun o => ⟨id, filename, o, none, none, none, none⟩) h.duration fun _ => rfl) _).trans ?_
  refine (readAll_append (readAll_bytes readField
    (fun o => ⟨id, filename, duration, o, none, none, none⟩) fun _ => rfl) _).trans ?_
  refine (readAll_append (readAll_optional readField
    (fun o => ⟨id, filename, duration, description, o, none, none⟩) fun t _ => ?_) _).trans ?_
  · show (PlayableItem.mk .., true) = _
    rw [ItemType.ofNumber?_number]
    rfl
  refine (readAll_append (readAll_optional readField
    (fun o => ⟨id, filename, duration, description, type, o, none⟩) fun n hn => ?_) _).trans ?_
  · show (PlayableItem.mk .., true) = _
    rw [toInt32_int64?_ofInt (h.cache n hn)]
    rfl
  refine readAll_optional readField (fun o => ⟨id, filename, duration, description, type, cache, o⟩)
    fun n hn => ?_
  show (PlayableItem.mk .., true) = _
  rw [toInt32_int64?_ofInt (h.playcount n hn)]
  rfl

theorem plain_fields (i : PlayableItem) : ∀ f ∈ i.fields, f.Plain := by
  unfold fields
  simp only [List.forall_mem_append]
  exact ⟨⟨⟨⟨⟨⟨plain_ints (by decide) id _, plain_bytes (by decide) id _⟩,
    plain_ints (by decide) id _⟩, plain_bytes (by decide) id _⟩,
    plain_ints (by decide) ItemType.number _⟩, plain_ints (by decide) id _⟩,
    plain_ints (by decide) id _⟩

/-- **An item is read as it was written**, if it is short enough to be a
message. -/
theorem parse_fields {i : PlayableItem} (h : i.IntsFit)
    (hsize : (encode i.fields).length < 2 ^ 31) :
    Wire.parse readField {} (encode i.fields) = (i, true) :=
  (parse_plain readField {} i.plain_fields hsize).trans (readAll_fields h)

end PlayableItem

namespace Playlist

/-- The integers of a playlist and of its items are of their types. -/
structure IntsFit (l : Playlist) : Prop where
  playlistID : ∀ n ∈ l.playlistID, FitsInt64 n
  weight : ∀ n ∈ l.weight, FitsInt64 n
  playableItemID : ∀ n ∈ l.playableItemID, FitsInt64 n
  items : ∀ i ∈ l.items, i.IntsFit
  length : ∀ n ∈ l.length, FitsInt64 n

theorem plain_fields (l : Playlist) : ∀ f ∈ l.fields, f.Plain := by
  unfold fields
  simp only [List.forall_mem_append]
  exact ⟨⟨⟨⟨⟨plain_ints (by decide) id _, plain_bytes (by decide) id _⟩,
    plain_ints (by decide) id _⟩, plain_ints (by decide) id _⟩,
    plain_bytes (by decide) (fun i : PlayableItem => encode i.fields) _⟩,
    plain_ints (by decide) id _⟩

theorem readField_item (l : Playlist) (b : Bytes) :
    l.readField (bytesField 5 b)
      = ({ l with items := l.items ++ [(Wire.parse PlayableItem.readField {} b).1] },
        (Wire.parse PlayableItem.readField {} b).2) := rfl

/-- A playlist is read back field by field. Its items are read from their own
bytes, which are short enough because those of the playlist are. -/
theorem readAll_fields {l : Playlist} (h : l.IntsFit) (hsize : (encode l.fields).length < 2 ^ 31) :
    readAll readField {} l.fields = (l, true) := by
  have hitem : ∀ i ∈ l.items, Wire.parse PlayableItem.readField {} (encode i.fields)
      = (i, true) := by
    intro i hi
    refine PlayableItem.parse_fields (h.items i hi)
      (lt_of_le_of_lt (length_le_encode (k := 5) ?_) hsize)
    unfold fields
    simp only [List.mem_append]
    exact Or.inl (Or.inr (List.mem_map_of_mem hi))
  obtain ⟨id, name, weight, ids, items, length⟩ := l
  unfold fields
  simp only [List.append_assoc]
  refine (readAll_append (readAll_int64 readField (fun o => ⟨o, none, none, [], [], none⟩)
    h.playlistID fun _ => rfl) _).trans ?_
  refine (readAll_append (readAll_bytes readField (fun o => ⟨id, o, none, [], [], none⟩)
    fun _ => rfl) _).trans ?_
  refine (readAll_append (readAll_int64 readField (fun o => ⟨id, name, o, [], [], none⟩)
    h.weight fun _ => rfl) _).trans ?_
  refine (readAll_append (readAll_int64s readField (fun l => ⟨id, name, weight, l, [], none⟩)
    h.playableItemID fun _ _ => rfl) _).trans ?_
  refine (readAll_append (readAll_repeated readField (fun l => ⟨id, name, weight, ids, l, none⟩)
    (fun is i hi => ?_) []) _).trans ?_
  · rw [readField_item, hitem i hi]
  exact readAll_int64 readField (fun o => ⟨id, name, weight, ids, items, o⟩) h.length fun _ => rfl

/-- **A playlist is read as it was written.** Its items are written within
it, so that its bytes are few enough means that theirs are. -/
theorem parse_fields {l : Playlist} (h : l.IntsFit) (hsize : (encode l.fields).length < 2 ^ 31) :
    Wire.parse readField {} (encode l.fields) = (l, true) :=
  (parse_plain readField {} l.plain_fields hsize).trans (readAll_fields h hsize)

end Playlist

namespace TimeSpecification

theorem plain_fields (t : TimeSpecification) : ∀ f ∈ t.fields, f.Plain := by
  unfold fields
  simp only [List.forall_mem_append]
  exact ⟨⟨⟨⟨⟨⟨plain_ints (by decide) id _, plain_ints (by decide) id _⟩,
    plain_ints (by decide) id _⟩, plain_ints (by decide) id _⟩, plain_ints (by decide) id _⟩,
    plain_ints (by decide) id _⟩, plain_ints (by decide) id _⟩

/-- **A time specification is read as it was written.** -/
theorem parse_fields {t : TimeSpecification} (h : t.IntsFit)
    (hsize : (encode t.fields).length < 2 ^ 31) :
    Wire.parse readField {} (encode t.fields) = (t, true) :=
  (parse_plain readField {} t.plain_fields hsize).trans (readAll_fields h)

end TimeSpecification

namespace Requirement

/-- The integers of a requirement, of its time specification and of its
playlist are of their types. -/
structure IntsFit (r : Requirement) : Prop where
  when : ∀ t ∈ r.when, t.IntsFit
  not_before : ∀ n ∈ r.not_before, FitsInt64 n
  internal_time_advance : ∀ n ∈ r.internal_time_advance, FitsInt64 n
  playlist : ∀ l ∈ r.playlist, l.IntsFit

theorem plain_fields (r : Requirement) : ∀ f ∈ r.fields, f.Plain := by
  unfold fields
  simp only [List.forall_mem_append]
  exact ⟨⟨⟨⟨⟨⟨plain_bytes (by decide) (fun t : TimeSpecification => encode t.fields) _,
    plain_ints (by decide) Command.number _⟩, plain_ints (by decide) id _⟩,
    plain_ints (by decide) (fun b : Bool => if b then 1 else 0) _⟩, plain_ints (by decide) id _⟩,
    plain_bytes (by decide) (fun l : Playlist => encode l.fields) _⟩,
    plain_bytes (by decide) id _⟩

theorem readField_when {r : Requirement} {b : Bytes} {t : TimeSpecification} {ok : Bool}
    (h : Wire.parse TimeSpecification.readField r.whenD b = (t, ok)) :
    r.readField (bytesField 1 b) = ({ r with «when» := some t }, ok) := by
  show (_, (Wire.parse TimeSpecification.readField r.whenD b).2) = _
  rw [h]

theorem readField_playlist {r : Requirement} {b : Bytes} {l : Playlist} {ok : Bool}
    (h : Wire.parse Playlist.readField (r.playlist.getD {}) b = (l, ok)) :
    r.readField (bytesField 7 b) = ({ r with playlist := some l }, ok) := by
  show (_, (Wire.parse Playlist.readField (r.playlist.getD {}) b).2) = _
  rw [h]

/-- A requirement is read back field by field. Its nested messages are merged
into messages without values. -/
theorem readAll_fields {r : Requirement} (h : r.IntsFit)
    (hsize : (encode r.fields).length < 2 ^ 31) :
    readAll readField {} r.fields = (r, true) := by
  have hwhen : ∀ t ∈ r.when, Wire.parse TimeSpecification.readField {} (encode t.fields)
      = (t, true) := by
    intro t ht
    refine TimeSpecification.parse_fields (h.when t ht)
      (lt_of_le_of_lt (length_le_encode (k := 1) ?_) hsize)
    unfold fields
    simp only [List.mem_append]
    exact Or.inl (Or.inl (Or.inl (Or.inl (Or.inl (Or.inl
      (List.mem_map_of_mem (Option.mem_toList.mpr ht)))))))
  have hplaylist : ∀ l ∈ r.playlist, Wire.parse Playlist.readField {} (encode l.fields)
      = (l, true) := by
    intro l hl
    refine Playlist.parse_fields (h.playlist l hl)
      (lt_of_le_of_lt (length_le_encode (k := 7) ?_) hsize)
    unfold fields
    simp only [List.mem_append]
    exact Or.inl (Or.inr (List.mem_map_of_mem (Option.mem_toList.mpr hl)))
  obtain ⟨t, c, not_before, reboot, advance, playlist, name⟩ := r
  unfold fields
  simp only [List.append_assoc]
  refine (readAll_append (readAll_optional readField
    (fun o => ⟨o, none, none, none, none, none, none⟩) fun t ht => ?_) _).trans ?_
  · exact readField_when (hwhen t ht)
  refine (readAll_append (readAll_optional readField
    (fun o => ⟨t, o, none, none, none, none, none⟩) fun c _ => ?_) _).trans ?_
  · show (Requirement.mk .., true) = _
    rw [Command.ofNumber?_number]
    rfl
  refine (readAll_append (readAll_int64 readField (fun o => ⟨t, c, o, none, none, none, none⟩)
    h.not_before fun _ => rfl) _).trans ?_
  refine (readAll_append (readAll_optional readField
    (fun o => ⟨t, c, not_before, o, none, none, none⟩) fun b _ => ?_) _).trans ?_
  · cases b <;> rfl
  refine (readAll_append (readAll_int64 readField
    (fun o => ⟨t, c, not_before, reboot, o, none, none⟩) h.internal_time_advance
    fun _ => rfl) _).trans ?_
  refine (readAll_append (readAll_optional readField
    (fun o => ⟨t, c, not_before, reboot, advance, o, none⟩) fun l hl => ?_) _).trans ?_
  · exact readField_playlist (hplaylist l hl)
  exact readAll_bytes readField (fun o => ⟨t, c, not_before, reboot, advance, playlist, o⟩)
    fun _ => rfl

/-- **A requirement is read as it was written.** Its nested messages are
merged into empty ones. -/
theorem parse_fields {r : Requirement} (h : r.IntsFit) (hsize : (encode r.fields).length < 2 ^ 31) :
    Wire.parse readField {} (encode r.fields) = (r, true) :=
  (parse_plain readField {} r.plain_fields hsize).trans (readAll_fields h hsize)

end Requirement

namespace Schedule

theorem plain_fields (s : Schedule) : ∀ f ∈ s.fields, f.Plain :=
  plain_bytes (by decide) (fun r : Requirement => encode r.fields) s.schedule

theorem readField_requirement (s : Schedule) (b : Bytes) :
    s.readField (bytesField 1 b)
      = (⟨s.schedule ++ [(Wire.parse Requirement.readField {} b).1]⟩,
        (Wire.parse Requirement.readField {} b).2) := rfl

/-- **A schedule is read as it was written**, by a reader who knows that it
is one: the bytes do not say so. -/
theorem parse_serialize {s : Schedule} (h : ∀ r ∈ s.schedule, r.IntsFit)
    (hsize : s.serialize.length < 2 ^ 31) :
    Wire.parse readField {} s.serialize = (s, true) := by
  obtain ⟨reqlist⟩ := s
  refine (parse_plain readField {} (plain_fields ⟨reqlist⟩) hsize).trans ?_
  refine readAll_repeated readField (fun l => ⟨l⟩) (fun rs r hr => ?_) []
  have hmem : bytesField 1 (encode r.fields) ∈ Schedule.fields ⟨reqlist⟩ :=
    List.mem_map_of_mem hr
  rw [readField_requirement, Requirement.parse_fields (h r hr)
    (lt_of_le_of_lt (length_le_encode hmem) hsize)]

end Schedule
