import RctAutomation.Json

/-!
# Messages of any type

What reflection shows of a protocol buffer, whatever its type: a message holds,
for each field of its type, the values the field has – at most one if it is not
repeated – and a value can be a message again. The descriptor of a type says
which fields it has, in the order of their numbers, and a pool has the
descriptors of all types by their names.

`slot` and `setSlot` read and write a field by its name, as `slots_ext` says: a
message is what its fields are.

`Typed` is that a value is one of its field's type. `populated` is that no
message in a value is empty, at any depth.
-/

namespace Proto

open Json (IntType RealType)

/-! ## Descriptors -/

/-- An enumeration: the names of its values and their numbers. Two values can
have one number, as aliases. -/
structure EnumType where
  full_name : String
  values : List (List UInt8 × ℤ)
  deriving DecidableEq

/-- The name of the first value with this number. -/
def EnumType.findValueByNumber (e : EnumType) (n : ℤ) : Option (List UInt8) :=
  (e.values.find? (fun v => v.2 == n)).map Prod.fst

/-- The types of fields. A type that differs from one of these only in how it
is written is the same for reflection. -/
inductive FieldKind
  | int (type : IntType)
  | real (type : RealType)
  | bool
  | string
  | bytes
  | group
  | message (type : String)
  | enum (type : EnumType)
  deriving DecidableEq

/-- A field of a message type: its name, its number, its type, and whether it
is repeated. -/
structure Field where
  name : String
  number : ℕ
  type : FieldKind
  repeated : Bool := false
  deriving DecidableEq

/-- A message type: its fields in the order of their numbers, and the
enumerations that are declared in it. -/
structure MessageType where
  full_name : String
  fields : List Field
  enum_types : List EnumType := []

/-- The message types by their names. A message type that is named in a field
is looked up here, so types can be recursive. -/
abbrev Pool := String → MessageType

namespace MessageType

/-- The name of a field with that of its message type, as errors have it. -/
def fullName (d : MessageType) (fd : Field) : String := d.full_name ++ "." ++ fd.name

/-- The field of this name, if the type has one. -/
def findFieldByName (d : MessageType) (name : String) : Option Field :=
  d.fields.find? (fun fd => fd.name == name)

/-- The value of this name in the enumerations of the type, and the
enumeration it was found in. It need not be the enumeration of the field it
is looked up for. -/
def findEnumValueByName (d : MessageType) (name : List UInt8) : Option (EnumType × ℤ) :=
  d.enum_types.findSome? fun e => (e.values.find? (fun v => v.1 == name)).map fun v => (e, v.2)

theorem mem_of_findFieldByName {d : MessageType} {name : String} {fd : Field}
    (h : d.findFieldByName name = some fd) : fd ∈ d.fields ∧ fd.name = name :=
  ⟨List.mem_of_find?_eq_some h, by simpa using List.find?_some h⟩

/-- The fields have names of their own. -/
def DistinctNames (d : MessageType) : Prop := (d.fields.map Field.name).Nodup

/-- A field is found by its name. -/
theorem findFieldByName_of_mem {d : MessageType} (h : d.DistinctNames) {fd : Field}
    (hfd : fd ∈ d.fields) : d.findFieldByName fd.name = some fd := by
  cases hfind : d.findFieldByName fd.name with
  | none => simpa using List.find?_eq_none.mp hfind fd hfd
  | some fd' =>
    obtain ⟨hmem, hname⟩ := mem_of_findFieldByName hfind
    exact congrArg some (List.inj_on_of_nodup_map h hmem hfd hname)

end MessageType

/-! ## Values -/

/-- A value of a field. Strings and bytes are the same here, and a value of
an enumeration is its number; a message holds the values of each of its
fields. -/
inductive Value (R : Type)
  | int (n : ℤ)
  | real (x : R)
  | bool (b : Bool)
  | str (b : List UInt8)
  | enum (number : ℤ)
  | message (slots : List (List (Value R)))

variable {R : Type}

/-- A message: the values of each of its fields, in the order of the
descriptor. -/
abbrev Slots (R : Type) := List (List (Value R))

/-- **Induction over a value**, through the values of a message. The nested
lists keep `induction` from finding this principle itself. -/
theorem Value.induction {P : Value R → Prop} (int : ∀ n, P (.int n)) (real : ∀ x, P (.real x))
    (bool : ∀ b, P (.bool b)) (str : ∀ b, P (.str b)) (enum : ∀ n, P (.enum n))
    (message : ∀ slots, (∀ vs ∈ slots, ∀ v ∈ vs, P v) → P (.message slots)) (v : Value R) :
    P v := by
  refine Value.rec (motive_1 := P) (motive_2 := fun slots => ∀ vs ∈ slots, ∀ v ∈ vs, P v)
    (motive_3 := fun vs => ∀ v ∈ vs, P v) int real bool str enum message ?_ ?_ ?_ ?_ v
  · exact fun vs hvs => absurd hvs List.not_mem_nil
  · exact fun vs slots hvs hslots => List.forall_mem_cons.mpr ⟨hvs, hslots⟩
  · exact fun v hv => absurd hv List.not_mem_nil
  · exact fun v vs hv hvs => List.forall_mem_cons.mpr ⟨hv, hvs⟩

/-- The message of a type without any values. -/
def MessageType.empty (d : MessageType) : Slots R := d.fields.map fun _ => []

@[simp] theorem MessageType.length_empty (d : MessageType) :
    (d.empty : Slots R).length = d.fields.length := List.length_map ..

/-! ## Fields by their names -/

section Slots

variable {α : Type}

/-- The values of a field, by its name. A field that the type does not have
has none. -/
def slot : List Field → List (List α) → String → List α
  | fd :: fields, vs :: slots, name => if fd.name = name then vs else slot fields slots name
  | _, _, _ => []

/-- The message with other values of a field. Nothing happens if the type
does not have it. -/
def setSlot : List Field → List (List α) → String → List α → List (List α)
  | fd :: fields, vs :: slots, name, ws =>
    if fd.name = name then ws :: slots else vs :: setSlot fields slots name ws
  | _, slots, _, _ => slots

variable {fields : List Field} {slots slots' : List (List α)}

@[simp] theorem length_setSlot (fields : List Field) (slots : List (List α))
    (name : String) (ws : List α) : (setSlot fields slots name ws).length = slots.length := by
  induction fields, slots, name, ws using setSlot.induct with
  | case1 fields vs slots ws fd => simp [setSlot]
  | case2 fd fields vs slots name ws hne ih => simp [setSlot, hne, ih]
  | case3 => simp [setSlot]

/-- A field has the values it was given. -/
theorem slot_setSlot {name : String} (hlen : slots.length = fields.length)
    (h : name ∈ fields.map Field.name) (ws : List α) :
    slot fields (setSlot fields slots name ws) name = ws := by
  induction fields, slots, name, ws using setSlot.induct with
  | case1 fields vs slots ws fd => simp [setSlot, slot]
  | case2 fd fields vs slots name ws hne ih =>
    have hrest : name ∈ fields.map Field.name :=
      (List.mem_cons.mp h).resolve_left (fun heq => hne heq.symm)
    simp [setSlot, slot, hne, ih (by simpa using hlen) hrest]
  | case3 fields slots name ws hnone =>
    cases fields with
    | nil => exact absurd h List.not_mem_nil
    | cons fd fields =>
      cases slots with
      | nil => exact absurd hlen.symm (Nat.succ_ne_zero _)
      | cons vs slots => exact absurd rfl (hnone fd fields vs slots rfl)

/-- The other fields keep theirs. -/
theorem slot_setSlot_of_ne {name name' : String} (hne : name' ≠ name) (ws : List α) :
    slot fields (setSlot fields slots name ws) name' = slot fields slots name' := by
  induction fields, slots, name, ws using setSlot.induct with
  | case1 fields vs slots ws fd => simp [setSlot, slot, hne.symm]
  | case2 fd fields vs slots name ws hfd ih => simp [setSlot, slot, hfd, ih hne]
  | case3 => simp [setSlot]

/-- **A message is what its fields are.** Two messages of a type that agree
on each field are the same. -/
theorem slots_ext (hnodup : (fields.map Field.name).Nodup)
    (hlen : slots.length = fields.length) (hlen' : slots'.length = fields.length)
    (h : ∀ fd ∈ fields, slot fields slots fd.name = slot fields slots' fd.name) :
    slots = slots' := by
  induction fields generalizing slots slots' with
  | nil => rw [List.length_eq_zero_iff.mp hlen, List.length_eq_zero_iff.mp hlen']
  | cons fd fields ih =>
    obtain ⟨vs, slots, rfl⟩ := List.exists_cons_of_length_eq_add_one hlen
    obtain ⟨vs', slots', rfl⟩ := List.exists_cons_of_length_eq_add_one hlen'
    obtain ⟨hfd, hrest⟩ := List.nodup_cons.mp hnodup
    have hhead : vs = vs' := by simpa [slot] using h fd List.mem_cons_self
    refine List.cons_eq_cons.mpr ⟨hhead, ih hrest (by simpa using hlen) (by simpa using hlen')
      fun fd' hfd' => ?_⟩
    have hne : fd.name ≠ fd'.name := fun heq => hfd (heq ▸ List.mem_map_of_mem hfd')
    simpa [slot, hne] using h fd' (List.mem_cons_of_mem _ hfd')

/-- A field that the type does not have has no values. -/
theorem slot_of_not_mem {name : String} (h : name ∉ fields.map Field.name) :
    slot fields slots name = [] := by
  induction fields, slots, name using slot.induct with
  | case1 fields vs slots fd => exact absurd List.mem_cons_self h
  | case2 fd fields vs slots name hne ih =>
    rw [slot, if_neg hne, ih (fun hmem => h (List.mem_cons_of_mem _ hmem))]
  | case3 => rw [slot]; assumption

/-- The values at the place of a field are those of its name. -/
theorem slot_of_mem_zip (hnodup : (fields.map Field.name).Nodup)
    {p : Field × List α} (hp : p ∈ fields.zip slots) :
    slot fields slots p.1.name = p.2 := by
  induction fields generalizing slots with
  | nil => exact absurd hp List.not_mem_nil
  | cons fd fields ih =>
    cases slots with
    | nil => exact absurd hp (by simp)
    | cons vs slots =>
      obtain ⟨hfd, hrest⟩ := List.nodup_cons.mp hnodup
      rcases List.mem_cons.mp hp with rfl | hp
      · simp [slot]
      · have hne : fd.name ≠ p.1.name := fun heq =>
          hfd (heq ▸ List.mem_map_of_mem (List.of_mem_zip hp).1)
        simp [slot, hne, ih hrest hp]

/-- The values of a field are at its place. -/
theorem mem_zip_slot (hlen : slots.length = fields.length)
    (hnodup : (fields.map Field.name).Nodup) {fd : Field}
    (hfd : fd ∈ fields) : (fd, slot fields slots fd.name) ∈ fields.zip slots := by
  induction fields generalizing slots with
  | nil => exact absurd hfd List.not_mem_nil
  | cons fd' fields ih =>
    obtain ⟨vs, slots, rfl⟩ := List.exists_cons_of_length_eq_add_one hlen
    obtain ⟨hfd', hrest⟩ := List.nodup_cons.mp hnodup
    rcases List.mem_cons.mp hfd with rfl | hfd
    · simp [slot]
    · have hne : fd'.name ≠ fd.name := fun heq => hfd' (heq ▸ List.mem_map_of_mem hfd)
      have hmem : (fd, slot fields slots fd.name) ∈ fields.zip slots :=
        ih (by simpa using hlen) hrest hfd
      simp only [slot, if_neg hne, List.zip_cons_cons, List.mem_cons]
      exact Or.inr hmem

end Slots

@[simp] theorem slot_empty (d : MessageType) (name : String) :
    slot d.fields (d.empty : Slots R) name = [] := by
  unfold MessageType.empty
  induction d.fields with
  | nil => rfl
  | cons fd fields ih =>
    rw [List.map_cons, slot]
    split
    · rfl
    · exact ih

/-! ## Types and empty messages -/

/-- **A value of a field's type.** A message has values of their types in all
its fields, and at most one in a field that is not repeated.

Which numbers are those of a floating-point type is left to `RealFits`. A
group has no value, as it cannot be set. -/
inductive Typed (RealFits : RealType → R → Prop) (pool : Pool) : FieldKind → Value R → Prop
  | int {t : IntType} {n : ℤ} (h : t.Fits n) : Typed RealFits pool (.int t) (.int n)
  | real {t : RealType} {x : R} (h : RealFits t x) : Typed RealFits pool (.real t) (.real x)
  | bool (b : Bool) : Typed RealFits pool .bool (.bool b)
  | string (b : List UInt8) : Typed RealFits pool .string (.str b)
  | bytes (b : List UInt8) : Typed RealFits pool .bytes (.str b)
  | enum {e : EnumType} {n : ℤ} (h : n ∈ e.values.map Prod.snd) :
    Typed RealFits pool (.enum e) (.enum n)
  | message {t : String} {slots : Slots R} (hlen : slots.length = (pool t).fields.length)
    (hsingle : ∀ p ∈ (pool t).fields.zip slots, p.1.repeated = false → p.2.length ≤ 1)
    (hvalues : ∀ p ∈ (pool t).fields.zip slots, ∀ v ∈ p.2, Typed RealFits pool p.1.type v) :
    Typed RealFits pool (.message t) (.message slots)

/-- A message of a type, that is, a value of a field of that type. -/
def TypedMessage (RealFits : RealType → R → Prop) (pool : Pool) (t : String) (slots : Slots R) :
    Prop := Typed RealFits pool (.message t) (.message slots)

section Typed

variable {RealFits : RealType → R → Prop} {pool : Pool} {t : String} {slots : Slots R}

/-- Some values are those of a field: each is of its type, and there is at
most one if it is not repeated. -/
def TypedSlot (RealFits : RealType → R → Prop) (pool : Pool) (fd : Field)
    (vs : List (Value R)) : Prop :=
  (fd.repeated = false → vs.length ≤ 1) ∧ ∀ v ∈ vs, Typed RealFits pool fd.type v

/-- **A message is one of its type** if each of its fields has values of its
own. This goes by the names of the fields, as updates do, where `Typed` goes
by their order. -/
theorem typedMessage_iff (hd : (pool t).DistinctNames) :
    TypedMessage RealFits pool t slots
      ↔ slots.length = (pool t).fields.length
        ∧ ∀ fd ∈ (pool t).fields,
          TypedSlot RealFits pool fd (slot (pool t).fields slots fd.name) := by
  constructor
  · rintro (_ | _ | _ | _ | _ | _ | ⟨hlen, hsingle, hvalues⟩)
    refine ⟨hlen, fun fd hfd => ?_⟩
    have hmem := mem_zip_slot hlen hd hfd
    exact ⟨hsingle _ hmem, hvalues _ hmem⟩
  · rintro ⟨hlen, hslots⟩
    have hzip : ∀ p ∈ (pool t).fields.zip slots, TypedSlot RealFits pool p.1 p.2 := by
      intro p hp
      have hslot := hslots p.1 (List.of_mem_zip hp).1
      rwa [slot_of_mem_zip hd hp] at hslot
    exact .message hlen (fun p hp => (hzip p hp).1) (fun p hp => (hzip p hp).2)

/-- A message without values is one of any type. -/
theorem typedMessage_empty (hd : (pool t).DistinctNames) :
    TypedMessage RealFits pool t (pool t).empty := by
  refine (typedMessage_iff hd).mpr ⟨MessageType.length_empty _, fun fd _ => ?_⟩
  rw [slot_empty]
  exact ⟨fun _ => Nat.zero_le _, fun v hv => absurd hv List.not_mem_nil⟩

/-- A message stays one of its type when a field gets values of its own. -/
theorem TypedMessage.setSlot (hd : (pool t).DistinctNames)
    (h : TypedMessage RealFits pool t slots) {fd : Field}
    (hfd : fd ∈ (pool t).fields) {vs : List (Value R)} (hvs : TypedSlot RealFits pool fd vs) :
    TypedMessage RealFits pool t (setSlot (pool t).fields slots fd.name vs) := by
  obtain ⟨hlen, hslots⟩ := (typedMessage_iff hd).mp h
  refine (typedMessage_iff hd).mpr ⟨(length_setSlot ..).trans hlen, fun fd' hfd' => ?_⟩
  by_cases hname : fd'.name = fd.name
  · obtain rfl := List.inj_on_of_nodup_map hd hfd' hfd hname
    rwa [slot_setSlot hlen (List.mem_map_of_mem hfd)]
  · rw [slot_setSlot_of_ne hname]
    exact hslots fd' hfd'

end Typed

mutual

/-- No message in a value is without any values, at any depth, nor is the
value itself. -/
def populated : Value R → Bool
  | .message slots => slots.any (fun vs => !vs.isEmpty) && populatedSlots slots
  | _ => true

/-- The same for the fields of a message. -/
def populatedSlots : List (List (Value R)) → Bool
  | [] => true
  | vs :: slots => populatedAll vs && populatedSlots slots

/-- The same for the values of a field. -/
def populatedAll : List (Value R) → Bool
  | [] => true
  | v :: vs => populated v && populatedAll vs

end

@[simp] theorem populated_int (n : ℤ) : populated (.int n : Value R) = true := rfl

@[simp] theorem populated_bool (b : Bool) : populated (.bool b : Value R) = true := rfl

@[simp] theorem populated_str (b : List UInt8) : populated (.str b : Value R) = true := rfl

@[simp] theorem populated_enum (n : ℤ) : populated (.enum n : Value R) = true := rfl

theorem populatedAll_iff {vs : List (Value R)} :
    populatedAll vs = true ↔ ∀ v ∈ vs, populated v = true := by
  induction vs with
  | nil => simp [populatedAll]
  | cons v vs ih => simp [populatedAll, ih]

theorem populatedSlots_iff {slots : Slots R} :
    populatedSlots slots = true ↔ ∀ vs ∈ slots, ∀ v ∈ vs, populated v = true := by
  induction slots with
  | nil => simp [populatedSlots]
  | cons vs slots ih => simp [populatedSlots, populatedAll_iff, ih]

theorem populated_message {slots : Slots R} :
    populated (.message slots) = true
      ↔ (∃ vs ∈ slots, vs ≠ []) ∧ ∀ vs ∈ slots, ∀ v ∈ vs, populated v = true := by
  rw [populated, Bool.and_eq_true, populatedSlots_iff]
  simp

end Proto
