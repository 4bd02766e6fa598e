import RctAutomation.Proto
import RctAutomation.Sql.Value

/-!
# Messages as JSON

`json_protobuf` writes any message as a JSON object with a member for each field
that is populated, and sets the fields of a message that the members of a JSON
object name. Both go by the descriptor of the message, and by the type of each
field.

What an object does to a message is what each of its members does to the field
it names, whatever their order: `updateMembers_eq_ok_iff`. So it sets the fields
it names and no others, it is refused or not regardless of what the message
held, and it makes of a message of its type another one (`updateFromJson_typed`).
Sent again it changes nothing (`updateFromJson_again`).

An exception has its text, where it is the converter's own. A violated condition
of reflection ends the process.
-/

open Sql (Bytes ascii)

open Json (Reader)
open Proto

namespace JsonProtobuf

/-- How a conversion fails: with an exception of its own, with one of the
library that holds the document, or by ending the process. -/
inductive Error
  | invalid_argument (what : Bytes)
  | reader
  | fatal
  deriving DecidableEq

/-- What is thrown for a field of a type that is not supported. -/
def unsupported (kind : String) (d : MessageType) (fd : Field) : Error :=
  .invalid_argument (ascii (kind ++ " type not supported for field '" ++ d.fullName fd ++ "'"))

/-- A sequence of computations returns when each of them does. -/
theorem bind_eq_ok_iff {ε α β : Type} {x : Except ε α} {f : α → Except ε β} {b : β} :
    x.bind f = .ok b ↔ ∃ a, x = .ok a ∧ f a = .ok b := by
  cases x with
  | error e => exact ⟨nofun, fun ⟨_, h, _⟩ => nomatch h⟩
  | ok a => exact ⟨fun h => ⟨a, rfl, h⟩, fun ⟨_, h, hf⟩ => Except.ok.inj h ▸ hf⟩

theorem map_eq_ok_iff {ε α β : Type} {x : Except ε α} {f : α → β} {b : β} :
    x.map f = .ok b ↔ ∃ a, x = .ok a ∧ f a = b := by
  cases x with
  | error e => exact ⟨nofun, fun ⟨_, h, _⟩ => nomatch h⟩
  | ok a =>
    exact ⟨fun h => ⟨a, rfl, Except.ok.inj h⟩, fun ⟨_, h, hf⟩ => by rw [Except.ok.inj h, ← hf]; rfl⟩

/-- What is paired with an element. -/
theorem exists_of_forall₂ {α β : Type} {P : α → β → Prop} {as : List α} {bs : List β}
    (h : List.Forall₂ P as bs) :
    (∀ a ∈ as, ∃ b ∈ bs, P a b) ∧ ∀ b ∈ bs, ∃ a ∈ as, P a b := by
  induction h with
  | nil => exact ⟨fun _ ha => absurd ha List.not_mem_nil, fun _ hb => absurd hb List.not_mem_nil⟩
  | @cons a b as bs hab hrest ih =>
    constructor
    · refine List.forall_mem_cons.mpr ⟨⟨b, List.mem_cons_self, hab⟩, fun a' ha' => ?_⟩
      obtain ⟨b', hb', hp⟩ := ih.1 a' ha'
      exact ⟨b', List.mem_cons_of_mem _ hb', hp⟩
    · refine List.forall_mem_cons.mpr ⟨⟨a, List.mem_cons_self, hab⟩, fun b' hb' => ?_⟩
      obtain ⟨a', ha', hp⟩ := ih.2 b' hb'
      exact ⟨a', List.mem_cons_of_mem _ ha', hp⟩

variable {R : Type}

/-! ## To JSON -/

section Convert

variable (pool : Pool)

mutual

/-- One value of a field, as `convert_single_field` assigns it. An
enumeration is written as the name of its value, and a message as an object.
A value of another type than its field's ends the process, as reflection
checks that. -/
def convertValue (d : MessageType) (fd : Field) (v : Value R) :
    Except Error (Json.Value R) :=
  match fd.type, v with
  | .group, _ => .error (unsupported "group" d fd)
  | .bytes, _ => .error (unsupported "binary" d fd)
  | .int _, .int n => .ok (.int n)
  | .real _, .real x => .ok (.real x)
  | .bool, .bool b => .ok (.bool b)
  | .string, .str b => .ok (.string b)
  | .enum e, .enum n =>
    match e.findValueByNumber n with
    | some name => .ok (.string name)
    | none => .error .fatal
  | .message t, .message slots =>
    (convertFields (pool t) (pool t).fields slots).map Json.ofMembers
  | _, _ => .error .fatal

/-- The values of a repeated field. The first that cannot be converted ends
it. -/
def convertElems (d : MessageType) (fd : Field) :
    List (Value R) → Except Error (List (Json.Value R))
  | [] => .ok []
  | v :: vs => (convertValue d fd v).bind fun j => (convertElems d fd vs).map (j :: ·)

/-- The value of a field that is not repeated. -/
def convertFirst (d : MessageType) (fd : Field) :
    List (Value R) → Except Error (Json.Value R)
  | v :: _ => convertValue d fd v
  | [] => .error .fatal

/-- `convert_to_json`: the members of a message, one for each field that is
populated. Repeated doubles are got as 64-bit integers, which reflection
refuses by ending the process. -/
def convertFields (d : MessageType) :
    List Field → Slots R → Except Error (List (String × Json.Value R))
  | fd :: fields, vs :: slots =>
    if vs.isEmpty then convertFields d fields slots
    else
      let member :=
        if !fd.repeated then convertFirst d fd vs
        -- repeated doubles are got as 64-bit integers
        else if fd.type = .real .double then .error .fatal
        else (convertElems d fd vs).map .array
      member.bind fun j => (convertFields d fields slots).map ((fd.name, j) :: ·)
  | _, _ => .ok []

end

/-- **`convert_to_json`** of a message. Its members are assigned in the order
of the fields, and the document has them in that of their names. -/
def convertToJson (t : String) (slots : Slots R) : Except Error (Json.Value R) :=
  (convertFields pool (pool t) (pool t).fields slots).map Json.ofMembers

end Convert

/-! ## From JSON -/

section Update

variable (lib : Reader R) (pool : Pool)

/-- `update_field`: the value an accessor gives, if the JSON type is right.
The accessor can throw all the same, where the number does not fit. -/
def updateWith (ok : Bool) (v : Option (Value R)) : Except Error (Value R) :=
  if !ok then .error (.invalid_argument (ascii "invalid type"))
  else
    match v with
    | some v => .ok v
    | none => .error .reader

/-- What is thrown for a repeated field, of a value that is no array. -/
def notAnArray (d : MessageType) (fd : Field) : Error :=
  .invalid_argument (ascii ("expecting JSON array for field '" ++ d.fullName fd ++ "'"))

/-- The types of repeated fields: two of them are not supported, and are
refused before the elements are looked at. -/
def supported (d : MessageType) (fd : Field) : Except Error Unit :=
  match fd.type with
  | .group => .error (unsupported "group" d fd)
  | .bytes => .error (unsupported "binary" d fd)
  | _ => .ok ()

/-- `MutableMessage`: the message that a field has, or one without values. So
a nested message is merged into, and not replaced. -/
def mutableMessage (pool : Pool) (t : String) : List (Value R) → Slots R
  | .message slots :: _ => slots
  | _ => (pool t).empty

mutual

/-- `update_single_field`: the value a field gets from a JSON value, with the
values it has. Only a message looks at those.

The value of an enumeration is looked up by its name in the enumerations that
are declared in the message type. -/
def updateValue (d : MessageType) (fd : Field) (old : List (Value R))
    (j : Json.Value R) : Except Error (Value R) :=
  match fd.type, j with
  | .real t, j => updateWith (lib.isNumeric j) ((lib.asReal t j).map .real)
  | .int t, j => updateWith (lib.isIntegral j) ((lib.asInteger t j).map .int)
  | .bool, .bool b => .ok (.bool b)
  | .bool, _ => .error (.invalid_argument (ascii "invalid type"))
  | .string, .string b => .ok (.str b)
  | .string, _ => .error (.invalid_argument (ascii "invalid type"))
  | .group, _ => .error (unsupported "group" d fd)
  | .bytes, _ => .error (unsupported "binary" d fd)
  | .enum e, .string name =>
    match d.findEnumValueByName name with
    | none => .error (.invalid_argument
        (ascii ("unknown enum for field '" ++ d.fullName fd ++ "': '") ++ name ++ ascii "'"))
    | some (e', n) => if e' = e then .ok (.enum n) else .error .fatal
  | .enum _, _ => .error (.invalid_argument
      (ascii ("expecting string (enum) for field '" ++ d.fullName fd ++ "'")))
  | .message t, .object members =>
    (updateMembers (pool t) members (mutableMessage pool t old)).map .message
  | .message _, _ => .error (.invalid_argument (ascii "expecting JSON object type"))

/-- The values that the elements of an array add to a field. They are added
to none, as the field is cleared first. -/
def updateElems (d : MessageType) (fd : Field) :
    List (Json.Value R) → Except Error (List (Value R))
  | [] => .ok []
  | j :: elems => (updateValue d fd [] j).bind fun v => (updateElems d fd elems).map (v :: ·)

/-- The values of a repeated field from a JSON value: the elements of an
array replace what the field had. A value that is no array is refused first,
and then, by `update_repeated_field`, a type that is not supported, even if
there are no elements. -/
def updateRepeated (d : MessageType) (fd : Field) :
    Json.Value R → Except Error (List (Value R))
  | .array elems => (supported d fd).bind fun _ => updateElems d fd elems
  | .null =>
    if lib.nullIsArray then (supported d fd).map fun _ => [] else .error (notAnArray d fd)
  | _ => .error (notAnArray d fd)

/-- `update_from_json`: the message after the members of an object. The first
member that is refused ends it. What the members before it have set is then
dropped, since the request that loads a message ends with the exception. -/
def updateMembers (d : MessageType) :
    List (String × Json.Value R) → Slots R → Except Error (Slots R)
  | [], slots => .ok slots
  | (name, j) :: members, slots =>
    match d.findFieldByName name with
    | none =>
      .error (.invalid_argument (ascii ("JSON field '" ++ name ++ "' not found in message")))
    | some fd =>
      let values :=
        if !fd.repeated then (updateValue d fd (slot d.fields slots name) j).map ([·])
        else updateRepeated d fd j
      values.bind fun vs => updateMembers d members (setSlot d.fields slots name vs)

end

/-- **`update_from_json`** of a message. Only an object is accepted, and null
is none. -/
def updateFromJson (t : String) (j : Json.Value R) (slots : Slots R) : Except Error (Slots R) :=
  match j with
  | .object members => updateMembers lib pool (pool t) members slots
  | _ => .error (.invalid_argument (ascii "expecting JSON object type"))

/-! ## Member by member -/

/-- The values a field has after a member: one, or those of an array. -/
def updateField (d : MessageType) (fd : Field) (old : List (Value R))
    (j : Json.Value R) : Except Error (List (Value R)) :=
  if !fd.repeated then (updateValue lib pool d fd old j).map ([·])
  else updateRepeated lib pool d fd j

variable {lib pool} {d : MessageType} {fd : Field}

theorem updateMembers_cons {name : String} {j : Json.Value R}
    {members : List (String × Json.Value R)} {slots : Slots R} :
    updateMembers lib pool d ((name, j) :: members) slots
      = match d.findFieldByName name with
        | none =>
          .error (.invalid_argument (ascii ("JSON field '" ++ name ++ "' not found in message")))
        | some fd => (updateField lib pool d fd (slot d.fields slots name) j).bind fun vs =>
            updateMembers lib pool d members (setSlot d.fields slots name vs) := by
  rw [updateMembers]
  rfl

theorem updateValue_message {t : String} (hfd : fd.type = .message t) (old : List (Value R))
    (j : Json.Value R) :
    updateValue lib pool d fd old j
      = (updateFromJson lib pool t j (mutableMessage pool t old)).map .message := by
  unfold updateValue
  rw [hfd]
  cases j <;> rfl

/-- The elements of an array, one value each. -/
theorem updateElems_eq_ok_iff {elems : List (Json.Value R)} {vs : List (Value R)} :
    updateElems lib pool d fd elems = .ok vs
      ↔ List.Forall₂ (fun j v => updateValue lib pool d fd [] j = .ok v) elems vs := by
  induction elems generalizing vs with
  | nil =>
    rw [updateElems, List.forall₂_nil_left_iff]
    exact ⟨fun h => (Except.ok.inj h).symm, fun h => h ▸ rfl⟩
  | cons j elems ih =>
    rw [updateElems, List.forall₂_cons_left_iff, bind_eq_ok_iff]
    constructor
    · rintro ⟨v, hv, hrest⟩
      obtain ⟨ws, hws, rfl⟩ := map_eq_ok_iff.mp hrest
      exact ⟨v, ws, hv, ih.mp hws, rfl⟩
    · rintro ⟨v, ws, hv, hws, rfl⟩
      exact ⟨v, hv, map_eq_ok_iff.mpr ⟨ws, ih.mpr hws, rfl⟩⟩

/-- An array that a repeated field accepts gives one value for each element. -/
theorem updateRepeated_array_eq_ok_iff {elems : List (Json.Value R)} {vs : List (Value R)} :
    updateRepeated lib pool d fd (.array elems) = .ok vs
      ↔ supported d fd = .ok ()
        ∧ List.Forall₂ (fun j v => updateValue lib pool d fd [] j = .ok v) elems vs := by
  rw [updateRepeated, bind_eq_ok_iff]
  constructor
  · rintro ⟨⟨⟩, hsupported, hvs⟩
    exact ⟨hsupported, updateElems_eq_ok_iff.mp hvs⟩
  · rintro ⟨hsupported, hvs⟩
    exact ⟨(), hsupported, updateElems_eq_ok_iff.mpr hvs⟩

/-- A type of which a value is accepted is supported. -/
theorem supported_of_updateValue {old : List (Value R)} {j : Json.Value R} {v : Value R}
    (h : updateValue lib pool d fd old j = .ok v) : supported d fd = .ok () := by
  unfold updateValue at h
  unfold supported
  cases htype : fd.type with
  | group | bytes =>
    rw [htype] at h
    cases j <;> cases h
  | _ => rfl

/-- **What the members of an object do to a message**: each sets the field
that it names, from what the field held before, and the others stay.

No order of the members is part of it, so the order cannot matter. -/
structure Updates (lib : Reader R) (pool : Pool) (d : MessageType)
    (members : List (String × Json.Value R)) (slots slots' : Slots R) : Prop where
  /-- The message has as many fields as before. -/
  length : slots'.length = slots.length
  /-- Each member names a field of the type, and sets it. -/
  named : ∀ m ∈ members, ∃ fd, d.findFieldByName m.1 = some fd
    ∧ updateField lib pool d fd (slot d.fields slots m.1) m.2 = .ok (slot d.fields slots' m.1)
  /-- What is not named keeps its values. -/
  others : ∀ name, name ∉ Json.names members → slot d.fields slots' name = slot d.fields slots name

/-- **An object is accepted exactly when each of its members is**, and then
it does to the message what they do, in whatever order they come. That they
have names of their own keeps one from seeing what another has set. -/
theorem updateMembers_eq_ok_iff (hd : d.DistinctNames) {members : List (String × Json.Value R)}
    (hnodup : (Json.names members).Nodup) {slots slots' : Slots R}
    (hlen : slots.length = d.fields.length) :
    updateMembers lib pool d members slots = .ok slots'
      ↔ Updates lib pool d members slots slots' := by
  induction members generalizing slots with
  | nil =>
    rw [updateMembers]
    constructor
    · intro h
      obtain rfl := Except.ok.inj h
      exact ⟨rfl, fun m hm => absurd hm List.not_mem_nil, fun _ _ => rfl⟩
    · intro h
      exact congrArg Except.ok (slots_ext hd hlen (h.length.trans hlen)
        fun fd _ => (h.others fd.name List.not_mem_nil).symm)
  | cons m members ih =>
    obtain ⟨name, j⟩ := m
    obtain ⟨hname, hrest⟩ := List.nodup_cons.mp hnodup
    rw [updateMembers_cons]
    cases hfind : d.findFieldByName name with
    | none =>
      refine ⟨nofun, fun h => ?_⟩
      obtain ⟨fd, hfd, -⟩ := h.named _ List.mem_cons_self
      exact absurd (hfind.symm.trans hfd) (Option.some_ne_none fd).symm
    | some fd =>
      have hmem : name ∈ d.fields.map Field.name := by
        obtain ⟨hfd, rfl⟩ := MessageType.mem_of_findFieldByName hfind
        exact List.mem_map_of_mem hfd
      show (updateField lib pool d fd (slot d.fields slots name) j).bind _ = .ok slots' ↔ _
      rw [bind_eq_ok_iff]
      have hother : ∀ vs name', name' ≠ name →
          slot d.fields (setSlot d.fields slots name vs) name' = slot d.fields slots name' :=
        fun vs name' hne => slot_setSlot_of_ne hne vs
      have hnew : ∀ m ∈ members, m.1 ≠ name := by
        rintro m hm rfl
        exact hname (List.mem_map.mpr ⟨m, hm, rfl⟩)
      constructor
      · rintro ⟨vs, hvs, hupdate⟩
        have h := (ih hrest ((length_setSlot ..).trans hlen)).mp hupdate
        have hkept := (h.others name hname).trans (slot_setSlot hlen hmem vs)
        refine ⟨h.length.trans (length_setSlot ..), fun m hm => ?_, fun name' hname' => ?_⟩
        · rcases List.mem_cons.mp hm with rfl | hm
          · exact ⟨fd, hfind, hkept ▸ hvs⟩
          · rw [← hother vs m.1 (hnew m hm)]
            exact h.named m hm
        · obtain ⟨hne, hname'⟩ := List.ne_and_not_mem_of_not_mem_cons hname'
          exact (h.others name' hname').trans (hother vs name' hne)
      · intro h
        obtain ⟨fd', hfd', hvs⟩ := h.named _ List.mem_cons_self
        obtain rfl := Option.some.inj (hfind.symm.trans hfd')
        refine ⟨_, hvs, (ih hrest ((length_setSlot ..).trans hlen)).mpr ?_⟩
        refine ⟨h.length.trans (length_setSlot ..).symm, fun m hm => ?_, fun name' hname' => ?_⟩
        · rw [hother _ m.1 (hnew m hm)]
          exact h.named m (List.mem_cons_of_mem _ hm)
        · by_cases hne : name' = name
          · rw [hne, slot_setSlot hlen hmem]
          · rw [hother _ name' hne]
            exact h.others name' (List.not_mem_cons_of_ne_of_not_mem hne hname')

/-- The order of the members does not matter. -/
theorem Updates.perm {members members' : List (String × Json.Value R)}
    (hperm : members.Perm members') {slots slots' : Slots R}
    (h : Updates lib pool d members slots slots') : Updates lib pool d members' slots slots' where
  length := h.length
  named m hm := h.named m (hperm.mem_iff.mpr hm)
  others name hname := h.others name fun hmem => hname ((hperm.map Prod.fst).mem_iff.mp hmem)

/-- **Objects with the same members in any order do the same**, and only to
the fields that they name. So whether a document is accepted, and what it
does, is a matter of the JSON and not of how its text is laid out. -/
theorem updateFromJson_order {t : String} (hd : (pool t).DistinctNames)
    {members members' : List (String × Json.Value R)} (hnodup : (Json.names members).Nodup)
    (hperm : members.Perm members') {slots : Slots R}
    (hlen : slots.length = (pool t).fields.length) (slots' : Slots R) :
    (updateFromJson lib pool t (.object members) slots = .ok slots'
        ↔ updateFromJson lib pool t (.object members') slots = .ok slots')
      ∧ (updateFromJson lib pool t (.object members) slots = .ok slots' →
        ∀ name, name ∉ Json.names members →
          slot (pool t).fields slots' name = slot (pool t).fields slots name) := by
  have hnodup' : (Json.names members').Nodup := (hperm.map Prod.fst).nodup_iff.mp hnodup
  have hupdates : updateFromJson lib pool t (.object members) slots = .ok slots' ↔ _ :=
    updateMembers_eq_ok_iff hd hnodup hlen
  have hupdates' : updateFromJson lib pool t (.object members') slots = .ok slots' ↔ _ :=
    updateMembers_eq_ok_iff hd hnodup' hlen
  rw [hupdates, hupdates']
  exact ⟨⟨fun h => h.perm hperm, fun h => h.perm hperm.symm⟩, fun h => h.others⟩

/-- A type with a text and a number, which is repeated. -/
def noteType : MessageType :=
  ⟨"Note", [⟨"text", 1, .string, false⟩, ⟨"numbers", 2, .int .int32, true⟩], []⟩

theorem distinctNames_note : noteType.DistinctNames := by
  unfold MessageType.DistinctNames
  decide

/-- The members of a note, in the order of their names. -/
def noteMembers : List (String × Json.Value Empty) :=
  [("numbers", .array [.int 7, .int 8]), ("text", .string (ascii "a"))]

/-- A note is the same with its text first. -/
theorem updateFromJson_order_note :
    updateFromJson Reader.whole (fun _ => noteType) "Note" (.object noteMembers.reverse) [[], []]
      = .ok [[.str (ascii "a")], [.int 7, .int 8]] :=
  (updateFromJson_order (t := "Note") distinctNames_note (by decide)
    noteMembers.reverse_perm.symm rfl _).1.mp rfl

/-! ## What does not depend on the message -/

/-- How a conversion ends, apart from what it gives. -/
def outcome {α : Type} (x : Except Error α) : Except Error Unit := x.map fun _ => ()

theorem outcome_map {α β : Type} (x : Except Error α) (f : α → β) :
    outcome (x.map f) = outcome x := by
  cases x <;> rfl

theorem outcome_bind {α β : Type} {x y : Except Error α} {f g : α → Except Error β}
    (h : outcome x = outcome y) (hfg : ∀ a b, outcome (f a) = outcome (g b)) :
    outcome (x.bind f) = outcome (y.bind g) := by
  cases x with
  | error e =>
    cases y with
    | error e' => exact h
    | ok b => cases h
  | ok a =>
    cases y with
    | error e' => cases h
    | ok b => exact hfg a b

/-- **How an update ends does not depend on the message**: a document is
accepted or refused for what it is, and refused with the same exception.

Only a nested message is updated from what the field held, and for one the
same holds of its members. -/
theorem outcome_updateValue (lib : Reader R) (pool : Pool) (j : Json.Value R) (d : MessageType)
    (fd : Field) (old old' : List (Value R)) :
    outcome (updateValue lib pool d fd old j) = outcome (updateValue lib pool d fd old' j) := by
  induction j using Json.Value.induction generalizing d fd old old' with
  | object members ih =>
    have hmembers : ∀ (d : MessageType) (slots slots' : Slots R),
        outcome (updateMembers lib pool d members slots)
          = outcome (updateMembers lib pool d members slots') := by
      intro d
      induction members with
      | nil => exact fun _ _ => rfl
      | cons m members ihs =>
        intro slots slots'
        obtain ⟨name, j⟩ := m
        rw [updateMembers_cons, updateMembers_cons]
        cases d.findFieldByName name with
        | none => rfl
        | some fd =>
          refine outcome_bind ?_ fun _ _ => ihs (fun m hm => ih m (List.mem_cons_of_mem _ hm)) _ _
          unfold updateField
          split
          · rw [outcome_map, outcome_map]
            exact ih _ List.mem_cons_self ..
          · rfl
    cases htype : fd.type with
    | message t =>
      rw [updateValue_message htype, updateValue_message htype, outcome_map, outcome_map]
      exact hmembers ..
    | _ =>
      unfold updateValue
      rw [htype]
  | _ =>
    unfold updateValue
    cases fd.type <;> rfl

/-! ## What an update makes of a message -/

/-- The types of the pool have fields with names of their own. -/
def DistinctPool (pool : Pool) : Prop := ∀ t, (pool t).DistinctNames

theorem typed_updateWith {ok : Bool} {v : Option (Value R)} {w : Value R} {type : FieldKind}
    (hv : ∀ w ∈ v, Typed lib.RealFits pool type w) (h : updateWith ok v = .ok w) :
    Typed lib.RealFits pool type w := by
  unfold updateWith at h
  split at h
  · cases h
  · cases v with
    | none => cases h
    | some v => exact Except.ok.inj h ▸ hv v rfl

/-- A value found by its name is one of the enumeration. -/
theorem mem_of_findEnumValueByName {name : Bytes} {e : EnumType} {n : ℤ}
    (h : d.findEnumValueByName name = some (e, n)) : n ∈ e.values.map Prod.snd := by
  obtain ⟨e', -, hfind⟩ := List.exists_of_findSome?_eq_some h
  obtain ⟨v, hv, hpair⟩ := Option.map_eq_some_iff.mp hfind
  obtain ⟨rfl, rfl⟩ := Prod.mk.inj hpair
  exact List.mem_map_of_mem (List.mem_of_find?_eq_some hv)

/-- A value that is no message is of its field's type. The reader only gives
numbers that fit, and the values of an enumeration are looked up in it. -/
theorem typed_updateValue_scalar {old : List (Value R)} {j : Json.Value R} {v : Value R}
    (hscalar : ∀ t, fd.type ≠ .message t) (h : updateValue lib pool d fd old j = .ok v) :
    Typed lib.RealFits pool fd.type v := by
  unfold updateValue at h
  cases htype : fd.type with
  | int t =>
    rw [htype] at h
    refine typed_updateWith (fun w hw => ?_) h
    obtain ⟨n, hn, rfl⟩ := Option.map_eq_some_iff.mp hw
    exact .int (lib.fits_asInteger hn)
  | real t =>
    rw [htype] at h
    refine typed_updateWith (fun w hw => ?_) h
    obtain ⟨x, hx, rfl⟩ := Option.map_eq_some_iff.mp hw
    exact .real (lib.realFits_asReal hx)
  | bool =>
    rw [htype] at h
    cases j with
    | bool b => exact Except.ok.inj h ▸ .bool b
    | _ => cases h
  | string =>
    rw [htype] at h
    cases j with
    | string b => exact Except.ok.inj h ▸ .string b
    | _ => cases h
  | enum e =>
    rw [htype] at h
    cases j with
    | string name =>
      cases hfind : d.findEnumValueByName name with
      | none =>
        simp only [hfind] at h
        cases h
      | some x =>
        obtain ⟨e', n⟩ := x
        simp only [hfind] at h
        split at h
        · rename_i heq
          exact Except.ok.inj h ▸ .enum (heq ▸ mem_of_findEnumValueByName hfind)
        · cases h
    | _ => cases h
  | message t => exact absurd htype (hscalar t)
  | bytes | group =>
    rw [htype] at h
    cases j <;> cases h

/-- What is no object gives a value that is no message. -/
theorem typed_of_not_object {old : List (Value R)} {j : Json.Value R} {v : Value R}
    (hj : ∀ members, j ≠ .object members) (h : updateValue lib pool d fd old j = .ok v) :
    Typed lib.RealFits pool fd.type v := by
  refine typed_updateValue_scalar (fun t htype => ?_) h
  rw [updateValue_message htype] at h
  cases j with
  | object members => exact hj members rfl
  | _ => cases h

/-- The values a field gets are its own, if each value that a document gives
to a field of a type is of that type. A field that is not repeated gets one
value, and a repeated one gets those of the elements. -/
theorem typedSlot_updateField {old : List (Value R)} {j : Json.Value R} {vs : List (Value R)}
    (hj : ∀ {v}, updateValue lib pool d fd old j = .ok v → Typed lib.RealFits pool fd.type v)
    (helems : ∀ elems, j = .array elems → ∀ j' ∈ elems, ∀ {v},
      updateValue lib pool d fd [] j' = .ok v → Typed lib.RealFits pool fd.type v)
    (h : updateField lib pool d fd old j = .ok vs) : TypedSlot lib.RealFits pool fd vs := by
  unfold updateField at h
  cases hrep : fd.repeated with
  | false =>
    rw [hrep] at h
    obtain ⟨v, hv, rfl⟩ := map_eq_ok_iff.mp h
    exact ⟨fun _ => le_refl _, fun w hw => List.mem_singleton.mp hw ▸ hj hv⟩
  | true =>
    rw [hrep] at h
    refine ⟨fun hfalse => absurd (hrep.symm.trans hfalse) (by decide), fun v hv => ?_⟩
    cases j with
    | array elems =>
      obtain ⟨-, hvs⟩ := updateRepeated_array_eq_ok_iff.mp h
      obtain ⟨j', hj', hjv⟩ := (exists_of_forall₂ hvs).2 v hv
      exact helems elems rfl j' hj' hjv
    | null =>
      change (if lib.nullIsArray then (supported d fd).map fun _ => [] else
        .error (notAnArray d fd)) = .ok vs at h
      split at h
      · obtain ⟨-, -, rfl⟩ := map_eq_ok_iff.mp h
        exact absurd hv List.not_mem_nil
      · cases h
    | _ => cases h

/-- A document gives each field values of its type, where what it had was.
This is said of all fields at once, for the induction over the document. -/
def GivesTyped (lib : Reader R) (pool : Pool) (j : Json.Value R) : Prop :=
  ∀ (d : MessageType) (fd : Field) (old : List (Value R)),
    (∀ w ∈ old, Typed lib.RealFits pool fd.type w) →
    (∀ v, updateValue lib pool d fd old j = .ok v → Typed lib.RealFits pool fd.type v)
      ∧ ∀ vs, updateField lib pool d fd old j = .ok vs → TypedSlot lib.RealFits pool fd vs

/-- Members that give their fields values of their types keep a message of
its type, one after the other. -/
theorem typed_updateMembers (hpool : DistinctPool pool) {t : String}
    {members : List (String × Json.Value R)}
    (hmembers : ∀ m ∈ members, GivesTyped lib pool m.2) {slots slots' : Slots R}
    (hslots : TypedMessage lib.RealFits pool t slots)
    (h : updateMembers lib pool (pool t) members slots = .ok slots') :
    TypedMessage lib.RealFits pool t slots' := by
  induction members generalizing slots with
  | nil => exact Except.ok.inj h ▸ hslots
  | cons m members ih =>
    obtain ⟨name, j⟩ := m
    obtain ⟨hj, hrest⟩ := List.forall_mem_cons.mp hmembers
    rw [updateMembers_cons] at h
    cases hfind : (pool t).findFieldByName name with
    | none =>
      rw [hfind] at h
      cases h
    | some fd =>
      rw [hfind] at h
      obtain ⟨vs, hvs, hlater⟩ := bind_eq_ok_iff.mp h
      obtain ⟨hfd, rfl⟩ := MessageType.mem_of_findFieldByName hfind
      have hhad := ((typedMessage_iff (hpool t)).mp hslots).2 fd hfd
      exact ih hrest (hslots.setSlot (hpool t) hfd ((hj (pool t) fd _ hhad.2).2 vs hvs)) hlater

/-- The message of a field, or one without values, is of its type. -/
theorem typed_old (hpool : DistinctPool pool) {t : String} {old : List (Value R)}
    (hold : ∀ w ∈ old, Typed lib.RealFits pool (.message t) w) :
    TypedMessage lib.RealFits pool t (mutableMessage pool t old) := by
  unfold mutableMessage
  split
  · exact hold _ List.mem_cons_self
  · exact typedMessage_empty (hpool t)

theorem givesTyped_of_leaf {j : Json.Value R} (hobject : ∀ members, j ≠ .object members)
    (harray : ∀ elems, j ≠ .array elems) : GivesTyped lib pool j := fun _ _ _ _ =>
  ⟨fun _ => typed_of_not_object hobject, fun _ =>
    typedSlot_updateField (typed_of_not_object hobject) fun elems heq => absurd heq (harray elems)⟩

/-- **What a field gets from a document is of its type.** The induction is
over the document; a member of an object is a value of a field of the nested
message. -/
theorem givesTyped (hpool : DistinctPool pool) (j : Json.Value R) : GivesTyped lib pool j := by
  induction j using Json.Value.induction with
  | object members ih =>
    intro d fd old hold
    have hvalue : ∀ v, updateValue lib pool d fd old (.object members) = .ok v →
        Typed lib.RealFits pool fd.type v := by
      intro v h
      by_cases hmessage : ∃ t, fd.type = .message t
      · obtain ⟨t, htype⟩ := hmessage
        rw [updateValue_message htype] at h
        obtain ⟨slots, hslots, rfl⟩ := map_eq_ok_iff.mp h
        rw [htype] at hold ⊢
        exact typed_updateMembers hpool ih (typed_old hpool hold) hslots
      · exact typed_updateValue_scalar (fun t htype => hmessage ⟨t, htype⟩) h
    exact ⟨hvalue, fun vs h => typedSlot_updateField (hvalue _) nofun h⟩
  | array elems ih =>
    intro d fd old hold
    have hnot : ∀ members, Json.Value.array elems ≠ .object members := fun _ heq => nomatch heq
    refine ⟨fun v h => typed_of_not_object hnot h, fun vs h =>
      typedSlot_updateField (typed_of_not_object hnot) ?_ h⟩
    intro elems' heq j' hj' v hv
    obtain rfl := Json.Value.array.inj heq
    exact (ih j' hj' d fd [] fun w hw => absurd hw List.not_mem_nil).1 v hv
  | null | int | real | bool | string =>
    exact givesTyped_of_leaf (by intro _ heq; cases heq) (by intro _ heq; cases heq)

/-- **What is accepted is well formed**: an update makes of a message of its
type another one, whatever the document. A number that does not fit its type
has been refused by the reader. -/
theorem updateFromJson_typed (hpool : DistinctPool pool) {t : String} {j : Json.Value R}
    {slots slots' : Slots R} (hslots : TypedMessage lib.RealFits pool t slots)
    (h : updateFromJson lib pool t j slots = .ok slots') :
    TypedMessage lib.RealFits pool t slots' := by
  cases j with
  | object members => exact typed_updateMembers hpool (fun m _ => givesTyped hpool m.2) hslots h
  | _ => cases h

/-! ## Updates that are sent again -/

/-- Only a message depends on what a field held. -/
theorem updateValue_scalar (hscalar : ∀ t, fd.type ≠ .message t) (old old' : List (Value R))
    (j : Json.Value R) : updateValue lib pool d fd old j = updateValue lib pool d fd old' j := by
  unfold updateValue
  cases htype : fd.type with
  | message t => exact absurd htype (hscalar t)
  | _ => cases j <;> rfl

/-- A document gives a field that holds what it gave it the same. -/
def GivesAgain (lib : Reader R) (pool : Pool) (j : Json.Value R) : Prop :=
  ∀ (d : MessageType) (fd : Field) (old : List (Value R)) (v : Value R),
    (∀ w ∈ old, Typed lib.RealFits pool fd.type w) →
    updateValue lib pool d fd old j = .ok v → updateValue lib pool d fd [v] j = .ok v

/-- The same for the members of an object and a message. -/
theorem Updates.again {t : String} {members : List (String × Json.Value R)}
    (hmembers : ∀ m ∈ members, GivesAgain lib pool m.2) {slots slots' : Slots R}
    (htyped : ∀ fd ∈ (pool t).fields,
      TypedSlot lib.RealFits pool fd (slot (pool t).fields slots fd.name))
    (h : Updates lib pool (pool t) members slots slots') :
    Updates lib pool (pool t) members slots' slots' := by
  refine ⟨rfl, fun m hm => ?_, fun _ _ => rfl⟩
  obtain ⟨fd, hfind, hok⟩ := h.named m hm
  refine ⟨fd, hfind, ?_⟩
  obtain ⟨hfd, hname⟩ := MessageType.mem_of_findFieldByName hfind
  unfold updateField at hok ⊢
  split at hok
  · rename_i hsingle
    obtain ⟨v, hv, hslot⟩ := map_eq_ok_iff.mp hok
    rw [if_pos hsingle, ← hslot]
    have hold := (htyped fd hfd).2
    rw [hname] at hold
    exact map_eq_ok_iff.mpr ⟨v, hmembers m hm (pool t) fd _ v hold hv, rfl⟩
  · rename_i hrepeated
    rwa [if_neg hrepeated]

/-- **A document that has set a message sets it to the same again.** A nested
message is merged into what it has made of one, and by induction that changes
nothing. -/
theorem givesAgain (hpool : DistinctPool pool) {j : Json.Value R}
    (hdistinct : Json.distinct j = true) : GivesAgain lib pool j := by
  induction j using Json.Value.induction with
  | object members ih =>
    obtain ⟨hnodup, hdeep⟩ := Json.distinct_object.mp hdistinct
    intro d fd old v hold h
    by_cases hmessage : ∃ t, fd.type = .message t
    · obtain ⟨t, htype⟩ := hmessage
      rw [updateValue_message htype] at h ⊢
      obtain ⟨slots, hslots, rfl⟩ := map_eq_ok_iff.mp h
      rw [htype] at hold
      obtain ⟨hlen, htyped⟩ := (typedMessage_iff (hpool t)).mp (typed_old hpool hold)
      have hupdates := (updateMembers_eq_ok_iff (hpool t) hnodup hlen).mp hslots
      have hagain := hupdates.again (fun m hm => ih m hm (hdeep m hm)) htyped
      exact map_eq_ok_iff.mpr ⟨slots, (updateMembers_eq_ok_iff (hpool t) hnodup
        (hupdates.length.trans hlen)).mpr hagain, rfl⟩
    · rwa [updateValue_scalar (fun t htype => hmessage ⟨t, htype⟩) [v] old]
  | _ =>
    intro d fd old v _ h
    rwa [updateValue_scalar (fun t htype => ?_) [v] old]
    rw [updateValue_message htype] at h
    cases h

/-- **An update that is sent again changes nothing.** So a client that has
got no answer can send its document once more. -/
theorem updateFromJson_again (hpool : DistinctPool pool) {t : String} {j : Json.Value R}
    (hdistinct : Json.distinct j = true) {slots slots' : Slots R}
    (hslots : TypedMessage lib.RealFits pool t slots)
    (h : updateFromJson lib pool t j slots = .ok slots') :
    updateFromJson lib pool t j slots' = .ok slots' := by
  cases j with
  | object members =>
    obtain ⟨hnodup, hdeep⟩ := Json.distinct_object.mp hdistinct
    obtain ⟨hlen, htyped⟩ := (typedMessage_iff (hpool t)).mp hslots
    have hupdates := (updateMembers_eq_ok_iff (hpool t) hnodup hlen).mp h
    exact (updateMembers_eq_ok_iff (hpool t) hnodup (hupdates.length.trans hlen)).mpr
      (hupdates.again (fun m hm => givesAgain hpool (hdeep m hm)) htyped)
  | _ => cases h

/-- A note that is set twice. -/
theorem updateFromJson_again_note :
    updateFromJson Reader.whole (fun _ => noteType) "Note" (.object noteMembers)
        [[.str (ascii "a")], [.int 7, .int 8]]
      = .ok [[.str (ascii "a")], [.int 7, .int 8]] := by
  have hpool : DistinctPool fun _ => noteType := fun _ => distinctNames_note
  exact updateFromJson_again hpool (by decide) (typedMessage_empty (hpool "Note")) rfl

end Update

end JsonProtobuf
