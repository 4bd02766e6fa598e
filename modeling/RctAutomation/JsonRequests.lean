import RctAutomation.JsonMessages
import RctAutomation.RunOnce

/-!
# Requests in JSON

A request names the format of its body and of its response. In JSON, its body is
parsed by a library and set as `json_protobuf` does it, and its response is
converted and written by that library, which is a parameter.

Whatever a client sends, a request in JSON loads a message of the type it is for
or throws: `fromJson_cases`. A schedule that is fetched and posted back stays as
it is, or is refused because a message in it is without values:
`update_fetched_iff`.
-/

open Sql (Bytes ascii)

open Json (Reader)
open Proto JsonMessages
open JsonProtobuf (convertToJson updateFromJson)

/-! ## No document ends the process -/

namespace JsonProtobuf

variable {R : Type} {lib : Reader R} {pool : Pool}

/-- The enumeration that the values of a field are of. -/
def enumOf : FieldKind → List EnumType
  | .enum e => [e]
  | _ => []

/-- The enumerations of a type are the field's own, if it has one: then so is
a value that is found by its name. -/
def SoleEnum (d : MessageType) (fd : Field) : Prop :=
  ∀ e ∈ enumOf fd.type, ∀ e' ∈ d.enum_types, e' = e

instance (d : MessageType) (fd : Field) : Decidable (SoleEnum d fd) :=
  List.decidableBAll ..

/-- The conversion does not end the process. -/
def NotFatal {α : Type} (x : Except Error α) : Prop := x ≠ .error .fatal

theorem NotFatal.map {α β : Type} {x : Except Error α} (h : NotFatal x) (f : α → β) :
    NotFatal (x.map f) := by
  cases x with
  | error e => exact fun heq => h (congrArg Except.error (Except.error.inj heq))
  | ok a => exact nofun

theorem NotFatal.bind {α β : Type} {x : Except Error α} (h : NotFatal x)
    {f : α → Except Error β} (hf : ∀ a, NotFatal (f a)) : NotFatal (x.bind f) := by
  cases x with
  | error e => exact fun heq => h (congrArg Except.error (Except.error.inj heq))
  | ok a => exact hf a

theorem notFatal_updateWith (ok : Bool) (v : Option (Value R)) : NotFatal (updateWith ok v) := by
  unfold updateWith
  split
  · exact nofun
  · cases v <;> exact nofun

theorem notFatal_updateElems {d : MessageType} {fd : Field} {elems : List (Json.Value R)}
    (h : ∀ j ∈ elems, ∀ old, NotFatal (updateValue lib pool d fd old j)) :
    NotFatal (updateElems lib pool d fd elems) := by
  induction elems with
  | nil => exact nofun
  | cons j elems ih =>
    obtain ⟨hj, helems⟩ := List.forall_mem_cons.mp h
    exact (hj []).bind fun v => (ih helems).map _

theorem notFatal_updateMembers {d : MessageType} {members : List (String × Json.Value R)}
    (h : ∀ m ∈ members, ∀ fd ∈ d.fields, ∀ old, NotFatal (updateField lib pool d fd old m.2))
    (slots : Slots R) : NotFatal (updateMembers lib pool d members slots) := by
  induction members generalizing slots with
  | nil => exact nofun
  | cons m members ih =>
    obtain ⟨hm, hmembers⟩ := List.forall_mem_cons.mp h
    obtain ⟨name, j⟩ := m
    rw [updateMembers_cons]
    cases hfind : d.findFieldByName name with
    | none => exact nofun
    | some fd =>
      exact (hm fd (MessageType.mem_of_findFieldByName hfind).1 _).bind fun vs => ih hmembers _

/-- A value that is no message. Only the value of an enumeration could end
the process, if its name were found in another enumeration. -/
theorem notFatal_updateValue_scalar {d : MessageType} {fd : Field} (hsole : SoleEnum d fd)
    (old : List (Value R)) {j : Json.Value R}
    (hscalar : ∀ t members, fd.type = .message t → j ≠ .object members) :
    NotFatal (updateValue lib pool d fd old j) := by
  unfold updateValue
  cases htype : fd.type with
  | int t => exact notFatal_updateWith _ _
  | real t => exact notFatal_updateWith _ _
  | enum e =>
    have hown : ∀ e' ∈ d.enum_types, e' = e :=
      hsole e (by rw [htype]; exact List.mem_singleton_self e)
    cases j with
    | string name =>
      cases hfind : d.findEnumValueByName name with
      | none =>
        simp only [hfind]
        rintro ⟨⟩
      | some x =>
        obtain ⟨e', he', hvalue⟩ := List.exists_of_findSome?_eq_some hfind
        obtain ⟨v, -, rfl⟩ := Option.map_eq_some_iff.mp hvalue
        simp only [hfind, hown e' he', if_true]
        rintro ⟨⟩
    | _ => rintro ⟨⟩
  | message t =>
    cases j with
    | object members => exact absurd rfl (hscalar t members htype)
    | _ => rintro ⟨⟩
  | _ => cases j <;> rintro ⟨⟩

theorem notFatal_supported (d : MessageType) (fd : Field) : NotFatal (supported d fd) := by
  unfold supported
  split <;> rintro ⟨⟩

/-- A value for a field that is repeated. -/
theorem notFatal_updateRepeated {d : MessageType} {fd : Field} {j : Json.Value R}
    (h : ∀ elems, j = .array elems →
      ∀ j' ∈ elems, ∀ old, NotFatal (updateValue lib pool d fd old j')) :
    NotFatal (updateRepeated lib pool d fd j) := by
  unfold updateRepeated
  cases j with
  | array elems =>
    exact (notFatal_supported d fd).bind fun _ => notFatal_updateElems (h elems rfl)
  | null =>
    show NotFatal (if _ then _ else _)
    split
    · exact (notFatal_supported d fd).map _
    · rintro ⟨⟩
  | _ => rintro ⟨⟩

/-- A value for any field. -/
theorem notFatal_updateField {d : MessageType} {fd : Field} {j : Json.Value R}
    (h : (∀ old, NotFatal (updateValue lib pool d fd old j))
      ∧ NotFatal (updateRepeated lib pool d fd j)) (old : List (Value R)) :
    NotFatal (updateField lib pool d fd old j) := by
  unfold updateField
  split
  · exact (h.1 old).map _
  · exact h.2

/-- **A document does not end the process**, whatever the field it is for. By
induction over the document; what could end it is a value of another
enumeration than the field's. -/
theorem notFatal_updateValue (hpool : ∀ t, ∀ fd ∈ (pool t).fields, SoleEnum (pool t) fd)
    (j : Json.Value R) {d : MessageType} {fd : Field} (hsole : SoleEnum d fd) :
    (∀ old, NotFatal (updateValue lib pool d fd old j))
      ∧ NotFatal (updateRepeated lib pool d fd j) := by
  induction j using Json.Value.induction generalizing d fd with
  | object members ih =>
    refine ⟨fun old => ?_, notFatal_updateRepeated nofun⟩
    by_cases hmessage : ∃ t, fd.type = .message t
    · obtain ⟨t, htype⟩ := hmessage
      rw [updateValue_message htype]
      exact (notFatal_updateMembers
        (fun m hm fd hfd => notFatal_updateField (ih m hm (hpool t fd hfd))) _).map _
    · exact notFatal_updateValue_scalar hsole old
        fun t _ htype => absurd ⟨t, htype⟩ hmessage
  | array elems ih =>
    refine ⟨fun old => notFatal_updateValue_scalar hsole old nofun,
      notFatal_updateRepeated fun elems' heq j' hj' => ?_⟩
    obtain rfl := Json.Value.array.inj heq
    exact (ih j' hj' hsole).1
  | _ =>
    exact ⟨fun old => notFatal_updateValue_scalar hsole old nofun, notFatal_updateRepeated nofun⟩

theorem notFatal_updateFromJson (hpool : ∀ t, ∀ fd ∈ (pool t).fields, SoleEnum (pool t) fd)
    (t : String) (j : Json.Value R) (slots : Slots R) :
    NotFatal (updateFromJson lib pool t j slots) := by
  cases j with
  | object members =>
    exact notFatal_updateMembers (fun m _ fd hfd =>
      notFatal_updateField (notFatal_updateValue hpool m.2 (hpool t fd hfd))) slots
  | _ => exact nofun

end JsonProtobuf

/-! ## Bodies and responses -/

/-- A library for JSON: its texts, and its values. What makes up a text is
not said. -/
structure JsonLibrary (R : Type) where
  /-- How its values are read. -/
  reader : Reader R
  /-- What a text is parsed to, or the errors in it. -/
  parse : Bytes → Except Bytes (Json.Value R)
  /-- The text of a value. -/
  write : Json.Value R → Bytes

/-- A response: the type of its content, where the request sets one, and its
body. -/
structure Response where
  contentType : Option Bytes
  body : Bytes
  deriving DecidableEq

namespace JsonProtobuf

/-- `update_from_json` of a text, which is parsed first. An exception for a
text that is not JSON has the errors the library has found. -/
def updateFromText {R : Type} (lib : JsonLibrary R) (pool : Pool) (t : String) (value : Bytes)
    (slots : Slots R) : Except Error (Slots R) :=
  match lib.parse value with
  | .error errors => .error (.invalid_argument (ascii "failed to parse JSON document: " ++ errors))
  | .ok j => updateFromJson lib.reader pool t j slots

end JsonProtobuf

namespace WebCommand

variable {R : Type} (lib : JsonLibrary R)

/-- What an error of a conversion does to a request: it throws, or the
process ends. -/
def stopOf : JsonProtobuf.Error → Stop
  | .fatal => .aborted
  | _ => .threw

/-- **A body in JSON**, for `LoadMessage` of a type. The message starts
without values, so it is what the document says and nothing else. -/
def fromJson {α : Type} (t : String) (ofSlots : Slots R → α) (req : Bytes) : Except Stop α :=
  match JsonProtobuf.updateFromText lib automationPool t req (automationPool t).empty with
  | .ok input => .ok (ofSlots input)
  | .error e => .error (stopOf e)

/-- `ReturnMessage`, of a message with its serialized form and what
`DebugString` shows of it. A format it does not know is that of the wire. -/
def returnMessage (t : String) (slots : Slots R) (serialized debugString : Bytes)
    (params : QueryParams) : Except Stop Response :=
  let format := (params "format").getD (ascii "pb")
  if format = ascii "debugpb" then .ok ⟨none, debugString⟩
  else if format = ascii "json" then
    match convertToJson automationPool t slots with
    | .ok pt => .ok ⟨some (ascii "application/json"), lib.write pt⟩
    | .error e => .error (stopOf e)
  else
    .ok ⟨some (ascii ("application/x-protobuf; desc=\"/pb/" ++ t ++ ".desc\"; messageType=\""
      ++ t ++ "\";);")), serialized⟩

end WebCommand

namespace RequirementsCommand

variable {R : Type} (lib : JsonLibrary R)

/-- `/requirements/fetch`, of the schedule of the engine, in the format the
request asks for. -/
def fetch (debugString : Schedule → Bytes) (params : QueryParams) (schedule_ : Schedule) :
    Except Stop Response :=
  WebCommand.returnMessage lib "automation.Schedule" schedule_.slots schedule_.serialize
    (debugString schedule_) params

/-- `/requirements/update`, up to the copy into the engine: the schedule of
the engine after it, which is then saved, or why the request ends before. The
whole schedule is replaced, not merged. -/
def update (params : QueryParams) (content : Bytes) (schedule_ : Schedule) :
    Except Stop Unit × Schedule :=
  match loadBody (WebCommand.fromJson lib "automation.Schedule" Schedule.ofSlots)
      Schedule.readField {} params content with
  | .ok update_request => (.ok (), update_request)
  | .error e => (.error e, schedule_)

end RequirementsCommand

/-! ## What a body in JSON is loaded as -/

theorem soleEnum_automationPool (t : String) :
    ∀ fd ∈ (automationPool t).fields, JsonProtobuf.SoleEnum (automationPool t) fd := by
  have hall : ∀ d ∈ JsonMessages.types, ∀ fd ∈ d.fields, JsonProtobuf.SoleEnum d fd := by
    decide +kernel
  unfold automationPool
  cases hfind : JsonMessages.types.find? fun d => d.full_name == t with
  | none => exact fun fd hfd => absurd hfd List.not_mem_nil
  | some d => exact hall d (List.mem_of_find?_eq_some hfind)

namespace WebCommand

variable {R α : Type} {lib : JsonLibrary R} {t : String} {ofSlots : Slots R → α}

/-- **Whatever is sent is loaded as a message of its type**, or the request
throws. It does not end the process.

The library may refuse the text, and the converter the document. What the
converter accepts is well formed, and no document is fatal for the types of
the API. -/
theorem fromJson_cases (lib : JsonLibrary R) (t : String) (ofSlots : Slots R → α) (req : Bytes) :
    fromJson lib t ofSlots req = .error .threw
      ∨ ∃ slots, TypedMessage lib.reader.RealFits automationPool t slots
        ∧ fromJson lib t ofSlots req = .ok (ofSlots slots) := by
  unfold fromJson JsonProtobuf.updateFromText
  cases lib.parse req with
  | error errors => exact Or.inl rfl
  | ok j =>
    obtain ⟨x, hx⟩ : ∃ x,
      x = updateFromJson lib.reader automationPool t j (automationPool t).empty := ⟨_, rfl⟩
    have hfatal : JsonProtobuf.NotFatal x :=
      hx ▸ JsonProtobuf.notFatal_updateFromJson soleEnum_automationPool t j _
    simp only [← hx]
    cases x with
    | error e =>
      refine Or.inl ?_
      cases e with
      | fatal => exact absurd rfl hfatal
      | _ => rfl
    | ok slots =>
      have hdistinct := plain_automationPool.distinct
      exact Or.inr ⟨slots, JsonProtobuf.updateFromJson_typed hdistinct
        (typedMessage_empty (hdistinct t)) hx.symm, rfl⟩

theorem fromJson_of_parse {req : Bytes} {j : Json.Value R} (h : lib.parse req = .ok j) :
    fromJson lib t ofSlots req
      = match updateFromJson lib.reader automationPool t j (automationPool t).empty with
        | .ok input => .ok (ofSlots input)
        | .error e => .error (stopOf e) := by
  unfold fromJson JsonProtobuf.updateFromText
  rw [h]

/-- What is loaded is accepted, and what is not throws. -/
theorem fromJson_refused {req : Bytes} {j : Json.Value R} (h : lib.parse req = .ok j)
    (hrefused : ∀ slots,
      updateFromJson lib.reader automationPool t j (automationPool t).empty ≠ .ok slots) :
    fromJson lib t ofSlots req = .error .threw := by
  rcases fromJson_cases lib t ofSlots req with hthrew | ⟨_, -, hok⟩
  · exact hthrew
  · rw [fromJson_of_parse h] at hok
    cases hupdate : updateFromJson lib.reader automationPool t j (automationPool t).empty with
    | ok input => exact absurd hupdate (hrefused input)
    | error e =>
      rw [hupdate] at hok
      cases hok

/-- **A message in JSON is loaded as it was** if no message in it is without
values, and throws otherwise. The library is to parse the text it has written
as the document it wrote. -/
theorem fromJson_write {slots : Slots R}
    (hslots : TypedMessage lib.reader.RealFits automationPool t slots) {j : Json.Value R}
    (hj : convertToJson automationPool t slots = .ok j) (htext : lib.parse (lib.write j) = .ok j) :
    fromJson lib t ofSlots (lib.write j)
      = if populated (.message slots) = true then .ok (ofSlots slots) else .error .threw := by
  split
  · rename_i hpopulated
    obtain ⟨j', hj', hback⟩ :=
      JsonProtobuf.updateFromJson_of_populated plain_automationPool hslots hpopulated
    obtain rfl := Except.ok.inj (hj'.symm.trans hj)
    rw [fromJson_of_parse htext, hback]
  · rename_i hempty
    exact fromJson_refused htext fun slots' hupdate =>
      hempty (JsonProtobuf.populated_of_updateFromJson plain_automationPool hslots hj hupdate)

end WebCommand

namespace RequirementsCommand

variable {R : Type} {lib : JsonLibrary R} {params : QueryParams}

theorem loadBody_json {α : Type} (fromJson : Bytes → Except Stop α)
    (readField : α → Wire.Field → α × Bool) (input : α)
    (hformat : params "format" = some (ascii "json")) (req : Bytes) :
    loadBody fromJson readField input params req = fromJson req := by
  unfold loadBody
  rw [hformat]
  rfl

/-- The schedule is returned in JSON. -/
theorem fetch_json (lib : JsonLibrary R) (debugString : Schedule → Bytes)
    (hformat : params "format" = some (ascii "json")) {s : Schedule}
    (hfits : ∀ r ∈ s.schedule, r.IntsFit) :
    ∃ j, convertToJson automationPool "automation.Schedule" (s.slots : Slots R) = .ok j
      ∧ fetch lib debugString params s = .ok ⟨some (ascii "application/json"), lib.write j⟩ := by
  have hslots : TypedMessage lib.reader.RealFits automationPool "automation.Schedule" s.slots :=
    Schedule.typed_slots hfits
  obtain ⟨j, hj⟩ := JsonProtobuf.convertToJson_isOk plain_automationPool hslots
  refine ⟨j, hj, ?_⟩
  unfold fetch WebCommand.returnMessage
  rw [hformat, hj]
  rfl

/-- **A schedule that is fetched in JSON and posted back stays as it is**, or
is refused, if a message in it is without values.

Whatever the schedule of the engine is by then, it is this one afterwards; if
it is refused, that one stays. The library only has to parse what it writes. -/
theorem update_fetched_iff (lib : JsonLibrary R) (debugString : Schedule → Bytes)
    (hformat : params "format" = some (ascii "json")) {s : Schedule}
    (hfits : ∀ r ∈ s.schedule, r.IntsFit)
    (htext : ∀ j, convertToJson automationPool "automation.Schedule" (s.slots : Slots R) = .ok j →
      lib.parse (lib.write j) = .ok j) :
    ∃ response, fetch lib debugString params s = .ok response ∧ ∀ schedule_,
      update lib params response.body schedule_
        = if s.NoEmpty then (.ok (), s) else (.error .threw, schedule_) := by
  obtain ⟨j, hj, hfetch⟩ := fetch_json lib debugString hformat hfits
  refine ⟨_, hfetch, fun schedule_ => ?_⟩
  unfold update
  rw [loadBody_json _ _ _ hformat,
    WebCommand.fromJson_write (Schedule.typed_slots hfits) hj (htext j hj)]
  by_cases hempty : s.NoEmpty
  · rw [if_pos (Schedule.populated_slots_iff.mpr hempty), if_pos hempty, Schedule.ofSlots_slots]
  · rw [if_neg (mt Schedule.populated_slots_iff.mp hempty), if_neg hempty]

/-- The document of a schedule that plays a legal ID. -/
def legalIdDocument : Json.Value Empty :=
  .object [("schedule", .array [.object [("type", .string (ascii "LEGAL_ID"))]])]

/-- And its text, as the library indents it. -/
def legalIdText : Bytes :=
  ascii ("\n\x7b\n\t\"schedule\" : \n\t[\n\t\t\x7b\n\t\t\t\"type\" : \"LEGAL_ID\"\n"
    ++ "\t\t\x7d\n\t]\n\x7d\n")

/-- A library for that document: it parses one text and refuses all others. -/
def legalIdLibrary : JsonLibrary Empty where
  reader := .whole
  parse value := if value = legalIdText then .ok legalIdDocument else .error (ascii "* Line 1")
  write _ := legalIdText

/-- A request in JSON, without other parameters. -/
def jsonParams : QueryParams := fun arg => if arg = "format" then some (ascii "json") else none

/-- That schedule is there again after another one has taken its place. -/
theorem update_fetched_legalId :
    ∃ response, fetch legalIdLibrary (fun _ => []) jsonParams legalIdSchedule = .ok response
      ∧ update legalIdLibrary jsonParams response.body {} = (.ok (), legalIdSchedule) := by
  have hfits : ∀ r ∈ legalIdSchedule.schedule, r.IntsFit :=
    List.forall_mem_singleton.mpr ⟨nofun, nofun, nofun, nofun⟩
  obtain ⟨response, hfetch, hupdate⟩ := update_fetched_iff legalIdLibrary (fun _ => [])
    (show jsonParams "format" = some (ascii "json") from rfl) hfits fun j hj => by
      obtain rfl : legalIdDocument = j := Except.ok.inj hj
      rfl
  exact ⟨response, hfetch, (hupdate {}).trans (if_pos (by decide))⟩

/-- A time specification without entries is refused. -/
example : ¬emptyWhen.NoEmpty := by decide

/-- **What an update in JSON leaves**, whatever was posted: the schedule of before, or
one that is read back from its serialized form.

A length on the wire has to be below 2 ^ 31 to be read, so that bounds the serialized form
as well. No document ends the process: what is not accepted throws. -/
theorem update_json_cases (hformat : params "format" = some (ascii "json")) (content : Bytes)
    (schedule_ : Schedule) :
    update lib params content schedule_ = (.error .threw, schedule_)
      ∨ ∃ s, update lib params content schedule_ = (.ok (), s)
        ∧ (s.serialize.length < 2 ^ 31 →
          Wire.parse Schedule.readField {} s.serialize = (s, true)) := by
  unfold update
  rw [loadBody_json _ _ _ hformat]
  rcases WebCommand.fromJson_cases lib "automation.Schedule" Schedule.ofSlots content with
    hthrew | ⟨slots, hslots, hok⟩
  · exact Or.inl (by rw [hthrew])
  · exact Or.inr ⟨Schedule.ofSlots slots, by rw [hok],
      Schedule.parse_serialize (Schedule.intsFit_ofSlots hslots)⟩

/-- A document of a schedule that is posted to an engine without one: it is the schedule of
the engine then, and is read back from what is saved. -/
theorem update_json_cases_legalId :
    update legalIdLibrary jsonParams legalIdText {} = (.ok (), legalIdSchedule)
      ∧ Wire.parse Schedule.readField {} legalIdSchedule.serialize = (legalIdSchedule, true) := by
  have haccepted : update legalIdLibrary jsonParams legalIdText {} = (.ok (), legalIdSchedule) :=
    rfl
  refine ⟨haccepted, ?_⟩
  have hformat : jsonParams "format" = some (ascii "json") := rfl
  rcases (update_json_cases hformat legalIdText {} :
    update legalIdLibrary jsonParams legalIdText {} = _ ∨ _) with hthrew | ⟨s, hok, hback⟩
  · cases haccepted.symm.trans hthrew
  · obtain rfl : legalIdSchedule = s := (Prod.mk.inj (haccepted.symm.trans hok)).2
    exact hback (by decide)

/-! ## Running once, in JSON -/

open RequirementEngine (callbacks callOf callbacks_eq)

variable (stored : Schedule) (made done : ℤ) (requirement_engine : Engine)

/-- What is run of a body in JSON. -/
theorem runonce_json (hformat : params "format" = some (ascii "json")) (req : Bytes) :
    (runonce (WebCommand.fromJson lib "automation.Requirement" Requirement.ofSlots) stored made
      done params req requirement_engine).calls
      = (WebCommand.fromJson lib "automation.Requirement" Requirement.ofSlots req).map
        fun r => [callOf 0 r] := by
  unfold runonce
  rw [loadBody_json _ _ _ hformat]
  cases WebCommand.fromJson lib "automation.Requirement" Requirement.ofSlots req with
  | error e => rfl
  | ok r =>
    show Except.ok (callbacks 0 _) = _
    rw [callbacks_eq]
    rfl

/-- **A requirement is run as it was sent**, unless a message in it is
without values. It is the only call that the request makes, with a deadline
of zero, which stands for none. -/
theorem runonce_json_requirement (hformat : params "format" = some (ascii "json"))
    {r : Requirement} (hfits : r.IntsFit) {j : Json.Value R}
    (hj : convertToJson automationPool "automation.Requirement" r.slots = .ok j)
    (htext : lib.parse (lib.write j) = .ok j) :
    (runonce (WebCommand.fromJson lib "automation.Requirement" Requirement.ofSlots) stored made
      done params (lib.write j) requirement_engine).calls
      = if r.NoEmpty then .ok [callOf 0 r] else .error .threw := by
  rw [runonce_json _ _ _ _ hformat,
    WebCommand.fromJson_write (Requirement.typed_slots hfits) hj htext]
  by_cases hempty : r.NoEmpty
  · rw [if_pos (Requirement.populated_slots_iff.mpr hempty), if_pos hempty,
      Requirement.ofSlots_slots]
    rfl
  · rw [if_neg (mt Requirement.populated_slots_iff.mp hempty), if_neg hempty]
    rfl

/-- The document of a requirement for a legal ID. -/
def stationIdDocument : Json.Value Empty := .object [("type", .string (ascii "LEGAL_ID"))]

/-- And its text, as the library indents it. -/
def stationIdText : Bytes := ascii "\n\x7b\n\t\"type\" : \"LEGAL_ID\"\n\x7d\n"

/-- A library for that document. -/
def stationIdLibrary : JsonLibrary Empty where
  reader := .whole
  parse value := if value = stationIdText then .ok stationIdDocument else .error (ascii "* Line 1")
  write _ := stationIdText

/-- A legal ID that is sent is run. -/
theorem runonce_json_requirement_legalId :
    (runonce (WebCommand.fromJson stationIdLibrary "automation.Requirement" Requirement.ofSlots) {}
      1000 1001 jsonParams stationIdText ⟨{}, 900⟩).calls
      = .ok [⟨"LEGAL_ID", 0, { type := some .LEGAL_ID }⟩] := by
  have hfits : Requirement.IntsFit { type := some .LEGAL_ID } := ⟨nofun, nofun, nofun, nofun⟩
  have htext : stationIdLibrary.parse (stationIdLibrary.write stationIdDocument)
      = .ok stationIdDocument := rfl
  exact (runonce_json_requirement {} 1000 1001 ⟨{}, 900⟩ rfl hfits rfl htext).trans
    (if_pos (by decide))

/-- **No schedule is run**: the documents of schedules have a member that a
requirement does not, and that of an empty schedule is null. So in JSON the
mistake shows, while on the wire a schedule is taken for a requirement in
part. -/
theorem runonce_json_schedule (hformat : params "format" = some (ascii "json"))
    {s : Schedule} {j : Json.Value R}
    (hj : convertToJson automationPool "automation.Schedule" s.slots = .ok j)
    (htext : lib.parse (lib.write j) = .ok j) :
    (runonce (WebCommand.fromJson lib "automation.Requirement" Requirement.ofSlots) stored made
      done params (lib.write j) requirement_engine).calls = .error .threw := by
  rw [runonce_json _ _ _ _ hformat]
  refine congrArg (Except.map _) (WebCommand.fromJson_refused htext fun slots hupdate => ?_)
  obtain ⟨members, hconvert, rfl⟩ := JsonProtobuf.map_eq_ok_iff.mp hj
  have hmembers := JsonProtobuf.membersOf_convertFields hconvert
  rcases JsonProtobuf.ofMembers_cases (plain_automationPool "automation.Schedule") hmembers with
    ⟨-, hnull⟩ | ⟨sorted, hsorted, hperm, hnodup⟩
  · rw [hnull] at hupdate
    cases hupdate
  · rw [hsorted] at hupdate
    have hupdates := (JsonProtobuf.updateMembers_eq_ok_iff
      (plain_automationPool "automation.Requirement").distinctNames hnodup
      (MessageType.length_empty _)).mp hupdate
    cases sorted with
    | nil =>
      obtain rfl := List.nil_perm.mp hperm
      cases hsorted
    | cons m sorted =>
      -- the name of the member is that of the schedule's field
      have hname : m.1 ∈ (automationPool "automation.Schedule").fields.map Field.name :=
        hmembers.names.subset (List.mem_map_of_mem (hperm.mem_iff.mp List.mem_cons_self))
      obtain ⟨fd, hfind, -⟩ := hupdates.named m List.mem_cons_self
      have hnone : (automationPool "automation.Requirement").findFieldByName "schedule" = none := by
        decide +kernel
      rw [List.mem_singleton.mp hname] at hfind
      exact absurd (hfind.symm.trans hnone) (Option.some_ne_none fd)

/-- The schedule with a legal ID is not run. -/
theorem runonce_json_schedule_legalId :
    (runonce (WebCommand.fromJson legalIdLibrary "automation.Requirement" Requirement.ofSlots) {}
      1000 1001 jsonParams legalIdText ⟨{}, 900⟩).calls = .error .threw :=
  runonce_json_schedule (s := legalIdSchedule) (j := legalIdDocument) {} 1000 1001 ⟨{}, 900⟩
    rfl rfl rfl

end RequirementsCommand
