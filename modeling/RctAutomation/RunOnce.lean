import RctAutomation.EngineCalls
import RctAutomation.WebApi
import RctAutomation.WireMessages

/-!
# Running a schedule once

`/requirements/runonce` is sent a schedule, by its documentation, and loads a
requirement. The bytes do not say which of the two they are: field 1 of a
schedule is a requirement, field 1 of a requirement is its time specification,
and what is left of the schedule is a requirement that does nothing, at times
put together from the numbers of the fields.

`runonce_iff` says for which schedule that makes no difference. It is none that
has its required fields.
-/

open Sql (Bytes ascii)
open RequirementEngine

/-! ## Callbacks -/

/-- A call of the callback of a command, with the deadline and the
requirement that it is called with. -/
structure CallbackCall where
  command : String
  deadline : ℤ
  config : Requirement
  deriving DecidableEq

namespace RequirementEngine

/-- The commands that are registered. -/
def callbackNames : List String := ["NO_OP", "PLAY_FILES", "LEGAL_ID", "SET_MAINSHOW"]

/-- The call of a requirement's command. -/
def callOf (deadline : ℤ) (r : Requirement) : CallbackCall := ⟨r.typeD.name, deadline, r⟩

/-- **The callbacks that `RunBlock` calls**, in their order. A command that
is not registered is passed over. -/
def callbacks (deadline : ℤ) (next : Schedule) : List CallbackCall :=
  (next.schedule.filter fun r => callbackNames.contains r.typeD.name).map (callOf deadline)

/-- Every command is registered, as `CheckValidity` makes sure. -/
theorem contains_callbackNames (c : Command) : callbackNames.contains c.name = true := by
  cases c <;> rfl

/-- Every requirement of a block is run. -/
theorem callbacks_eq (deadline : ℤ) (next : Schedule) :
    callbacks deadline next = next.schedule.map (callOf deadline) := by
  unfold callbacks
  rw [List.filter_eq_self.mpr fun r _ => contains_callbackNames r.typeD]

end RequirementEngine

/-! ## The handler -/

namespace RequirementsCommand

/-- `LoadMessage` of a type, given what a field does to it. Whether all of
the body could be read, and whether the message is complete, is not looked
at. -/
def loadBody {α : Type} (fromJson : Bytes → Except Stop α) (readField : α → Wire.Field → α × Bool)
    (input : α) (params : QueryParams) (req : Bytes) : Except Stop α :=
  let format := (params "format").getD (ascii "pb")
  if format = ascii "json" then fromJson req
  else if format = ascii "pb" then .ok (Wire.parse readField input req).1
  else .error .threw

/-- What a request leaves: the callbacks it called, unless its body could not
be loaded, its own engine, and that of the automation, which has no part in
it. -/
structure RanOnce where
  calls : Except Stop (List CallbackCall)
  re_isolated : Engine
  requirement_engine : Engine

/-- **The branch of `/requirements/runonce`**, with the schedule that is
stored and what the clock shows when its own engine is made and when it is
done. The body is loaded as a requirement, which becomes a schedule of its
own. -/
def runonce (fromJson : Bytes → Except Stop Requirement) (stored : Schedule) (made done : ℤ)
    (params : QueryParams) (content : Bytes) (requirement_engine : Engine) : RanOnce :=
  let re_isolated : Engine := ⟨stored, made⟩
  match loadBody fromJson Requirement.readField {} params content with
  | .error e => ⟨.error e, re_isolated, requirement_engine⟩
  | .ok r =>
    let run_now : Schedule := ⟨[r]⟩
    ⟨.ok (callbacks 0 run_now), re_isolated.after (.runBlock (entries run_now) done),
      requirement_engine⟩

/-- **The schedule that is sent is run**: the callbacks are those of its
requirements, and the engine of the automation stays as it is. -/
def RunsSchedule (fromJson : Bytes → Except Stop Requirement) (stored : Schedule) (made done : ℤ)
    (params : QueryParams) (requirement_engine : Engine) (s : Schedule) : Prop :=
  (runonce fromJson stored made done params s.serialize requirement_engine).calls
      = .ok (s.schedule.map (callOf 0))
    ∧ (runonce fromJson stored made done params s.serialize requirement_engine).requirement_engine
      = requirement_engine

/-! ## What a schedule is read as -/

/-- A message whose only field is a nested one. -/
theorem parse_nested {α : Type} (field : α → Wire.Field → α × Bool) (a : α) {k : ℕ}
    (hk : 0 < k ∧ k < 2 ^ 29) {b : Bytes}
    (hsize : (Wire.encode [Wire.bytesField k b]).length < 2 ^ 31) :
    (Wire.parse field a (Wire.encode [Wire.bytesField k b])).1 = (field a ⟨k, .bytes b⟩).1 := by
  have hplain : ∀ f ∈ [Wire.bytesField k b], f.Plain := Wire.plain_bytes hk id [b]
  rw [Wire.parse_plain field a hplain hsize]
  show (if (field a ⟨k, .bytes b⟩).2 then ((field a ⟨k, .bytes b⟩).1, true)
    else field a ⟨k, .bytes b⟩).1 = _
  split
  · rfl
  · rfl

/-- A list of integers, written as unpacked fields, is twice as many varints. -/
theorem readVarints_intFields (k : ℕ) (hk : k < 2 ^ 29) (l : List ℤ) :
    (Wire.readVarints (Wire.encode (l.map (Wire.intField k)))).1
      = l.flatMap fun n => [8 * k, Wire.ofInt n] := by
  have hbytes : Wire.encode (l.map (Wire.intField k))
      = (l.flatMap fun n => [8 * k, Wire.ofInt n]).flatMap Wire.varint := by
    unfold Wire.encode
    rw [List.flatMap_map, List.flatMap_assoc]
    refine List.flatMap_congr fun n _ => ?_
    show Wire.varint (8 * k + 0) ++ Wire.varint (Wire.ofInt n) = _
    simp
  rw [hbytes, Wire.readVarints_flatMap]
  intro m hm
  obtain ⟨n, -, hn⟩ := List.mem_flatMap.mp hm
  rcases List.mem_cons.mp hn with rfl | hn
  · omega
  · rw [List.mem_singleton.mp hn]
    exact Wire.ofInt_lt n

/-- A time specification that is what it is misread as has no entries. -/
theorem eq_empty_of_misread {t : TimeSpecification}
    (h : t = { constrained_seconds :=
      (Wire.readVarints (Wire.encode t.fields)).1.map Wire.toInt }) : t = {} := by
  obtain ⟨l, hl⟩ : ∃ l, t = { constrained_seconds := l } := ⟨_, h⟩
  have hfields : t.fields = l.map (Wire.intField 1) := by
    rw [hl]
    simp [TimeSpecification.fields]
  rw [hfields, readVarints_intFields 1 (by decide), hl] at h
  have hlist := congrArg (fun t => (TimeSpecification.constrained_seconds t).length) h
  have hlen : l.length = 0 := by
    simp at hlist
    omega
  rw [hl, List.length_eq_zero_iff.mp hlen]

/-! ## When a schedule is run -/

variable (fromJson : Bytes → Except Stop Requirement) (stored : Schedule) (made done : ℤ)
variable {params : QueryParams} (requirement_engine : Engine)

/-- **What is run**: one requirement, whatever the body, even an empty one. -/
theorem calls_runonce (hpb : (params "format").getD (ascii "pb") = ascii "pb") (content : Bytes) :
    (runonce fromJson stored made done params content requirement_engine).calls
      = .ok [callOf 0 (Wire.parse Requirement.readField {} content).1] := by
  have hload : loadBody fromJson Requirement.readField {} params content
      = .ok (Wire.parse Requirement.readField {} content).1 := by
    unfold loadBody
    rw [hpb]
    rfl
  unfold runonce
  rw [hload]
  show Except.ok (callbacks 0 _) = _
  rw [callbacks_eq]
  rfl

/-- **The same body is read as the schedule that was sent** where a schedule
is loaded, as `/requirements/update` does. -/
theorem loadBody_schedule (fromJson : Bytes → Except Stop Schedule)
    (hpb : (params "format").getD (ascii "pb") = ascii "pb") {s : Schedule}
    (hfits : ∀ r ∈ s.schedule, r.IntsFit) (hsize : s.serialize.length < 2 ^ 31) :
    loadBody fromJson Schedule.readField {} params s.serialize = .ok s := by
  unfold loadBody
  rw [hpb, Schedule.parse_serialize hfits hsize]
  rfl

/-- The one schedule that is run, of a requirement with an empty time
specification and no command. -/
def emptyWhen : Schedule := ⟨[{ «when» := some {} }]⟩

/-- A requirement that is read from a schedule of its own is that one.

It is read from its own bytes as a time specification, so only that is set in
it; and then that specification is read from bytes of itself, which leaves it
empty. -/
theorem eq_emptyWhen_of_parse {r : Requirement} (hsize : (Schedule.serialize ⟨[r]⟩).length < 2 ^ 31)
    (h : (Wire.parse Requirement.readField {} (Schedule.serialize ⟨[r]⟩)).1 = r) :
    r = { «when» := some {} } := by
  have hbytes : Schedule.serialize ⟨[r]⟩
      = Wire.encode [Wire.bytesField 1 (Wire.encode r.fields)] := rfl
  rw [hbytes] at hsize h
  rw [parse_nested Requirement.readField {} (by decide) hsize] at h
  -- only the time specification is set
  obtain ⟨t, ht⟩ : ∃ t, r = { «when» := some t } := ⟨_, h.symm⟩
  have hfields : r.fields = [Wire.bytesField 1 (Wire.encode t.fields)] := by
    rw [ht]
    rfl
  have hinner : (Wire.encode [Wire.bytesField 1 (Wire.encode t.fields)]).length < 2 ^ 31 := by
    rw [← hfields]
    exact lt_of_le_of_lt (Wire.length_le_encode (List.mem_singleton_self _)) hsize
  have hwhen : some (Wire.parse TimeSpecification.readField {} (Wire.encode r.fields)).1
      = some t := by
    rw [ht] at h
    rw [ht]
    exact congrArg Requirement.when h
  rw [hfields, parse_nested TimeSpecification.readField {} (by decide) hinner] at hwhen
  rw [ht, eq_empty_of_misread (Option.some.inj hwhen).symm]

/-- **A schedule that is sent is run** exactly if it is a single requirement
with an empty time specification and nothing else, not even its command. Then
the body read as a requirement is one that does nothing, and so is the
requirement that was sent.

The body is read as a requirement, whose first field has the number and the
wire type of the list of a schedule. So a requirement that is sent is read as
a time specification, and its command as a constraint. -/
theorem runonce_iff (hpb : (params "format").getD (ascii "pb") = ascii "pb") {s : Schedule}
    (hsize : s.serialize.length < 2 ^ 31) :
    RunsSchedule fromJson stored made done params requirement_engine s ↔ s = emptyWhen := by
  have hcalls := calls_runonce fromJson stored made done requirement_engine hpb s.serialize
  constructor
  · rintro ⟨hruns, -⟩
    obtain ⟨r, hr, hcall⟩ :=
      List.map_eq_singleton_iff.mp (Except.ok.inj (hruns.symm.trans hcalls))
    obtain rfl : s = ⟨[r]⟩ := congrArg Schedule.mk hr
    have hconfig : r = (Wire.parse Requirement.readField {} (Schedule.serialize ⟨[r]⟩)).1 :=
      congrArg CallbackCall.config hcall
    rw [eq_emptyWhen_of_parse hsize hconfig.symm]
    rfl
  · rintro rfl
    have hparse : (Wire.parse Requirement.readField {} emptyWhen.serialize).1
        = { «when» := some {} } := by decide +kernel
    rw [hparse] at hcalls
    refine ⟨hcalls, ?_⟩
    unfold runonce
    split
    · rfl
    · rfl

/-- A schedule that plays a legal ID. -/
def legalIdSchedule : Schedule := ⟨[{ type := some .LEGAL_ID }]⟩

/-- A schedule with a legal ID is not run. -/
theorem runonce_legalId :
    ¬RunsSchedule (fun _ => .error .threw) {} 1000 1001 (fun _ => none) ⟨{}, 900⟩
      legalIdSchedule := by
  rw [runonce_iff _ _ _ _ _ rfl (by decide +kernel)]
  decide +kernel

/-- **What is run in its place** is a command that does nothing, with the
number of the command for a minute. -/
theorem runonce_misread :
    (runonce (fun _ => .error .threw) {} 1000 1001 (fun _ => none) legalIdSchedule.serialize
        ⟨{}, 900⟩).calls
      = .ok [⟨"NO_OP", 0, { «when» := some { constrained_minutes := [2] } }⟩]
      ∧ ¬RunsSchedule (fun _ => .error .threw) {} 1000 1001 (fun _ => none) ⟨{}, 900⟩
        legalIdSchedule := by
  have hparse : (Wire.parse Requirement.readField {} legalIdSchedule.serialize).1
      = { «when» := some { constrained_minutes := [2] } } := by decide +kernel
  have hcalls : (runonce (fun _ => .error .threw) {} 1000 1001 (fun _ => none)
      legalIdSchedule.serialize ⟨{}, 900⟩).calls = _ := calls_runonce _ _ _ _ _ rfl _
  rw [hparse] at hcalls
  refine ⟨hcalls, fun hruns => ?_⟩
  have hmap := Except.ok.inj (hcalls.symm.trans hruns.1)
  exact absurd hmap (by decide +kernel)

end RequirementsCommand
