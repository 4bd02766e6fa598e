import RctAutomation.JsonProtobuf

/-!
# Messages through JSON and back

A message that is sent as JSON and posted back should come back as it was. It
does where no message in it is without values (`comesBack_iff`): a message
without values is assigned no members, so that its JSON is null, and null is not
accepted for a message.

This is for types all of whose fields can be converted: none of bytes or groups,
no repeated doubles, and enumerations that are declared in the type itself,
where their values are looked up.
-/

open Sql (Bytes ascii)

open Json (Reader)
open Proto

namespace JsonProtobuf

/-! ## Types that can be converted -/

/-- The field can be converted to JSON and back. The value of an enumeration
has to be found again by its name in the message type, and a number that two
names share comes back as the first of them. -/
def PlainField (d : MessageType) (fd : Field) : Prop :=
  match fd.type with
  | .bytes => False
  | .group => False
  | .real .double => fd.repeated = false
  | .enum e => ∀ n ∈ e.values.map Prod.snd,
      (e.findValueByNumber n).bind d.findEnumValueByName = some (e, n)
  | _ => True

instance (d : MessageType) (fd : Field) : Decidable (PlainField d fd) := by
  unfold PlainField
  split <;> infer_instance

/-- **All fields of a type can be converted**, and have names of their own. -/
structure Plain (d : MessageType) : Prop where
  /-- The fields have names of their own, so a member is of one field. -/
  distinctNames : d.DistinctNames
  /-- Each field can be converted. -/
  fields : ∀ fd ∈ d.fields, PlainField d fd

/-- The types of the pool can be converted. -/
def PlainPool (pool : Pool) : Prop := ∀ t, Plain (pool t)

theorem PlainPool.distinct {pool : Pool} (h : PlainPool pool) : DistinctPool pool :=
  fun t => (h t).distinctNames

variable {R : Type} {lib : Reader R} {pool : Pool} {d : MessageType} {fd : Field}

/-! ## The members of a message -/

/-- What the member of a field is set to: a value, or an array. A repeated
double is the one type for which reflection is asked for something it
refuses. -/
def convertField (pool : Pool) (d : MessageType) (fd : Field) (vs : List (Value R)) :
    Except Error (Json.Value R) :=
  if !fd.repeated then convertFirst pool d fd vs
  else if fd.type = .real .double then .error .fatal
  else (convertElems pool d fd vs).map .array

theorem convertFields_cons {fields : List Field} {vs : List (Value R)}
    {slots : Slots R} (hvs : vs ≠ []) :
    convertFields pool d (fd :: fields) (vs :: slots)
      = (convertField pool d fd vs).bind fun j =>
          (convertFields pool d fields slots).map ((fd.name, j) :: ·) := by
  rw [convertFields, if_neg (by simpa using hvs)]
  rfl

theorem convertFields_skip {fields : List Field} {slots : Slots R} :
    convertFields pool d (fd :: fields) ([] :: slots) = convertFields pool d fields slots := by
  rw [convertFields]
  exact if_pos rfl

/-- The elements of a repeated field, one for each value. -/
theorem convertElems_eq_ok_iff {vs : List (Value R)} {elems : List (Json.Value R)} :
    convertElems pool d fd vs = .ok elems
      ↔ List.Forall₂ (fun v j => convertValue pool d fd v = .ok j) vs elems := by
  induction vs generalizing elems with
  | nil =>
    rw [convertElems, List.forall₂_nil_left_iff]
    exact ⟨fun h => (Except.ok.inj h).symm, fun h => h ▸ rfl⟩
  | cons v vs ih =>
    rw [convertElems, List.forall₂_cons_left_iff, bind_eq_ok_iff]
    constructor
    · rintro ⟨j, hj, hrest⟩
      obtain ⟨js, hjs, rfl⟩ := map_eq_ok_iff.mp hrest
      exact ⟨j, js, hj, ih.mp hjs, rfl⟩
    · rintro ⟨j, js, hj, hjs, rfl⟩
      exact ⟨j, hj, map_eq_ok_iff.mpr ⟨js, ih.mpr hjs, rfl⟩⟩

/-- **The members of a message**: one for each field that is populated, with
what its values are converted to. -/
structure MembersOf (pool : Pool) (d : MessageType) (fields : List Field)
    (slots : Slots R) (members : List (String × Json.Value R)) : Prop where
  /-- They are named after the fields and come in their order. -/
  names : (Json.names members).Sublist (fields.map Field.name)
  /-- Each is what the values of a populated field are converted to. -/
  of_mem : ∀ m ∈ members, ∃ p ∈ fields.zip slots, p.2 ≠ [] ∧ p.1.name = m.1
    ∧ convertField pool d p.1 p.2 = .ok m.2
  /-- Each populated field has one. -/
  mem : ∀ p ∈ fields.zip slots, p.2 ≠ [] →
    ∃ j, convertField pool d p.1 p.2 = .ok j ∧ (p.1.name, j) ∈ members

/-- No field, no member. -/
theorem membersOf_nil {fields : List Field} {slots : Slots R}
    (h : fields.zip slots = []) : MembersOf pool d fields slots [] where
  names := List.nil_sublist _
  of_mem _ hm := absurd hm List.not_mem_nil
  mem _ hp := absurd (h ▸ hp) List.not_mem_nil

theorem membersOf_convertFields {fields : List Field} {slots : Slots R}
    {members : List (String × Json.Value R)}
    (h : convertFields pool d fields slots = .ok members) :
    MembersOf pool d fields slots members := by
  induction fields generalizing slots members with
  | nil =>
    rw [convertFields] at h
    · obtain rfl := Except.ok.inj h
      exact membersOf_nil rfl
    · simp
  | cons fd fields ih =>
    cases slots with
    | nil =>
      rw [convertFields] at h
      · obtain rfl := Except.ok.inj h
        exact membersOf_nil rfl
      · simp
    | cons vs slots =>
      by_cases hvs : vs = []
      · subst hvs
        rw [convertFields_skip] at h
        have hrest := ih h
        refine ⟨hrest.names.trans (List.sublist_cons_self ..), fun m hm => ?_, fun p hp hne => ?_⟩
        · obtain ⟨p, hp, hfield⟩ := hrest.of_mem m hm
          exact ⟨p, List.mem_cons_of_mem _ hp, hfield⟩
        · rcases List.mem_cons.mp hp with rfl | hp
          · exact absurd rfl hne
          · exact hrest.mem p hp hne
      · rw [convertFields_cons hvs] at h
        obtain ⟨j, hj, hlater⟩ := bind_eq_ok_iff.mp h
        obtain ⟨rest, hconvert, rfl⟩ := map_eq_ok_iff.mp hlater
        have hrest := ih hconvert
        refine ⟨hrest.names.cons_cons fd.name, fun m hm => ?_, fun p hp hne => ?_⟩
        · rcases List.mem_cons.mp hm with rfl | hm
          · exact ⟨(fd, vs), List.mem_cons_self, hvs, rfl, hj⟩
          · obtain ⟨p, hp, hfield⟩ := hrest.of_mem m hm
            exact ⟨p, List.mem_cons_of_mem _ hp, hfield⟩
        · rcases List.mem_cons.mp hp with rfl | hp
          · exact ⟨j, hj, List.mem_cons_self⟩
          · obtain ⟨j', hj', hmem⟩ := hrest.mem p hp hne
            exact ⟨j', hj', List.mem_cons_of_mem _ hmem⟩

/-- A message is converted if the values of each of its fields are. Fields
that are not populated are passed over. -/
theorem convertFields_isOk {fields : List Field} {slots : Slots R}
    (h : ∀ p ∈ fields.zip slots, p.2 ≠ [] → ∃ j, convertField pool d p.1 p.2 = .ok j) :
    ∃ members, convertFields pool d fields slots = .ok members := by
  induction fields generalizing slots with
  | nil =>
    refine ⟨[], ?_⟩
    rw [convertFields]
    simp
  | cons fd fields ih =>
    cases slots with
    | nil =>
      refine ⟨[], ?_⟩
      rw [convertFields]
      simp
    | cons vs slots =>
      obtain ⟨members, hmembers⟩ := ih fun p hp => h p (List.mem_cons_of_mem _ hp)
      by_cases hvs : vs = []
      · subst hvs
        exact ⟨members, convertFields_skip.trans hmembers⟩
      · obtain ⟨j, hj⟩ := h (fd, vs) List.mem_cons_self hvs
        refine ⟨(fd.name, j) :: members, ?_⟩
        rw [convertFields_cons hvs]
        exact bind_eq_ok_iff.mpr ⟨j, hj, map_eq_ok_iff.mpr ⟨members, hmembers, rfl⟩⟩

/-! ## One field -/

theorem convertField_single (hsingle : fd.repeated = false) (v : Value R) :
    convertField pool d fd [v] = convertValue pool d fd v := by
  unfold convertField
  rw [hsingle]
  rfl

/-- The values of a field are converted if each of them is. Of the types that
cannot be converted none is left, so nothing else can go wrong. -/
theorem convertField_isOk {vs : List (Value R)} (hplain : PlainField d fd)
    (htyped : TypedSlot lib.RealFits pool fd vs) (hne : vs ≠ [])
    (h : ∀ v ∈ vs, ∃ j, convertValue pool d fd v = .ok j) :
    ∃ j, convertField pool d fd vs = .ok j := by
  cases hrep : fd.repeated with
  | false =>
    obtain ⟨v, rfl⟩ := List.length_eq_one_iff.mp
      (le_antisymm (htyped.1 hrep) (List.length_pos_iff.mpr hne))
    obtain ⟨j, hj⟩ := h v List.mem_cons_self
    exact ⟨j, (convertField_single hrep v).trans hj⟩
  | true =>
    have hdouble : fd.type ≠ .real .double := by
      intro htype
      unfold PlainField at hplain
      rw [htype] at hplain
      exact absurd (hrep.symm.trans hplain) (by decide)
    obtain ⟨elems, helems⟩ : ∃ elems, convertElems pool d fd vs = .ok elems := by
      clear htyped hne
      induction vs with
      | nil => exact ⟨[], rfl⟩
      | cons v vs ih =>
        obtain ⟨j, hj⟩ := h v List.mem_cons_self
        obtain ⟨elems, helems⟩ := ih fun w hw => h w (List.mem_cons_of_mem _ hw)
        exact ⟨j :: elems, bind_eq_ok_iff.mpr ⟨j, hj, map_eq_ok_iff.mpr ⟨elems, helems, rfl⟩⟩⟩
    refine ⟨.array elems, ?_⟩
    unfold convertField
    rw [hrep, if_neg (by decide), if_neg hdouble, helems]
    rfl

/-- The value comes back from its JSON, in a field that holds nothing. -/
def ComesBack (lib : Reader R) (pool : Pool) (d : MessageType) (fd : Field)
    (v : Value R) : Prop :=
  ∃ j, convertValue pool d fd v = .ok j ∧ updateValue lib pool d fd [] j = .ok v

/-- The values of a field come back if each of them does: the one of a field
that is not repeated, and those of a repeated one in their order. -/
theorem updateField_of_comesBack {vs : List (Value R)} {j : Json.Value R}
    (htyped : TypedSlot lib.RealFits pool fd vs) (hne : vs ≠ [])
    (hj : convertField pool d fd vs = .ok j) (h : ∀ v ∈ vs, ComesBack lib pool d fd v) :
    updateField lib pool d fd [] j = .ok vs := by
  unfold updateField
  cases hrep : fd.repeated with
  | false =>
    obtain ⟨v, rfl⟩ := List.length_eq_one_iff.mp
      (le_antisymm (htyped.1 hrep) (List.length_pos_iff.mpr hne))
    obtain ⟨j', hj', hv⟩ := h v List.mem_cons_self
    obtain rfl := Except.ok.inj (hj'.symm.trans ((convertField_single hrep v).symm.trans hj))
    exact map_eq_ok_iff.mpr ⟨v, hv, rfl⟩
  | true =>
    unfold convertField at hj
    rw [hrep, if_neg (by decide)] at hj
    split at hj
    · cases hj
    · obtain ⟨elems, helems, rfl⟩ := map_eq_ok_iff.mp hj
      obtain ⟨v, hv⟩ := List.exists_mem_of_ne_nil vs hne
      obtain ⟨j, -, hupdate⟩ := h v hv
      refine updateRepeated_array_eq_ok_iff.mpr ⟨supported_of_updateValue hupdate, ?_⟩
      have hpairs := convertElems_eq_ok_iff.mp helems
      clear htyped hne hj helems hv hupdate
      induction hpairs with
      | nil => exact List.Forall₂.nil
      | @cons v j vs elems hvj _ ih =>
        obtain ⟨j', hj', hv⟩ := h v List.mem_cons_self
        obtain rfl := Except.ok.inj (hj'.symm.trans hvj)
        exact .cons hv (ih fun w hw => h w (List.mem_cons_of_mem _ hw))

/-- If the member of a field is accepted, so is each of its values: as the
value of the member, or as an element of its array. -/
theorem updateValue_of_updateField {vs ws : List (Value R)} {j : Json.Value R}
    (htyped : TypedSlot lib.RealFits pool fd vs) (hne : vs ≠ [])
    (hj : convertField pool d fd vs = .ok j) (h : updateField lib pool d fd [] j = .ok ws) :
    ∀ v ∈ vs, ∃ j w, convertValue pool d fd v = .ok j
      ∧ updateValue lib pool d fd [] j = .ok w := by
  unfold updateField at h
  cases hrep : fd.repeated with
  | false =>
    obtain ⟨v, rfl⟩ := List.length_eq_one_iff.mp
      (le_antisymm (htyped.1 hrep) (List.length_pos_iff.mpr hne))
    rw [hrep] at h
    obtain ⟨w, hw, -⟩ := map_eq_ok_iff.mp h
    intro v' hv'
    rw [List.mem_singleton.mp hv']
    exact ⟨j, w, (convertField_single hrep v).symm.trans hj, hw⟩
  | true =>
    unfold convertField at hj
    rw [hrep, if_neg (by decide)] at hj
    split at hj
    · cases hj
    · obtain ⟨elems, helems, rfl⟩ := map_eq_ok_iff.mp hj
      rw [hrep] at h
      intro v hv
      obtain ⟨j, hjmem, hconvert⟩ := (exists_of_forall₂ (convertElems_eq_ok_iff.mp helems)).1 v hv
      obtain ⟨-, hws⟩ := updateRepeated_array_eq_ok_iff.mp h
      obtain ⟨w, -, hupdate⟩ := (exists_of_forall₂ hws).1 j hjmem
      exact ⟨j, w, hconvert, hupdate⟩

/-! ## One message -/

variable {t : String} {slots : Slots R} {members : List (String × Json.Value R)}

/-- **The JSON of a message**: null if it is without values, and otherwise an
object whose members are those of its fields. -/
theorem ofMembers_cases (hplain : Plain d) (h : MembersOf pool d d.fields slots members) :
    (members = [] ∧ Json.ofMembers members = .null)
      ∨ ∃ sorted, Json.ofMembers members = .object sorted ∧ sorted.Perm members
        ∧ (Json.names sorted).Nodup := by
  by_cases hne : members = []
  · subst hne
    exact Or.inl ⟨rfl, rfl⟩
  · have hnodup := h.names.nodup hplain.distinctNames
    obtain ⟨sorted, hsorted, hperm⟩ := Json.ofMembers_eq hne hnodup
    exact Or.inr ⟨sorted, hsorted, hperm, (hperm.map Prod.fst).nodup_iff.mpr hnodup⟩

/-- The values of a message are those of its fields. -/
theorem exists_field {fields : List Field} (hlen : slots.length = fields.length)
    {vs : List (Value R)} (hvs : vs ∈ slots) : ∃ fd, (fd, vs) ∈ fields.zip slots := by
  rw [← List.map_snd_zip (le_of_eq hlen)] at hvs
  obtain ⟨p, hp, rfl⟩ := List.mem_map.mp hvs
  exact ⟨p.1, hp⟩

/-- A message of its type is converted if its values are. -/
theorem convertFields_of_typed (hplain : Plain (pool t))
    (hslots : TypedMessage lib.RealFits pool t slots)
    (h : ∀ vs ∈ slots, ∀ v ∈ vs, ∀ fd ∈ (pool t).fields, Typed lib.RealFits pool fd.type v →
      ∃ j, convertValue pool (pool t) fd v = .ok j) :
    ∃ members, convertFields pool (pool t) (pool t).fields slots = .ok members := by
  obtain ⟨-, htyped⟩ := (typedMessage_iff hplain.distinctNames).mp hslots
  refine convertFields_isOk fun p hp hne => ?_
  obtain ⟨hfd, hvs⟩ := List.of_mem_zip hp
  have hslot := htyped p.1 hfd
  rw [slot_of_mem_zip hplain.distinctNames hp] at hslot
  exact convertField_isOk (hplain.fields p.1 hfd) hslot hne
    fun v hv => h p.2 hvs v hv p.1 hfd (hslot.2 v hv)

/-- **A message whose values come back comes back.** The fields that are not
populated are not named, and stay without values. -/
theorem updateMembers_of_comesBack (hplain : Plain (pool t))
    (hslots : TypedMessage lib.RealFits pool t slots)
    (h : ∀ vs ∈ slots, ∀ v ∈ vs, ∀ fd ∈ (pool t).fields, Typed lib.RealFits pool fd.type v →
      ComesBack lib pool (pool t) fd v)
    (hmembers : MembersOf pool (pool t) (pool t).fields slots members)
    {sorted : List (String × Json.Value R)} (hperm : sorted.Perm members)
    (hnodup : (Json.names sorted).Nodup) :
    updateMembers lib pool (pool t) sorted (pool t).empty = .ok slots := by
  obtain ⟨hlen, htyped⟩ := (typedMessage_iff hplain.distinctNames).mp hslots
  refine (updateMembers_eq_ok_iff hplain.distinctNames hnodup
    (MessageType.length_empty _)).mpr ⟨hlen.trans (MessageType.length_empty _).symm,
    fun m hm => ?_, fun name hname => ?_⟩
  · obtain ⟨p, hp, hne, hname, hconvert⟩ := hmembers.of_mem m (hperm.mem_iff.mp hm)
    obtain ⟨hfd, hvs⟩ := List.of_mem_zip hp
    have hslot := htyped p.1 hfd
    rw [slot_of_mem_zip hplain.distinctNames hp] at hslot
    rw [← hname, slot_empty, slot_of_mem_zip hplain.distinctNames hp]
    exact ⟨p.1, MessageType.findFieldByName_of_mem hplain.distinctNames hfd,
      updateField_of_comesBack hslot hne hconvert
        fun v hv => h p.2 hvs v hv p.1 hfd (hslot.2 v hv)⟩
  · -- a field without a member has no values
    rw [slot_empty]
    by_contra hne
    by_cases hfield : name ∈ (pool t).fields.map Field.name
    · obtain ⟨fd, hfd, rfl⟩ := List.mem_map.mp hfield
      obtain ⟨j, -, hmem⟩ := hmembers.mem _ (mem_zip_slot hlen hplain.distinctNames hfd) hne
      exact hname (List.mem_map.mpr ⟨_, hperm.mem_iff.mpr hmem, rfl⟩)
    · exact hne (slot_of_not_mem hfield)

/-- If a message is accepted, so are its values. Each field that has some is
named by a member, and the members are accepted one by one. -/
theorem accepted_of_updateMembers (hplain : Plain (pool t))
    (hslots : TypedMessage lib.RealFits pool t slots)
    (hmembers : MembersOf pool (pool t) (pool t).fields slots members)
    {sorted : List (String × Json.Value R)} (hperm : sorted.Perm members)
    (hnodup : (Json.names sorted).Nodup) {slots' : Slots R}
    (h : updateMembers lib pool (pool t) sorted (pool t).empty = .ok slots') :
    ∀ vs ∈ slots, ∀ v ∈ vs, ∃ fd ∈ (pool t).fields, Typed lib.RealFits pool fd.type v
      ∧ ∃ j w, convertValue pool (pool t) fd v = .ok j
        ∧ updateValue lib pool (pool t) fd [] j = .ok w := by
  obtain ⟨hlen, htyped⟩ := (typedMessage_iff hplain.distinctNames).mp hslots
  have hupdates := (updateMembers_eq_ok_iff hplain.distinctNames hnodup
    (MessageType.length_empty _)).mp h
  intro vs hvs v hv
  obtain ⟨fd, hp⟩ := exists_field hlen hvs
  have hfd := (List.of_mem_zip hp).1
  have hslot := htyped fd hfd
  rw [slot_of_mem_zip hplain.distinctNames hp] at hslot
  obtain ⟨j, hj, hmem⟩ := hmembers.mem _ hp (List.ne_nil_of_mem hv)
  obtain ⟨fd', hfind, hok⟩ := hupdates.named _ (hperm.mem_iff.mpr hmem)
  obtain rfl := Option.some.inj
    ((MessageType.findFieldByName_of_mem hplain.distinctNames hfd).symm.trans hfind)
  rw [slot_empty] at hok
  exact ⟨fd, hfd, hslot.2 v hv,
    updateValue_of_updateField hslot (List.ne_nil_of_mem hv) hj hok v hv⟩

/-- A message with values, all of which come back, comes back. -/
theorem updateFromJson_of_comesBack (hplain : Plain (pool t))
    (hslots : TypedMessage lib.RealFits pool t slots) (hne : ∃ vs ∈ slots, vs ≠ [])
    (h : ∀ vs ∈ slots, ∀ v ∈ vs, ∀ fd ∈ (pool t).fields, Typed lib.RealFits pool fd.type v →
      ComesBack lib pool (pool t) fd v) :
    ∃ j, convertToJson pool t slots = .ok j
      ∧ updateFromJson lib pool t j (pool t).empty = .ok slots := by
  obtain ⟨members, hconvert⟩ := convertFields_of_typed hplain hslots
    fun vs hvs v hv fd hfd htyped => (h vs hvs v hv fd hfd htyped).imp fun _ => And.left
  have hmembers := membersOf_convertFields hconvert
  refine ⟨_, map_eq_ok_iff.mpr ⟨members, hconvert, rfl⟩, ?_⟩
  rcases ofMembers_cases hplain hmembers with ⟨rfl, -⟩ | ⟨sorted, hsorted, hperm, hnodup⟩
  · obtain ⟨vs, hvs, hsome⟩ := hne
    obtain ⟨fd, hp⟩ := exists_field (((typedMessage_iff hplain.distinctNames).mp hslots).1) hvs
    obtain ⟨j, -, hmem⟩ := hmembers.mem _ hp hsome
    exact absurd hmem List.not_mem_nil
  · rw [hsorted]
    exact updateMembers_of_comesBack hplain hslots h hmembers hperm hnodup

/-- A message that is accepted has values, and they are accepted. -/
theorem accepted_of_updateFromJson (hplain : Plain (pool t))
    (hslots : TypedMessage lib.RealFits pool t slots) {j : Json.Value R}
    (hj : convertToJson pool t slots = .ok j) {slots' : Slots R}
    (h : updateFromJson lib pool t j (pool t).empty = .ok slots') :
    (∃ vs ∈ slots, vs ≠ []) ∧ ∀ vs ∈ slots, ∀ v ∈ vs, ∃ fd ∈ (pool t).fields,
      Typed lib.RealFits pool fd.type v ∧ ∃ j w, convertValue pool (pool t) fd v = .ok j
        ∧ updateValue lib pool (pool t) fd [] j = .ok w := by
  obtain ⟨members, hconvert, rfl⟩ := map_eq_ok_iff.mp hj
  have hmembers := membersOf_convertFields hconvert
  rcases ofMembers_cases hplain hmembers with ⟨-, hnull⟩ | ⟨sorted, hsorted, hperm, hnodup⟩
  · rw [hnull] at h
    cases h
  · rw [hsorted] at h
    refine ⟨?_, accepted_of_updateMembers hplain hslots hmembers hperm hnodup h⟩
    have hsome : members ≠ [] := by
      rintro rfl
      cases hsorted
    obtain ⟨m, hm⟩ := List.exists_mem_of_ne_nil _ hsome
    obtain ⟨p, hp, hne, -⟩ := hmembers.of_mem m hm
    exact ⟨p.2, (List.of_mem_zip hp).2, hne⟩

/-! ## Any value -/

/-- A value that is no message comes back. There is a case for each type: the
laws of the reader are for the numbers, and the value of an enumeration is
found again by its name. -/
theorem comesBack_scalar {v : Value R} (hplain : PlainField d fd)
    (htyped : Typed lib.RealFits pool fd.type v) (hscalar : ∀ slots, v ≠ .message slots) :
    ComesBack lib pool d fd v := by
  unfold ComesBack convertValue updateValue
  unfold PlainField at hplain
  generalize fd.type = type at htyped hplain
  cases htyped with
  | @int t n h =>
    refine ⟨.int n, rfl, ?_⟩
    simp [updateWith, lib.isIntegral_int, lib.asInteger_int h]
  | @real t x h =>
    refine ⟨.real x, rfl, ?_⟩
    simp [updateWith, lib.isNumeric_real, lib.asReal_real h]
  | bool b => exact ⟨.bool b, rfl, rfl⟩
  | string b => exact ⟨.string b, rfl, rfl⟩
  | bytes b => exact absurd hplain id
  | @enum e n h =>
    obtain ⟨name, hname, hfind⟩ := Option.bind_eq_some_iff.mp (hplain n h)
    refine ⟨.string name, ?_, ?_⟩
    · simp [hname]
    · simp [hfind]
  | message hlen hsingle hvalues => exact absurd rfl (hscalar _)

/-- A message as a value of a field. -/
theorem convertValue_message {slots : Slots R} (htype : fd.type = .message t) :
    convertValue pool d fd (.message slots) = convertToJson pool t slots := by
  unfold convertValue convertToJson
  rw [htype]

/-- Only a field of messages has a message. -/
theorem type_of_message {type : FieldKind}
    (h : Typed lib.RealFits pool type (.message slots)) :
    ∃ t, type = .message t ∧ TypedMessage lib.RealFits pool t slots := by
  cases h with
  | message hlen hsingle hvalues => exact ⟨_, rfl, .message hlen hsingle hvalues⟩

/-- **Every value can be converted**, so what becomes of a message is decided
on the way back. -/
theorem convertValue_isOk (hpool : PlainPool pool) (v : Value R) {d : MessageType}
    {fd : Field} (hplain : PlainField d fd)
    (htyped : Typed lib.RealFits pool fd.type v) : ∃ j, convertValue pool d fd v = .ok j := by
  induction v using Value.induction generalizing d fd with
  | message slots ih =>
    obtain ⟨t, htype, hslots⟩ := type_of_message htyped
    rw [convertValue_message htype]
    obtain ⟨members, hmembers⟩ := convertFields_of_typed (hpool t) hslots
      fun vs hvs v hv fd hfd htyped => ih vs hvs v hv ((hpool t).fields fd hfd) htyped
    exact ⟨_, map_eq_ok_iff.mpr ⟨members, hmembers, rfl⟩⟩
  | _ =>
    obtain ⟨j, hj, -⟩ := comesBack_scalar hplain htyped (by intro _ heq; cases heq)
    exact ⟨j, hj⟩

/-- **A value in which no message is without values comes back.** The
induction is over the value, with all fields that it could be of. -/
theorem comesBack (hpool : PlainPool pool) (v : Value R) {d : MessageType}
    {fd : Field} (hplain : PlainField d fd)
    (htyped : Typed lib.RealFits pool fd.type v) (hpopulated : populated v = true) :
    ComesBack lib pool d fd v := by
  induction v using Value.induction generalizing d fd with
  | message slots ih =>
    obtain ⟨t, htype, hslots⟩ := type_of_message htyped
    obtain ⟨hne, hdeep⟩ := populated_message.mp hpopulated
    obtain ⟨j, hj, hback⟩ := updateFromJson_of_comesBack (hpool t) hslots hne
      fun vs hvs v hv fd hfd htyped =>
        ih vs hvs v hv ((hpool t).fields fd hfd) htyped (hdeep vs hvs v hv)
    refine ⟨j, (convertValue_message htype).trans hj, ?_⟩
    rw [updateValue_message htype]
    exact map_eq_ok_iff.mpr ⟨slots, hback, rfl⟩
  | _ => exact comesBack_scalar hplain htyped (by intro _ heq; cases heq)

/-- **A value that is accepted has no message without values.** The JSON of
such a message is null, and an update refuses it wherever it stands. -/
theorem populated_of_accepted (hpool : PlainPool pool) (v : Value R) {d : MessageType}
    {fd : Field} {j : Json.Value R} {w : Value R}
    (htyped : Typed lib.RealFits pool fd.type v) (hj : convertValue pool d fd v = .ok j)
    (hw : updateValue lib pool d fd [] j = .ok w) : populated v = true := by
  induction v using Value.induction generalizing d fd j w with
  | message slots ih =>
    obtain ⟨t, htype, hslots⟩ := type_of_message htyped
    rw [convertValue_message htype] at hj
    rw [updateValue_message htype] at hw
    obtain ⟨slots', hupdate, -⟩ := map_eq_ok_iff.mp hw
    obtain ⟨hne, hdeep⟩ := accepted_of_updateFromJson (hpool t) hslots hj hupdate
    refine populated_message.mpr ⟨hne, fun vs hvs v hv => ?_⟩
    obtain ⟨fd', -, htyped', j', w', hj', hw'⟩ := hdeep vs hvs v hv
    exact ih vs hvs v hv htyped' hj' hw'
  | _ => rfl

/-! ## Messages -/

/-- Every message is converted. -/
theorem convertToJson_isOk (hpool : PlainPool pool)
    (hslots : TypedMessage lib.RealFits pool t slots) :
    ∃ j, convertToJson pool t slots = .ok j := by
  obtain ⟨members, hmembers⟩ := convertFields_of_typed (hpool t) hslots
    fun _ _ v _ fd hfd htyped => convertValue_isOk hpool v ((hpool t).fields fd hfd) htyped
  exact ⟨_, map_eq_ok_iff.mpr ⟨members, hmembers, rfl⟩⟩

/-- A message in which none is without values comes back. -/
theorem updateFromJson_of_populated (hpool : PlainPool pool)
    (hslots : TypedMessage lib.RealFits pool t slots)
    (hpopulated : populated (.message slots) = true) :
    ∃ j, convertToJson pool t slots = .ok j
      ∧ updateFromJson lib pool t j (pool t).empty = .ok slots := by
  obtain ⟨hne, hdeep⟩ := populated_message.mp hpopulated
  exact updateFromJson_of_comesBack (hpool t) hslots hne fun vs hvs v hv fd hfd htyped =>
    comesBack hpool v ((hpool t).fields fd hfd) htyped (hdeep vs hvs v hv)

/-- A message that is accepted has none without values. -/
theorem populated_of_updateFromJson (hpool : PlainPool pool)
    (hslots : TypedMessage lib.RealFits pool t slots) {j : Json.Value R}
    (hj : convertToJson pool t slots = .ok j) {slots' : Slots R}
    (h : updateFromJson lib pool t j (pool t).empty = .ok slots') :
    populated (.message slots) = true := by
  obtain ⟨hne, hdeep⟩ := accepted_of_updateFromJson (hpool t) hslots hj h
  refine populated_message.mpr ⟨hne, fun vs hvs v hv => ?_⟩
  obtain ⟨fd, -, htyped, j', w, hj', hw⟩ := hdeep vs hvs v hv
  exact populated_of_accepted hpool v htyped hj' hw

/-- **A message comes back from its JSON** exactly if no message in it, nor
the message itself, is without values, and if it does not, it is refused.

So nothing is lost in silence: an update either sets all that was there, or
throws. -/
theorem comesBack_iff (hpool : PlainPool pool)
    (hslots : TypedMessage lib.RealFits pool t slots) :
    ∃ j, convertToJson pool t slots = .ok j
      ∧ (updateFromJson lib pool t j (pool t).empty = .ok slots
        ↔ populated (.message slots) = true)
      ∧ ∀ slots', updateFromJson lib pool t j (pool t).empty = .ok slots' → slots' = slots := by
  obtain ⟨j, hj⟩ := convertToJson_isOk hpool hslots
  have hback : populated (.message slots) = true →
      updateFromJson lib pool t j (pool t).empty = .ok slots := by
    intro hpopulated
    obtain ⟨j', hj', hback⟩ := updateFromJson_of_populated hpool hslots hpopulated
    obtain rfl := Except.ok.inj (hj'.symm.trans hj)
    exact hback
  refine ⟨j, hj, ⟨populated_of_updateFromJson hpool hslots hj, hback⟩, fun slots' h => ?_⟩
  have hpopulated := populated_of_updateFromJson hpool hslots hj h
  exact (Except.ok.inj ((hback hpopulated).symm.trans h)).symm

/-- A note with a text and two numbers comes back. -/
theorem comesBack_iff_note :
    ∃ j, convertToJson (fun _ => noteType) "Note" [[.str (ascii "a")], [.int 7, .int 8]] = .ok j
      ∧ updateFromJson Reader.whole (fun _ => noteType) "Note" j noteType.empty
        = .ok [[.str (ascii "a")], [.int 7, .int 8]] := by
  have hplain : Plain noteType := ⟨distinctNames_note, by decide⟩
  have hpool : PlainPool fun _ => noteType := fun _ => hplain
  have hslots : TypedMessage Reader.whole.RealFits (fun _ => noteType) "Note"
      [[.str (ascii "a")], [.int 7, .int 8]] := by
    refine (typedMessage_iff distinctNames_note).mpr ⟨rfl, fun fd hfd => ?_⟩
    rcases List.mem_pair.mp hfd with rfl | rfl
    · exact ⟨fun _ => le_refl 1, List.forall_mem_singleton.mpr (.string _)⟩
    · refine ⟨nofun, fun v hv => ?_⟩
      rcases List.mem_pair.mp hv with rfl | rfl
      · exact .int (by decide)
      · exact .int (by decide)
  obtain ⟨j, hj, hback, -⟩ := comesBack_iff hpool hslots
  exact ⟨j, hj, hback.mpr (by decide)⟩

end JsonProtobuf
