import Mathlib.Algebra.Group.Int.Defs
import Mathlib.Data.Int.Basic
import Mathlib.Data.List.Nodup
import Mathlib.Data.List.Perm.Basic

/-!
# JSON values

A JSON document in memory. An array is its elements in their order, an object
its members, each with a name of its own, in the order of the names: `setMember`
keeps that order, and replaces a member that is there.

How a value is read as a number is up to the library that holds the document.
Libraries differ on whether a number with a fraction of zero is an integer and
on whether null is an empty array. A `Reader` is any of them: what it does is
said for the values that a number is written as, and what it gives is a number
of the type that was asked for.
-/

namespace Json

/-! ## Numbers -/

/-- The integer types of a reader: those that a field can have. -/
inductive IntType
  | int32 | uint32 | int64 | uint64
  deriving DecidableEq

/-- The integers of a type. -/
def IntType.Fits : IntType → ℤ → Prop
  | int32, n => -2 ^ 31 ≤ n ∧ n < 2 ^ 31
  | uint32, n => 0 ≤ n ∧ n < 2 ^ 32
  | int64, n => -2 ^ 63 ≤ n ∧ n < 2 ^ 63
  | uint64, n => 0 ≤ n ∧ n < 2 ^ 64

instance (t : IntType) (n : ℤ) : Decidable (t.Fits n) := by
  cases t <;> exact instDecidableAnd

/-- The types of floating-point numbers. -/
inductive RealType
  | float | double
  deriving DecidableEq

/-! ## Values -/

/-- A JSON value, with numbers that are not integers of any type. A string is
its bytes, and the name of a member is text. -/
inductive Value (R : Type)
  | null
  | int (n : ℤ)
  | real (x : R)
  | bool (b : Bool)
  | string (b : List UInt8)
  | array (elems : List (Value R))
  | object (members : List (String × Value R))

variable {R : Type}

/-- **Induction over a document**, through the elements of an array and the
members of an object. The nested lists keep `induction` from finding this
principle itself. -/
theorem Value.induction {P : Value R → Prop} (null : P .null) (int : ∀ n, P (.int n))
    (real : ∀ x, P (.real x)) (bool : ∀ b, P (.bool b)) (string : ∀ b, P (.string b))
    (array : ∀ elems, (∀ j ∈ elems, P j) → P (.array elems))
    (object : ∀ members, (∀ m ∈ members, P m.2) → P (.object members)) (j : Value R) : P j := by
  refine Value.rec (motive_1 := P) (motive_2 := fun elems => ∀ j ∈ elems, P j)
    (motive_3 := fun members => ∀ m ∈ members, P m.2) (motive_4 := fun m => P m.2)
    null int real bool string array object ?_ ?_ ?_ ?_ ?_ j
  · exact fun j hj => absurd hj List.not_mem_nil
  · exact fun j elems hj helems => List.forall_mem_cons.mpr ⟨hj, helems⟩
  · exact fun m hm => absurd hm List.not_mem_nil
  · exact fun m members hm hmembers => List.forall_mem_cons.mpr ⟨hm, hmembers⟩
  · exact fun _ _ h => h

/-! ## Members -/

/-- The names of the members, in their order. -/
def names (members : List (String × Value R)) : List String := members.map Prod.fst

mutual

/-- No object of a document has two members of one name. A document in memory
never does, because a member that is assigned twice is replaced. -/
def distinct : Value R → Bool
  | .array elems => distinctElems elems
  | .object members => decide (names members).Nodup && distinctMembers members
  | _ => true

/-- The same for the elements of an array. -/
def distinctElems : List (Value R) → Bool
  | [] => true
  | j :: elems => distinct j && distinctElems elems

/-- The same for the values of some members. -/
def distinctMembers : List (String × Value R) → Bool
  | [] => true
  | (_, j) :: members => distinct j && distinctMembers members

end

theorem distinctElems_iff {elems : List (Value R)} :
    distinctElems elems = true ↔ ∀ j ∈ elems, distinct j = true := by
  induction elems with
  | nil => simp [distinctElems]
  | cons j elems ih => simp [distinctElems, ih]

theorem distinctMembers_iff {members : List (String × Value R)} :
    distinctMembers members = true ↔ ∀ m ∈ members, distinct m.2 = true := by
  induction members with
  | nil => simp [distinctMembers]
  | cons m members ih =>
    obtain ⟨name, j⟩ := m
    simp [distinctMembers, ih]

@[simp] theorem distinct_array {elems : List (Value R)} :
    distinct (.array elems) = true ↔ ∀ j ∈ elems, distinct j = true := by
  rw [distinct, distinctElems_iff]

@[simp] theorem distinct_object {members : List (String × Value R)} :
    distinct (.object members) = true
      ↔ (names members).Nodup ∧ ∀ m ∈ members, distinct m.2 = true := by
  rw [distinct, Bool.and_eq_true, decide_eq_true_eq, distinctMembers_iff]

/-- `value[name] = j`, in an object with these members. They stay in the
order of their names, and one that is there is replaced. -/
def setMember (name : String) (j : Value R) :
    List (String × Value R) → List (String × Value R)
  | [] => [(name, j)]
  | m :: members =>
    if name = m.1 then (name, j) :: members
    else if name < m.1 then (name, j) :: m :: members
    else m :: setMember name j members

/-- A member with a new name is added. -/
theorem setMember_perm {name : String} {j : Value R} {members : List (String × Value R)}
    (h : name ∉ names members) : (setMember name j members).Perm ((name, j) :: members) := by
  induction members with
  | nil => exact List.Perm.refl _
  | cons m members ih =>
    have hne : name ≠ m.1 := fun heq => h (heq ▸ List.mem_cons_self)
    have hrest : name ∉ names members := fun hmem => h (List.mem_cons_of_mem _ hmem)
    unfold setMember
    rw [if_neg hne]
    split
    · exact List.Perm.refl _
    · exact ((ih hrest).cons m).trans (List.Perm.swap ..)

/-- The value that members are assigned to, one by one. A value that is
assigned none stays null, since it is the first assignment that makes it an
object. -/
def ofMembers (members : List (String × Value R)) : Value R :=
  if members.isEmpty then .null
  else .object (members.foldl (fun acc m => setMember m.1 m.2 acc) [])

/-- Members of different names are all there. -/
theorem foldl_setMember_perm {members acc : List (String × Value R)}
    (h : (names (members ++ acc)).Nodup) :
    (members.foldl (fun acc m => setMember m.1 m.2 acc) acc).Perm (members ++ acc) := by
  induction members generalizing acc with
  | nil => exact List.Perm.refl _
  | cons m members ih =>
    obtain ⟨hm, hrest⟩ := List.nodup_cons.mp h
    have hnew : m.1 ∉ names acc := fun hmem => hm (by
      show m.1 ∈ (members ++ acc).map Prod.fst
      rw [List.map_append]
      exact List.mem_append_right _ hmem)
    have hperm : (members ++ setMember m.1 m.2 acc).Perm (m :: (members ++ acc)) :=
      ((setMember_perm hnew).append_left members).trans List.perm_middle
    rw [List.foldl_cons]
    refine (ih ?_).trans hperm
    exact ((hperm.map Prod.fst).nodup_iff).mpr h

/-- **An object holds the members it was assigned**, if their names are
different. Their order is another one. -/
theorem ofMembers_eq {members : List (String × Value R)} (hne : members ≠ [])
    (h : (names members).Nodup) :
    ∃ sorted, ofMembers members = .object sorted ∧ sorted.Perm members := by
  refine ⟨_, if_neg (by simpa using hne), ?_⟩
  have hperm := foldl_setMember_perm (show (names (members ++ [])).Nodup by rwa [List.append_nil])
  rwa [List.append_nil] at hperm

/-! ## Readers -/

/-- **A library that reads JSON values**: its tests, its conversions, which
fail where a number does not fit, and what is known of them.

The laws say how the numbers that are written are read, and that a conversion
gives nothing that does not fit. What is made of other values, such as
numbers with a fraction of zero, is left open. -/
structure Reader (R : Type) where
  /-- Whether a value passes for an integer. -/
  isIntegral : Value R → Bool
  /-- Whether a value passes for a number. -/
  isNumeric : Value R → Bool
  /-- The integer of a type that a value is converted to; `none` is an
  exception. -/
  asInteger : IntType → Value R → Option ℤ
  /-- The floating-point number of a type that a value is converted to. -/
  asReal : RealType → Value R → Option R
  /-- Whether null passes for an empty array. -/
  nullIsArray : Bool
  /-- The numbers of a floating-point type. -/
  RealFits : RealType → R → Prop
  /-- An integer passes for one. -/
  isIntegral_int : ∀ n, isIntegral (.int n) = true
  /-- An integer of the type is converted to itself. -/
  asInteger_int : ∀ {t : IntType} {n : ℤ}, t.Fits n → asInteger t (.int n) = some n
  /-- A conversion gives an integer of its type. -/
  fits_asInteger : ∀ {t : IntType} {j : Value R} {n : ℤ}, asInteger t j = some n → t.Fits n
  /-- A floating-point number passes for a number. -/
  isNumeric_real : ∀ x, isNumeric (.real x) = true
  /-- A number of the type is converted to itself. -/
  asReal_real : ∀ {t : RealType} {x : R}, RealFits t x → asReal t (.real x) = some x
  /-- A conversion gives a number of its type. -/
  realFits_asReal : ∀ {t : RealType} {j : Value R} {x : R}, asReal t j = some x → RealFits t x

/-- A reader of documents whose numbers are integers. Null is no array for
it. -/
def Reader.whole : Reader Empty where
  isIntegral j := match j with
    | .int _ => true
    | _ => false
  isNumeric j := match j with
    | .int _ => true
    | .real x => nomatch x
    | _ => false
  asInteger t j := match j with
    | .int n => if t.Fits n then some n else none
    | _ => none
  asReal _ _ := none
  nullIsArray := false
  RealFits _ x := nomatch x
  isIntegral_int _ := rfl
  asInteger_int h := if_pos h
  fits_asInteger {t j n} h := by
    cases j with
    | int m =>
      obtain ⟨hfits, hm⟩ := Option.ite_none_right_eq_some.mp h
      exact Option.some.inj hm ▸ hfits
    | real x => exact nomatch x
    | null | bool | string | array | object => cases h
  isNumeric_real x := nomatch x
  asReal_real {t x} := nomatch x
  realFits_asReal {t j x} := nomatch x

end Json
