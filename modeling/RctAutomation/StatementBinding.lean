import RctAutomation.RootRows

/-!
# The text of a statement and what is bound to it

The store goes through the populated fields of a message three times. One loop
builds the text of a statement and passes over the repeated fields; one binds
the placeholders and counts them; and the lookup puts its conditions one after
the other without anything in between.

So the placeholders of an insertion are bound to their fields as long as the
repeated fields come last, an update finds its row as long as there are none,
and a lookup is a statement as long as it has one condition
(`statements_agree_iff`).
-/

open Sql

/-! ## Messages that are stored -/

/-- The value is one of the field's type, which is one the store binds. A
field of another type is not populated. A repeated field that the store can
write has integers for its elements. -/
def FieldDescriptor.Holds (fd : FieldDescriptor) : FieldValue → Prop
  | .unset => True
  | .int _ => fd.repeated = false ∧ (fd.type = .int32 ∨ fd.type = .int64)
  | .str _ => fd.repeated = false ∧ (fd.type = .string ∨ fd.type = .bytes)
  | .ints _ => fd.repeated = true ∧ fd.type = .int64
  | .messages n => n = 0

instance (fd : FieldDescriptor) : (v : FieldValue) → Decidable (fd.Holds v)
  | .unset => inferInstanceAs (Decidable True)
  | .int _ | .str _ => inferInstanceAs (Decidable (_ ∧ (_ ∨ _)))
  | .ints _ => inferInstanceAs (Decidable (_ ∧ _))
  | .messages n => inferInstanceAs (Decidable (n = 0))

/-- A scalar field that is populated is bound to its value. -/
theorem FieldDescriptor.Holds.encodes {fd : FieldDescriptor} {v : FieldValue}
    (h : fd.Holds v) (hscalar : fd.repeated = false) (hp : v.populated = true) :
    encodeField fd v = some v.toValue ∧ v.toValue ≠ .null := by
  cases v with
  | unset => cases hp
  | int n =>
    refine ⟨?_, fun h => (by cases h)⟩
    unfold encodeField
    rcases h.2 with ht | ht <;> rw [ht] <;> rfl
  | str b =>
    refine ⟨?_, fun h => (by cases h)⟩
    unfold encodeField
    rcases h.2 with ht | ht <;> rw [ht] <;> rfl
  | ints l =>
    rw [h.1] at hscalar
    cases hscalar
  | messages n =>
    obtain rfl : n = 0 := h
    cases hp

namespace Message

/-- **A message whose fields are all of types the store binds**, the first
one declared being scalar. Nothing is said of the order of its fields, of its
name, or of whether there is a table for it: what follows is about every
message type. -/
structure Storable (m : Message) : Prop where
  holds : ∀ fd ∈ m.desc.fields, fd.Holds (m.val fd.name)
  field0_mem : m.desc.field0 ∈ m.desc.fields
  field0_scalar : m.desc.field0.repeated = false

instance (m : Message) : Decidable m.Ordered :=
  inferInstanceAs (Decidable (m.listFields = m.scalars ++ m.repeateds))

variable {m : Message}

theorem Storable.scalar (hm : m.Storable) {fd : FieldDescriptor} (hfd : fd ∈ m.listFields)
    (hscalar : fd.repeated = false) :
    encodeField fd (m.val fd.name) = some (m.val fd.name).toValue
      ∧ (m.val fd.name).toValue ≠ .null := by
  obtain ⟨hmem, hp⟩ := mem_listFields.mp hfd
  exact (hm.holds fd hmem).encodes hscalar hp

end Message

/-! ## Binding by position -/

/-- The placeholders once the fields were bound, one after the other. A
repeated field leaves its placeholder as it is, and a field for which there
is no placeholder left is not bound, as SQLite refuses the number. -/
def boundTo (m : Message) : List FieldDescriptor → List Value → List Value
  | [], ps => ps
  | _ :: _, [] => []
  | fd :: fds, p :: ps =>
    (if fd.repeated then p else (m.val fd.name).toValue) :: boundTo m fds ps

theorem boundTo_nil (m : Message) (fds : List FieldDescriptor) : boundTo m fds [] = [] := by
  cases fds <;> rfl

/-- Fields beyond the last placeholder are bound to nothing. SQLite reports
the number as out of range, and nobody looks at that. -/
theorem foldlM_bindField_beyond (m : Message) (fds : List FieldDescriptor)
    (hfds : ∀ fd ∈ fds, fd.repeated = false →
      encodeField fd (m.val fd.name) = some (m.val fd.name).toValue) {ps : Prepared} {i : ℕ}
    (hi : ps.params.length ≤ i) :
    fds.foldlM (bindField m) (ps, i + 1) = some (ps, i + fds.length + 1) := by
  induction fds generalizing i with
  | nil => rfl
  | cons fd fds ih =>
    have hnext : bindField m (ps, i + 1) fd = some (ps, i + 1 + 1) := by
      unfold bindField
      cases hrep : fd.repeated with
      | true => rfl
      | false =>
        rw [hfds fd (List.mem_cons_self ..) hrep]
        have hsame : ps.bind (i + 1) (m.val fd.name).toValue = ps := by
          unfold Prepared.bind
          rw [if_neg (Nat.succ_ne_zero i), Nat.add_sub_cancel, List.set_eq_of_length_le hi]
        dsimp only [Option.map_some]
        rw [hsame]
        rfl
    rw [List.foldlM_cons, hnext]
    show fds.foldlM (bindField m) (ps, i + 1 + 1) = _
    rw [ih (fun fd' hfd' => hfds fd' (List.mem_cons_of_mem _ hfd')) (Nat.le_succ_of_le hi),
      List.length_cons]
    congr 2
    omega

/-- **What `BindFromFields` binds**, from one placeholder on. The induction
is on the fields that are left, with the placeholders before them as a list
of their own; the number that is counted is that of the next field, scalar or
not. -/
theorem foldlM_bindField (m : Message) (stmt : Stmt) (fds : List FieldDescriptor)
    (hfds : ∀ fd ∈ fds, fd.repeated = false →
      encodeField fd (m.val fd.name) = some (m.val fd.name).toValue) (pre rest : List Value) :
    fds.foldlM (bindField m) (⟨stmt, pre ++ rest⟩, pre.length + 1)
      = some (⟨stmt, pre ++ boundTo m fds rest⟩, pre.length + fds.length + 1) := by
  induction fds generalizing pre rest with
  | nil => rfl
  | cons fd fds ih =>
    have hrest := fun fd' hfd' => hfds fd' (List.mem_cons_of_mem fd hfd')
    cases rest with
    | nil =>
      rw [foldlM_bindField_beyond m (fd :: fds) hfds (by simp), boundTo_nil]
    | cons p rest =>
      have hnext : bindField m (⟨stmt, pre ++ p :: rest⟩, pre.length + 1) fd
          = some (⟨stmt, (pre ++ [if fd.repeated then p else (m.val fd.name).toValue]) ++ rest⟩,
            pre.length + 1 + 1) := by
        unfold bindField
        cases hrep : fd.repeated with
        | true =>
          rw [if_pos rfl, if_pos rfl, List.append_assoc]
          rfl
        | false =>
          rw [if_neg Bool.false_ne_true, if_neg Bool.false_ne_true,
            hfds fd (List.mem_cons_self ..) hrep]
          simp [Prepared.bind]
      have hlen : pre.length + 1 + 1
          = (pre ++ [if fd.repeated then p else (m.val fd.name).toValue]).length + 1 := by
        rw [List.length_append, List.length_singleton]
      rw [List.foldlM_cons, hnext, hlen]
      show fds.foldlM (bindField m) _ = _
      rw [ih hrest, List.append_assoc, List.length_append, List.length_singleton, List.length_cons]
      congr 2
      omega

/-- **The placeholders are bound to their fields exactly when the repeated
fields come last.** A repeated field before a scalar one leaves a placeholder
unbound, which is the null, and no scalar field that is populated has the
null. -/
theorem boundTo_eq_iff (m : Message) (fds : List FieldDescriptor)
    (hne : ∀ fd ∈ fds, fd.repeated = false → (m.val fd.name).toValue ≠ .null) :
    boundTo m fds (List.replicate (fds.filter (fun fd => !fd.repeated)).length .null)
        = (fds.filter (fun fd => !fd.repeated)).map (fun fd => (m.val fd.name).toValue)
      ↔ fds = fds.filter (fun fd => !fd.repeated) ++ fds.filter FieldDescriptor.repeated := by
  induction fds with
  | nil => exact iff_of_true rfl rfl
  | cons fd fds ih =>
    have hrest := ih (fun fd' hfd' => hne fd' (List.mem_cons_of_mem _ hfd'))
    cases hrep : fd.repeated with
    | false =>
      rw [List.filter_cons_of_pos (by simp [hrep]), List.filter_cons_of_neg (by simp [hrep]),
        List.length_cons, List.replicate_succ, List.map_cons, List.cons_append, List.cons.injEq,
        and_iff_right rfl, ← hrest]
      show (if fd.repeated then _ else _) :: _ = _ ↔ _
      rw [hrep, if_neg Bool.false_ne_true, List.cons.injEq, and_iff_right rfl]
    | true =>
      rw [List.filter_cons_of_neg (by simp [hrep]), List.filter_cons_of_pos hrep]
      cases hscalars : fds.filter (fun fd => !fd.repeated) with
      | nil =>
        refine iff_of_true (boundTo_nil m _) ?_
        have hall : fds.filter FieldDescriptor.repeated = fds := by
          refine List.filter_eq_self.mpr (fun fd' hfd' => ?_)
          simpa using List.filter_eq_nil_iff.mp hscalars fd' hfd'
        rw [hall]
        rfl
      | cons s ss =>
        -- the first scalar field is bound to a later placeholder than its own
        have hs : s ∈ fds.filter (fun fd => !fd.repeated) := by
          rw [hscalars]
          exact List.mem_cons_self ..
        obtain ⟨hmem, hsrep⟩ := List.mem_filter.mp hs
        refine iff_of_false (fun h => ?_) (fun h => ?_)
        · have hhead : (if fd.repeated then Value.null else (m.val fd.name).toValue)
              = (m.val s.name).toValue := (List.cons.inj h).1
          rw [hrep, if_pos rfl] at hhead
          exact hne s (List.mem_cons_of_mem _ hmem) (by simpa using hsrep) hhead.symm
        · rw [← (List.cons.inj h).1, hrep] at hsrep
          cases hsrep

/-! ## The root statement -/

variable {m : Message}

theorem scalarNames_length (m : Message) : (scalarNames m).length = m.scalars.length :=
  List.length_map ..

/-- The fields fill the placeholders in front of the ID. -/
theorem boundTo_append (m : Message) (fds : List FieldDescriptor) (ps qs : List Value) :
    (boundTo m fds (ps ++ qs)).take ps.length = boundTo m fds ps := by
  induction fds generalizing ps with
  | nil => exact List.take_left ..
  | cons fd fds ih =>
    cases ps with
    | nil => rfl
    | cons p ps =>
      show _ :: (boundTo m fds (ps ++ qs)).take ps.length = _ :: boundTo m fds ps
      rw [ih]

variable {cat : Catalog}
