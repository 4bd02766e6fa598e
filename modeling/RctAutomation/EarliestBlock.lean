import Mathlib.Order.Bounds.Basic
import RctAutomation.RequirementEngine

/-!
# The earliest block

What `FillNext` is for: the seconds of the coming week at which a requirement
is due are a set (`dueTimes`), and the block that is found is the one at its
least element, whole. `DueAt` says when a requirement is due, and `IsDue`
decides it.
-/

namespace RequirementEngine

/-! ## Being due -/

/-- A list of constraints allows the fields it contains; an empty one
constrains nothing. -/
def Allows (constrained : List ℤ) (field : ℤ) : Prop := constrained ≠ [] → field ∈ constrained

instance (constrained : List ℤ) (field : ℤ) : Decidable (Allows constrained field) :=
  inferInstanceAs (Decidable (_ → _))

/-- **When a requirement is due**: at its absolute times if it has some, and
otherwise whenever each of its constraints allows the local time. -/
def DueAt (localtime_r : ℤ → Tm) (item : Requirement) (t : ℤ) : Prop :=
  (item.whenD.only_at_times ≠ [] ∧ t ∈ item.whenD.only_at_times)
  ∨ (item.whenD.only_at_times = []
    ∧ Allows item.whenD.constrained_dom (localtime_r t).tm_mday
    ∧ Allows item.whenD.constrained_dow (localtime_r t).tm_wday
    ∧ Allows item.whenD.constrained_hours (localtime_r t).tm_hour
    ∧ Allows item.whenD.constrained_minutes (localtime_r t).tm_min
    ∧ Allows item.whenD.constrained_seconds (localtime_r t).tm_sec)

instance (localtime_r : ℤ → Tm) (item : Requirement) (t : ℤ) :
    Decidable (DueAt localtime_r item t) :=
  inferInstanceAs (Decidable (_ ∨ _))

theorem constraintMet_iff {constrained : List ℤ} {field : ℤ} :
    constraintMet constrained field = true ↔ Allows constrained field := by
  unfold constraintMet Allows
  rw [Bool.or_eq_true, List.isEmpty_iff, List.contains_iff_mem]
  exact Decidable.or_iff_not_imp_left

/-- **`IsDue` decides when a requirement is due.** From here on the search is
about times and not about the lists of a time specification. -/
theorem isDue_iff {localtime_r : ℤ → Tm} {item : Requirement} {t : ℤ} :
    isDue localtime_r item t = true ↔ DueAt localtime_r item t := by
  unfold isDue DueAt
  dsimp only
  cases htimes : item.whenD.only_at_times with
  | nil =>
    show (_ && _ && _ && _ && _) = true ↔ _
    simp only [Bool.and_eq_true, constraintMet_iff, and_assoc, ne_eq, not_true_eq_false,
      false_and, true_and, false_or]
  | cons first times =>
    show (first :: times).contains t = true ↔ _
    rw [List.contains_iff_mem]
    simp only [ne_eq, reduceCtorEq, not_false_eq_true, true_and, false_and, or_false]

/-- The times within the window at which some requirement of a schedule is
due. It is a set of seconds, of which `FillNext` is to find the least. -/
def dueTimes (localtime_r : ℤ → Tm) (effective : Schedule) (internal_time : ℤ) : Set ℤ :=
  {t | internal_time ≤ t ∧ t < internal_time + window
    ∧ ∃ r ∈ effective.schedule, DueAt localtime_r r t}

variable {localtime_r : ℤ → Tm} {effective : Schedule}

/-! ## Positions -/

/-- Without their positions, the requirements due at a time are those of the
schedule that are, in its order. -/
theorem map_fst_dueAt (t : ℤ) :
    (dueAt localtime_r (entries effective) t).map Prod.fst
      = effective.schedule.filter (fun r => DueAt localtime_r r t) := by
  have hdue : (fun r => decide (DueAt localtime_r r t)) = fun r => isDue localtime_r r t := by
    funext r
    rw [Bool.eq_iff_iff, decide_eq_true_iff, isDue_iff]
  have hfst : (entries effective).map Prod.fst = effective.schedule := List.zipIdx_map_fst ..
  rw [hdue, ← hfst, List.filter_map]
  rfl

/-- Something is due at a time exactly if some requirement of the schedule
is. -/
theorem dueAt_ne_nil_iff {t : ℤ} :
    dueAt localtime_r (entries effective) t ≠ []
      ↔ ∃ r ∈ effective.schedule, DueAt localtime_r r t := by
  rw [ne_eq, ← List.map_eq_nil_iff (f := Prod.fst), map_fst_dueAt, List.filter_eq_nil_iff]
  simp only [decide_eq_true_iff, not_forall, not_not, exists_prop]

/-- The requirements due first are due at the least of the times. -/
theorem FirstDue.isLeast {internal_time t : ℤ}
    (h : FirstDue localtime_r (entries effective) internal_time t) :
    IsLeast (dueTimes localtime_r effective internal_time) t := by
  refine ⟨⟨h.from_start, h.in_window, dueAt_ne_nil_iff.mp h.due⟩, ?_⟩
  rintro t' ⟨hle, -, hdue⟩
  by_contra hlt
  exact dueAt_ne_nil_iff.mpr hdue (h.first t' hle (not_le.mp hlt))

/-! ## The gap -/

/-- A running minimum is the least of its values and of where it starts. It
is how the gap of a block is found. -/
theorem isLeast_foldl_min {α β : Type*} [LinearOrder β] (f : α → β) (l : List α) (start : β) :
    IsLeast (insert start {g | ∃ a ∈ l, f a = g}) (l.foldl (fun g a => min g (f a)) start) := by
  induction l generalizing start with
  | nil =>
    refine ⟨Set.mem_insert start _, ?_⟩
    rintro g (rfl | ⟨a, ha, -⟩)
    · exact le_refl _
    · exact absurd ha List.not_mem_nil
  | cons a l ih =>
    obtain ⟨hmem, hle⟩ := ih (min start (f a))
    have hmin := hle (Set.mem_insert _ _)
    refine ⟨?_, ?_⟩
    · rcases hmem with h | ⟨b, hb, h⟩
      · rw [List.foldl_cons, h]
        rcases min_choice start (f a) with hstart | ha
        · rw [hstart]
          exact Set.mem_insert _ _
        · rw [ha]
          exact Set.mem_insert_of_mem _ ⟨a, List.mem_cons_self .., rfl⟩
      · exact Set.mem_insert_of_mem _ ⟨b, List.mem_cons_of_mem _ hb, h⟩
    · rintro g (rfl | ⟨b, hb, rfl⟩)
      · exact hmin.trans (min_le_left _ _)
      · rcases List.mem_cons.mp hb with rfl | hb
        · exact hmin.trans (min_le_right _ _)
        · exact hle (Set.mem_insert_of_mem _ ⟨b, hb, rfl⟩)

/-- And a running maximum is the greatest. -/
theorem isGreatest_foldl_max {α β : Type*} [LinearOrder β] (f : α → β) (l : List α) (start : β) :
    IsGreatest (insert start {g | ∃ a ∈ l, f a = g}) (l.foldl (fun g a => max g (f a)) start) :=
  isLeast_foldl_min (β := βᵒᵈ) f l start

/-- **The gap of some requirements is the least of theirs**, and of the
largest one, which is that of no requirements. -/
theorem minGap_isLeast (next : List Entry) :
    IsLeast (insert maxGap {g | ∃ e ∈ next, e.1.gapD = g}) (minGap next) :=
  isLeast_foldl_min (fun e => e.1.gapD) next maxGap

/-! ## The block that is found -/

/-- **`FillNext` finds the earliest block, whole**: its deadline is the least
time at which something is due, and it has each requirement that is due then,
once and in the order of the schedule. When nothing is due in the window, the
block is empty.

The gap is the least one of those in the block, and of the largest there is.
An empty block is for an hour from the clock, whatever the internal time. -/
theorem fillNext_earliest (flags : EngineFlags) (schedule : Schedule) (localtime_r : ℤ → Tm)
    (internal_time now : ℤ) (h₀ : 0 ≤ internal_time)
    (htime : internal_time < int32Max + 1 - window) :
    ((dueTimes localtime_r (effectiveSchedule flags schedule) internal_time).Nonempty →
      ∃ b, fillNext localtime_r (entries (effectiveSchedule flags schedule)) internal_time now
          = some b
        ∧ IsLeast (dueTimes localtime_r (effectiveSchedule flags schedule) internal_time)
          b.deadline
        ∧ b.next.map Prod.fst = (effectiveSchedule flags schedule).schedule.filter
          (fun r => DueAt localtime_r r b.deadline)
        ∧ IsLeast (insert maxGap {g | ∃ e ∈ b.next, e.1.gapD = g}) b.gap)
    ∧ (dueTimes localtime_r (effectiveSchedule flags schedule) internal_time = ∅ →
      fillNext localtime_r (entries (effectiveSchedule flags schedule)) internal_time now
        = some ⟨now + 3600, maxGap, []⟩) := by
  rcases fillNext_spec localtime_r (entries (effectiveSchedule flags schedule)) htime now with
    ⟨t, hfirst, hfill⟩ | ⟨hfill, hnone⟩
  · refine ⟨fun _ => ⟨_, hfill, hfirst.isLeast, map_fst_dueAt t, minGap_isLeast _⟩, fun h => ?_⟩
    -- what is due first is in the empty set
    exact absurd (h ▸ hfirst.isLeast.1) (Set.notMem_empty t)
  · refine ⟨?_, fun _ => hfill⟩
    rintro ⟨t, hle, hlt, hdue⟩
    have hmin : int32Min ≤ internal_time := by
      unfold int32Min
      omega
    exact absurd (hnone hmin t hle hlt) (dueAt_ne_nil_iff.mpr hdue)

/-- A local time of one day, for schedules that constrain no day. -/
def clockTm (t : ℤ) : Tm := ⟨t % 60, t / 60 % 60, t / 3600 % 24, 1, 0⟩

/-- A requirement at one o'clock beside the implicit legal ID, ten seconds
before. -/
theorem fillNext_earliest_oneOClock :
    IsLeast (dueTimes clockTm (effectiveSchedule { implicit_legalid := true }
      ⟨[{ «when» := some { only_at_times := [3595, 3600], gap := some 60 } },
        { «when» := some { constrained_hours := [1], constrained_minutes := [0] } }]⟩) 3596)
      3600 := by
  obtain ⟨b, hb, hleast, -⟩ := (fillNext_earliest { implicit_legalid := true }
    ⟨[{ «when» := some { only_at_times := [3595, 3600], gap := some 60 } },
      { «when» := some { constrained_hours := [1], constrained_minutes := [0] } }]⟩
    clockTm 3596 0 (by decide) (by decide)).1
    ⟨3600, by decide, by decide, _, List.mem_cons_self .., by decide⟩
  have hfound : (fillNext clockTm (entries (effectiveSchedule { implicit_legalid := true }
      ⟨[{ «when» := some { only_at_times := [3595, 3600], gap := some 60 } },
        { «when» := some { constrained_hours := [1], constrained_minutes := [0] } }]⟩))
      3596 0).map Block.deadline = some 3600 := by decide +kernel
  rw [hb] at hfound
  rwa [Option.some.inj hfound] at hleast

end RequirementEngine
