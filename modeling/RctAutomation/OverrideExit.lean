import RctAutomation.EngineCalls
import RctAutomation.Occurrences

/-!
# Leaving the manual override

When a human gives back control, the internal time is set to the clock, so that
what was due before is skipped. It stays skipped as long as the internal time
does not fall back behind that moment, and the search for the next block does
not start before it: `handed_after_override` says that no later round hands an
occurrence of the past, if every search has room for its counter.

What the web clients change during a round is what they change before the next
one: a round reads the override once, and then the schedule once.
-/

open Sql RequirementEngine AutomationState

variable {fp : FloatOps} {flags : Flags} {localtime_r : ℤ → Tm}

/-- A human leaves the schedule alone. -/
theorem effective_manualOverride (m : Moment) (s : AutomationState) :
    (manualOverride m s).effective flags = s.effective flags := by
  unfold manualOverride
  split
  · rfl
  · rfl

/-- The internal time when a human gives back control. -/
theorem internal_time_manualOverride {m : Moment} {s : AutomationState}
    (h : s.overridden = true) : (manualOverride m s).internal_time = m.clock 0 := by
  unfold manualOverride
  rw [if_pos h]

/-! ## One round -/

/-- **The search of a round has room**, unless it starts from the clock, as
that of a round does in which a human gave back control. -/
def Round.Fits (flags : Flags) (localtime_r : ℤ → Tm) (c : Round) : Prop :=
  c.state.overridden = false →
    ScanFits localtime_r (c.state.effective flags) c.state.internal_time

/-- A round hands nothing that is due before the time its search starts
from. -/
theorem le_of_mem_handed {c : Round}
    (hran : c.ran = runOnce fp flags localtime_r c.moment c.state)
    (hmin : int32Min ≤ (manualOverride c.moment c.state).internal_time)
    (hfits : ScanFits localtime_r ((manualOverride c.moment c.state).effective flags)
      (manualOverride c.moment c.state).internal_time) {x : ℕ × ℤ} (hx : x ∈ c.handed) :
    (manualOverride c.moment c.state).internal_time ≤ x.2 := by
  rcases handed_cases hran rfl with hnone | ⟨b, hb, hhanded⟩
  · rw [hnone] at hx
    exact absurd hx List.not_mem_nil
  · rw [hhanded] at hx
    obtain ⟨e, he, rfl⟩ := List.mem_map.mp hx
    rcases fillNext_of_scanFits hmin hfits (c.moment.clock 1) with ⟨t, hfirst, hfill⟩ | hfill
    · obtain rfl := Option.some.inj (hb.symm.trans hfill)
      exact hfirst.from_start
    · obtain rfl := Option.some.inj (hb.symm.trans hfill)
      exact absurd he List.not_mem_nil

/-- Where a human gives back control the search has room. -/
theorem scanFits_manualOverride {c : Round}
    (hclock : c.moment.clock 0 < int32Max + 1 - window) (hfits : c.Fits flags localtime_r) :
    ScanFits localtime_r ((manualOverride c.moment c.state).effective flags)
      (manualOverride c.moment c.state).internal_time := by
  rw [effective_manualOverride]
  cases hman : c.state.overridden with
  | false =>
    rw [manualOverride_of_not hman]
    exact hfits hman
  | true =>
    rw [internal_time_manualOverride hman]
    unfold window at hclock
    exact ⟨by omega, Or.inl (by unfold window; omega)⟩

/-! ## Runs -/

/-- What the clock shows in a run: 32-bit times, of which none is earlier than
the one before. -/
structure ClockRuns (ms : List (Edits × Moment)) : Prop where
  range : ∀ x ∈ ms, ∀ i, int32Min ≤ x.2.clock i ∧ x.2.clock i < int32Max + 1 - window
  within : ∀ x ∈ ms, ∀ i j, i ≤ j → x.2.clock i ≤ x.2.clock j
  across : ms.Pairwise (fun x y => ∀ i j, x.2.clock i ≤ y.2.clock j)

/-- No round hands an occurrence from before a time that the internal time and
the clock have reached. -/
theorem le_of_mem_rounds {least : ℤ} (hleast : int32Min ≤ least) {s₀ : AutomationState}
    (h₀ : least ≤ s₀.internal_time) {ms : List (Edits × Moment)}
    (hclock : ∀ x ∈ ms, ∀ i, least ≤ x.2.clock i ∧ x.2.clock i < int32Max + 1 - window)
    (hfits : ∀ c ∈ rounds fp flags localtime_r ms s₀, c.Fits flags localtime_r) :
    ∀ c ∈ rounds fp flags localtime_r ms s₀, ∀ x ∈ c.handed, least ≤ x.2 := by
  intro c hc x hx
  obtain ⟨hran, y, hy, hmoment⟩ := round_of_mem hc
  have hm := hclock y hy
  rw [hmoment] at hm
  have hstart : least ≤ (manualOverride c.moment c.state).internal_time :=
    le_internal_time_manualOverride
      (le_internal_time_of_mem h₀ (fun y hy i => (hclock y hy i).1) hc) (hm 0).1
  exact hstart.trans (le_of_mem_handed hran (hleast.trans hstart)
    (scanFits_manualOverride (hm 0).2 (hfits c hc)) hx)

/-- The rounds of a run from some round on are a run. It gives a later
round's state and what follows it in the terms of the earlier one's. -/
theorem rounds_suffix {s₀ : AutomationState} {ms : List (Edits × Moment)}
    {before after : List Round} {c : Round}
    (h : rounds fp flags localtime_r ms s₀ = before ++ c :: after) :
    ∃ ms₁ e ms₂ s, ms = ms₁ ++ (e, c.moment) :: ms₂ ∧ c.state = AutomationState.edited s e
      ∧ c.ran = runOnce fp flags localtime_r c.moment c.state
      ∧ after = c.ran.next.elim [] (rounds fp flags localtime_r ms₂) := by
  induction before generalizing ms s₀ with
  | nil =>
    cases ms with
    | nil => cases h
    | cons em ms =>
      obtain ⟨e, m⟩ := em
      rw [rounds_cons] at h
      obtain ⟨rfl, rfl⟩ := List.cons.inj h
      exact ⟨[], e, ms, s₀, rfl, rfl, rfl, rfl⟩
  | cons d before ih =>
    cases ms with
    | nil => cases h
    | cons em ms =>
      obtain ⟨e, m⟩ := em
      rw [rounds_cons] at h
      obtain ⟨-, htail⟩ := List.cons.inj h
      cases hnext : ((s₀.edited e).runOnce fp flags localtime_r m).next with
      | none =>
        rw [hnext] at htail
        exact absurd htail.symm (List.append_ne_nil_of_right_ne_nil _ (List.cons_ne_nil _ _))
      | some s' =>
        rw [hnext] at htail
        obtain ⟨ms₁, e', ms₂, s, rfl, hrest⟩ := ih htail
        exact ⟨(e, m) :: ms₁, e', ms₂, s, rfl, hrest⟩

/-- **Leaving the override skips the past for good**: from the round in which
a human gave back control on, no occurrence is handed that was due before, if
every search that does not start from the clock has room.

The round itself searches from the clock. After it the internal time is at
least its second, and a round moves it on or leaves it; that the sums fit an
`int` keeps it from going round. -/
theorem handed_after_override (fp : FloatOps) (flags : Flags) (localtime_r : ℤ → Tm)
    (s₀ : AutomationState) (ms : List (Edits × Moment)) (hclock : ClockRuns ms)
    (hfits : ∀ c ∈ rounds fp flags localtime_r ms s₀, c.Fits flags localtime_r)
    (before after : List Round) (c : Round)
    (hrounds : rounds fp flags localtime_r ms s₀ = before ++ c :: after)
    (hman : c.state.overridden = true) :
    ∀ d ∈ c :: after, ∀ x ∈ d.handed, c.moment.clock 0 ≤ x.2 := by
  obtain ⟨ms₁, e, ms₂, s, rfl, hstate, hran, hafter⟩ := rounds_suffix hrounds
  have hmem : (e, c.moment) ∈ ms₁ ++ (e, c.moment) :: ms₂ :=
    List.mem_append_right _ (List.mem_cons_self ..)
  have htime := internal_time_manualOverride (m := c.moment) hman
  have hrange := hclock.range _ hmem 0
  rw [hrounds] at hfits
  intro d hd x hx
  rcases List.mem_cons.mp hd with rfl | hd
  · rw [← htime]
    refine le_of_mem_handed hran (htime.symm ▸ hrange.1) ?_ hx
    exact scanFits_manualOverride hrange.2
      (hfits d (List.mem_append_right _ (List.mem_cons_self ..)))
  · cases hnext : c.ran.next with
    | none =>
      rw [hafter, hnext] at hd
      exact absurd hd List.not_mem_nil
    | some s' =>
      have hrest : after = rounds fp flags localtime_r ms₂ s' := by
        rw [hafter, hnext]
        rfl
      have hs' : c.moment.clock 0 ≤ s'.internal_time :=
        le_internal_time_next rfl (le_of_eq htime.symm)
          (hclock.within _ hmem 0 3 (Nat.zero_le 3)) (hran ▸ hnext)
      have hlater : ∀ y ∈ ms₂, ∀ i, c.moment.clock 0 ≤ y.2.clock i
          ∧ y.2.clock i < int32Max + 1 - window := by
        intro y hy i
        refine ⟨?_, (hclock.range y (List.mem_append_right _ (List.mem_cons_of_mem _ hy)) i).2⟩
        exact List.rel_of_pairwise_cons (List.pairwise_append.mp hclock.across).2.1 hy 0 i
      refine le_of_mem_rounds hrange.1 hs' hlater (fun c' hc' => ?_) d (hrest ▸ hd) x hx
      exact hfits c' (List.mem_append_right _ (List.mem_cons_of_mem _ (hrest ▸ hc')))

/-- A human gives back control at 1000, and a requirement is due a second
later. -/
theorem handed_after_override_onlyAt :
    ((rounds .whole {} noonTm
      [({}, quietMoment fun _ => 1000), ({}, quietMoment fun _ => 1001)]
      { internal_time := 0, schedule := onlyAt [999, 1001] none, override_ := true }).all
        fun c => c.handed.all fun x => 1000 ≤ x.2) = true := by
  have hafter := handed_after_override .whole {} noonTm
    { internal_time := 0, schedule := onlyAt [999, 1001] none, override_ := true }
    [({}, quietMoment fun _ => 1000), ({}, quietMoment fun _ => 1001)]
    ⟨by
      intro x hx i
      simp only [List.mem_cons, List.not_mem_nil, or_false] at hx
      rcases hx with rfl | rfl
      · exact (by decide : int32Min ≤ 1000 ∧ 1000 < int32Max + 1 - window)
      · exact (by decide : int32Min ≤ 1001 ∧ 1001 < int32Max + 1 - window), by
      intro x hx i j _
      simp only [List.mem_cons, List.not_mem_nil, or_false] at hx
      rcases hx with rfl | rfl <;> exact le_refl _, by
      refine List.pairwise_pair.mpr (fun _ _ => ?_)
      exact (by decide : (1000 : ℤ) ≤ 1001)⟩
    (fun c hc _ => by
      have htimes : ∀ c ∈ rounds .whole {} noonTm
          [({}, quietMoment fun _ => 1000), ({}, quietMoment fun _ => 1001)]
          { internal_time := 0, schedule := onlyAt [999, 1001] none, override_ := true },
          c.state.internal_time ≤ int32Max ∧ c.state.internal_time + window ≤ int32Max := by
        decide +kernel
      exact ⟨(htimes c hc).1, Or.inl (htimes c hc).2⟩)
    [] _ _ rfl rfl
  refine List.all_eq_true.mpr (fun c hc => List.all_eq_true.mpr (fun x hx => decide_eq_true ?_))
  exact hafter c hc x hx

/-- **A run that goes back to the past**: a human gives back control at 1000,
and the block that is run then has the largest advance that fits an `int`.
The next block is due long before, because the counter of the search starts
at a negative time. -/
theorem handed_before_override :
    (rounds .whole {} noonTm
      [({}, quietMoment fun _ => 1000), ({}, quietMoment fun _ => 1000)]
      { internal_time := 0, schedule := Engine.always 2147483647, override_ := true }).map
        (fun c => (c.state.overridden, c.moment.clock 0, c.handed))
      = [(true, 1000, [(0, 1000)]), (false, 1000, [(0, -2147482649)])] := by
  decide +kernel
