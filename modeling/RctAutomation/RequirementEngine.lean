import RctAutomation.Int32
import RctAutomation.Messages

/-!
# The requirement engine

The engine holds the schedule and an internal time. `fillNext` looks, from the
internal time on, for the first second at which a requirement is due, for at
most a week, and `runBlock` runs the requirements that are due then and moves
the internal time.

The counter of the search is an `int`, and running over its largest value is
undefined: the search has no result then. Each requirement goes with its
position in the effective schedule, which nothing reads.
-/

open Sql (Bytes)

/-- What `localtime_r` computes of a time, as far as a requirement can ask
for it. -/
structure Tm where
  tm_sec : ℤ
  tm_min : ℤ
  tm_hour : ℤ
  tm_mday : ℤ
  tm_wday : ℤ

/-- The flags of the engine. -/
structure EngineFlags where
  implicit_legalid : Bool := false
  implicit_legalid_gap : ℤ := 180

/-- A requirement and its position in the effective schedule. The position
tells two equal requirements apart, and nothing the engine does reads it. -/
abbrev Entry := Requirement × ℕ

namespace RequirementEngine

/-! ## When a requirement is due -/

/-- A list of constraints is met by a field it contains, and by every field
when it is empty. -/
def constraintMet (constrained : List ℤ) (field : ℤ) : Bool :=
  constrained.isEmpty || constrained.contains field

/-- **`IsDue`**. Absolute times come before all constraints: a requirement
that has some is due at these times only, whatever else it asks for. -/
def isDue (localtime_r : ℤ → Tm) (item : Requirement) (candidate_time : ℤ) : Bool :=
  let time_spec := localtime_r candidate_time
  let time := item.whenD
  if !time.only_at_times.isEmpty then time.only_at_times.contains candidate_time
  else
    constraintMet time.constrained_dom time_spec.tm_mday
      && constraintMet time.constrained_dow time_spec.tm_wday
      && constraintMet time.constrained_hours time_spec.tm_hour
      && constraintMet time.constrained_minutes time_spec.tm_min
      && constraintMet time.constrained_seconds time_spec.tm_sec

/-- The implicit requirement: a legal ID at the top of the hour, which is
also run after a reboot. -/
def implicitLegalId (flags : EngineFlags) : Requirement where
  type := some .LEGAL_ID
  «when» := some
    { constrained_seconds := [0]
      constrained_minutes := [0]
      gap := some flags.implicit_legalid_gap }
  reboot := some true

/-- `EffectiveSchedule`: the schedule, with the implicit requirement in front
of it if the flag asks for it. -/
def effectiveSchedule (flags : EngineFlags) (schedule : Schedule) : Schedule :=
  if flags.implicit_legalid then ⟨implicitLegalId flags :: schedule.schedule⟩ else schedule

/-- The requirements of a schedule, each with its position. -/
def entries (effective : Schedule) : List Entry := effective.schedule.zipIdx

/-- The requirements due at a time, in the order of the schedule. -/
def dueAt (localtime_r : ℤ → Tm) (reqlist : List Entry) (target_time : ℤ) : List Entry :=
  reqlist.filter (fun e => isDue localtime_r e.1 target_time)

/-! ## The next block -/

/-- How the search for the next block ends: something is due, nothing is
within the window, or the counter cannot go on. -/
inductive Scan
  | found (target_time : ℤ) (next : List Entry)
  | nothing
  | overflow

/-- The loop of `FillNext` over the times before `stop`. The counter is
advanced once more after the last round, so a round at the largest `int` is
already too much. -/
def scan (due : ℤ → List Entry) (stop : ℤ) : ℕ → ℤ → Scan
  | 0, _ => .nothing
  | fuel + 1, target_time =>
    if target_time < stop then
      if target_time = int32Max then .overflow
      else if due target_time = [] then scan due stop fuel (target_time + 1)
      else .found target_time (due target_time)
    else .nothing

/-- A block of requirements that are due together, the time at which they are,
and how late the first of them may be. -/
structure Block where
  deadline : ℤ
  gap : ℤ
  next : List Entry

/-- The number of seconds the search looks ahead. -/
def window : ℤ := 86400 * 7

/-- The gap when nothing is due. -/
def maxGap : ℤ := 86400 * 365 * 20

/-- The least gap of some requirements. -/
def minGap (next : List Entry) : ℤ := next.foldl (fun gap e => min gap e.1.gapD) maxGap

/-- **`FillNext`**, where its counter does not overflow. `now` is what the
clock shows. The counter starts at the internal time as an `int`, while the
time at which it stops is a 64-bit one. When nothing is due the block is
empty, and its deadline is an hour from now. -/
def fillNext (localtime_r : ℤ → Tm) (reqlist : List Entry) (internal_time now : ℤ) :
    Option Block :=
  match scan (dueAt localtime_r reqlist) (internal_time + window)
      (internal_time + window - toInt32 internal_time).toNat (toInt32 internal_time) with
  | .found target_time next => some ⟨target_time, minGap next, next⟩
  | .nothing => some ⟨now + 3600, maxGap, []⟩
  | .overflow => none

/-! ## Running a block -/

/-- The advance of the internal time after one more requirement. The maximum
is stored in an `int`, and a negative advance only takes effect where the
accumulated one is positive. -/
def advanceStep (internal_time_advance : ℤ) (r : Requirement) : ℤ :=
  if r.advanceD < 0 ∧ 0 < internal_time_advance then -1
  else toInt32 (max internal_time_advance r.advanceD)

/-- The advance that a block accumulates, from one second on, in the order of
its requirements. -/
def blockAdvance (next : List Entry) : ℤ :=
  next.foldl (fun acc e => advanceStep acc e.1) 1

/-- The internal time after a block that was done when the clock showed
`done`. A negative advance is the mark for now. -/
def timeAfter (next : List Entry) (internal_time done : ℤ) : ℤ :=
  if blockAdvance next < 0 then done else internal_time + blockAdvance next

/-- A block moves the time forward, or to what the clock shows. -/
theorem le_timeAfter {least internal_time done : ℤ} (next : List Entry)
    (htime : least ≤ internal_time) (hdone : least ≤ done) :
    least ≤ timeAfter next internal_time done := by
  unfold timeAfter
  split
  · exact hdone
  · omega

/-- The requirements that are run when the automation comes alive. Their own
advances are not used. -/
def rebootBlock (effective : Schedule) : List Entry :=
  ((entries effective).filter (fun e => e.1.rebootD)).map
    fun e => ({ e.1 with internal_time_advance := some (-1) }, e.2)

/-- **Requirements for now advance to now.** The first of them sets the
accumulator to the mark, and the others leave it there. -/
theorem blockAdvance_of_now {next : List Entry} (hne : next ≠ [])
    (hnow : ∀ e ∈ next, e.1.advanceD = -1) : blockAdvance next = -1 := by
  have hkept : ∀ l : List Entry, (∀ e ∈ l, e.1.advanceD = -1) →
      l.foldl (fun acc e => advanceStep acc e.1) (-1) = -1 := by
    intro l hl
    induction l with
    | nil => rfl
    | cons e l ih =>
      obtain ⟨he, hrest⟩ := List.forall_mem_cons.mp hl
      have hstep : advanceStep (-1) e.1 = -1 := by
        unfold advanceStep
        rw [he]
        decide
      rw [List.foldl_cons, hstep]
      exact ih hrest
  cases next with
  | nil => exact absurd rfl hne
  | cons e l =>
    obtain ⟨he, hrest⟩ := List.forall_mem_cons.mp hnow
    have hfirst : advanceStep 1 e.1 = -1 := by
      unfold advanceStep
      rw [he]
      decide
    show l.foldl (fun acc e => advanceStep acc e.1) (advanceStep 1 e.1) = -1
    rw [hfirst]
    exact hkept l hrest

/-- **The block of a reboot sets the internal time to the clock**, if anything
is in it. So the first search after it starts from the time at which the block
was done, whatever the internal time was set to when the engine was made. -/
theorem timeAfter_rebootBlock {effective : Schedule} (hne : rebootBlock effective ≠ [])
    (internal_time done : ℤ) : timeAfter (rebootBlock effective) internal_time done = done := by
  have hnow : ∀ e ∈ rebootBlock effective, e.1.advanceD = -1 := by
    intro e he
    obtain ⟨e', -, rfl⟩ := List.mem_map.mp he
    rfl
  unfold timeAfter
  rw [blockAdvance_of_now hne hnow]
  exact if_pos (by decide)

/-! ## What the search finds -/

variable {localtime_r : ℤ → Tm} {reqlist : List Entry}

theorem mem_dueAt {e : Entry} {t : ℤ} :
    e ∈ dueAt localtime_r reqlist t ↔ e ∈ reqlist ∧ isDue localtime_r e.1 t = true :=
  List.mem_filter

/-- **The loop finds the first time at which something is due**, or nothing
is due before it stops. The induction is on the fuel; what was passed over is
nothing due. -/
theorem scan_spec (due : ℤ → List Entry) {stop : ℤ} (hstop : stop ≤ int32Max) (fuel : ℕ)
    (start : ℤ) :
    (∃ t, scan due stop fuel start = .found t (due t) ∧ start ≤ t ∧ t < stop ∧ due t ≠ []
      ∧ ∀ t', start ≤ t' → t' < t → due t' = [])
    ∨ (scan due stop fuel start = .nothing
      ∧ ∀ t', start ≤ t' → t' < start + fuel → t' < stop → due t' = []) := by
  induction fuel generalizing start with
  | zero => exact Or.inr ⟨rfl, fun t' h₁ h₂ _ => by omega⟩
  | succ fuel ih =>
    unfold scan
    by_cases hlt : start < stop
    · rw [if_pos hlt, if_neg (by omega)]
      by_cases hdue : due start = []
      · rw [if_pos hdue]
        have hfirst : ∀ t', start ≤ t' → ¬start + 1 ≤ t' → due t' = [] := by
          intro t' h₁ h₂
          obtain rfl : t' = start := by omega
          exact hdue
        rcases ih (start + 1) with ⟨t, hscan, hle, htstop, hne, hnone⟩ | ⟨hscan, hnone⟩
        · refine Or.inl ⟨t, hscan, by omega, htstop, hne, fun t' h₁ h₂ => ?_⟩
          by_cases h : start + 1 ≤ t'
          · exact hnone t' h h₂
          · exact hfirst t' h₁ h
        · refine Or.inr ⟨hscan, fun t' h₁ h₂ h₃ => ?_⟩
          by_cases h : start + 1 ≤ t'
          · exact hnone t' h (by push_cast at h₂; omega) h₃
          · exact hfirst t' h₁ h
      · rw [if_neg hdue]
        exact Or.inl ⟨start, rfl, le_refl _, hlt, hdue, fun t' h₁ h₂ => by omega⟩
    · rw [if_neg hlt]
      exact Or.inr ⟨rfl, fun t' h₁ _ h₃ => by omega⟩

/-- The requirements due first, from a time on and within a window of it: `t`
is when they are due. -/
structure FirstDue (localtime_r : ℤ → Tm) (reqlist : List Entry) (internal_time t : ℤ) : Prop where
  from_start : internal_time ≤ t
  in_window : t < internal_time + window
  due : dueAt localtime_r reqlist t ≠ []
  first : ∀ t', internal_time ≤ t' → t' < t → dueAt localtime_r reqlist t' = []

/-- **What `FillNext` finds**, for an internal time at which its counter does
not overflow. An internal time too small for the counter is not searched at
all, because the counter then starts beyond its stop. -/
theorem fillNext_spec (localtime_r : ℤ → Tm) (reqlist : List Entry) {internal_time : ℤ}
    (htime : internal_time < int32Max + 1 - window) (now : ℤ) :
    (∃ t, FirstDue localtime_r reqlist internal_time t
      ∧ fillNext localtime_r reqlist internal_time now
        = some ⟨t, minGap (dueAt localtime_r reqlist t), dueAt localtime_r reqlist t⟩)
    ∨ (fillNext localtime_r reqlist internal_time now = some ⟨now + 3600, maxGap, []⟩
      ∧ (int32Min ≤ internal_time → ∀ t, internal_time ≤ t → t < internal_time + window →
        dueAt localtime_r reqlist t = [])) := by
  have hstop : internal_time + window ≤ int32Max := by omega
  unfold fillNext
  by_cases hmin : int32Min ≤ internal_time
  · have hstart : toInt32 internal_time = internal_time := by
      refine toInt32_of_fits ⟨hmin, ?_⟩
      unfold window at htime
      omega
    rw [hstart]
    rcases scan_spec (dueAt localtime_r reqlist) hstop
      (internal_time + window - internal_time).toNat internal_time with
      ⟨t, hscan, hle, hlt, hne, hnone⟩ | ⟨hscan, hnone⟩
    · rw [hscan]
      exact Or.inl ⟨t, ⟨hle, hlt, hne, hnone⟩, rfl⟩
    · rw [hscan]
      exact Or.inr ⟨rfl, fun _ t h₁ h₂ => hnone t h₁ (by omega) h₂⟩
  · have hup := le_toInt32_of_lt (not_le.mp hmin)
    have hnone : (internal_time + window - toInt32 internal_time).toNat = 0 := by
      unfold window
      omega
    rw [hnone]
    exact Or.inr ⟨rfl, fun h => absurd h hmin⟩

/-- What is due first is due at one time. -/
theorem FirstDue.unique {internal_time t t' : ℤ}
    (h : FirstDue localtime_r reqlist internal_time t)
    (h' : FirstDue localtime_r reqlist internal_time t') : t = t' := by
  rcases lt_trichotomy t t' with hlt | heq | hlt
  · exact absurd (h'.first t h.from_start hlt) h.due
  · exact heq
  · exact absurd (h.first t' h'.from_start hlt) h'.due

end RequirementEngine
