import RctAutomation.InternalTime
import RctAutomation.Runs

/-!
# The calls of an engine

Times are 64-bit values, but the advance of a block and the counter of
`FillNext` are of type `int`. `ScanFits` says when the counter starts at the
internal time and does not run out, and `Engine.noWrap_of_fits` is about all
calls of an engine: as long as no advance exceeds an `int`, and every search
has room for its counter, nothing wraps.
-/

namespace RequirementEngine

/-! ## Where a search fits its counter -/

variable {localtime_r : ℤ → Tm} {reqlist : List Entry} {internal_time : ℤ}

/-- **The search has room**: its counter can start at the internal time, and
it runs out after the window, or something is due before it does. -/
def ScanFits (localtime_r : ℤ → Tm) (reqlist : List Entry) (internal_time : ℤ) : Prop :=
  internal_time ≤ int32Max
  ∧ (internal_time + window ≤ int32Max
    ∨ ∃ t, internal_time ≤ t ∧ t < int32Max ∧ dueAt localtime_r reqlist t ≠ [])

/-- The loop stops at the first time at which something is due, if its counter
gets there. -/
theorem scan_found (due : ℤ → List Entry) {stop t : ℤ} (hstop : t < stop) (hmax : t < int32Max)
    (hdue : due t ≠ []) (fuel : ℕ) {start : ℤ} (hle : start ≤ t) (hfuel : t < start + fuel)
    (hfirst : ∀ t', start ≤ t' → t' < t → due t' = []) :
    scan due stop fuel start = .found t (due t) := by
  induction fuel generalizing start with
  | zero => exact absurd hfuel (by simpa using hle)
  | succ fuel ih =>
    unfold scan
    rw [if_pos (by omega), if_neg (by omega)]
    by_cases heq : start = t
    · rw [heq, if_neg hdue]
    · rw [if_pos (hfirst start (le_refl _) (by omega))]
      exact ih (by omega) (by push_cast at hfuel; omega)
        (fun t' h₁ h₂ => hfirst t' (by omega) h₂)

/-- The counter runs out when nothing is due before it does. -/
theorem scan_overflow (due : ℤ → List Entry) {stop : ℤ} (hstop : int32Max < stop) (fuel : ℕ)
    {start : ℤ} (hle : start ≤ int32Max) (hfuel : int32Max < start + fuel)
    (hnone : ∀ t, start ≤ t → t < int32Max → due t = []) :
    scan due stop fuel start = .overflow := by
  induction fuel generalizing start with
  | zero => exact absurd hfuel (by simpa using hle)
  | succ fuel ih =>
    unfold scan
    rw [if_pos (by omega)]
    by_cases heq : start = int32Max
    · rw [if_pos heq]
    · rw [if_neg heq, if_pos (hnone start (le_refl _) (by omega))]
      exact ih (by omega) (by push_cast at hfuel; omega)
        (fun t h₁ h₂ => hnone t (by omega) h₂)

/-- Something that is due before a time is due first at some time. -/
theorem exists_first_due {t : ℤ} (hle : internal_time ≤ t)
    (hdue : dueAt localtime_r reqlist t ≠ []) (hmax : t < int32Max) :
    ∃ t₁, internal_time ≤ t₁ ∧ t₁ ≤ t ∧ dueAt localtime_r reqlist t₁ ≠ []
      ∧ ∀ t', internal_time ≤ t' → t' < t₁ → dueAt localtime_r reqlist t' = [] := by
  rcases scan_spec (dueAt localtime_r reqlist) (le_refl int32Max)
    (t + 1 - internal_time).toNat internal_time with ⟨t₁, -, hle₁, -, hdue₁, hfirst⟩ | ⟨-, hnone⟩
  · refine ⟨t₁, hle₁, ?_, hdue₁, hfirst⟩
    by_contra hlt
    exact hdue (hfirst t hle (not_le.mp hlt))
  · exact absurd (hnone t hle (by omega) hmax) hdue

/-- **What a search that has room finds**: the first requirements that are
due, or nothing, at an hour from now. -/
theorem fillNext_of_scanFits (hmin : int32Min ≤ internal_time)
    (hfits : ScanFits localtime_r reqlist internal_time) (now : ℤ) :
    (∃ t, FirstDue localtime_r reqlist internal_time t
      ∧ fillNext localtime_r reqlist internal_time now
        = some ⟨t, minGap (dueAt localtime_r reqlist t), dueAt localtime_r reqlist t⟩)
    ∨ fillNext localtime_r reqlist internal_time now = some ⟨now + 3600, maxGap, []⟩ := by
  obtain ⟨hmax, hroom⟩ := hfits
  by_cases hstop : internal_time + window ≤ int32Max
  · exact (fillNext_spec localtime_r reqlist (by omega) now).imp id And.left
  · obtain ⟨t, hle, hlt, hdue⟩ := hroom.resolve_left hstop
    obtain ⟨t₁, hle₁, hlt₁, hdue₁, hfirst⟩ := exists_first_due hle hdue hlt
    refine Or.inl ⟨t₁, ⟨hle₁, by omega, hdue₁, hfirst⟩, ?_⟩
    unfold fillNext
    rw [toInt32_of_fits ⟨hmin, hmax⟩,
      scan_found _ (by omega) (by omega) hdue₁ _ hle₁ (by omega) hfirst]

/-- **A search has room exactly if it starts where it should and does not run
out.** So the condition of the run lemma asks for no more than what it is to
show. -/
theorem scanFits_iff (hmin : int32Min ≤ internal_time) (now : ℤ) :
    ScanFits localtime_r reqlist internal_time
      ↔ toInt32 internal_time = internal_time
        ∧ fillNext localtime_r reqlist internal_time now ≠ none := by
  constructor
  · intro h
    refine ⟨toInt32_of_fits ⟨hmin, h.1⟩, ?_⟩
    rcases fillNext_of_scanFits hmin h now with ⟨t, -, hfill⟩ | hfill
    · rw [hfill]
      exact Option.some_ne_none _
    · rw [hfill]
      exact Option.some_ne_none _
  · rintro ⟨hfits, hfill⟩
    have hmax := (toInt32_eq_self_iff.mp hfits).2
    refine ⟨hmax, ?_⟩
    by_contra hno
    obtain ⟨hstop, hnone⟩ := not_or.mp hno
    refine hfill ?_
    unfold fillNext
    rw [hfits, scan_overflow _ (not_le.mp hstop) _ hmax (by omega) (fun t h₁ h₂ => ?_)]
    by_contra hdue
    exact hnone ⟨t, h₁, h₂, hdue⟩

end RequirementEngine

/-! ## The calls of an engine -/

/-- The engine: its schedule and its internal time. -/
structure Engine where
  schedule : Schedule
  internal_time : ℤ

/-- The calls of an engine. `FillNext` comes with what the clock shows, and
`RunBlock` with its requirements and what the clock shows when they are done.
The block need not be the one that was found. -/
inductive EngineCall
  | copyFrom (input : Schedule)
  | setTime (time : ℤ)
  | fillNext (now : ℤ)
  | runBlock (next : List Entry) (done : ℤ)

/-- What the clock shows at a call. A copy of a schedule does not look at it. -/
def EngineCall.clock? : EngineCall → Option ℤ
  | .copyFrom _ => none
  | .setTime time => some time
  | .fillNext now => some now
  | .runBlock _ done => some done

open RequirementEngine Transitions

namespace Engine

/-- The engine after a call. Only a copy changes the schedule, and a search
changes nothing. -/
def after (s : Engine) : EngineCall → Engine
  | .copyFrom input => { s with schedule := input }
  | .setTime time => { s with internal_time := time }
  | .fillNext _ => s
  | .runBlock next done => { s with internal_time := timeAfter next s.internal_time done }

/-- A call leads to the engine after it. -/
def Step (s : Engine) (a : EngineCall) (s' : Engine) : Prop := s' = s.after a

variable (flags : EngineFlags) (localtime_r : ℤ → Tm)

/-- The effective schedule, with positions. -/
def effective (s : Engine) : List Entry := entries (effectiveSchedule flags s.schedule)

/-- **Nothing wraps in a call**: the advance of a block is not truncated, and
a search starts at the internal time, does not run out, and finds no block
before that time. -/
def NoWrap (s : Engine) : EngineCall → Prop
  | .fillNext now => toInt32 s.internal_time = s.internal_time
      ∧ ∃ b, RequirementEngine.fillNext localtime_r (s.effective flags) s.internal_time now = some b
        ∧ (b.next ≠ [] → s.internal_time ≤ b.deadline)
  | .runBlock next _ => blockAdvance next = exactAdvance (advances next)
  | _ => True

/-- **A call fits**: no advance of a block exceeds an `int`, and a search has
room. It is a condition on the engine before the call, and on what the call
is given. -/
def Fits (s : Engine) : EngineCall → Prop
  | .fillNext _ => ScanFits localtime_r (s.effective flags) s.internal_time
  | .runBlock next _ => ∀ a ∈ advances next, a ≤ int32Max
  | _ => True

variable {flags localtime_r}

/-- A call that fits does not wrap. -/
theorem Fits.noWrap {s : Engine} {a : EngineCall} (hmin : int32Min ≤ s.internal_time)
    (h : s.Fits flags localtime_r a) : s.NoWrap flags localtime_r a := by
  cases a with
  | copyFrom input => trivial
  | setTime time => trivial
  | fillNext now =>
    refine ⟨toInt32_of_fits ⟨hmin, h.1⟩, ?_⟩
    rcases fillNext_of_scanFits hmin h now with ⟨t, hfirst, hfill⟩ | hfill
    · exact ⟨_, hfill, fun _ => hfirst.from_start⟩
    · exact ⟨_, hfill, fun hne => absurd rfl hne⟩
  | runBlock next done =>
    exact blockAdvance_eq_exact (fun e he => h _ (mem_advances.mpr ⟨e, he, rfl⟩))

/-- **In every run whose calls fit, nothing wraps.** The invariant is that
the internal time is never below the smallest `int`: a block adds an advance
that is not negative to it, or sets it to the clock.

What fits is said of each call with the state before it: the sums that it
makes are `int`s. -/
theorem noWrap_of_fits (flags : EngineFlags) (localtime_r : ℤ → Tm) {s₀ s : Engine}
    (h₀ : int32Min ≤ s₀.internal_time) {trace : List (Engine × EngineCall)}
    (hrun : Run Step s₀ trace s) (hclock : ∀ x ∈ trace, ∀ t ∈ x.2.clock?, int32Min ≤ t)
    (hfits : ∀ x ∈ trace, x.1.Fits flags localtime_r x.2) :
    ∀ x ∈ trace, x.1.NoWrap flags localtime_r x.2 := by
  have hkeep : ∀ (s : Engine) (a : EngineCall) (s' : Engine), int32Min ≤ s.internal_time →
      (∀ t ∈ a.clock?, int32Min ≤ t) → Step s a s' → int32Min ≤ s'.internal_time := by
    rintro s a s' hs ha rfl
    cases a with
    | copyFrom input => exact hs
    | setTime time => exact ha time rfl
    | fillNext now => exact hs
    | runBlock next done => exact le_timeAfter next hs (ha done rfl)
  have htimes := (hrun.invariant (fun s => int32Min ≤ s.internal_time) _ h₀ hkeep hclock).2
  exact fun x hx => (hfits x hx).noWrap (htimes x hx)

/-- A requirement that is always due, and its advance. -/
def always (advance : ℤ) : Schedule :=
  ⟨[{ type := some .NO_OP, internal_time_advance := some advance }]⟩

/-- A search, the block it finds, and the next search, none of which wraps. -/
theorem noWrap_of_fits_always :
    NoWrap {} clockTm ⟨always 5, 1000⟩ (.runBlock (withAdvances [some 5]) 1002)
      ∧ NoWrap {} clockTm ⟨always 5, 1005⟩ (.fillNext 1003) := by
  have hrun : Run Step ⟨always 5, 1000⟩
      [(⟨always 5, 1000⟩, .runBlock (withAdvances [some 5]) 1002),
        (⟨always 5, 1005⟩, .fillNext 1003)] ⟨always 5, 1005⟩ :=
    .snoc (.snoc .nil rfl) rfl
  have h := noWrap_of_fits {} clockTm (by decide) hrun (by decide) (by
    rintro x hx
    simp only [List.mem_cons, List.not_mem_nil, or_false] at hx
    rcases hx with rfl | rfl
    · show ∀ a ∈ advances (withAdvances [some 5]), a ≤ int32Max
      decide
    · exact ⟨by decide, Or.inl (by decide)⟩)
  exact ⟨h _ (List.mem_cons_self ..), h _ (List.mem_cons_of_mem _ (List.mem_cons_self ..))⟩

/-- **Runs that wrap**: an advance that exceeds an `int` by one is taken for the
mark for now, and after the largest advance that does not, the next block is
found long before the internal time. -/
theorem noWrap_fails :
    (∃ x : Engine × EngineCall, x ∈ [((⟨always 2147483648, 1000⟩ : Engine),
        EngineCall.runBlock (withAdvances [some 2147483648]) 1000)]
      ∧ Run Step ⟨always 2147483648, 1000⟩ [x] ⟨always 2147483648, 1000⟩
      ∧ ¬NoWrap {} clockTm x.1 x.2)
    ∧ ∃ trace, Run Step ⟨always 2147483647, 1000⟩ trace ⟨always 2147483647, 2147484647⟩
      ∧ (∀ x ∈ trace, ∀ t ∈ x.2.clock?, t = 1000)
      ∧ ∃ x ∈ trace, x.1.internal_time = 2147484647 ∧ x.2 = .fillNext 1000
        ∧ (RequirementEngine.fillNext clockTm (x.1.effective {}) x.1.internal_time 1000).map
          Block.deadline = some (-2147482649)
        ∧ ¬NoWrap {} clockTm x.1 x.2 := by
  refine ⟨⟨_, List.mem_singleton_self _, .snoc .nil rfl, ?_⟩,
    [(⟨always 2147483647, 1000⟩, .runBlock (withAdvances [some 2147483647]) 1000),
      (⟨always 2147483647, 2147484647⟩, .fillNext 1000)],
    .snoc (.snoc .nil rfl) rfl, by decide, _,
    List.mem_cons_of_mem _ (List.mem_cons_self ..), rfl, rfl, by decide +kernel, ?_⟩
  · show ¬blockAdvance _ = exactAdvance _
    decide
  · rintro ⟨hstart, -⟩
    exact absurd hstart (by decide)

end Engine
