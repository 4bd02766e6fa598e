import RctAutomation.AutomationState

/-!
# Occurrences of requirements

A requirement occurs at every second at which it is due. A round of the main
loop hands the occurrences of one second to the callbacks, and then moves the
internal time, from which the next round searches.

An occurrence is handed twice when the internal time does not move past it:
`handed_nodup` says that this is the only way. An occurrence is left behind
when the internal time stays more than a week before it:
`overdue_block_iff` says when it is not.
-/

open Sql RequirementEngine AutomationState

variable {fp : FloatOps} {flags : Flags} {localtime_r : ℤ → Tm} {m : Moment}

/-! ## What a round changes -/

/-- The engine and the override are as they were; the lists may have changed. -/
structure KeepsEngine (s s' : AutomationState) : Prop where
  internal_time : s'.internal_time = s.internal_time
  schedule : s'.schedule = s.schedule
  overridden : s'.overridden = s.overridden

theorem KeepsEngine.effective {s s' : AutomationState} (h : KeepsEngine s s') :
    s'.effective flags = s.effective flags := by
  show entries (effectiveSchedule flags.toEngineFlags s'.schedule) = _
  rw [h.schedule]
  rfl

theorem resetBumpers_keeps {ch : Chance} {db : Db} {s s' : AutomationState}
    (h : resetBumpers fp flags m ch db s = some s') : KeepsEngine s s' := by
  unfold resetBumpers at h
  obtain ⟨⟨found, bumperlist⟩, -, rfl⟩ := Option.map_eq_some_iff.mp h
  exact ⟨rfl, rfl, rfl⟩

theorem refill_keeps {s s' : AutomationState} (h : refill fp flags m s = some s') :
    KeepsEngine s s' := by
  unfold refill at h
  split at h
  · exact resetBumpers_keeps h
  · obtain rfl := Option.some.inj h
    exact ⟨rfl, rfl, rfl⟩

theorem setMainshow_keeps {ch : Chance} {db : Db} {s s' : AutomationState}
    (h : setMainshow fp ch db s = some s') : KeepsEngine s s' := by
  unfold setMainshow at h
  obtain ⟨⟨found, mainshow⟩, -, rfl⟩ := Option.map_eq_some_iff.mp h
  exact ⟨rfl, rfl, rfl⟩

/-- The deed is a block. -/
def Deed.isBlock : Deed → Bool
  | .block _ _ => true
  | _ => false

/-- A round that runs no block. It leaves the engine as it is, so the next
round searches from the same time. -/
structure PassesTime (s : AutomationState) (r : Ran) : Prop where
  no_block : ∀ d, r.deed = some d → d.isBlock = false
  keeps : ∀ s', r.next = some s' → KeepsEngine s s'

theorem PassesTime.ended (s : AutomationState) : PassesTime s Ran.ended :=
  ⟨fun _ h => (by cases h), fun _ h => (by cases h)⟩

theorem PassesTime.did {s s' : AutomationState} {d : Deed} (hd : d.isBlock = false)
    (hs : KeepsEngine s s') : PassesTime s ⟨some d, some s'⟩ :=
  ⟨fun d' h => (by cases h; exact hd), fun s'' h => (by cases h; exact hs)⟩

theorem passTime_passesTime (fp : FloatOps) (flags : Flags) (m : Moment) (b : Block)
    (s : AutomationState) : PassesTime s (passTime fp flags m b s) := by
  unfold passTime
  split
  · exact PassesTime.ended s
  · dsimp only
    split
    · exact PassesTime.did rfl ⟨rfl, rfl, rfl⟩
    · split
      · exact PassesTime.did rfl ⟨rfl, rfl, rfl⟩
      · split
        · exact PassesTime.did rfl ⟨rfl, rfl, rfl⟩
        · exact PassesTime.did rfl ⟨rfl, rfl, rfl⟩

theorem playTrack_passesTime (fp : FloatOps) (flags : Flags) (m : Moment) (b : Block)
    (s : AutomationState) : PassesTime s (playTrack fp flags m b s) := by
  unfold playTrack
  split
  · exact PassesTime.ended s
  · dsimp only
    split
    · exact PassesTime.did rfl ⟨rfl, rfl, rfl⟩
    · split
      · refine ⟨fun d h => (by cases h; rfl), fun s' h => ?_⟩
        obtain ⟨h₁, h₂, h₃⟩ := setMainshow_keeps h
        exact ⟨h₁, h₂, h₃⟩
      · obtain ⟨hno, hkeeps⟩ := passTime_passesTime fp flags m b
          { s with mainshow := _ }
        exact ⟨hno, fun s' h => ⟨(hkeeps s' h).1, (hkeeps s' h).2, (hkeeps s' h).3⟩⟩

/-- Without a human nothing is overridden. -/
theorem manualOverride_of_not {s : AutomationState} (hman : s.overridden = false) :
    manualOverride m s = s := by
  unfold manualOverride
  rw [hman]
  rfl

/-- A round whose block is not due yet plays a track. -/
theorem runOnce_of_notDue {s s₂ : AutomationState} {b : Block} (hman : s.overridden = false)
    (hfill : refill fp flags m s = some s₂)
    (hb : fillNext localtime_r (s₂.effective flags) s₂.internal_time (m.clock 1) = some b)
    (hdue : m.clock 2 < b.deadline) :
    runOnce fp flags localtime_r m s = playTrack fp flags m b s₂ := by
  unfold runOnce
  rw [manualOverride_of_not hman, hfill]
  dsimp only
  rw [hb]
  exact if_neg (not_le.mpr hdue)

/-- **What a round does**, from the state the human leaves: it ends the
process, or runs the block that `FillNext` finds when its deadline has come,
or passes the time. Everything that is shown of runs goes by these cases, and
not by the code of a round. -/
theorem runOnce_cases (fp : FloatOps) (flags : Flags) (localtime_r : ℤ → Tm) (m : Moment)
    {s s₁ : AutomationState} (hs : manualOverride m s = s₁) :
    (refill fp flags m s₁ = none ∧ runOnce fp flags localtime_r m s = Ran.ended)
    ∨ ((refill fp flags m s₁).isSome = true
      ∧ ((fillNext localtime_r (s₁.effective flags) s₁.internal_time (m.clock 1) = none
          ∧ runOnce fp flags localtime_r m s = Ran.ended)
        ∨ ∃ b, fillNext localtime_r (s₁.effective flags) s₁.internal_time (m.clock 1) = some b
          ∧ ((m.clock 2 < b.deadline ∧ PassesTime s₁ (runOnce fp flags localtime_r m s))
            ∨ (b.deadline ≤ m.clock 2
              ∧ (runOnce fp flags localtime_r m s).deed = some (.block b.deadline b.next)
              ∧ ∀ s', (runOnce fp flags localtime_r m s).next = some s' →
                s'.internal_time = timeAfter b.next s₁.internal_time (m.clock 3)
                  ∧ s'.overridden = s₁.overridden)))) := by
  unfold runOnce
  rw [hs]
  cases hfill : refill fp flags m s₁ with
  | none => exact Or.inl ⟨rfl, rfl⟩
  | some s₂ =>
    have hkept := refill_keeps hfill
    refine Or.inr ⟨rfl, ?_⟩
    dsimp only
    rw [hkept.internal_time, hkept.effective]
    cases hb : fillNext localtime_r (s₁.effective flags) s₁.internal_time (m.clock 1) with
    | none => exact Or.inl ⟨rfl, rfl⟩
    | some b =>
      refine Or.inr ⟨b, rfl, ?_⟩
      dsimp only
      by_cases hdue : b.deadline ≤ m.clock 2
      · rw [if_pos hdue]
        refine Or.inr ⟨hdue, rfl, fun s' h => ?_⟩
        obtain ⟨mainshow, -, hreset⟩ := Option.bind_eq_some_iff.mp h
        obtain ⟨h₁, -, h₃⟩ := resetBumpers_keeps hreset
        exact ⟨h₁.trans (by rw [← hkept.internal_time]), h₃.trans hkept.overridden⟩
      · rw [if_neg hdue]
        obtain ⟨hno, hkeeps⟩ := playTrack_passesTime fp flags m b s₂
        refine Or.inl ⟨not_le.mp hdue, hno, fun s' h => ?_⟩
        obtain ⟨h₁, h₂, h₃⟩ := hkeeps s' h
        exact ⟨h₁.trans hkept.internal_time, h₂.trans hkept.schedule, h₃.trans hkept.overridden⟩

/-! ## At most once -/

namespace Round

/-- The occurrences a round hands to the callbacks: the position of a
requirement and the second at which it is due. They are handed even if the
round ends the process after it. -/
def handed (c : Round) : List (ℕ × ℤ) :=
  match c.ran.deed with
  | some (.block deadline next) => next.map (fun e => (e.2, deadline))
  | _ => []

/-- **The internal time moves past the block** of a round, if something is
due and its second has come: a negative advance sets it to what the clock
shows when the block is done, and another one is added to the time the search
started from. -/
def Clears (flags : Flags) (localtime_r : ℤ → Tm) (c : Round) : Prop :=
  ∀ t, FirstDue localtime_r (c.state.effective flags) c.state.internal_time t →
    t ≤ c.moment.clock 2 →
    if blockAdvance (dueAt localtime_r (c.state.effective flags) t) < 0 then t < c.moment.clock 3
    else t < c.state.internal_time
      + blockAdvance (dueAt localtime_r (c.state.effective flags) t)

end Round

/-- The positions of a schedule are different. -/
theorem nodup_positions (flags : Flags) (s : AutomationState) :
    ((s.effective flags).map Prod.snd).Nodup := by
  unfold effective entries
  rw [List.zipIdx_map_snd]
  exact List.nodup_range'

/-- A round that runs no block hands nothing. -/
theorem handed_eq_nil {c : Round} (h : ∀ d, c.ran.deed = some d → d.isBlock = false) :
    c.handed = [] := by
  unfold Round.handed
  cases hd : c.ran.deed with
  | none => rfl
  | some d =>
    have hblock := h d hd
    cases d with
    | block deadline next => cases hblock
    | _ => rfl

/-- **A round hands the block that is found**, or nothing. -/
theorem handed_cases {c : Round} (hran : c.ran = runOnce fp flags localtime_r c.moment c.state)
    {s₁ : AutomationState} (hs : manualOverride c.moment c.state = s₁) :
    c.handed = []
    ∨ ∃ b, fillNext localtime_r (s₁.effective flags) s₁.internal_time (c.moment.clock 1) = some b
      ∧ c.handed = b.next.map (fun e => (e.2, b.deadline)) := by
  rcases runOnce_cases fp flags localtime_r c.moment hs with
    ⟨-, hend⟩ | ⟨-, ⟨-, hend⟩ | ⟨b, hb, ⟨-, hpass⟩ | ⟨-, hdeed, -⟩⟩⟩
  · exact Or.inl (handed_eq_nil (fun d hd => by rw [hran, hend] at hd; cases hd))
  · exact Or.inl (handed_eq_nil (fun d hd => by rw [hran, hend] at hd; cases hd))
  · exact Or.inl (handed_eq_nil (fun d hd => hpass.no_block d (by rwa [hran] at hd)))
  · refine Or.inr ⟨b, hb, ?_⟩
    unfold Round.handed
    rw [hran, hdeed]

/-- A round leaves the internal time where it is, adds to it, or sets it to the
clock. -/
theorem le_internal_time_next {least : ℤ} {s s₁ s' : AutomationState}
    (hs : manualOverride m s = s₁) (hstart : least ≤ s₁.internal_time)
    (hclock : least ≤ m.clock 3) (hnext : (runOnce fp flags localtime_r m s).next = some s') :
    least ≤ s'.internal_time := by
  rcases runOnce_cases fp flags localtime_r m hs with
    ⟨-, hend⟩ | ⟨-, ⟨-, hend⟩ | ⟨b, -, ⟨-, hpass⟩ | ⟨-, -, hafter⟩⟩⟩
  · rw [hend] at hnext
    cases hnext
  · rw [hend] at hnext
    cases hnext
  · rw [(hpass.keeps s' hnext).internal_time]
    exact hstart
  · rw [(hafter s' hnext).1]
    exact le_timeAfter b.next hstart hclock

/-- A round hands occurrences that are not before the internal time, and each
once. They are those of one block, which has each requirement once and is
found from the internal time on. -/
theorem handed_of_round {c : Round} (hman : c.state.overridden = false)
    (hran : c.ran = runOnce fp flags localtime_r c.moment c.state)
    (htime : c.state.internal_time < int32Max + 1 - window) :
    c.handed.Nodup ∧ ∀ x ∈ c.handed, c.state.internal_time ≤ x.2 := by
  rcases handed_cases hran (manualOverride_of_not hman) with hnone | ⟨b, hb, hhanded⟩
  · rw [hnone]
    exact ⟨List.nodup_nil, fun x hx => absurd hx List.not_mem_nil⟩
  · rw [hhanded]
    rcases fillNext_spec localtime_r (c.state.effective flags) htime (c.moment.clock 1) with
      ⟨t, hfirst, hfill⟩ | ⟨hfill, -⟩
    · obtain rfl := Option.some.inj (hb.symm.trans hfill)
      refine ⟨?_, fun x hx => ?_⟩
      · have hnd : ((dueAt localtime_r (c.state.effective flags) t).map Prod.snd).Nodup :=
          (List.filter_sublist.map Prod.snd).nodup (nodup_positions flags c.state)
        have hmap : (dueAt localtime_r (c.state.effective flags) t).map (fun e => (e.2, t))
            = ((dueAt localtime_r (c.state.effective flags) t).map Prod.snd).map
              (fun n => (n, t)) := by
          rw [List.map_map]
          rfl
        dsimp only
        rw [hmap]
        exact hnd.map (fun a b h => (Prod.mk.inj h).1)
      · obtain ⟨e, -, rfl⟩ := List.mem_map.mp hx
        exact hfirst.from_start
    · obtain rfl := Option.some.inj (hb.symm.trans hfill)
      exact ⟨List.nodup_nil, fun x hx => absurd hx List.not_mem_nil⟩

/-- A round that clears its block leaves all it handed behind: the internal
time after it is later than what was due. A round that does not end does not
have a state after it. -/
theorem cleared_of_round {c : Round} (hman : c.state.overridden = false)
    (hran : c.ran = runOnce fp flags localtime_r c.moment c.state)
    (htime : c.state.internal_time < int32Max + 1 - window)
    (hclears : c.Clears flags localtime_r) {s' : AutomationState} (hnext : c.ran.next = some s') :
    c.state.internal_time ≤ s'.internal_time ∧ s'.overridden = false
      ∧ ∀ x ∈ c.handed, x.2 < s'.internal_time := by
  rcases runOnce_cases fp flags localtime_r c.moment (manualOverride_of_not hman) with
    ⟨-, hend⟩ | ⟨-, ⟨-, hend⟩ | ⟨b, hb, ⟨-, hpass⟩ | ⟨hdue, hdeed, hafter⟩⟩⟩
  · rw [hran, hend] at hnext
    cases hnext
  · rw [hran, hend] at hnext
    cases hnext
  · obtain ⟨htime', -, hman'⟩ := hpass.keeps s' (by rwa [hran] at hnext)
    rw [handed_eq_nil (fun d hd => hpass.no_block d (by rwa [hran] at hd)), htime', hman']
    exact ⟨le_refl _, hman, fun x hx => absurd hx List.not_mem_nil⟩
  · obtain ⟨htime', hman'⟩ := hafter s' (by rwa [hran] at hnext)
    have hhanded : c.handed = b.next.map (fun e => (e.2, b.deadline)) := by
      unfold Round.handed
      rw [hran, hdeed]
    rw [hhanded, htime', hman']
    rcases fillNext_spec localtime_r (c.state.effective flags) htime (c.moment.clock 1) with
      ⟨t, hfirst, hfill⟩ | ⟨hfill, -⟩
    · obtain rfl := Option.some.inj (hb.symm.trans hfill)
      have hpast : t < timeAfter (dueAt localtime_r (c.state.effective flags) t)
          c.state.internal_time (c.moment.clock 3) := by
        have h := hclears t hfirst hdue
        unfold timeAfter
        split at h
        · rwa [if_pos (by assumption)]
        · rwa [if_neg (by assumption)]
      refine ⟨le_of_lt (lt_of_le_of_lt hfirst.from_start hpast), hman, fun x hx => ?_⟩
      obtain ⟨e, -, rfl⟩ := List.mem_map.mp hx
      exact hpast
    · -- an empty block advances the internal time by one second
      obtain rfl := Option.some.inj (hb.symm.trans hfill)
      refine ⟨?_, hman, fun x hx => absurd hx List.not_mem_nil⟩
      show c.state.internal_time ≤ c.state.internal_time + 1
      omega

/-- The occurrences of a run, from its first round on: none is before the
internal time the run starts from, and none is handed twice.

The two go together in the induction: what the later rounds hand is not
before the internal time they start from, and that is after all that the
first one has handed. -/
theorem handed_of_rounds (s₀ : AutomationState) (hman : s₀.overridden = false)
    (ms : List (Edits × Moment))
    (hedits : ∀ x ∈ ms, x.1.schedule = none ∧ x.1.override_ = none ∧ x.1.override_playlist = none)
    (htimes : ∀ c ∈ rounds fp flags localtime_r ms s₀,
      c.state.internal_time < int32Max + 1 - window)
    (hclears : ∀ c ∈ (rounds fp flags localtime_r ms s₀).dropLast, c.Clears flags localtime_r) :
    ((rounds fp flags localtime_r ms s₀).flatMap Round.handed).Nodup
      ∧ ∀ x ∈ (rounds fp flags localtime_r ms s₀).flatMap Round.handed,
        s₀.internal_time ≤ x.2 := by
  induction ms generalizing s₀ with
  | nil => exact ⟨List.nodup_nil, fun x hx => absurd hx List.not_mem_nil⟩
  | cons em ms ih =>
    obtain ⟨e, m⟩ := em
    obtain ⟨-, hover, hlist⟩ := hedits (e, m) (List.mem_cons_self ..)
    obtain ⟨c, hc⟩ : ∃ c : Round, c = ⟨s₀.edited e, m,
      (s₀.edited e).runOnce fp flags localtime_r m⟩ := ⟨_, rfl⟩
    have hstate : c.state.internal_time = s₀.internal_time := by rw [hc]; rfl
    have hman' : c.state.overridden = false := by
      rw [hc]
      show (e.override_.getD _ || (e.override_playlist.getD _).size != 0) = false
      rw [hover, hlist]
      exact hman
    have hran : c.ran = runOnce fp flags localtime_r c.moment c.state := by rw [hc]
    have hrounds : rounds fp flags localtime_r ((e, m) :: ms) s₀
        = c :: c.ran.next.elim [] (rounds fp flags localtime_r ms) := by
      rw [hc, rounds_cons]
    rw [hrounds] at htimes hclears ⊢
    obtain ⟨hnd, hge⟩ := handed_of_round hman' hran (htimes c (List.mem_cons_self ..))
    rw [hstate] at hge
    cases hnext : c.ran.next with
    | none =>
      simp only [Option.elim_none, List.flatMap_cons, List.flatMap_nil, List.append_nil]
      exact ⟨hnd, hge⟩
    | some s' =>
      rw [hnext] at htimes hclears
      dsimp only [Option.elim] at htimes hclears ⊢
      rw [List.flatMap_cons]
      cases hrest : rounds fp flags localtime_r ms s' with
      | nil =>
        rw [List.flatMap_nil, List.append_nil]
        exact ⟨hnd, hge⟩
      | cons c' cs =>
        rw [hrest] at htimes hclears
        obtain ⟨hle, hman'', hpast⟩ := cleared_of_round hman' hran
          (htimes c (List.mem_cons_self ..)) (hclears c (List.mem_cons_self ..)) hnext
        obtain ⟨hnd', hge'⟩ := ih s' hman'' (fun x hx => hedits x (List.mem_cons_of_mem _ hx))
          (fun c hc => htimes c (List.mem_cons_of_mem _ (by rwa [hrest] at hc)))
          (fun c hc => hclears c (List.mem_cons_of_mem _ (by rwa [hrest] at hc)))
        rw [hrest] at hnd' hge'
        refine ⟨List.nodup_append'.mpr ⟨hnd, hnd', fun x hx hx' => ?_⟩, fun x hx => ?_⟩
        · exact absurd (hge' x hx') (not_le.mpr (hpast x hx))
        · rcases List.mem_append.mp hx with hx | hx
          · exact hge x hx
          · exact le_trans (by rw [← hstate]; exact hle) (hge' x hx)

/-- **When no occurrence is handed twice**: every round but the last moves
the internal time past the block it ran. The last round may leave it where it
is, as no search follows.

The induction is along the run: what a round and those after it hand is due
at the internal time of this round or later, and so after the block of any
round before. -/
theorem handed_nodup (fp : FloatOps) (flags : Flags) (localtime_r : ℤ → Tm)
    (s₀ : AutomationState) (hman : s₀.overridden = false) (ms : List (Edits × Moment))
    (hedits : ∀ x ∈ ms, x.1.schedule = none ∧ x.1.override_ = none ∧ x.1.override_playlist = none)
    (htimes : ∀ c ∈ rounds fp flags localtime_r ms s₀,
      c.state.internal_time < int32Max + 1 - window)
    (hclears : ∀ c ∈ (rounds fp flags localtime_r ms s₀).dropLast, c.Clears flags localtime_r) :
    ((rounds fp flags localtime_r ms s₀).flatMap Round.handed).Nodup :=
  (handed_of_rounds s₀ hman ms hedits htimes hclears).1

/-- A local time that does not change, for schedules without constraints. -/
def noonTm : ℤ → Tm := fun _ => ⟨0, 0, 12, 1, 0⟩

/-- A moment with an empty database and commands that do nothing. Only the
clock matters in it. -/
def quietMoment (clock : ℕ → ℤ) : Moment where
  clock := clock
  chance _ := .stored
  db := emptyDb
  dbAfter := emptyDb
  busy := false
  resumed := {}
  callbacks _ mainshow := some mainshow

/-- A requirement at some times only. -/
def onlyAt (times : List ℤ) (advance : Option ℤ) : Schedule :=
  ⟨[{ «when» := some { only_at_times := times }
      type := some .NO_OP
      internal_time_advance := advance }]⟩

/-- What is due of a schedule of times is due at one of them. -/
theorem mem_of_dueAt_onlyAt {times : List ℤ} {advance : Option ℤ} {t : ℤ} {e : Entry}
    (he : e ∈ dueAt noonTm (entries (effectiveSchedule {} (onlyAt times advance))) t)
    (htimes : times ≠ []) : t ∈ times := by
  obtain ⟨hmem, hdue⟩ := mem_dueAt.mp he
  obtain rfl := List.mem_singleton.mp hmem
  change (if (!times.isEmpty) = true then times.contains t else _) = true at hdue
  rw [if_pos (by simpa using htimes)] at hdue
  exact List.contains_iff_mem.mp hdue

/-- A requirement at two seconds that follow each other, and a clock that
moves while the first is run, so the second search starts behind it. -/
theorem handed_nodup_twice :
    ((rounds .whole {} noonTm
      [({}, quietMoment (fun i => if i < 3 then 1000 else 1001)), ({}, quietMoment fun _ => 1001)]
      { internal_time := 1000, schedule := onlyAt [1000, 1001] none }).flatMap
        Round.handed).Nodup := by
  refine handed_nodup .whole {} noonTm
    { internal_time := 1000, schedule := onlyAt [1000, 1001] none }
    rfl _ ?_ (by decide +kernel) (fun c hc t hfirst hdue => ?_)
  · intro x hx
    simp only [List.mem_cons, List.not_mem_nil, or_false] at hx
    rcases hx with rfl | rfl <;> exact ⟨rfl, rfl, rfl⟩
  · obtain rfl := List.mem_singleton.mp hc
    have hdue₁ : FirstDue noonTm
        (effective {} { internal_time := 1000, schedule := onlyAt [1000, 1001] none }) 1000 1000 :=
      ⟨by decide, by decide, by decide, fun t' h₁ h₂ => absurd h₁ (not_le.mpr h₂)⟩
    obtain rfl := hfirst.unique hdue₁
    decide +kernel

/-- **Occurrences that are handed twice**: the clock shows the same second
when the block is done, or the advance does not reach from the internal time
past the block. -/
theorem handed_twice :
    ¬((rounds .whole {} noonTm
        [({}, quietMoment fun _ => 1000), ({}, quietMoment fun _ => 1000)]
        { internal_time := 1000, schedule := onlyAt [1000] none }).flatMap Round.handed).Nodup
      ∧ ¬((rounds .whole {} noonTm
        [({}, quietMoment fun _ => 1000), ({}, quietMoment fun _ => 1100)]
        { internal_time := 998, schedule := onlyAt [1000] (some 1) }).flatMap
          Round.handed).Nodup := by
  decide +kernel

/-! ## No occurrence left behind -/

/-- **What every round keeps holds where each round of a run starts**, before
the edits that come in. It is the invariant rule for runs that are computed
by `rounds`. -/
theorem rounds_invariant (Inv : AutomationState → Prop) {s₀ : AutomationState} (h₀ : Inv s₀)
    {ms : List (Edits × Moment)}
    (hkeep : ∀ x ∈ ms, ∀ s, Inv s → ∀ s',
      (runOnce fp flags localtime_r x.2 (s.edited x.1)).next = some s' → Inv s')
    {c : Round} (hc : c ∈ rounds fp flags localtime_r ms s₀) :
    ∃ x ∈ ms, ∃ s, Inv s
      ∧ c = ⟨s.edited x.1, x.2, runOnce fp flags localtime_r x.2 (s.edited x.1)⟩ := by
  induction ms generalizing s₀ with
  | nil => exact absurd hc List.not_mem_nil
  | cons x ms ih =>
    obtain ⟨e, m⟩ := x
    rcases List.mem_cons.mp hc with rfl | hc
    · exact ⟨(e, m), List.mem_cons_self .., s₀, h₀, rfl⟩
    · cases hs' : (runOnce fp flags localtime_r m (s₀.edited e)).next with
      | none =>
        rw [hs'] at hc
        cases hc
      | some s' =>
        rw [hs'] at hc
        obtain ⟨x, hx, hround⟩ := ih (hkeep (e, m) (List.mem_cons_self ..) s₀ h₀ s' hs')
          (fun x hx => hkeep x (List.mem_cons_of_mem _ hx)) hc
        exact ⟨x, List.mem_cons_of_mem _ hx, hround⟩

/-- A round of a run is what the loop does from its state, in a moment of the
run. -/
theorem round_of_mem {s₀ : AutomationState} {ms : List (Edits × Moment)} {c : Round}
    (hc : c ∈ rounds fp flags localtime_r ms s₀) :
    c.ran = runOnce fp flags localtime_r c.moment c.state ∧ ∃ x ∈ ms, x.2 = c.moment := by
  obtain ⟨x, hx, s, -, rfl⟩ := rounds_invariant (fun _ => True) trivial
    (fun _ _ _ _ _ _ => trivial) hc
  exact ⟨rfl, x, hx, rfl⟩

/-- The time a round starts its search from is its internal time, or what the
clock shows. -/
theorem le_internal_time_manualOverride {least : ℤ} {s : AutomationState}
    (hs : least ≤ s.internal_time) (hclock : least ≤ m.clock 0) :
    least ≤ (manualOverride m s).internal_time := by
  unfold manualOverride
  split
  · exact hclock
  · exact hs

/-- **The internal time never falls below** a time that the clock has
reached, nor below the one it started from. -/
theorem le_internal_time_of_mem {least : ℤ} {s₀ : AutomationState}
    (h₀ : least ≤ s₀.internal_time) {ms : List (Edits × Moment)}
    (hclock : ∀ x ∈ ms, ∀ i, least ≤ x.2.clock i) {c : Round}
    (hc : c ∈ rounds fp flags localtime_r ms s₀) : least ≤ c.state.internal_time := by
  obtain ⟨x, -, s, hs, rfl⟩ := rounds_invariant (fun s => least ≤ s.internal_time) h₀
    (fun x hx s hs s' hnext => le_internal_time_next rfl
      (le_internal_time_manualOverride (s := s.edited x.1) hs (hclock x hx 0)) (hclock x hx 3)
      hnext) hc
  exact hs

/-- The first round. -/
theorem mem_rounds_first (e : Edits) (m : Moment) (ms : List (Edits × Moment))
    (s : AutomationState) :
    ⟨s.edited e, m, runOnce fp flags localtime_r m (s.edited e)⟩
      ∈ rounds fp flags localtime_r ((e, m) :: ms) s :=
  List.mem_cons_self ..

/-- The rounds after the first. -/
theorem mem_rounds_of_next {e : Edits} {ms : List (Edits × Moment)} {s s' : AutomationState}
    {c : Round}
    (hnext : (runOnce fp flags localtime_r m (s.edited e)).next = some s')
    (hc : c ∈ rounds fp flags localtime_r ms s') :
    c ∈ rounds fp flags localtime_r ((e, m) :: ms) s := by
  unfold rounds
  dsimp only
  rw [hnext]
  exact List.mem_cons_of_mem _ hc

/-- **When an overdue block is run**: the round is made at
`c.moment.clock 0`, and the requirements of the schedule that are due first
since the internal time are due at `t`. It is run exactly if this is within a
week of the internal time, and the bumpers do not end the process before
that.

Only rounds without a human in control are meant; the others search from the
clock, and nothing is overdue there. Schedules and overrides may be edited
between the rounds. -/
theorem overdue_block_iff (fp : FloatOps) (flags : Flags) (localtime_r : ℤ → Tm)
    (s₀ : AutomationState) (h₀ : 0 ≤ s₀.internal_time) (ms : List (Edits × Moment))
    (hclock : ∀ x ∈ ms, (∀ i, 0 ≤ x.2.clock i) ∧ ∀ i j, i ≤ j → x.2.clock i ≤ x.2.clock j)
    (htimes : ∀ c ∈ rounds fp flags localtime_r ms s₀,
      c.state.internal_time < int32Max + 1 - window) :
    ∀ c ∈ rounds fp flags localtime_r ms s₀, c.state.overridden = false →
      ∀ t, c.state.internal_time ≤ t → t ≤ c.moment.clock 0 →
        dueAt localtime_r (c.state.effective flags) t ≠ [] →
        (∀ t', c.state.internal_time ≤ t' → t' < t →
          dueAt localtime_r (c.state.effective flags) t' = []) →
        (c.ran.deed = some (.block t (dueAt localtime_r (c.state.effective flags) t))
          ↔ t < c.state.internal_time + window
            ∧ (refill fp flags c.moment c.state).isSome = true) := by
  intro c hc hman t hle hnow hdue hfirst
  obtain ⟨hran, x, hx, hmoment⟩ := round_of_mem hc
  obtain ⟨hnonneg, hmono⟩ := hclock x hx
  rw [hmoment] at hmono
  have hmin : int32Min ≤ c.state.internal_time := by
    have := le_internal_time_of_mem h₀ (fun x hx => (hclock x hx).1) hc
    unfold int32Min
    omega
  have hspec := fillNext_spec localtime_r (c.state.effective flags) (htimes c hc)
    (c.moment.clock 1)
  rw [hran]
  rcases runOnce_cases fp flags localtime_r c.moment (manualOverride_of_not hman) with
    ⟨hfill, hend⟩ | ⟨hfill, ⟨hnone, -⟩ | ⟨b, hb, hround⟩⟩
  · rw [hend, hfill]
    exact iff_of_false nofun (fun h => by cases h.2)
  · rcases hspec with ⟨_, -, hsome⟩ | ⟨hsome, -⟩
    · cases hnone.symm.trans hsome
    · cases hnone.symm.trans hsome
  · rcases hspec with ⟨t₁, hfd, hsome⟩ | ⟨hsome, hempty⟩
    · -- the block that is found is the one that is due first
      obtain rfl := Option.some.inj (hb.symm.trans hsome)
      have heq : t₁ = t := by
        rcases lt_trichotomy t₁ t with h | h | h
        · exact absurd (hfirst t₁ hfd.from_start h) hfd.due
        · exact h
        · exact absurd (hfd.first t hle h) hdue
      subst heq
      refine iff_of_true ?_ ⟨hfd.in_window, hfill⟩
      rcases hround with ⟨hlate, -⟩ | ⟨-, hdeed, -⟩
      · exact absurd (le_trans hnow (hmono 0 2 (Nat.zero_le 2))) (not_le.mpr hlate)
      · exact hdeed
    · obtain rfl := Option.some.inj (hb.symm.trans hsome)
      refine iff_of_false (fun hdeed => ?_) (fun h => hdue (hempty hmin t hle h.1))
      rcases hround with ⟨-, hpass⟩ | ⟨-, hdeed', -⟩
      · cases hpass.no_block _ hdeed
      · -- the block that is run is empty
        rw [hdeed'] at hdeed
        exact hdue (Deed.block.inj (Option.some.inj hdeed)).2.symm

/-- A run of one round, at the second a requirement is due: it is run. -/
theorem overdue_block_noon :
    ∃ c ∈ rounds .whole {} noonTm [({}, quietMoment fun _ => 1000)]
        { internal_time := 1000, schedule := onlyAt [1000] none },
      (c.ran.deed = some (.block 1000 (dueAt noonTm (c.state.effective {}) 1000))
        ↔ 1000 < c.state.internal_time + window
          ∧ (refill .whole {} c.moment c.state).isSome = true) := by
  refine ⟨_, List.mem_cons_self .., ?_⟩
  refine overdue_block_iff .whole {} noonTm
    { internal_time := 1000, schedule := onlyAt [1000] none } (by decide)
    [({}, quietMoment fun _ => 1000)] ?_ (by decide +kernel) _ (List.mem_cons_self ..) rfl 1000
    (by decide) (by decide) (by decide) (fun t' h₁ h₂ => absurd h₁ (not_le.mpr h₂))
  intro x hx
  obtain rfl := List.mem_singleton.mp hx
  exact ⟨fun _ => (by decide : (0 : ℤ) ≤ 1000), fun _ _ _ => le_refl _⟩

/-- What is due a week after the internal time is not found. -/
theorem dueAt_onlyAt_week {t : ℤ} (ht : t < 604800) :
    dueAt noonTm (effective {} { internal_time := 0, schedule := onlyAt [604800] none }) t
      = [] := by
  refine List.eq_nil_iff_forall_not_mem.mpr (fun e he => ?_)
  have ht' := List.mem_singleton.mp (mem_of_dueAt_onlyAt he (by decide))
  omega

/-- A round that finds nothing, and replaces the mainshow. -/
theorem runOnce_week (N : ℤ) (hN : N = 0 ∨ N = 604800) :
    runOnce .whole {} noonTm (quietMoment fun _ => N)
        { internal_time := 0, schedule := onlyAt [604800] none }
      = ⟨some .newMainshow, some { internal_time := 0, schedule := onlyAt [604800] none }⟩ := by
  have hfill : fillNext noonTm
      (effective {} { internal_time := 0, schedule := onlyAt [604800] none }) 0 N
        = some ⟨N + 3600, maxGap, []⟩ := by
    rcases fillNext_spec noonTm
      (effective {} { internal_time := 0, schedule := onlyAt [604800] none })
      (by decide : (0 : ℤ) < int32Max + 1 - window) N with ⟨t, hfirst, -⟩ | ⟨hfill, -⟩
    · exact absurd (dueAt_onlyAt_week hfirst.in_window) hfirst.due
    · exact hfill
  have hrefill : refill .whole {} (quietMoment fun _ => N)
      { internal_time := 0, schedule := onlyAt [604800] none }
        = some { internal_time := 0, schedule := onlyAt [604800] none } := rfl
  rw [runOnce_of_notDue (by rfl) hrefill hfill (show N < N + 3600 by omega)]
  rcases hN with rfl | rfl
  · rfl
  · rfl

/-- **A requirement that is overdue and not run**: the automation was idle
for a week, and what is due at the end of it is not seen from the internal
time, which has not moved.

The rounds after it do not see it either, as a search without a result leaves
the internal time where it is. -/
theorem overdue_block_missed :
    ∃ c ∈ rounds .whole {} noonTm
        [({}, quietMoment fun _ => 0), ({}, quietMoment fun _ => 604800)]
        { internal_time := 0, schedule := onlyAt [604800] none },
      c.state.overridden = false ∧ c.state.internal_time = 0 ∧ c.moment.clock 0 = 604800
        ∧ dueAt noonTm (c.state.effective {}) 604800 ≠ []
        ∧ (∀ t', t' < 604800 → dueAt noonTm (c.state.effective {}) t' = [])
        ∧ c.ran.deed = some .newMainshow := by
  have h₁ := runOnce_week 0 (Or.inl rfl)
  have h₂ := runOnce_week 604800 (Or.inr rfl)
  rw [← edited_none { internal_time := 0, schedule := onlyAt [604800] none }] at h₁ h₂
  exact ⟨_, mem_rounds_of_next (congrArg Ran.next h₁) (mem_rounds_first _ _ _ _), rfl, rfl, rfl,
    by decide, fun t' => dueAt_onlyAt_week, congrArg Ran.deed h₂⟩
