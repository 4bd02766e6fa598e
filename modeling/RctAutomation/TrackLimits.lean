import RctAutomation.Occurrences

/-!
# How long a track may take

A round that starts a track limits its duration by the time until the next
block and the gap of that block. The track may run across requirements that are
due after the block, and their gaps are not looked at: `tracksKeepGaps_iff`
says for which schedules that makes no requirement late.
-/

open Sql RequirementEngine AutomationState

/-! ## The track that is taken -/

namespace Playlist

variable {cat : Catalog} {db : Db}

/-- **The loop takes a track within the limit**, or the empty track. A track
without a duration counts as one of no seconds. It holds whatever was fetched
before, since the limit is compared with what is held at the time. -/
theorem popLoop_duration {seconds : ℤ} {ids ids' : List ℤ} {result r : PlayableItem}
    (h : popLoop cat db seconds ids result = some (ids', r)) :
    r = {} ∨ r.duration.getD 0 ≤ seconds := by
  -- by induction on the list: the item fetched last goes on to the rest
  induction ids generalizing result ids' with
  | nil => exact Or.inl (Prod.mk.inj (Option.some.inj h)).2.symm
  | cons id ids ih =>
    have hrest : ∀ result',
        (popLoop cat db seconds ids result').map (fun x => (id :: x.1, x.2)) = some (ids', r) →
        r = {} ∨ r.duration.getD 0 ≤ seconds := by
      intro result' h
      obtain ⟨⟨ids'', r'⟩, hloop, heq⟩ := Option.map_eq_some_iff.mp h
      obtain ⟨-, rfl⟩ := Prod.mk.inj heq
      exact ih hloop
    unfold popLoop at h
    split at h
    · exact hrest result h
    · split at h
      · cases h
      · split at h
        · rename_i hfits
          obtain ⟨-, rfl⟩ := Prod.mk.inj (Option.some.inj h)
          exact Or.inr hfits.2
        · exact hrest _ h

theorem popWithTimelimit_duration {p p' : Playlist} {seconds : ℤ} {result r : PlayableItem}
    (h : popWithTimelimit cat db p seconds result = some (p', r))
    (hfile : r.filename.isSome = true) : r.duration.getD 0 ≤ toInt32 seconds := by
  obtain ⟨⟨ids, r'⟩, hloop, heq⟩ := Option.map_eq_some_iff.mp h
  obtain ⟨-, rfl⟩ := Prod.mk.inj heq
  rcases popLoop_duration hloop with rfl | hle
  · cases hfile
  · exact hle

end Playlist

/-! ## The limit of a round -/

variable {fp : FloatOps} {flags : Flags} {localtime_r : ℤ → Tm} {m : Moment}

/-- The seconds a track may take when a block comes next: those until it is
due, and those that it may be late. -/
def trackLimit (b : Block) (now : ℤ) : ℤ := toInt32 (b.deadline - now + b.gap)

theorem passTime_track {now : ℤ} (hclock : ∀ i, m.clock i = now) {b : Block}
    {s : AutomationState} {item : PlayableItem}
    (h : (passTime fp flags m b s).deed = some (.track item)) :
    item.duration.getD 0 ≤ trackLimit b now := by
  unfold passTime at h
  rw [hclock] at h
  split at h
  · cases h
  · rename_i hpop
    dsimp only at h
    split at h
    · rename_i hfile
      obtain rfl := Deed.track.inj (Option.some.inj h)
      exact Playlist.popWithTimelimit_duration hpop hfile
    · split at h
      · cases h
      · split at h <;> cases h

theorem playTrack_track {now : ℤ} (hclock : ∀ i, m.clock i = now) {b : Block}
    {s : AutomationState} {item : PlayableItem}
    (h : (playTrack fp flags m b s).deed = some (.track item)) :
    item.duration.getD 0 ≤ trackLimit b now := by
  unfold playTrack at h
  rw [hclock 3] at h
  split at h
  · cases h
  · rename_i hpop
    dsimp only at h
    split at h
    · rename_i hfile
      obtain rfl := Deed.track.inj (Option.some.inj h)
      exact Playlist.popWithTimelimit_duration hpop hfile
    · split at h
      · cases h
      · exact passTime_track hclock h

/-- **A track is started within the limit** of the block that comes next,
whether it is from the mainshow or one of the bumpers. The clock is taken to
stand still during the round, so that the limits of both are the same. -/
theorem runOnce_track {now : ℤ} (hclock : ∀ i, m.clock i = now) {s : AutomationState}
    (hman : s.overridden = false) {item : PlayableItem}
    (h : (runOnce fp flags localtime_r m s).deed = some (.track item)) :
    ∃ b, fillNext localtime_r (s.effective flags) s.internal_time now = some b
      ∧ now < b.deadline ∧ item.duration.getD 0 ≤ trackLimit b now := by
  unfold runOnce at h
  rw [manualOverride_of_not hman] at h
  cases hfill : refill fp flags m s with
  | none =>
    rw [hfill] at h
    cases h
  | some s₂ =>
    have hkept := refill_keeps hfill
    rw [hfill] at h
    dsimp only at h
    rw [hkept.effective, hkept.internal_time, hclock] at h
    cases hb : fillNext localtime_r (s.effective flags) s.internal_time now with
    | none =>
      rw [hb] at h
      cases h
    | some b =>
      rw [hb, hclock] at h
      dsimp only at h
      split at h
      · cases h
      · rename_i hdue
        exact ⟨b, rfl, not_le.mp hdue, playTrack_track hclock h⟩

/-! ## A track as long as the limit -/

/-- The row of a track. -/
def trackRow (duration : ℤ) : Row
  | "PlayableItemID" => .integer 1
  | "filename" => .text (ascii "a")
  | "duration" => .integer duration
  | _ => .null

/-- The track as it is fetched. -/
def trackItem (duration : ℤ) : PlayableItem where
  playableItemID := some 1
  filename := some (ascii "a")
  duration := some (toInt32 duration)
  description := some []
  playcount := some 0

/-- A database with one track. -/
def oneTrackDb (duration : ℤ) : Db := fun table =>
  if table = "PlayableItem" then ⟨[trackRow duration], 1⟩ else ⟨[], 0⟩

/-- A moment at which the database has one track, and the clock stands
still. -/
def oneTrackMoment (duration now : ℤ) : Moment :=
  { quietMoment fun _ => now with db := oneTrackDb duration }

/-- The one track, in the mainshow and among the bumpers. -/
def oneTrackState (schedule : Schedule) (internal_time : ℤ) : AutomationState where
  internal_time := internal_time
  schedule := schedule
  mainshow := { playableItemID := [1] }
  bumperlist := { playableItemID := [1] }

/-- The track that is taken from the mainshow is played. -/
theorem playTrack_of_pop {b : Block} {s : AutomationState} {mainshow : Playlist}
    {next_track : PlayableItem}
    (hpop : Playlist.popWithTimelimit (catalog fp (m.chance 2)) m.db s.mainshow
      (b.deadline - m.clock 3 + b.gap) {} = some (mainshow, next_track))
    (hfile : next_track.filename.isSome = true) :
    (playTrack fp flags m b s).deed = some (.track next_track) := by
  unfold playTrack
  rw [hpop]
  dsimp only
  rw [if_pos hfile]

/-- A track that fits is taken from the mainshow. -/
theorem playTrack_one (b : Block) (schedule : Schedule) (internal_time : ℤ) {d now : ℤ}
    (hle : toInt32 d ≤ trackLimit b now) :
    (playTrack fp flags (oneTrackMoment d now) b (oneTrackState schedule internal_time)).deed
      = some (.track (trackItem d)) := by
  have hfetch : ({} : PlayableItem).fetch (catalog fp .stored) (oneTrackDb d) 1
      = some (true, trackItem d) := rfl
  have hpop : Playlist.popWithTimelimit (catalog fp .stored) (oneTrackDb d)
      { playableItemID := [1] } (b.deadline - now + b.gap) {}
        = some ({ playableItemID := [0] }, trackItem d) := by
    unfold Playlist.popWithTimelimit Playlist.popLoop
    rw [if_neg (by decide), hfetch]
    dsimp only
    rw [if_pos ⟨(by decide : (1 : ℤ) ≠ 0), hle⟩]
    rfl
  exact playTrack_of_pop hpop rfl

/-- **The limit is reached**: some mainshow has a track as long as it. So the
bound on what is started is the exact one, and a condition on the limit is a
condition on the tracks. -/
theorem runOnce_one {schedule : Schedule} {internal_time now : ℤ} {b : Block}
    (hb : fillNext localtime_r
      (entries (effectiveSchedule flags.toEngineFlags schedule)) internal_time now = some b)
    (hdue : now < b.deadline) :
    (runOnce fp flags localtime_r (oneTrackMoment (trackLimit b now) now)
        (oneTrackState schedule internal_time)).deed
      = some (.track (trackItem (trackLimit b now))) := by
  have hrefill : refill fp flags (oneTrackMoment (trackLimit b now) now)
      (oneTrackState schedule internal_time) = some (oneTrackState schedule internal_time) := rfl
  rw [runOnce_of_notDue (by rfl) hrefill hb hdue]
  exact playTrack_one b schedule internal_time (le_of_eq (toInt32_toInt32 _))

/-! ## The gaps of a schedule -/

/-- Of what is due while a track of a duration plays from `now` on, nothing
is later than its gap when the track ends. -/
def WithinGaps (localtime_r : ℤ → Tm) (reqlist : List Entry) (now duration : ℤ) : Prop :=
  ∀ e ∈ reqlist, ∀ t, isDue localtime_r e.1 t = true → now < t → t ≤ now + duration →
    now + duration ≤ t + e.1.gapD

/-- A shorter track keeps the gaps as well. -/
theorem WithinGaps.mono {reqlist : List Entry} {now d d' : ℤ}
    (h : WithinGaps localtime_r reqlist now d) (hle : d' ≤ d) :
    WithinGaps localtime_r reqlist now d' := by
  intro e he t hdue hlt hplays
  have := h e he t hdue hlt (by omega)
  omega

/-- **Automatic tracks keep the gaps of a schedule**, whatever the tables,
the lists and the chances are: no track that a round starts makes a
requirement later than it may be. -/
def TracksKeepGaps (fp : FloatOps) (flags : Flags) (localtime_r : ℤ → Tm) (schedule : Schedule)
    (internal_time now : ℤ) : Prop :=
  ∀ (m : Moment) (s : AutomationState) (item : PlayableItem), (∀ i, m.clock i = now) →
    s.overridden = false → s.schedule = schedule → s.internal_time = internal_time →
    (runOnce fp flags localtime_r m s).deed = some (.track item) →
    WithinGaps localtime_r (s.effective flags) now (item.duration.getD 0)

/-- The longest track that is started while the requirements due first are due
at `t`. -/
def longestTrack (localtime_r : ℤ → Tm) (reqlist : List Entry) (t now : ℤ) : ℤ :=
  toInt32 (t - now + minGap (dueAt localtime_r reqlist t))

/-- **What is due first is the tightest**: at the last second at which a
track may end, nothing that came due on the way is later than its gap.
Without anything due in a week a track may take twenty years and an hour. -/
def FirstIsTightest (localtime_r : ℤ → Tm) (reqlist : List Entry) (internal_time now : ℤ) :
    Prop :=
  (∀ t, FirstDue localtime_r reqlist internal_time t → now < t →
      WithinGaps localtime_r reqlist now (longestTrack localtime_r reqlist t now))
    ∧ ((∀ t, ¬FirstDue localtime_r reqlist internal_time t) →
      WithinGaps localtime_r reqlist now (3600 + maxGap))

/-- The gaps are kept as soon as a track as long as the limit keeps them. -/
theorem tracksKeepGaps_iff_limit (fp : FloatOps) (flags : Flags) (localtime_r : ℤ → Tm)
    (schedule : Schedule) (internal_time now : ℤ) :
    TracksKeepGaps fp flags localtime_r schedule internal_time now
      ↔ ∀ b, fillNext localtime_r (entries (effectiveSchedule flags.toEngineFlags schedule))
          internal_time now = some b → now < b.deadline →
        WithinGaps localtime_r (entries (effectiveSchedule flags.toEngineFlags schedule)) now
          (trackLimit b now) := by
  constructor
  · intro h b hb hdue
    have hkept := h (oneTrackMoment (trackLimit b now) now)
      (oneTrackState schedule internal_time) _ (fun _ => rfl) rfl rfl rfl (runOnce_one hb hdue)
    have hduration : (trackItem (trackLimit b now)).duration.getD 0 = trackLimit b now :=
      toInt32_toInt32 _
    rwa [hduration] at hkept
  · rintro h m s item hclock hman rfl rfl hdeed
    obtain ⟨b, hb, hdue, hle⟩ := runOnce_track hclock hman hdeed
    exact (h b hb hdue).mono hle

/-- **When automatic tracks make nothing late**, for a schedule, an internal
time and a second: exactly when what is due first is the tightest. A
requirement that comes later and may be late less is not looked at when the
limit is set.

The limit is the time of the block that is found and the least gap in it. So
the condition takes the last second at which such a track may end, and looks
at what comes due on the way. -/
theorem tracksKeepGaps_iff (fp : FloatOps) (flags : Flags) (localtime_r : ℤ → Tm)
    (schedule : Schedule) (internal_time now : ℤ) (h₀ : 0 ≤ internal_time)
    (htime : internal_time < int32Max + 1 - window) :
    TracksKeepGaps fp flags localtime_r schedule internal_time now
      ↔ FirstIsTightest localtime_r (entries (effectiveSchedule flags.toEngineFlags schedule))
        internal_time now := by
  rw [tracksKeepGaps_iff_limit]
  have hnothing : trackLimit ⟨now + 3600, maxGap, []⟩ now = 3600 + maxGap := by
    show toInt32 (now + 3600 - now + maxGap) = 3600 + maxGap
    rw [show now + 3600 - now + maxGap = 3600 + maxGap by omega]
    decide
  rcases fillNext_spec localtime_r (entries (effectiveSchedule flags.toEngineFlags schedule))
    htime now with ⟨t, hfirst, hfill⟩ | ⟨hfill, hempty⟩
  · rw [hfill]
    constructor
    · refine fun h => ⟨fun t' hfirst' hlt => ?_, fun hnone => absurd hfirst (hnone t)⟩
      obtain rfl := hfirst.unique hfirst'
      have hlimit := h _ rfl hlt
      exact hlimit
    · rintro ⟨h, -⟩ b hb hdue
      obtain rfl := Option.some.inj hb
      have hlongest := h t hfirst hdue
      exact hlongest
  · have hnone : ∀ t, ¬FirstDue localtime_r
        (entries (effectiveSchedule flags.toEngineFlags schedule)) internal_time t :=
    fun t hfirst =>
      hfirst.due (hempty (le_trans (by decide) h₀) t hfirst.from_start hfirst.in_window)
    rw [hfill]
    constructor
    · intro h
      refine ⟨fun t hfirst => absurd hfirst (hnone t), fun _ => ?_⟩
      have hlimit := h _ rfl (show now < now + 3600 by omega)
      rwa [hnothing] at hlimit
    · rintro ⟨-, h⟩ b hb -
      obtain rfl := Option.some.inj hb
      rw [hnothing]
      exact h hnone

/-- One requirement, and tracks that end before it: there is nothing tighter. -/
theorem tracksKeepGaps_onlyAt :
    TracksKeepGaps .whole {} noonTm (onlyAt [1100] none) 1000 1000 := by
  refine (tracksKeepGaps_iff .whole {} noonTm (onlyAt [1100] none) 1000 1000 (by decide)
    (by decide)).mpr ?_
  have hfirst : FirstDue noonTm (entries (effectiveSchedule {} (onlyAt [1100] none)))
      1000 1100 := by
    refine ⟨by decide, by decide, by decide, fun t h₁ h₂ => ?_⟩
    refine List.eq_nil_iff_forall_not_mem.mpr (fun e he => ?_)
    have ht := List.mem_singleton.mp (mem_of_dueAt_onlyAt he (by decide))
    omega
  refine ⟨fun t hfirst' hlt e he t' hdue hlt' hplays => ?_, fun hnone => absurd hfirst (hnone _)⟩
  obtain rfl := hfirst.unique hfirst'
  have ht := List.mem_singleton.mp (mem_of_dueAt_onlyAt (mem_dueAt.mpr ⟨he, hdue⟩) (by decide))
  obtain rfl := List.mem_singleton.mp he
  subst ht
  decide

/-- Two requirements: the first may be late, and the second may not. -/
def lateSchedule : Schedule :=
  ⟨[{ «when» := some { only_at_times := [1100], gap := some 300 }, type := some .NO_OP },
    { «when» := some { only_at_times := [1200], gap := some 0 }, type := some .LEGAL_ID }]⟩

/-- **A track that makes a requirement late**: it may end when the first one
is late, and runs across the second. That one may not be late at all, and is
due while the track is played. -/
theorem track_late :
    (runOnce .whole {} noonTm (oneTrackMoment 400 1000) (oneTrackState lateSchedule 1000)).deed
        = some (.track (trackItem 400))
      ∧ (trackItem 400).duration.getD 0 = 400
      ∧ ∃ e ∈ entries (effectiveSchedule {} lateSchedule),
        isDue noonTm e.1 1200 = true ∧ 1200 + e.1.gapD < 1000 + 400 := by
  decide +kernel
