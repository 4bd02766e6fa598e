import Mathlib.Algebra.Order.Group.Int
import RctAutomation.Int32
import RctAutomation.MplayerSession

/-!
# When mplayer is given up

While a track plays, `Play` asks mplayer for four properties in each round of
its loop, and gives it up once it has not answered for some seconds. When it
answered last is a member of the session: it is zero at first, is not set when
a track is started, and is an `int`.

A `Watch` is the loop of `Play` with that member, over all the tracks of a
session. What the clock showed, and when the track and its answers were, is
recorded beside it and never looked at. `killed_overdue_iff` says in which runs
a track is given up only when it should be.
-/

open Transitions

/-- Where `Play` is: at the head of its loop, or among the questions of a
round, with those that are left. -/
inductive PollPc
  | waiting
  | polling (left : List Property)

/-- The track that plays, with the second its process was started in and the
second of its last answer. Neither is kept by the code. -/
structure Track where
  pc : PollPc
  start : ℤ
  answered : Option ℤ

/-- **The session**: when mplayer answered last, as it is stored, and the
track that plays. Beside it what the clock showed last and what the stored
answer was, before it was made an `int`. -/
structure Watch where
  last_alive : ℤ := 0
  track : Option Track := none
  now : ℤ
  heard : Option ℤ := none

/-- What happens, with what the clock shows: a track is started; `waitpid`
finds its process or finds it gone; a property is asked for, and answered in
time or not; the round ends, with a stream at its end or not. -/
inductive WatchAct
  | play (clock : ℤ)
  | wait (gone : Bool)
  | getProperty (answer : Option ℤ)
  | check (eof : Bool) (clock : ℤ)

namespace Watch

/-- The questions of a round, in order. All are asked, also after one was not
answered. -/
def questions : List Property := [.pause, .time_pos, .length, .metadata]

/-- `is_timedout`: it compares the clock with the second that is stored,
whichever track that was stored for. -/
def isTimedout (mplayertimeout : ℤ) (w : Watch) (clock : ℤ) : Bool :=
  decide (mplayertimeout < clock - w.last_alive)

/-- **The session after something happened**, where it can. The clock does
not go back. A track that is started leaves the stored second as it is. -/
def next (mplayertimeout : ℤ) (w : Watch) : WatchAct → Option Watch
  | .play clock =>
    match w.track with
    | some _ => none
    | none =>
      if w.now ≤ clock then some { w with track := some ⟨.waiting, clock, none⟩, now := clock }
      else none
  | .wait gone =>
    match w.track with
    | some ⟨.waiting, start, answered⟩ =>
      if gone then some { w with track := none }
      else some { w with track := some ⟨.polling questions, start, answered⟩ }
    | _ => none
  | .getProperty answer =>
    match w.track with
    | some ⟨.polling (_ :: left), start, answered⟩ =>
      match answer with
      | none => some { w with track := some ⟨.polling left, start, answered⟩ }
      | some clock =>
        if w.now ≤ clock then
          some { last_alive := toInt32 clock
                 track := some ⟨.polling left, start, some clock⟩
                 now := clock
                 heard := some clock }
        else none
    | _ => none
  | .check eof clock =>
    match w.track with
    | some ⟨.polling [], start, answered⟩ =>
      if w.now ≤ clock then
        if eof || w.isTimedout mplayertimeout clock then
          some { w with track := none, now := clock }
        else some { w with track := some ⟨.waiting, start, answered⟩, now := clock }
      else none
    | _ => none

/-- What happens leads to the session after it. -/
def Step (mplayertimeout : ℤ) (w : Watch) (a : WatchAct) (w' : Watch) : Prop :=
  w.next mplayertimeout a = some w'

/-- A new session, and a clock that shows more than the timeout, as every
clock does that counts from 1970. -/
structure Initial (mplayertimeout : ℤ) (w : Watch) : Prop where
  last_alive : w.last_alive = 0
  track : w.track = none
  heard : w.heard = none
  now : mplayertimeout < w.now

/-! ## What should be given up -/

/-- **A track is overdue**: more than the timeout has passed since its
process was started and since its last answer. This is what the timeout is
documented to be about. -/
def Overdue (mplayertimeout : ℤ) (track : Track) (clock : ℤ) : Prop :=
  mplayertimeout < clock - track.start
    ∧ ∀ a, track.answered = some a → mplayertimeout < clock - a

/-- **A track is given up only when it is overdue**, as far as one check
decides it. Streams that are at their end are another reason to stop. -/
def KilledOverdue (mplayertimeout : ℤ) (x : Watch × WatchAct) : Prop :=
  ∀ clock track, x.2 = .check false clock → x.1.track = some track →
    x.1.isTimedout mplayertimeout clock = true → Overdue mplayertimeout track clock

/-- **A check comes in time for its track**: while the track is young and has
not answered, the last answer of a track before it is young as well; and the
second of a young answer is an `int`. -/
def Timely (mplayertimeout : ℤ) (x : Watch × WatchAct) : Prop :=
  ∀ clock track, x.2 = .check false clock → x.1.track = some track →
    (track.answered = none → clock - track.start ≤ mplayertimeout →
      ∃ a, x.1.heard = some a ∧ clock - a ≤ mplayertimeout ∧ a ≤ int32Max)
    ∧ ∀ a, track.answered = some a → clock - a ≤ mplayertimeout → a ≤ int32Max

/-! ## What the session records -/

/-- **The stored second is the one of the last answer**, as an `int`, or zero
without one; and the answers are in the order of the clock. -/
structure Sound (mplayertimeout : ℤ) (w : Watch) : Prop where
  stored : w.last_alive = (w.heard.map toInt32).getD 0
  now : mplayertimeout < w.now
  heard : ∀ a, w.heard = some a → mplayertimeout < a ∧ a ≤ w.now
  started : ∀ track, w.track = some track → track.start ≤ w.now
  own : ∀ track, w.track = some track → ∀ a, track.answered = some a →
    w.heard = some a ∧ track.start ≤ a

variable {mplayertimeout : ℤ} {w w' : Watch}

/-- A check reads the clock. -/
theorem now_le_of_check {eof : Bool} {clock : ℤ}
    (hstep : Step mplayertimeout w (.check eof clock) w') : w.now ≤ clock := by
  unfold Step next at hstep
  dsimp only at hstep
  split at hstep
  · split at hstep
    · assumption
    · cases hstep
  · cases hstep

theorem Initial.sound (h : w.Initial mplayertimeout) : w.Sound mplayertimeout where
  stored := by
    rw [h.last_alive, h.heard]
    rfl
  now := h.now
  heard a ha := by
    rw [h.heard] at ha
    cases ha
  started track ht := by
    rw [h.track] at ht
    cases ht
  own track ht := by
    rw [h.track] at ht
    cases ht

/-- **The clock goes on** without an answer: the record stays sound if the
track was started by now, and its answers are the old ones. -/
theorem Sound.goesOn (h : w.Sound mplayertimeout) {clock : ℤ} (hclock : w.now ≤ clock)
    (next? : Option Track) (hstarted : ∀ track, next? = some track → track.start ≤ clock)
    (hown : ∀ track, next? = some track → ∀ a, track.answered = some a →
      w.heard = some a ∧ track.start ≤ a) :
    ({ w with track := next?, now := clock } : Watch).Sound mplayertimeout where
  stored := h.stored
  now := lt_of_lt_of_le h.now hclock
  heard a ha := ⟨(h.heard a ha).1, le_trans (h.heard a ha).2 hclock⟩
  started := hstarted
  own := hown

/-- The track ends. -/
theorem Sound.ended (h : w.Sound mplayertimeout) {clock : ℤ} (hclock : w.now ≤ clock) :
    ({ w with track := none, now := clock } : Watch).Sound mplayertimeout :=
  h.goesOn hclock none (fun _ ht => by cases ht) (fun _ ht => by cases ht)

/-- The track goes on elsewhere in its loop. -/
theorem Sound.goOn (h : w.Sound mplayertimeout) {pc pc' : PollPc} {start : ℤ}
    {answered : Option ℤ} (htrack : w.track = some ⟨pc, start, answered⟩) {clock : ℤ}
    (hclock : w.now ≤ clock) :
    ({ w with track := some ⟨pc', start, answered⟩, now := clock } : Watch).Sound
      mplayertimeout := by
  refine h.goesOn hclock _ (fun track ht => ?_) (fun track ht => ?_)
  · obtain rfl := Option.some.inj ht
    exact le_trans (h.started ⟨pc, start, answered⟩ htrack) hclock
  · obtain rfl := Option.some.inj ht
    exact h.own ⟨pc, start, answered⟩ htrack

/-- A track is started. -/
theorem Sound.play (h : w.Sound mplayertimeout) {clock : ℤ} (hclock : w.now ≤ clock) :
    ({ w with track := some ⟨.waiting, clock, none⟩, now := clock } : Watch).Sound
      mplayertimeout := by
  refine h.goesOn hclock _ (fun track ht => ?_) (fun track ht a ha => ?_)
  · obtain rfl := Option.some.inj ht
    exact le_refl clock
  · obtain rfl := Option.some.inj ht
    cases ha

/-- The track answers. -/
theorem Sound.answered (h : w.Sound mplayertimeout) {pc pc' : PollPc} {start : ℤ}
    {answered : Option ℤ} (htrack : w.track = some ⟨pc, start, answered⟩) {clock : ℤ}
    (hclock : w.now ≤ clock) :
    ({ last_alive := toInt32 clock, track := some ⟨pc', start, some clock⟩, now := clock,
       heard := some clock } : Watch).Sound mplayertimeout := by
  have hstart : start ≤ clock := le_trans (h.started ⟨pc, start, answered⟩ htrack) hclock
  refine ⟨rfl, lt_of_lt_of_le h.now hclock, fun a ha => ?_, fun track ht => ?_,
    fun track ht a ha => ?_⟩
  · obtain rfl := Option.some.inj ha
    exact ⟨lt_of_lt_of_le h.now hclock, le_refl clock⟩
  · obtain rfl := Option.some.inj ht
    exact hstart
  · obtain rfl := Option.some.inj ht
    obtain rfl := Option.some.inj ha
    exact ⟨rfl, hstart⟩

/-- **What happens keeps the record sound.** The cases are the actions; all
but an answer are `Sound.goesOn`. An answer is recorded as the last one and
as one of the track that is on. -/
theorem Sound.step (h : w.Sound mplayertimeout) {a : WatchAct}
    (hstep : Step mplayertimeout w a w') : w'.Sound mplayertimeout := by
  unfold Step next at hstep
  cases a with
  | play clock =>
    dsimp only at hstep
    split at hstep
    · cases hstep
    · split at hstep
      · rename_i hclock
        obtain rfl := Option.some.inj hstep
        exact h.play hclock
      · cases hstep
  | wait gone =>
    dsimp only at hstep
    split at hstep
    · rename_i start answered htrack
      split at hstep
      · obtain rfl := Option.some.inj hstep
        exact h.ended (le_refl _)
      · obtain rfl := Option.some.inj hstep
        exact h.goOn htrack (le_refl _)
    · cases hstep
  | getProperty answer =>
    dsimp only at hstep
    split at hstep
    · rename_i question left start answered htrack
      cases answer with
      | none =>
        obtain rfl := Option.some.inj hstep
        exact h.goOn htrack (le_refl _)
      | some clock =>
        dsimp only at hstep
        split at hstep
        · rename_i hclock
          obtain rfl := Option.some.inj hstep
          exact h.answered htrack hclock
        · cases hstep
    · cases hstep
  | check eof clock =>
    dsimp only at hstep
    split at hstep
    · rename_i start answered htrack
      split at hstep
      · rename_i hclock
        split at hstep
        · obtain rfl := Option.some.inj hstep
          exact h.ended hclock
        · obtain rfl := Option.some.inj hstep
          exact h.goOn htrack hclock
      · cases hstep
    · cases hstep

/-! ## When a track is given up -/

/-- A second that is no `int` is stored as one long ago. -/
theorem toInt32_le_of_lt {a : ℤ} (h : int32Max < a) : toInt32 a ≤ a - 4294967296 := by
  unfold int32Max at h
  unfold toInt32
  omega

/-- **The session is timed out** when no young answer was stored as it was:
there is none, or its second does not fit an `int`. What is stored in its
place is long ago then. -/
theorem Sound.isTimedout_iff (h : w.Sound mplayertimeout) (hT : FitsInt32 mplayertimeout)
    {clock : ℤ} (hclock : w.now ≤ clock) :
    w.isTimedout mplayertimeout clock = true
      ↔ ∀ a, w.heard = some a → clock - a ≤ mplayertimeout → int32Max < a := by
  unfold isTimedout
  rw [decide_eq_true_eq, h.stored]
  cases hheard : w.heard with
  | none =>
    -- the zero at the start is as long ago as the clock shows
    show mplayertimeout < clock - 0 ↔ _
    rw [sub_zero]
    exact ⟨fun _ a ha => (by cases ha), fun _ => lt_of_lt_of_le h.now hclock⟩
  | some a =>
    obtain ⟨hlow, hup⟩ := h.heard a hheard
    show mplayertimeout < clock - toInt32 a ↔ _
    by_cases hmax : int32Max < a
    · have hold := toInt32_le_of_lt hmax
      have hT' : mplayertimeout ≤ 2147483647 := hT.2
      refine ⟨fun _ a' ha' _ => ?_, fun _ => by omega⟩
      obtain rfl := Option.some.inj ha'
      exact hmax
    · rw [toInt32_of_fits ⟨le_of_lt (lt_of_le_of_lt hT.1 hlow), not_lt.mp hmax⟩]
      constructor
      · intro hlong a' ha' hyoung
        obtain rfl := Option.some.inj ha'
        exact absurd hyoung (not_le.mpr hlong)
      · intro hall
        exact not_le.mp fun hyoung => hmax (hall a rfl hyoung)

/-- A track is overdue, given when it answered last. -/
theorem Sound.overdue_iff (h : w.Sound mplayertimeout) {track : Track}
    (htrack : w.track = some track) {a : ℤ} (ha : track.answered = some a) (clock : ℤ) :
    Overdue mplayertimeout track clock ↔ mplayertimeout < clock - a := by
  have hstart := (h.own track htrack a ha).2
  refine ⟨fun hover => hover.2 a ha, fun hlong => ⟨by omega, fun a' ha' => ?_⟩⟩
  obtain rfl := Option.some.inj (ha.symm.trans ha')
  exact hlong

/-- **A check gives the track up only when it is overdue** exactly where it
comes in time. If the track has answered, its answer is the last one, and
both say the same; if it has not, what there is is an answer to another
track. -/
theorem Sound.killedOverdue_iff (h : w.Sound mplayertimeout) (hT : FitsInt32 mplayertimeout)
    {a : WatchAct} (hstep : Step mplayertimeout w a w') :
    KilledOverdue mplayertimeout (w, a) ↔ Timely mplayertimeout (w, a) := by
  unfold KilledOverdue Timely
  refine forall_congr' fun clock => forall_congr' fun track => forall_congr' fun ha =>
    forall_congr' fun htrack => ?_
  rw [show a = .check false clock from ha] at hstep
  rw [h.isTimedout_iff hT (now_le_of_check hstep)]
  cases hans : track.answered with
  | none =>
    -- an answer there is one of a track before it
    constructor
    · intro hkilled
      refine ⟨fun _ hyoung => ?_, fun a' ha' => (by cases ha')⟩
      by_contra hnone
      have hover := hkilled fun a' ha' hyoung' =>
        not_le.mp fun hmax => hnone ⟨a', ha', hyoung', hmax⟩
      exact absurd hyoung (not_le.mpr hover.1)
    · rintro ⟨htimely, -⟩ hdead
      refine ⟨not_le.mp fun hyoung => ?_, fun a' ha' => (by cases hans.symm.trans ha')⟩
      obtain ⟨a', ha', hyoung', hmax⟩ := htimely rfl hyoung
      exact absurd (hdead a' ha' hyoung') (not_lt.mpr hmax)
  | some answer =>
    have hheard := (h.own track htrack answer hans).1
    rw [h.overdue_iff htrack hans]
    constructor
    · intro hkilled
      refine ⟨fun hnone => (by cases hnone), fun a' ha' hyoung => not_lt.mp fun hmax => ?_⟩
      obtain rfl := Option.some.inj ha'
      have hlong := hkilled fun a' ha' _ => by
        obtain rfl := Option.some.inj (hheard.symm.trans ha')
        exact hmax
      exact absurd hyoung (not_le.mpr hlong)
    · rintro ⟨-, htimely⟩ hdead
      refine not_le.mp fun hyoung => ?_
      exact absurd (hdead answer hheard hyoung) (not_lt.mpr (htimely answer rfl hyoung))

/-- **Every track that is given up is overdue**: exactly in the runs in which
every check comes in time for its track. The first track of a session never
has an earlier answer to rely on, so it has to answer in its first round.

Whether a check comes in time is about the answers before it: that of the
track itself, or of one before it that is recent enough. The time of the last
answer is kept from one track to the next. -/
theorem killed_overdue_iff (hT : FitsInt32 mplayertimeout) {w₀ : Watch}
    {trace : List (Watch × WatchAct)} (h₀ : w₀.Initial mplayertimeout)
    (hrun : Run (Step mplayertimeout) w₀ trace w) :
    (∀ x ∈ trace, KilledOverdue mplayertimeout x) ↔ ∀ x ∈ trace, Timely mplayertimeout x := by
  have hsound := (hrun.invariant (Sound mplayertimeout) (fun _ _ => True) h₀.sound
    (fun _ _ _ h _ hstep => h.step hstep) fun _ _ => trivial).2
  refine forall₂_congr fun x hx => ?_
  obtain ⟨w', hstep⟩ := hrun.step_of_mem hx
  exact (hsound x hx).killedOverdue_iff hT hstep

/-- A session before its first track. -/
theorem start_run (T clock : ℤ) : Run (Step T) { now := clock } [] { now := clock } := .nil

theorem next_run {w₀ : Watch} {trace : List (Watch × WatchAct)} {a : WatchAct}
    (h : w.next mplayertimeout a = some w') (hrun : Run (Step mplayertimeout) w₀ trace w) :
    Run (Step mplayertimeout) w₀ (trace ++ [(w, a)]) w' := hrun.snoc h

/-- The actions of a track that answers once and is given up seven seconds later. -/
def silent : List WatchAct :=
  [.play 100, .wait false, .getProperty (some 100), .getProperty none, .getProperty none,
    .getProperty none, .check false 107]

/-- A track that does not answer any more, with a timeout of six seconds. It
is overdue when it is given up. -/
theorem killed_overdue_silent :
    ∃ trace w, Run (Step 6) { now := 100 } trace w ∧ trace.map Prod.snd = silent
      ∧ w.track = none ∧ ∀ x ∈ trace, KilledOverdue 6 x := by
  have hrun := start_run 6 100
    |> next_run (a := .play 100) rfl |> next_run (a := .wait false) rfl
    |> next_run (a := .getProperty (some 100)) rfl |> next_run (a := .getProperty none) rfl
    |> next_run (a := .getProperty none) rfl |> next_run (a := .getProperty none) rfl
    |> next_run (a := .check false 107) rfl
  refine ⟨_, _, hrun, rfl, rfl, ?_⟩
  refine (killed_overdue_iff (by decide) ⟨rfl, rfl, rfl, by decide⟩ hrun).mpr ?_
  simp [Timely]

/-- A first track that does not answer in its first round is given up after one
second. -/
theorem killed_early :
    ∃ trace w, Initial 6 { now := 100 } ∧ Run (Step 6) { now := 100 } trace w
      ∧ trace.map Prod.snd = [.play 100, .wait false, .getProperty none, .getProperty none,
        .getProperty none, .getProperty none, .check false 101]
      ∧ ¬∀ x ∈ trace, KilledOverdue 6 x := by
  have hrun := start_run 6 100
    |> next_run (a := .play 100) rfl |> next_run (a := .wait false) rfl
    |> next_run (a := .getProperty none) rfl |> next_run (a := .getProperty none) rfl
    |> next_run (a := .getProperty none) rfl |> next_run (a := .getProperty none) rfl
    |> next_run (a := .check false 101) rfl
  refine ⟨_, _, ⟨rfl, rfl, rfl, by decide⟩, hrun, rfl, fun hall => ?_⟩
  have hlast := hall _ (List.mem_append_right _ (List.mem_singleton_self _)) 101 _ rfl rfl rfl
  exact absurd hlast.1 (by decide)

end Watch
