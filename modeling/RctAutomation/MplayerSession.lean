import Mathlib.Algebra.Ring.Int.Defs
import Mathlib.Data.List.Basic
import Mathlib.Logic.Function.Basic
import RctAutomation.Runs

/-!
# The session with mplayer

A session runs mplayer for one track at a time and tells it what to do, a line
at a time, through a pipe. Lines are buffered: `Pause` and `GetProperty` flush
them, `SetSpeed` and `Seek` do not. Of the state of the player only whether it
is paused is kept, as `GetProperty` last heard it or `Pause` last set it.

Pausing is a toggle, so a session that is paused is resumed by one more line.
`Unpause` means to send it, and calls POSIX `pause` instead, which waits for a
signal. `disable_restores_iff` says when `/override/disable` does what it is
documented to do.

Numbers of seconds and speeds are of any type with a one, in place of the
floating-point numbers they are.
-/

open Transitions

/-- The properties of the player that `GetProperty` asks for in a round of
`Play`. -/
inductive Property
  | pause | time_pos | length | metadata
  deriving DecidableEq

/-- A line for mplayer. Each one but a pause keeps the player paused if it
is, so a pause is the only line that starts it or stops it. -/
inductive Line (F : Type)
  | pause
  | speed (speed : F)
  | timePos (timepos : F)
  | getProperty (property : Property)

namespace Line

variable {F : Type}

/-- The line is a pause. -/
def isPause : Line F → Bool
  | pause => true
  | _ => false

/-- The speed that a line sets. -/
def speed? : Line F → Option F
  | speed v => some v
  | _ => none

end Line

/-- **A session**: whether the pipe to mplayer is open, the process, whether
the track is recorded as paused, and the lines that are buffered and that
mplayer has received. Lines are those for the track that is loaded; a new
track has a new process. -/
structure MplayerSession (F : Type) where
  slave_pipe : Bool := false
  mplayer_pid : ℤ := -1
  paused : Bool := false
  buffered : List (Line F) := []
  received : List (Line F) := []

namespace MplayerSession

variable {F : Type}

/-! ## Lines -/

/-- `fprintf` to the pipe: the line is buffered, and mplayer does not see it
yet. -/
def print (line : Line F) (s : MplayerSession F) : MplayerSession F :=
  { s with buffered := s.buffered ++ [line] }

/-- `fflush` of the pipe: everything that is buffered is received, in its
order. -/
def flush (s : MplayerSession F) : MplayerSession F :=
  { s with buffered := [], received := s.received ++ s.buffered }

/-- All lines for the track, in their order. -/
def lines (s : MplayerSession F) : List (Line F) := s.received ++ s.buffered

/-- The speed that was set last, whether mplayer has received it or will with
the next flush. -/
def speed? (s : MplayerSession F) : Option F := (s.lines.filterMap Line.speed?).getLast?

/-- The pauses that mplayer has received. An odd number of them leaves it
paused. -/
def toggles (s : MplayerSession F) : ℕ := s.received.countP Line.isPause

@[simp] theorem lines_print (line : Line F) (s : MplayerSession F) :
    (s.print line).lines = s.lines ++ [line] := (List.append_assoc ..).symm

@[simp] theorem received_flush (s : MplayerSession F) : s.flush.received = s.lines := rfl

@[simp] theorem lines_flush (s : MplayerSession F) : s.flush.lines = s.lines :=
  List.append_nil _

/-! ## Operations -/

/-- `Play`, until mplayer runs. What was recorded of the pause stays, as
nothing resets it. -/
def play (pid : ℤ) (s : MplayerSession F) : MplayerSession F where
  slave_pipe := true
  mplayer_pid := pid
  paused := s.paused

/-- The end of `Play`: the state is cleared, and the pipe closed. -/
def death (_ : MplayerSession F) : MplayerSession F := {}

/-- `GetProperty`, and what mplayer answers, if it does in time. An answer
about the pause is recorded; a question that is not answered leaves the
record as it is. -/
def getProperty (property : Property) (answer : Option Bool) (s : MplayerSession F) :
    MplayerSession F :=
  if !s.slave_pipe then s
  else
    let s := (s.print (.getProperty property)).flush
    if property = .pause then { s with paused := answer.getD s.paused } else s

/-- `Pause`: the line is sent, and the record turned around, without asking
mplayer. -/
def pause (s : MplayerSession F) : MplayerSession F :=
  if !s.slave_pipe then s
  else ({ s with paused := !s.paused }.print .pause).flush

/-- **`Unpause`**. Where the track is paused it waits for a signal, and never
returns without one. It sends nothing in either case. -/
def unpause (signal : Bool) (s : MplayerSession F) : Option (MplayerSession F) :=
  if !s.slave_pipe then some s
  -- the mutexes are unlocked, and POSIX `pause` called in place of `Pause`
  else if s.paused then (if signal then some s else none)
  else some s

/-- `SetSpeed`: the line is buffered, while mplayer runs. -/
def setSpeed (speed : F) (s : MplayerSession F) : MplayerSession F :=
  if !s.slave_pipe || s.mplayer_pid == -1 then s else s.print (.speed speed)

/-- `Seek`: the line is buffered, while mplayer runs. -/
def seek (timepos : F) (s : MplayerSession F) : MplayerSession F :=
  if !s.slave_pipe || s.mplayer_pid == -1 then s else s.print (.timePos timepos)

/-- The next question for a property sends what is buffered. -/
theorem received_getProperty (property : Property) (answer : Option Bool) {s : MplayerSession F}
    (h : s.slave_pipe = true) :
    (s.getProperty property answer).received = s.lines ++ [.getProperty property] := by
  have hsent : (s.print (.getProperty property)).flush.received
      = s.lines ++ [.getProperty property] := lines_print ..
  unfold getProperty
  rw [h, if_neg (show ¬(!true) = true from Bool.false_ne_true)]
  dsimp only
  split
  · exact hsent
  · exact hsent

/-! ## The pipe and the process -/

/-- The pipe is open while mplayer runs. The code checks the two separately,
in different orders. -/
def PipeOpen (s : MplayerSession F) : Prop := s.slave_pipe = true ↔ s.mplayer_pid ≠ -1

/-- The pipe and the process are kept, as they are by everything but the
beginning and the end of `Play`. -/
structure KeepsPipe (s s' : MplayerSession F) : Prop where
  slave_pipe : s'.slave_pipe = s.slave_pipe
  mplayer_pid : s'.mplayer_pid = s.mplayer_pid

theorem PipeOpen.of_keeps {s s' : MplayerSession F} (h : s.PipeOpen) (hkeeps : KeepsPipe s s') :
    s'.PipeOpen := by
  unfold PipeOpen
  rw [hkeeps.slave_pipe, hkeeps.mplayer_pid]
  exact h

theorem keepsPipe_setSpeed (speed : F) (s : MplayerSession F) : KeepsPipe s (s.setSpeed speed) := by
  unfold setSpeed
  split <;> exact ⟨rfl, rfl⟩

theorem keepsPipe_seek (timepos : F) (s : MplayerSession F) : KeepsPipe s (s.seek timepos) := by
  unfold seek
  split <;> exact ⟨rfl, rfl⟩

theorem keepsPipe_pause (s : MplayerSession F) : KeepsPipe s s.pause := by
  unfold pause
  split <;> exact ⟨rfl, rfl⟩

theorem keepsPipe_getProperty (property : Property) (answer : Option Bool) (s : MplayerSession F) :
    KeepsPipe s (s.getProperty property answer) := by
  unfold getProperty
  dsimp only
  split
  · exact ⟨rfl, rfl⟩
  · split <;> exact ⟨rfl, rfl⟩

/-- A session that returns from `Unpause` is as it was. -/
theorem eq_of_unpause {signal : Bool} {s s' : MplayerSession F} (h : s.unpause signal = some s') :
    s' = s := by
  unfold unpause at h
  split at h
  · exact (Option.some.inj h).symm
  · split at h
    · split at h
      · exact (Option.some.inj h).symm
      · cases h
    · exact (Option.some.inj h).symm

end MplayerSession

/-! ## The station -/

/-- The main session, and whether a human is in control. -/
structure Station (F : Type) where
  session : MplayerSession F := {}
  override_ : Bool := false

/-- What happens to the main session. The main loop plays tracks on it, asks
for properties, and ends them; the rest are requests. A signal can reach the
thread that handles a request. -/
inductive StationAct (F : Type)
  | play (pid : ℤ)
  | getProperty (property : Property) (answer : Option Bool)
  | death
  | enable
  | disable (signal : Bool)
  | pause
  | stop
  | setSpeed (speed : F)
  | seek (timepos : F)

namespace Station

variable {F : Type} [One F]

/-- **`/override/disable`**, unless it never returns: it resumes the track,
sets the normal speed and gives back control, in this order. -/
def disable (signal : Bool) (s : Station F) : Option (Station F) :=
  (s.session.unpause signal).map fun session =>
    { session := session.setSpeed 1, override_ := false }

/-- The station after something happened, where it can. A request that does not
return changes nothing, and only a human in control can pause. -/
def next (s : Station F) : StationAct F → Option (Station F)
  | .play pid =>
    if s.session.slave_pipe = false ∧ pid ≠ -1 then some { s with session := s.session.play pid }
    else none
  | .getProperty property answer =>
    if s.session.slave_pipe then some { s with session := s.session.getProperty property answer }
    else none
  | .death => if s.session.slave_pipe then some { s with session := s.session.death } else none
  | .enable => some { s with override_ := true }
  | .disable signal => some ((s.disable signal).getD s)
  | .pause => some (if s.override_ then { s with session := s.session.pause } else s)
  | .stop => some s
  | .setSpeed speed => some { s with session := s.session.setSpeed speed }
  | .seek timepos => some { s with session := s.session.seek timepos }

/-- What can happen leads to the station after it. -/
def Step (s : Station F) (a : StationAct F) (s' : Station F) : Prop := s.next a = some s'

/-- **Normal playback is restored**: no human is in control, and the track
that is loaded is not paused, was resumed if it was, and is played at its own
speed. If no track is loaded there is nothing to resume. -/
structure Restored (before after : Station F) : Prop where
  override_ : after.override_ = false
  unpaused : after.session.slave_pipe = true → after.session.paused = false
  toggles : after.session.slave_pipe = true →
    after.session.toggles = before.session.toggles + if before.session.paused then 1 else 0
  speed : after.session.slave_pipe = true → after.session.speed? = some 1

/-- What disabling the override leaves. -/
theorem eq_of_disable {signal : Bool} {s s' : Station F} (h : s.disable signal = some s') :
    s' = ⟨s.session.setSpeed 1, false⟩ := by
  obtain ⟨session, hsession, rfl⟩ := Option.map_eq_some_iff.mp h
  rw [MplayerSession.eq_of_unpause hsession]

/-- **Whatever happens, the pipe is open exactly while mplayer runs.** Only
the start and the end of a track open and close it, and nothing else does
anything without it. -/
theorem pipeOpen_step {s s' : Station F} {a : StationAct F} (h : s.session.PipeOpen)
    (hstep : s.Step a s') : s'.session.PipeOpen := by
  unfold Step next at hstep
  cases a with
  | play pid =>
    obtain ⟨⟨-, hpid⟩, hs'⟩ := Option.ite_none_right_eq_some.mp hstep
    obtain rfl := Option.some.inj hs'
    exact iff_of_true rfl hpid
  | getProperty property answer =>
    obtain ⟨-, hs'⟩ := Option.ite_none_right_eq_some.mp hstep
    obtain rfl := Option.some.inj hs'
    exact h.of_keeps (MplayerSession.keepsPipe_getProperty ..)
  | death =>
    obtain ⟨-, hs'⟩ := Option.ite_none_right_eq_some.mp hstep
    obtain rfl := Option.some.inj hs'
    exact iff_of_false Bool.false_ne_true (fun hpid => hpid rfl)
  | disable signal =>
    obtain rfl := Option.some.inj hstep
    cases hdisable : s.disable signal with
    | none => exact h
    | some s' =>
      obtain rfl := eq_of_disable hdisable
      exact h.of_keeps (MplayerSession.keepsPipe_setSpeed ..)
  | pause =>
    obtain rfl := Option.some.inj hstep
    split
    · exact h.of_keeps (MplayerSession.keepsPipe_pause _)
    · exact h
  | setSpeed speed =>
    obtain rfl := Option.some.inj hstep
    exact h.of_keeps (MplayerSession.keepsPipe_setSpeed ..)
  | seek timepos =>
    obtain rfl := Option.some.inj hstep
    exact h.of_keeps (MplayerSession.keepsPipe_seek ..)
  | enable | stop =>
    obtain rfl := Option.some.inj hstep
    exact h

/-- A station that was started has its pipe open while mplayer runs. -/
theorem pipeOpen_of_run {trace : List (Station F × StationAct F)} {s : Station F}
    (hrun : Run Step {} trace s) : s.session.PipeOpen :=
  (hrun.invariant (fun s => s.session.PipeOpen) (fun _ _ => True)
    (iff_of_false Bool.false_ne_true (fun h => h rfl))
    (fun _ _ _ h _ hstep => pipeOpen_step h hstep) (fun _ _ => trivial)).1

/-! ## Disabling the override -/

/-- **When `/override/disable` restores normal playback**: unless a track is
loaded and recorded as paused. It is said of every station that is reached
from a new one, so that the pipe is open exactly while mplayer runs.

In the other case the function that is called is that of the system, which
waits for a signal, where the one of the session was meant. -/
theorem disable_restores_iff (signal : Bool) {trace : List (Station F × StationAct F)}
    {s : Station F} (hrun : Run Step {} trace s) :
    (∃ s', s.disable signal = some s' ∧ Restored s s')
      ↔ ¬(s.session.slave_pipe = true ∧ s.session.paused = true) := by
  constructor
  · rintro ⟨s', hdisable, hrestored⟩ ⟨hpipe, hpaused⟩
    obtain rfl := eq_of_disable hdisable
    -- a signal that wakes the handler does not resume the track
    have hkept : (s.session.setSpeed 1).paused = s.session.paused := by
      unfold MplayerSession.setSpeed
      split <;> rfl
    have hunpaused : (s.session.setSpeed 1).paused = false :=
      hrestored.unpaused ((MplayerSession.keepsPipe_setSpeed 1 s.session).slave_pipe.trans hpipe)
    rw [hkept, hpaused] at hunpaused
    cases hunpaused
  · intro hcan
    have hopen := pipeOpen_of_run hrun
    cases hpipe : s.session.slave_pipe with
    | false =>
      have hclosed : (s.session.setSpeed 1).slave_pipe ≠ true := by
        rw [(MplayerSession.keepsPipe_setSpeed 1 s.session).slave_pipe, hpipe]
        exact Bool.false_ne_true
      refine ⟨⟨s.session.setSpeed 1, false⟩, ?_, rfl, fun h => absurd h hclosed,
        fun h => absurd h hclosed, fun h => absurd h hclosed⟩
      unfold disable MplayerSession.unpause
      rw [hpipe]
      rfl
    | true =>
      have hpaused : s.session.paused = false :=
        Bool.eq_false_iff.mpr (fun h => hcan ⟨hpipe, h⟩)
      have hset : s.session.setSpeed 1 = s.session.print (.speed 1) := by
        unfold MplayerSession.setSpeed
        rw [hpipe, if_neg]
        rw [Bool.not_true, Bool.false_or, beq_iff_eq]
        exact hopen.mp hpipe
      refine ⟨⟨s.session.print (.speed 1), false⟩, ?_, rfl, fun _ => hpaused, fun _ => ?_,
        fun _ => ?_⟩
      · unfold disable MplayerSession.unpause
        rw [hpipe, hpaused, ← hset]
        rfl
      · rw [hpaused]
        rfl
      · show ((s.session.print (.speed 1)).lines.filterMap Line.speed?).getLast? = some 1
        rw [MplayerSession.lines_print, List.filterMap_append]
        exact List.getLast?_append_of_ne_nil _ (List.cons_ne_nil _ _)

/-- A track that is played at another speed gets its normal speed back. -/
theorem disable_restores_fast :
    ∃ s' : Station ℤ, disable false ⟨⟨true, 7, false, [.speed 2], []⟩, true⟩ = some s'
      ∧ Restored ⟨⟨true, 7, false, [.speed 2], []⟩, true⟩ s' :=
  (disable_restores_iff (F := ℤ) (s := ⟨⟨true, 7, false, [.speed 2], []⟩, true⟩) false
    (.snoc (.snoc (.snoc .nil (show next {} .enable = some _ from rfl))
      (show next _ (.play 7) = some _ from rfl)) (show next _ (.setSpeed 2) = some _ from rfl))).mpr
    (fun h => Bool.false_ne_true h.2)

/-- **A request that never returns**: a human takes control, a track is
played and paused, and the human gives back control. A signal lets the
request return, and the track stays paused. -/
theorem disable_hangs :
    ∃ trace, ∃ s : Station ℤ, Run Step {} trace s
      ∧ trace.map Prod.snd = [.enable, .play 7, .pause]
      ∧ s.session.slave_pipe = true ∧ s.session.paused = true ∧ s.override_ = true
      ∧ s.disable false = none
      ∧ ∃ s', s.disable true = some s' ∧ s'.session.paused = true :=
  ⟨_, _, .snoc (.snoc (.snoc .nil (show next {} .enable = some _ from rfl))
    (show next _ (.play 7) = some _ from rfl)) (show next _ .pause = some _ from rfl),
    rfl, rfl, rfl, rfl, rfl, _, rfl, rfl⟩

end Station
