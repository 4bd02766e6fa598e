import RctAutomation.Playlists
import RctAutomation.RequirementEngine
import RctAutomation.StoreAtomic

/-!
# The main loop

`runOnce` is one round of the main loop. It runs the block of requirements
that is due, or else plays a track from the mainshow, or else one of the
bumpers, or sleeps. What it plays is limited by the time until the next block
and by the gap of that block.

What a round finds outside the automation is its `Moment`: the clock, the
database, and what the callbacks of the commands and the loop of the manual
override leave behind. A round can end the process, and what it did before
that is kept (`Ran`). `rounds` is a run of rounds, with what the web clients
change between them.
-/

open Sql

/-- **`LockByName`**: a lock with the name is stored, and failing to is
fatal. The connection with the lock, or nothing where the process has ended:
with the exception of a name that is no playlist, or because the database is
busy. -/
def Playlist.lockByName (fp : FloatOps) (busy : Bool) (name : Bytes) (c : Conn) : Option Conn :=
  let r := (StoredMessage.lock { name := some name }).store (catalog fp .stored) busy .replace c
  match r.outcome with
  | .returned _ => some r.conn
  | _ => none

section

variable {fp : FloatOps} {busy : Bool} {name : Bytes} {c : Conn}
  {r : Run Message (Code × Message)}

/-- The lock is stored. -/
theorem Playlist.lockByName_of_returned
    (hr : (StoredMessage.lock { name := some name }).store (catalog fp .stored) busy .replace c = r)
    {a : Code × Message} (h : r.outcome = .returned a) :
    lockByName fp busy name c = some r.conn := by
  unfold lockByName
  rw [hr]
  dsimp only
  rw [h]

/-- The lock is refused, and the exception ends the process. -/
theorem Playlist.lockByName_of_raised
    (hr : (StoredMessage.lock { name := some name }).store (catalog fp .stored) busy .replace c = r)
    {e : Message} (h : r.outcome = .raised e) : lockByName fp busy name c = none := by
  unfold lockByName
  rw [hr]
  dsimp only
  rw [h]

end

/-- The flags of the automation. -/
structure Flags extends EngineFlags where
  bumpers : Bytes := []
  bumpercutoff : ℤ := 200
  sleepcutoff : ℤ := 4

/-- The state of the automation and of its requirement engine. The lists are
in memory, and are lost with the process. -/
structure AutomationState where
  internal_time : ℤ
  schedule : Schedule
  override_ : Bool := false
  override_playlist : Playlist := {}
  mainshow : Playlist := {}
  bumperlist : Playlist := {}

/-- **What a round finds outside the automation.** Everything that the source
reads from the clock, from the database and from others while a round lasts
is here, by the call that reads it. -/
structure Moment where
  /-- What `time(NULL)` returns, call by call. -/
  clock : ℕ → ℤ
  /-- What each query leaves to chance. -/
  chance : ℕ → Chance
  /-- The database before the block of requirements, and after it. -/
  db : Db
  dbAfter : Db
  /-- Whether another connection keeps this one from committing. -/
  busy : Bool
  /-- The override playlist when a human gives back control. -/
  resumed : Playlist
  /-- What the callbacks leave of the mainshow, unless they end the process. -/
  callbacks : List Entry → Playlist → Option Playlist

/-- What a round does: it runs a block, plays a track, takes a new mainshow,
or passes the time in one way or another. -/
inductive Deed
  | block (deadline : ℤ) (next : List Entry)
  | track (item : PlayableItem)
  | newMainshow
  | silence (seconds : ℤ)
  | nothingLeft
  | tooMuchTime
  deriving DecidableEq

/-- The value `RunOnce` returns: whether it found something to do. The main
loop goes on in either case, and only reports that it did not. -/
def Deed.result : Deed → Bool
  | newMainshow => false
  | tooMuchTime => false
  | _ => true

/-- A round: what it did, and the state after it unless it ended the process.
A round can have done something and end the process afterwards. -/
structure Ran where
  deed : Option Deed
  next : Option AutomationState

/-- The process ended before anything was done. -/
def Ran.ended : Ran := ⟨none, none⟩

namespace AutomationState

variable (fp : FloatOps) (flags : Flags) (localtime_r : ℤ → Tm) (m : Moment)

/-- The effective schedule, with positions. -/
def effective (s : AutomationState) : List Entry :=
  RequirementEngine.entries (RequirementEngine.effectiveSchedule flags.toEngineFlags s.schedule)

/-- A human is in control, or has tracks left to play. Both are looked at
once at the beginning of a round. -/
def overridden (s : AutomationState) : Bool := s.override_ || s.override_playlist.size != 0

/-- `ManualOverride`, and the internal time set after it did anything. Its
loop ends when no human is in control and no track is left; what it does
until then is another matter, and what it leaves of the playlist is part of
the moment. -/
def manualOverride (s : AutomationState) : AutomationState :=
  if s.overridden then
    { s with
      override_ := false
      override_playlist := m.resumed
      internal_time := m.clock 0 }
  else s

/-- `ResetBumpers`: all tracks, or the playlist of bumpers, which is locked
first. A fetch that finds nothing leaves an empty list. -/
def resetBumpers (ch : Chance) (db : Db) (s : AutomationState) : Option AutomationState :=
  let fetched :=
    if flags.bumpers = [] then Playlist.fetchSuperlist fp ch db 9223372036854775807 0
    else (Playlist.lockByName fp m.busy flags.bumpers ⟨db, none, 0⟩).bind fun c =>
      Playlist.fetchByName (catalog fp ch) c.db flags.bumpers
  fetched.map fun (_, bumperlist) => { s with bumperlist := bumperlist }

/-- The bumpers are reset when none is left. -/
def refill (s : AutomationState) : Option AutomationState :=
  if s.bumperlist.size = 0 then resetBumpers fp flags m (m.chance 0) m.db s else some s

/-- `SetMainshow()`: a playlist at random. If none can be drawn the mainshow
is empty. -/
def setMainshow (ch : Chance) (db : Db) (s : AutomationState) : Option AutomationState :=
  (Playlist.fetch (catalog fp ch) db).map fun (_, mainshow) => { s with mainshow := mainshow }

/-- `RunBlock`, and the bumpers reset after it. The requirements have been
handed to their callbacks even if one of these, or the fetch of the bumpers,
ends the process. -/
def runBlock (b : RequirementEngine.Block) (s : AutomationState) : Ran where
  deed := some (.block b.deadline b.next)
  next := (m.callbacks b.next s.mainshow).bind fun mainshow =>
    resetBumpers fp flags m (m.chance 1) m.dbAfter
      { s with
        mainshow := mainshow
        internal_time := RequirementEngine.timeAfter b.next s.internal_time (m.clock 3) }

/-- A bumper is played when one fits; otherwise the rest of the time is slept
off if it is short. -/
def passTime (b : RequirementEngine.Block) (s : AutomationState) : Ran :=
  match Playlist.popWithTimelimit (catalog fp (m.chance 4)) m.db s.bumperlist
    (b.deadline - m.clock 5 + b.gap) {} with
  | none => Ran.ended
  | some (bumperlist, next_bumper) =>
    let s := { s with bumperlist := bumperlist }
    if next_bumper.filename.isSome then ⟨some (.track next_bumper), some s⟩
    else
      let time_left := toInt32 (b.deadline - m.clock 6)
      if time_left ≤ 0 then ⟨some .nothingLeft, some s⟩
      else if time_left ≤ flags.sleepcutoff then ⟨some (.silence time_left), some s⟩
      else ⟨some .tooMuchTime, some s⟩

/-- A track of the mainshow is played when one fits; an empty mainshow is
replaced when there is time. Otherwise the time is passed with bumpers. -/
def playTrack (b : RequirementEngine.Block) (s : AutomationState) : Ran :=
  match Playlist.popWithTimelimit (catalog fp (m.chance 2)) m.db s.mainshow
    (b.deadline - m.clock 3 + b.gap) {} with
  | none => Ran.ended
  | some (mainshow, next_track) =>
    let s := { s with mainshow := mainshow }
    if next_track.filename.isSome then ⟨some (.track next_track), some s⟩
    else if flags.bumpercutoff ≤ b.deadline - m.clock 4 ∧ mainshow.size = 0 then
      ⟨some .newMainshow, setMainshow fp (m.chance 3) m.db s⟩
    else passTime fp flags m b s

/-- **`RunOnce`**: a block that is due, or else something to pass the time.
The override and the bumpers come first, since both can end the process
before anything is done. -/
def runOnce (s : AutomationState) : Ran :=
  match (refill fp flags m (manualOverride m s)) with
  | none => Ran.ended
  | some s =>
    match RequirementEngine.fillNext localtime_r (effective flags s) s.internal_time
      (m.clock 1) with
    | none => Ran.ended
    | some b =>
      if b.deadline ≤ m.clock 2 then runBlock fp flags m b s else playTrack fp flags m b s

end AutomationState

/-! ## Runs -/

/-- What the web clients changed before a round, where they changed anything.
A field that is `none` is as it was. -/
structure Edits where
  schedule : Option Schedule := none
  override_ : Option Bool := none
  override_playlist : Option Playlist := none
  mainshow : Option Playlist := none
  bumperlist : Option Playlist := none

/-- The state with the changes of the web clients. The internal time is the
engine's own, and no request sets it. -/
def AutomationState.edited (s : AutomationState) (e : Edits) : AutomationState where
  internal_time := s.internal_time
  schedule := e.schedule.getD s.schedule
  override_ := e.override_.getD s.override_
  override_playlist := e.override_playlist.getD s.override_playlist
  mainshow := e.mainshow.getD s.mainshow
  bumperlist := e.bumperlist.getD s.bumperlist

@[simp] theorem AutomationState.edited_none (s : AutomationState) : s.edited {} = s := rfl

/-- A round of a run: the state it starts from, with the edits in it, its
moment, and what it did. -/
structure Round where
  state : AutomationState
  moment : Moment
  ran : Ran

/-- **A run of the main loop**, round by round, until the process ends. It is
a function of what comes from outside, so everything said of a run is said
for all that can come. -/
def rounds (fp : FloatOps) (flags : Flags) (localtime_r : ℤ → Tm) :
    List (Edits × Moment) → AutomationState → List Round
  | [], _ => []
  | (e, m) :: rest, s =>
    let r := (s.edited e).runOnce fp flags localtime_r m
    ⟨s.edited e, m, r⟩ :: match r.next with
      | none => []
      | some s' => rounds fp flags localtime_r rest s'

/-- A run goes on after its first round if that did not end the process. -/
theorem rounds_cons (fp : FloatOps) (flags : Flags) (localtime_r : ℤ → Tm) (e : Edits)
    (m : Moment) (ms : List (Edits × Moment)) (s : AutomationState) :
    rounds fp flags localtime_r ((e, m) :: ms) s
      = ⟨s.edited e, m, (s.edited e).runOnce fp flags localtime_r m⟩
        :: (((s.edited e).runOnce fp flags localtime_r m).next.elim []
          (rounds fp flags localtime_r ms)) := by
  unfold rounds
  dsimp only
  cases ((s.edited e).runOnce fp flags localtime_r m).next <;> rfl
