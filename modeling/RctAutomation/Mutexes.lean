import RctAutomation.Locks

/-!
# The mutexes of the process

The main thread and those of the web server share the requirement engine, the
lists of the automation and the main player, and each of these has a mutex of
its own; a player has two. What follows is what each function does to them, as
a program of `Locks`: where it locks and unlocks, which functions it calls
under a lock, and where it touches the schedule of the engine and the state of
a player, which are not to be touched otherwise.

A function can also have to wait for something outside the process. What is
printed to a player goes through a pipe, and a pipe that is full keeps the
thread until mplayer has read from it, with the mutex of the player taken. And
the call of `pause` in `Unpause` waits for a signal, which may never come.

The mutexes are taken in one order, from the engine to the state of a player
(`Mutex.rank`). So no interleaving of any number of threads ends in a deadlock:
a thread that wants a mutex waits for one that goes on, or that its mplayer
keeps waiting (`deadlockFree_of_run`), and nobody ever waits for the one that
waits for a signal. None of them touches the schedule or the state of a player
while another one does (`exclusive_of_run`).

Objects are numbered. Those of a request or of a command are its own, and may
have any numbers.
-/

open Locks

/-! ## The mutexes -/

/-- The mutexes: that of the engine, those of objects that wrap a message,
and the two of a player. -/
inductive Mutex
  /-- `mutex_` of the engine, which guards its schedule. -/
  | engine
  | playlist (n : ℕ)
  | playlistLock (n : ℕ)
  | item (n : ℕ)
  | player (n : ℕ)
  | state (n : ℕ)
  deriving DecidableEq

/-- The order in which they are taken. A list and a lock on one never hold
each other's mutex, and neither do two items, so some share a rank. -/
def Mutex.rank : Mutex → ℕ
  | engine => 0
  | playlist _ => 1
  | playlistLock _ => 2
  | item _ => 2
  | player _ => 3
  | state _ => 4

theorem Mutex.rank_lt (m : Mutex) : m.rank < 5 := by
  cases m <;> simp [rank]

/-- What is only touched under a mutex: the schedule of the engine, and what
a player knows of its state. -/
inductive Guarded
  | schedule_
  | state_ (n : ℕ)
  deriving DecidableEq

/-- The mutex that guards it. -/
def Guarded.mutex : Guarded → Mutex
  | schedule_ => .engine
  | state_ n => .state n

/-- What is waited for outside of the process. -/
inductive Outside
  /-- The mplayer of a session: that it reads from its pipe, or that it has ended. -/
  | mplayer (n : ℕ)
  /-- A signal, of which nothing says that it comes. -/
  | signal

/-- **The mutexes that are held while something outside is waited for**: at most that of
the session, and that of the engine if the session plays for `HandleReboot`. Nothing is
held while a signal is waited for. -/
def Outside.mayHold : Outside → Mutex → Prop
  | mplayer n, m => m = .engine ∨ m = .player n
  | signal, _ => False

/-- What the functions of the process keep to. -/
def discipline : Discipline Mutex Guarded Outside where
  rank := Mutex.rank
  guard := Guarded.mutex
  mayHold := Outside.mayHold

/-- What a function does to the mutexes of the process. -/
abbrev Locking := Prog Mutex Guarded Outside

open Prog

/-! ## `protostore.h` -/

namespace ThreadSafeProto

/-- `Fetch`, `CopyTo`, `CopyFrom`, `MergeFrom` and `Clear`: the message is
used under its mutex. -/
def access (m : Mutex) : Locking := .under m .skip

/-- `Replace`, `Update` and `Insert`, which throw what a statement raises.
The mutex is that of a scope, so the exception releases it. -/
def store (m : Mutex) : Locking := .under m mayThrow

end ThreadSafeProto

open ThreadSafeProto

/-! ## `playableitem.cc` -/

namespace Locking

/-- `PlayableItem::IncrementPlaycount`, under the mutex of the item. -/
def incrementPlaycount (i : ℕ) : Locking := .under (.item i) .skip

/-- `PlayableItem::matches`, under the mutex of the item. -/
def itemMatches (i : ℕ) : Locking := .under (.item i) .skip

/-! ## `playlist.cc` -/

/-- `LockByName`. What the store throws is caught, and ends the process. -/
def lockByName (n : ℕ) : Locking := .attempt (store (.playlistLock n))

/-- `PopWithTimelimit`: the item that is taken out is cleared first,
looks at the items of the list, and gets one of them, all under the mutex
of the list. -/
def popWithTimelimit (p i : ℕ) : Locking :=
  .under (.playlist p) (block [.loop (access (.item i)), oneOf [.skip, access (.item i)]])

/-- `PopFront`: the item gets the first one of the list, or is cleared. -/
def popFront (p i : ℕ) : Locking :=
  .under (.playlist p) (oneOf [access (.item i), access (.item i)])

/-- `Filter`, which ends at once if the pattern is not valid. -/
def filter (p i : ℕ) : Locking :=
  oneOf [.skip, .under (.playlist p) (.loop (block [access (.item i), itemMatches i]))]

/-- `Fetch` and its variants. -/
def fetchList (p : ℕ) : Locking := .under (.playlist p) .skip

/-- `Size`, and `Name`. -/
def size (p : ℕ) : Locking := .under (.playlist p) .skip

/-- `Name`, under the mutex of the list. -/
def name (p : ℕ) : Locking := .under (.playlist p) .skip

/-! ## `mplayersession.cc` -/

/-- `fprintf` to `slave_pipe_`, and `fflush`: what does not fit into the pipe is waited
for until mplayer has read from it. -/
def print (n : ℕ) : Locking := .wait (.mplayer n)

/-- `GetProperty`: an end of the pipes, a failed `fprintf` and a timeout
return before the state is touched. The two prints of a request can both have
to wait for room in the pipe; the answer is waited for by `select`, with a
timeout, which is a step here. -/
def getProperty (n : ℕ) : Locking :=
  oneOf [.skip,
    .under (.player n) (block [print n,
      oneOf [.skip, block [print n,
        oneOf [.skip, .under (.state n) (oneOf [.skip, .touch (.state_ n)])]]]])]

/-- **`Play`**, of an item: its scopes overlap, and the session is free while
the track is played. In the end mplayer is killed, and `waitpid` waits until
it is gone.

The loop releases the session for each round of four properties and takes it
again after it. -/
def play (n : ℕ) : Locking :=
  block [.lock (.state n), .touch (.state_ n), .unlock (.state n),
    .lock (.player n),
    .loop (block [.unlock (.player n), getProperty n, getProperty n, getProperty n, getProperty n,
      .lock (.player n)]),
    .wait (.mplayer n),
    .lock (.state n), .touch (.state_ n),
    .unlock (.player n), .unlock (.state n)]

/-- `Play`, of an object, which is counted if it has an ID. -/
def playItem (n i : ℕ) : Locking :=
  block [oneOf [.skip, block [incrementPlaycount i, store (.item i)]], play n]

/-- `Pause`, which unlocks the state before it prints. The session stays
locked while it waits for room in the pipe. -/
def pause (n : ℕ) : Locking :=
  .under (.player n) (block [.lock (.state n),
    oneOf [.unlock (.state n),
      block [.touch (.state_ n), .unlock (.state n), print n, print n]]])

/-- `Unpause`: a state that is paused ends in the call of `pause` that waits for a
signal, once both mutexes are free. -/
def unpause (n : ℕ) : Locking :=
  block [.lock (.player n), .lock (.state n),
    oneOf [block [.unlock (.state n), .unlock (.player n)],
      block [.touch (.state_ n),
        oneOf [block [.unlock (.player n), .unlock (.state n), .wait .signal],
          block [.unlock (.state n), .unlock (.player n)]]]]]

/-- `Stop`, which takes no mutex: it sets a flag. -/
def stop : Locking := .skip

/-- `MergeState`, which copies the state under its mutex. -/
def mergeState (n : ℕ) : Locking := .under (.state n) (.touch (.state_ n))

/-- `SetSpeed`: nothing is printed without a player. -/
def setSpeed (n : ℕ) : Locking := .under (.player n) (oneOf [.skip, print n])

/-- `Seek`: nothing is printed without a player. -/
def seek (n : ℕ) : Locking := .under (.player n) (oneOf [.skip, print n])

/-! ## `actions.cc` -/

/-- The number of the list of the main show. -/
def mainshow_ : ℕ := 0

/-- The number of the list of a manual override. -/
def override_playlist_ : ℕ := 1

/-- The number of the list of bumpers. -/
def bumperlist_ : ℕ := 2

/-- `SetMainshow`, of a random list. -/
def setMainshow : Locking := block [fetchList mainshow_, name mainshow_]

/-- `SetMainshow`, of a list by its name. -/
def setMainshowTo : Locking :=
  oneOf [setMainshow, block [fetchList mainshow_, oneOf [name mainshow_, setMainshow]]]

/-- `PLAY_FILES`, on the player of the thread: each entry is a list's item,
or a file of its own. -/
def playFiles (n i : ℕ) : Locking :=
  .loop (oneOf [block [access (.item i), playItem n i], play n])

/-- `LEGAL_ID`, with a list and an item of its own. It goes round while the
list has items. -/
def legalId (n p i : ℕ) : Locking :=
  block [lockByName p, fetchList p, .loop (block [size p, popWithTimelimit p i, playItem n i])]

/-- `SET_MAINSHOW`. -/
def setPlaylist : Locking := oneOf [setMainshowTo, setMainshow]

/-! ## `requirementengine.cc` -/

/-- `CopyTo`, `CopyFrom` and `FillNext`: each uses the schedule under the
mutex of the engine. -/
def onSchedule : Locking := .under .engine (.touch .schedule_)

/-- `Save`, which serializes the schedule and stores it under the mutex of
the engine, and throws what the statement raises. -/
def save : Locking := .under .engine (block [.touch .schedule_, mayThrow])

/-- `RunBlock`, on a thread with the player `n`: it takes no mutex itself. -/
def runBlock (n p i : ℕ) : Locking :=
  .loop (oneOf [.skip, playFiles n i, legalId n p i, setPlaylist])

/-- **`HandleReboot`**, which runs its block under the mutex of the engine. -/
def handleReboot (n p i : ℕ) : Locking :=
  .under .engine (block [.touch .schedule_, runBlock n p i])

/-! ## `automationstate.cc` -/

/-- The main player. -/
def main_player_ : ℕ := 0

/-- `ResetBumpers`: of the list that a flag names, or of a random one. -/
def resetBumpers (p : ℕ) : Locking :=
  oneOf [fetchList bumperlist_, block [lockByName p, fetchList bumperlist_]]

/-- `ManualOverride`: the size of the list is only looked at when the flag is
off. -/
def manualOverride (i : ℕ) : Locking :=
  block [.loop (block [oneOf [.skip, size override_playlist_], popFront override_playlist_ i,
      oneOf [playItem main_player_ i, .skip]]),
    size override_playlist_]

/-- **`RunOnce`**, a round of the main thread: a manual override first, the
bumpers, the block that is due, and otherwise a track of the main show or a
bumper. -/
def runOnce (p i : ℕ) : Locking :=
  block [manualOverride i, size bumperlist_,
    oneOf [resetBumpers p, .skip, size bumperlist_], onSchedule,
    oneOf [block [runBlock main_player_ p i, resetBumpers p],
      block [popWithTimelimit mainshow_ i,
        oneOf [playItem main_player_ i,
          block [oneOf [.skip, size mainshow_],
            oneOf [block [name mainshow_, setMainshow],
              block [popWithTimelimit bumperlist_ i, oneOf [playItem main_player_ i, .skip]]]]]]]]

/-- **The main thread**, from the start of the automation: a main show, the
block that a reboot missed, and one round after the other. -/
def mainThread (p i : ℕ) : Locking :=
  block [setMainshow, oneOf [handleReboot main_player_ p i, .skip], .loop (runOnce p i)]

/-! ## `webapi.cc` -/

/-- `/override/enable`, and `/override/disable`. -/
def overrideCommand : Locking :=
  oneOf [.skip, block [unpause main_player_, setSpeed main_player_]]

/-- `/requirements/fetch`, `update` and `runonce`, on a thread whose player is `n`. -/
def requirementsCommand (n p i : ℕ) : Locking :=
  oneOf [block [onSchedule, mayThrow],
    block [mayThrow, onSchedule, save],
    block [mayThrow, runBlock n p i]]

/-- `/sql`, which works on a connection of its own. -/
def sqlCommand : Locking := mayThrow

/-- `GetNewlist`: names are looked up until one is free. -/
def getNewlist (p : ℕ) : Locking := .loop (fetchList p)

/-- `FetchPlaylistFromParams`, into a list of the request's own unless it names one of
the automation's. -/
def fetchPlaylistFromParams (p : ℕ) : Locking :=
  oneOf [block [mayThrow, fetchList p], .skip, getNewlist p, fetchList p]

/-- `/playlist/fetch`, of the list `q`: the list is found, and then nothing
is done for want of one, a copy of the result is saved, or the result is
returned. -/
def playlistFetch (q p i : ℕ) : Locking :=
  block [fetchPlaylistFromParams p,
    oneOf [.skip,
      block [oneOf [filter q i, access (.playlist q)], getNewlist p, access (.playlist p),
        store (.playlist p), mayThrow],
      block [oneOf [filter q i, access (.playlist q)], mayThrow]]]

/-- `/playlist/update`, of the list `q`: what it merges, it merges without a
mutex. -/
def playlistUpdate (q p : ℕ) : Locking :=
  block [mayThrow, fetchPlaylistFromParams p, oneOf [.skip, fetchList p],
    oneOf [.skip, block [store (.playlist q), access (.playlist q), mayThrow]]]

/-- `/playlist/all`, which goes by the rows of a view. -/
def playlistAll : Locking := mayThrow

/-- `/player/pause`, `stop`, `state`, `speed` and `seek`, on the main player. -/
def playerCommand : Locking :=
  oneOf [.skip, pause main_player_, stop, block [mergeState main_player_, mayThrow],
    block [mayThrow, setSpeed main_player_], block [mayThrow, seek main_player_]]

/-- A request, with a list and an item of its own and the player of its
thread. The path decides which command it is, and the parameters which list
it is for. -/
def request (n p i : ℕ) : Locking :=
  oneOf [overrideCommand, requirementsCommand n p i, sqlCommand,
    playlistFetch mainshow_ p i, playlistFetch override_playlist_ p i,
    playlistFetch bumperlist_ p i, playlistFetch p p i,
    playlistUpdate mainshow_ p, playlistUpdate override_playlist_ p,
    playlistUpdate bumperlist_ p, playlistUpdate p p, playlistAll, playerCommand]

/-- **A thread of the web server**: it handles one request after the other, whose
exceptions the server catches. -/
def webThread (n p i : ℕ) : Locking := .loop (.attempt (request n p i))

/-! ## They keep the order -/

/-- A function keeps the order where all mutexes that are held are below a
rank. -/
def Keeps (r : ℕ) (p : Locking) : Prop :=
  Neutral discipline (Below discipline r) p

variable {r n p q i : ℕ} {m : Mutex} {f g : Locking}

theorem below_mono {r' : ℕ} (hle : r ≤ r') (held : List Mutex) (hbelow : Below discipline r held) :
    Below discipline r' held := fun m hm => Nat.lt_of_lt_of_le (hbelow m hm) hle

theorem Keeps.inside (hr : r ≤ m.rank) (h : Keeps (m.rank + 1) f) :
    Neutral discipline (Inside (Below discipline r) m) f :=
  Neutral.mono h fun _ hin => hin.below (below_mono hr) m.rank.lt_succ_self

theorem keeps_under (hr : r ≤ m.rank)
    (h : Neutral discipline (Inside (Below discipline r) m) f) : Keeps r (.under m f) :=
  Neutral.under (below_mono hr) h

@[simp] theorem keeps_skip : Keeps r .skip := Neutral.skip

@[simp] theorem keeps_mayThrow : Keeps r mayThrow := Neutral.mayThrow

theorem keeps_block {fs : List Locking} (h : ∀ f ∈ fs, Keeps r f) : Keeps r (block fs) :=
  Neutral.block h

theorem keeps_oneOf {fs : List Locking} (h : ∀ f ∈ fs, Keeps r f) : Keeps r (oneOf fs) :=
  Neutral.oneOf h

theorem keeps_loop (h : Keeps r f) : Keeps r (.loop f) := Neutral.loop h

theorem keeps_attempt (h : Keeps r f) : Keeps r (.attempt f) := Neutral.attempt h

theorem keeps_access (hr : r ≤ m.rank) : Keeps r (access m) := keeps_under hr Neutral.skip

theorem keeps_store (hr : r ≤ m.rank) : Keeps r (store m) := keeps_under hr Neutral.mayThrow

@[simp] theorem keeps_access_item (hr : r ≤ 2) : Keeps r (access (.item i)) := keeps_access hr

@[simp] theorem keeps_store_item (hr : r ≤ 2) : Keeps r (store (.item i)) := keeps_store hr

@[simp] theorem keeps_access_list (hr : r ≤ 1) : Keeps r (access (.playlist p)) := keeps_access hr

@[simp] theorem keeps_store_list (hr : r ≤ 1) : Keeps r (store (.playlist p)) := keeps_store hr

@[simp] theorem keeps_incrementPlaycount (hr : r ≤ 2) : Keeps r (incrementPlaycount i) :=
  keeps_under hr Neutral.skip

@[simp] theorem keeps_itemMatches (hr : r ≤ 2) : Keeps r (itemMatches i) :=
  keeps_under hr Neutral.skip

@[simp] theorem keeps_lockByName (hr : r ≤ 2) : Keeps r (lockByName n) :=
  keeps_attempt (keeps_store hr)

@[simp] theorem keeps_fetchList (hr : r ≤ 1) : Keeps r (fetchList p) :=
  keeps_under hr Neutral.skip

@[simp] theorem keeps_size (hr : r ≤ 1) : Keeps r (size p) := keeps_under hr Neutral.skip

@[simp] theorem keeps_name (hr : r ≤ 1) : Keeps r (name p) := keeps_under hr Neutral.skip

/-- A pop fetches items under the mutex of its list. -/
@[simp] theorem keeps_popWithTimelimit (hr : r ≤ 1) : Keeps r (popWithTimelimit p i) := by
  have hclear : Keeps 2 (oneOf [.skip, access (.item i)]) := keeps_oneOf (by simp)
  have hitems : Keeps 2 (.loop (access (.item i))) := keeps_loop (by simp)
  have hpop : Keeps 2 (block [.loop (access (.item i)), oneOf [.skip, access (.item i)]]) :=
    keeps_block (by simp [hclear, hitems])
  exact keeps_under hr (Keeps.inside hr hpop)

@[simp] theorem keeps_popFront (hr : r ≤ 1) : Keeps r (popFront p i) := by
  have hpop : Keeps 2 (oneOf [access (.item i), access (.item i)]) := keeps_oneOf (by simp)
  exact keeps_under hr (Keeps.inside hr hpop)

@[simp] theorem keeps_filter (hr : r ≤ 1) : Keeps r (filter p i) := by
  have hitems : Keeps 2 (.loop (block [access (.item i), itemMatches i])) :=
    keeps_loop (keeps_block (by simp))
  have hlist : Keeps r (.under (.playlist p) (.loop (block [access (.item i), itemMatches i]))) :=
    keeps_under hr (Keeps.inside hr hitems)
  exact keeps_oneOf (by simp [hlist])

/-- The state of a player is touched under its mutex. -/
theorem keeps_touch_state (hr : r ≤ 4) :
    Keeps r (.under (.state n) (oneOf [.skip, .touch (.state_ n)])) := by
  have htouch : Neutral discipline (Inside (Below discipline r) (.state n))
      (.touch (.state_ n)) := Neutral.touch fun _ ⟨_, heq, _⟩ => heq ▸ List.mem_cons_self
  exact keeps_under hr (Neutral.skip.choice htouch)

theorem le_player (hr : r ≤ 1) : r ≤ Mutex.rank (.player n) :=
  Nat.le_trans hr (Nat.le_of_ble_eq_true rfl)

/-- The engine is the only mutex below a list. -/
theorem eq_engine_of_rank (h : m.rank < 1) : m = .engine := by
  cases m <;> simp [Mutex.rank] at h ⊢

/-- **What is held while mplayer is waited for** where a session was locked last, and
nothing before it but the engine. -/
theorem mayHold_mplayer (hr : r ≤ 1) {held : List Mutex}
    (hin : Inside (Below discipline r) (.player n) held) :
    ∀ m ∈ held, discipline.mayHold (.mplayer n) m := by
  obtain ⟨held', rfl, hbelow⟩ := hin
  refine List.forall_mem_cons.mpr ⟨Or.inr rfl, fun m hm => Or.inl ?_⟩
  exact eq_engine_of_rank (Nat.lt_of_lt_of_le (hbelow m hm) hr)

theorem neutral_print (hr : r ≤ 1) :
    Neutral discipline (Inside (Below discipline r) (.player n)) (print n) :=
  Neutral.wait fun _ hin => mayHold_mplayer hr hin

@[simp] theorem keeps_mergeState (hr : r ≤ 4) : Keeps r (mergeState n) :=
  keeps_under hr (Neutral.touch fun _ ⟨_, heq, _⟩ => heq ▸ List.mem_cons_self)

/-- What is printed is printed under the mutex of the session. -/
@[simp] theorem keeps_setSpeed (hr : r ≤ 1) : Keeps r (setSpeed n) :=
  keeps_under (le_player hr) (Neutral.skip.choice (neutral_print hr))

@[simp] theorem keeps_seek (hr : r ≤ 1) : Keeps r (seek n) := keeps_setSpeed hr

@[simp] theorem keeps_getProperty (hr : r ≤ 1) : Keeps r (getProperty n) := by
  have hr' : r ≤ Mutex.rank (.player n) := le_player hr
  have hstate : Keeps 4 (oneOf [.skip, .under (.state n) (oneOf [.skip, .touch (.state_ n)])]) :=
    keeps_oneOf (by simp [keeps_touch_state (n := n) (Nat.le_refl 4)])
  have hprint := neutral_print (n := n) hr
  have hanswer := hprint.seq ((Keeps.inside hr' hstate).seq Neutral.skip)
  have hplayer := keeps_under hr' (hprint.seq ((Neutral.skip.choice hanswer).seq Neutral.skip))
  exact Neutral.skip.choice hplayer

/-- **`Play` keeps the order**, though its scopes overlap: the session is
locked, and its state only then, or alone. What waits for mplayer in it holds
no more than may be held. -/
@[simp] theorem keeps_play (hr : r ≤ 1) : Keeps r (play n) := by
  intro held hbelow
  have hplayer : ∀ m ∈ held, m.rank < Mutex.rank (.player n) :=
    below_mono (le_player hr) held hbelow
  have hstate : ∀ m ∈ held, m.rank < Mutex.rank (.state n) :=
    fun m hm => Nat.lt_succ_of_lt (hplayer m hm)
  have hboth : ∀ m ∈ Mutex.player n :: held, m.rank < Mutex.rank (.state n) :=
    List.forall_mem_cons.mpr ⟨Nat.lt_succ_self 3, hstate⟩
  have hproperty := keeps_getProperty (n := n) hr held hbelow
  have hturn : Checked discipline held (.player n :: held)
      (block [.unlock (.player n), getProperty n, getProperty n, getProperty n, getProperty n,
        .lock (.player n)]) (.player n :: held) :=
    .seq .unlock_head (.seq hproperty (.seq hproperty (.seq hproperty (.seq hproperty
      (.seq (.lock hplayer) .skip)))))
  -- mplayer is gone before its state is cleared
  have hgone : Checked discipline held (.player n :: held) (.wait (.mplayer n))
      (.player n :: held) := .wait (mayHold_mplayer hr ⟨held, rfl, hbelow⟩)
  exact .seq (.lock hstate) (.seq (.touch List.mem_cons_self) (.seq .unlock_head
    (.seq (.lock hplayer) (.seq (.loop hturn) (.seq hgone (.seq (.lock hboth)
    (.seq (.touch List.mem_cons_self) (.seq (.unlock_second nofun)
    (.seq .unlock_head .skip)))))))))

@[simp] theorem keeps_playItem (hr : r ≤ 1) : Keeps r (playItem n i) := by
  have hcount : Keeps r (block [incrementPlaycount i, store (.item i)]) :=
    keeps_block (by simp [Nat.le_succ_of_le hr])
  have hcounted : Keeps r (oneOf [.skip, block [incrementPlaycount i, store (.item i)]]) :=
    keeps_oneOf (by simp [hcount])
  exact keeps_block (by simp [hcounted, hr])

/-- `Pause` locks the state within the scope of the session, and has released it when it
prints. -/
@[simp] theorem keeps_pause (hr : r ≤ 1) : Keeps r (pause n) := by
  have hr' : r ≤ Mutex.rank (.player n) := le_player hr
  refine keeps_under hr' fun held hin => ?_
  have hstate : ∀ m ∈ held, m.rank < Mutex.rank (.state n) :=
    hin.below (below_mono hr') (Nat.lt_succ_self 3)
  have hprint : Checked discipline held held (print n) held := neutral_print hr held hin
  exact .seq (.lock hstate) (.seq (.choice .unlock_head
    (.seq (.touch List.mem_cons_self) (.seq .unlock_head
      (.seq hprint (.seq hprint .skip))))) .skip)

/-- `Unpause` waits for a signal only when it has released both mutexes, in a thread
that holds no other. -/
@[simp] theorem keeps_unpause : Keeps 0 (unpause n) := by
  intro held hbelow
  obtain rfl : held = [] := List.eq_nil_iff_forall_not_mem.mpr
    fun m hm => absurd (hbelow m hm) (Nat.not_lt_zero _)
  have hstate : ∀ m ∈ [Mutex.player n], m.rank < Mutex.rank (.state n) :=
    List.forall_mem_singleton.mpr (Nat.lt_succ_self 3)
  have hfree : Checked discipline [] [.state n, .player n]
      (block [.unlock (.state n), .unlock (.player n)]) [] :=
    .seq .unlock_head (.seq .unlock_head .skip)
  exact .seq (.lock nofun) (.seq (.lock hstate) (.seq (.choice hfree
    (.seq (.touch List.mem_cons_self) (.seq (.choice
      (.seq (.unlock_second nofun) (.seq .unlock_head (.seq (.wait nofun) .skip)))
      hfree) .skip))) .skip))

@[simp] theorem keeps_setMainshow (hr : r ≤ 1) : Keeps r setMainshow :=
  keeps_block (by simp [hr])

@[simp] theorem keeps_setMainshowTo (hr : r ≤ 1) : Keeps r setMainshowTo := by
  have hnamed : Keeps r (oneOf [name mainshow_, setMainshow]) := keeps_oneOf (by simp [hr])
  have hfound : Keeps r (block [fetchList mainshow_, oneOf [name mainshow_, setMainshow]]) :=
    keeps_block (by simp [hr, hnamed])
  exact keeps_oneOf (by simp [hr, hfound])

@[simp] theorem keeps_playFiles (hr : r ≤ 1) : Keeps r (playFiles n i) := by
  have hitem : Keeps r (block [access (.item i), playItem n i]) :=
    keeps_block (by simp [hr, Nat.le_succ_of_le hr])
  exact keeps_loop (keeps_oneOf (by simp [hr, hitem]))

@[simp] theorem keeps_legalId (hr : r ≤ 1) : Keeps r (legalId n p i) := by
  have hr' : r ≤ 2 := Nat.le_succ_of_le hr
  have htry : Keeps r (.loop (block [size p, popWithTimelimit p i, playItem n i])) :=
    keeps_loop (keeps_block (by simp [hr]))
  exact keeps_block (by simp [hr, hr', htry])

@[simp] theorem keeps_setPlaylist (hr : r ≤ 1) : Keeps r setPlaylist :=
  keeps_oneOf (by simp [hr])

@[simp] theorem keeps_runBlock (hr : r ≤ 1) : Keeps r (runBlock n p i) := by
  exact keeps_loop (keeps_oneOf (by simp [hr]))

theorem neutral_touch_schedule :
    Neutral discipline (Inside (Below discipline 0) .engine) (.touch .schedule_) :=
  Neutral.touch fun _ ⟨_, heq, _⟩ => heq ▸ List.mem_cons_self

@[simp] theorem keeps_onSchedule : Keeps 0 onSchedule :=
  keeps_under (Nat.zero_le _) neutral_touch_schedule

@[simp] theorem keeps_save : Keeps 0 save :=
  keeps_under (Nat.zero_le _) (neutral_touch_schedule.seq (Neutral.mayThrow.seq Neutral.skip))

/-- The commands of a block take what they take above the engine. -/
@[simp] theorem keeps_handleReboot : Keeps 0 (handleReboot n p i) := by
  have hblock : Keeps 1 (runBlock n p i) := keeps_runBlock (Nat.le_refl 1)
  exact keeps_under (Nat.zero_le _) (neutral_touch_schedule.seq
    (Neutral.seq (Keeps.inside (Nat.zero_le _) hblock) Neutral.skip))

@[simp] theorem keeps_resetBumpers (hr : r ≤ 1) : Keeps r (resetBumpers p) := by
  have hnamed : Keeps r (block [lockByName p, fetchList bumperlist_]) :=
    keeps_block (by simp [hr, Nat.le_succ_of_le hr])
  exact keeps_oneOf (by simp [hr, hnamed])

@[simp] theorem keeps_manualOverride : Keeps 0 (manualOverride i) := by
  have hcheck : Keeps 0 (oneOf [.skip, size override_playlist_]) := keeps_oneOf (by simp)
  have hplay : Keeps 0 (oneOf [playItem main_player_ i, .skip]) := keeps_oneOf (by simp)
  have hloop : Keeps 0 (.loop (block [oneOf [.skip, size override_playlist_],
      popFront override_playlist_ i, oneOf [playItem main_player_ i, .skip]])) :=
    keeps_loop (keeps_block (by simp [hcheck, hplay]))
  exact keeps_block (by simp [hloop])

/-- **`RunOnce` keeps the order.** It holds no mutex while it calls others,
apart from those that they take themselves. -/
@[simp] theorem keeps_runOnce : Keeps 0 (runOnce p i) := by
  have hreset : Keeps 0 (oneOf [resetBumpers p, .skip, size bumperlist_]) :=
    keeps_oneOf (by simp)
  have hblock : Keeps 0 (block [runBlock main_player_ p i, resetBumpers p]) :=
    keeps_block (by simp)
  have hsize : Keeps 0 (oneOf [.skip, size mainshow_]) := keeps_oneOf (by simp)
  have habandon : Keeps 0 (block [name mainshow_, setMainshow]) := keeps_block (by simp)
  have hplay : Keeps 0 (oneOf [playItem main_player_ i, .skip]) := keeps_oneOf (by simp)
  have hbumper : Keeps 0 (block [popWithTimelimit bumperlist_ i,
      oneOf [playItem main_player_ i, .skip]]) := keeps_block (by simp [hplay])
  have hlast : Keeps 0 (block [oneOf [.skip, size mainshow_],
      oneOf [block [name mainshow_, setMainshow],
        block [popWithTimelimit bumperlist_ i, oneOf [playItem main_player_ i, .skip]]]]) :=
    keeps_block (by simp [hsize, keeps_oneOf, habandon, hbumper])
  have htrack : Keeps 0 (block [popWithTimelimit mainshow_ i, oneOf [playItem main_player_ i,
      block [oneOf [.skip, size mainshow_], oneOf [block [name mainshow_, setMainshow],
        block [popWithTimelimit bumperlist_ i, oneOf [playItem main_player_ i, .skip]]]]]]) :=
    keeps_block (by simp [keeps_oneOf, hlast])
  exact keeps_block (by simp [hreset, keeps_oneOf, hblock, htrack])

theorem keeps_mainThread (p i : ℕ) : Keeps 0 (mainThread p i) := by
  have hboot : Keeps 0 (oneOf [handleReboot main_player_ p i, .skip]) := keeps_oneOf (by simp)
  have hloop : Keeps 0 (.loop (runOnce p i)) := keeps_loop keeps_runOnce
  exact keeps_block (by simp [hboot, hloop])

/-! ## Requests keep it -/

@[simp] theorem keeps_overrideCommand : Keeps 0 overrideCommand := by
  have hdisable : Keeps 0 (block [unpause main_player_, setSpeed main_player_]) :=
    keeps_block (by simp)
  exact keeps_oneOf (by simp [hdisable])

@[simp] theorem keeps_requirementsCommand : Keeps 0 (requirementsCommand n p i) := by
  have hfetch : Keeps 0 (block [onSchedule, mayThrow]) := keeps_block (by simp)
  have hupdate : Keeps 0 (block [mayThrow, onSchedule, save]) := keeps_block (by simp)
  have hrun : Keeps 0 (block [mayThrow, runBlock n p i]) := keeps_block (by simp)
  exact keeps_oneOf (by simp [hfetch, hupdate, hrun])

@[simp] theorem keeps_getNewlist : Keeps 0 (getNewlist p) := keeps_loop (by simp)

@[simp] theorem keeps_fetchPlaylistFromParams : Keeps 0 (fetchPlaylistFromParams p) := by
  have hall : Keeps 0 (block [mayThrow, fetchList p]) := keeps_block (by simp)
  exact keeps_oneOf (by simp [hall])

@[simp] theorem keeps_playlistFetch : Keeps 0 (playlistFetch q p i) := by
  have hfilter : Keeps 0 (oneOf [filter q i, access (.playlist q)]) := keeps_oneOf (by simp)
  have hsave : Keeps 0 (block [oneOf [filter q i, access (.playlist q)], getNewlist p,
      access (.playlist p), store (.playlist p), mayThrow]) := keeps_block (by simp [hfilter])
  have hreturn : Keeps 0 (block [oneOf [filter q i, access (.playlist q)], mayThrow]) :=
    keeps_block (by simp [hfilter])
  exact keeps_block (by simp [keeps_oneOf, hsave, hreturn])

@[simp] theorem keeps_playlistUpdate : Keeps 0 (playlistUpdate q p) := by
  have hfetch : Keeps 0 (oneOf [.skip, fetchList p]) := keeps_oneOf (by simp)
  have hstore : Keeps 0 (block [store (.playlist q), access (.playlist q), mayThrow]) :=
    keeps_block (by simp)
  exact keeps_block (by simp [hfetch, keeps_oneOf, hstore])

@[simp] theorem keeps_playerCommand : Keeps 0 playerCommand := by
  have hstate : Keeps 0 (block [mergeState main_player_, mayThrow]) := keeps_block (by simp)
  have hspeed : Keeps 0 (block [mayThrow, setSpeed main_player_]) := keeps_block (by simp)
  have hseek : Keeps 0 (block [mayThrow, seek main_player_]) := keeps_block (by simp)
  exact keeps_oneOf (by simp [stop, hstate, hspeed, hseek])

theorem keeps_webThread (n p i : ℕ) : Keeps 0 (webThread n p i) := by
  have hrequest : Keeps 0 (request n p i) := keeps_oneOf (by simp [sqlCommand, playlistAll])
  exact keeps_loop (keeps_attempt hrequest)

/-! ## All threads -/

/-- The threads of the process: the main thread, and those of the web server.
The objects of each have the numbers given, and so has its player. Any of
them may be the same as another's. -/
def threads {T : Type} [DecidableEq T] (main : T) (n p i : T → ℕ) (t : T) : Locking :=
  if t = main then mainThread (p t) (i t) else webThread (n t) (p t) (i t)

variable {T : Type} [DecidableEq T]

theorem checked_threads (main : T) (n p i : T → ℕ) (t : T) :
    Checked discipline [] [] (threads main n p i t) [] := by
  unfold threads
  split
  · exact keeps_mainThread _ _ [] nofun
  · exact keeps_webThread _ _ _ [] nofun

/-- **No deadlock**: whatever the threads have done, one that wants a mutex waits,
directly or through others, for one that goes on, or that its mplayer keeps waiting.

The one at the end of such a chain may hold the mutex of the engine, as `HandleReboot`
plays under it, and that of its session. It never waits for a signal. -/
theorem deadlockFree_of_run (main : T) (n p i : T → ℕ)
    {trace : List (Process T Mutex Guarded Outside × T)} {s : Process T Mutex Guarded Outside}
    (hrun : Transitions.Run Process.Step (Process.start (threads main n p i)) trace s) :
    s.DeadlockFree Outside.mayHold := by
  obtain ⟨held, h⟩ := Process.consistent_of_run (checked_threads main n p i) hrun
  exact h.deadlockFree Mutex.rank_lt

/-- **No two threads touch the schedule at once**, nor the state of a player.
Any number of threads may take part, in any order, and the objects that they
work on may be the same ones. -/
theorem exclusive_of_run (main : T) (n p i : T → ℕ)
    {trace : List (Process T Mutex Guarded Outside × T)} {s : Process T Mutex Guarded Outside}
    (hrun : Transitions.Run Process.Step (Process.start (threads main n p i)) trace s) :
    s.Exclusive Guarded.mutex := by
  obtain ⟨held, h⟩ := Process.consistent_of_run (checked_threads main n p i) hrun
  exact h.exclusive

/-! ## While the automation boots

Two runs, of the main thread and one of the web server. In the first one the main thread is
about to look at the schedule for a block it missed, and a request wants to fetch it. In the
second one it plays a file of that block, has asked mplayer for a property and waits for it
to read; and a request wants to pause the player. -/

/-- The main thread and one of the web server. -/
def twoThreads : Bool → Locking := threads true (fun _ => 1) (fun _ => 3) fun _ => 0

/-- Steps of a thread, with a choice for each. -/
def stepsOf (main : Bool) (choices : List Bool) : List (Bool × Bool) :=
  choices.map fun choice => (main, choice)

/-- The main thread has selected a list and locked the engine; then `/requirements/fetch`
gets to where it locks it. -/
def fetchingSchedule : List (Bool × Bool) :=
  stepsOf true (List.replicate 14 true)
    ++ stepsOf false [true, true, false, true, true, true]

/-- The main thread goes on to a file of the block and asks for a first property; then
`/player/pause` gets to where it locks the session. -/
def pausingPlayer : List (Bool × Bool) :=
  stepsOf true (List.replicate 17 true ++ [false, true, true, false] ++ List.replicate 13 true
      ++ [false, true, true])
    ++ stepsOf false ([true, true] ++ List.replicate 13 false ++ [true])

/-- The process after the steps of a run. -/
def after (steps : List (Bool × Bool))
    (h : ((Process.start twoThreads).follow steps).isSome = true) :
    Process Bool Mutex Guarded Outside :=
  ((Process.start twoThreads).follow steps).get h

/-- The process after some steps is reached by a run. -/
theorem run_after (steps : List (Bool × Bool))
    (h : ((Process.start twoThreads).follow steps).isSome = true) :
    ∃ trace, Transitions.Run Process.Step (Process.start twoThreads) trace (after steps h) :=
  Process.run_of_follow .nil (Option.some_get h).symm

/-- A request wants to fetch the schedule. -/
def fetching : Process Bool Mutex Guarded Outside := after fetchingSchedule (by decide +kernel)

/-- A request wants to pause the player. -/
def pausing : Process Bool Mutex Guarded Outside := after pausingPlayer (by decide +kernel)

/-- **The request has to wait**: the main thread is about to touch the
schedule, and holds the mutex that the request wants. -/
theorem exclusive_fetching :
    (fetching.thread true).Touches .schedule_ ∧ fetching.holder .engine = some true
      ∧ (fetching.thread false).Wants .engine ∧ fetching.Exclusive Guarded.mutex := by
  obtain ⟨trace, hrun⟩ := run_after fetchingSchedule (by decide +kernel)
  exact ⟨⟨rfl, rfl⟩, rfl, ⟨rfl, Or.inr ⟨_, rfl⟩⟩,
    exclusive_of_run true (fun _ => 1) (fun _ => 3) (fun _ => 0) hrun⟩

/-- **The request waits for the main thread, which waits for mplayer**: it
holds the session while it prints, and is kept waiting, as it may be. -/
theorem deadlockFree_pausing :
    (pausing.thread true).Rests (.mplayer 0) ∧ pausing.holder (.player 0) = some true
      ∧ (pausing.thread false).Wants (.player 0) ∧ pausing.DeadlockFree Outside.mayHold := by
  obtain ⟨trace, hrun⟩ := run_after pausingPlayer (by decide +kernel)
  exact ⟨⟨rfl, rfl⟩, rfl, ⟨rfl, Or.inr ⟨_, rfl⟩⟩,
    deadlockFree_of_run true (fun _ => 1) (fun _ => 3) (fun _ => 0) hrun⟩

end Locking
