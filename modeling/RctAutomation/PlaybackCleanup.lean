import Mathlib.Data.Int.Basic
import Mathlib.Logic.Function.Basic
import RctAutomation.Runs

/-!
# The cleanup of a playback

`Play` owns two ends of pipes and a child process while mplayer runs. When it
is over, the child is killed and waited for, the ends are closed by number, and
then the streams made of them are closed, which closes the numbers once more.

The kernel gives a number that was freed to whoever asks next. So each step of
`Play` is modelled with the tables of descriptors and processes, and other
threads of the process take steps in between: they open and close descriptors,
fork, and call `Stop`. The log of the session keeps what each of its calls
met. In every run of `Play` that is completed, the session has closed each end
twice (`closes_of_done`), so none of them is clean (`not_clean_of_done`).
-/

open Transitions

/-- Who has a descriptor: the session, or any other thread of the process. -/
inductive Owner
  | session | other
  deriving DecidableEq

/-- What a process number stands for: nothing, the child of the session – which
lives, or has exited and was not waited for – or another process. -/
inductive Proc
  | free
  | child (alive : Bool)
  | other
  deriving DecidableEq

/-- A call of the session and what it met: who had the descriptor that was
closed, and what the process number stood for. -/
inductive CleanupEvent
  | closed (fd : ℕ) (owner : Option Owner)
  | signalled (pid : ℤ) (proc : Proc)
  deriving DecidableEq

/-- Where `Play` is, from the fork on. Each value stands for the call that
comes next. -/
inductive Pc
  | closeStdoutWrite | closeSlaveRead
  | waiting | polling
  | killing | reaping
  | closeStdout | closeSlave | clearPid | fcloseStdout | fcloseSlave
  | done
  deriving DecidableEq

/-- **A playback**: the tables of the kernel, the members of the session, the
numbers `Play` was given for its pipes, how many calls of `Stop` are past
their check, and the log. The log is never looked at; it keeps what each call
of the session met. -/
structure Playback where
  fds : ℕ → Option Owner
  procs : ℤ → Proc
  slave_pipe : Bool
  mplayer_pid : ℤ
  slave_pipefd : ℕ × ℕ
  pipefd : ℕ × ℕ
  pc : Pc
  stops : ℕ
  log : List CleanupEvent

/-- What happens: the next step of `Play`, which can find mplayer dead when it
polls; the child exits; a thread calls `Stop`, which checks and then kills;
another thread opens or closes a descriptor, or forks or waits. -/
inductive PlaybackAct
  | play (dead : Bool)
  | exit
  | stopCheck
  | stopKill
  | opened (fd : ℕ)
  | closed (fd : ℕ)
  | forked (pid : ℤ)
  | waited (pid : ℤ)

namespace Playback

/-! ## Steps -/

/-- A descriptor closed by the session, whoever has it. The kernel does not
ask whose it is. -/
def close (fd : ℕ) (pc : Pc) (p : Playback) : Playback :=
  { p with
    fds := Function.update p.fds fd none
    log := p.log ++ [.closed fd (p.fds fd)]
    pc := pc }

/-- `close` whose result is checked: a number that is free ends the process,
and one that another thread has been given is closed. -/
def checkedClose (fd : ℕ) (pc : Pc) (p : Playback) : Option Playback :=
  if p.fds fd = none then none else some (p.close fd pc)

/-- `kill(mplayer_pid_, 9)`. When the child exits is up to the kernel, so
nothing but the log changes here. -/
def kill (p : Playback) : Playback :=
  { p with log := p.log ++ [.signalled p.mplayer_pid (p.procs p.mplayer_pid)] }

/-- The child waited for: its number is free from now on. -/
def reap (p : Playback) : Playback :=
  { p with procs := Function.update p.procs p.mplayer_pid .free }

/-- **The next step of `Play`**, if it does not wait. It ends the process
where a check fails, and there is no next step then. -/
def play (dead : Bool) (p : Playback) : Option Playback :=
  match p.pc with
  | .closeStdoutWrite => some (p.close p.pipefd.2 .closeSlaveRead)
  | .closeSlaveRead => some (p.close p.slave_pipefd.1 .waiting)
  | .waiting =>
    -- `waitpid` with `WNOHANG`: the loop goes on while the child lives
    if p.procs p.mplayer_pid = .child true then some { p with pc := .polling }
    else if p.procs p.mplayer_pid = .child false then some { p.reap with pc := .killing }
    else some { p with pc := .killing }
  | .polling => some { p with pc := if dead then .killing else .waiting }
  -- the loop may have waited for the child already
  | .killing => some { p.kill with pc := .reaping }
  | .reaping =>
    if p.procs p.mplayer_pid = .child true then none
    else if p.procs p.mplayer_pid = .child false then some { p.reap with pc := .closeStdout }
    else some { p with pc := .closeStdout }
  -- both ends are closed by number, and then once more with their streams
  | .closeStdout => p.checkedClose p.pipefd.1 .closeSlave
  | .closeSlave => p.checkedClose p.slave_pipefd.2 .clearPid
  | .clearPid => some { p with mplayer_pid := -1, pc := .fcloseStdout }
  | .fcloseStdout => some (p.close p.pipefd.1 .fcloseSlave)
  | .fcloseSlave => some { p.close p.slave_pipefd.2 .done with slave_pipe := false }
  | .done => none

/-- The playback after something happened, where it can. Another thread is given
any number that is free, and closes only what is not the session's. -/
def next (p : Playback) : PlaybackAct → Option Playback
  | .play dead => p.play dead
  | .exit =>
    if p.procs p.mplayer_pid = .child true then
      some { p with procs := Function.update p.procs p.mplayer_pid (.child false) }
    else none
  | .stopCheck =>
    if p.slave_pipe = true ∧ p.mplayer_pid ≠ -1 then some { p with stops := p.stops + 1 } else none
  | .stopKill => if 0 < p.stops then some { p.kill with stops := p.stops - 1 } else none
  | .opened fd =>
    if p.fds fd = none then some { p with fds := Function.update p.fds fd (some .other) } else none
  | .closed fd =>
    if p.fds fd = some .other then some { p with fds := Function.update p.fds fd none } else none
  | .forked pid =>
    if p.procs pid = .free then some { p with procs := Function.update p.procs pid .other }
    else none
  | .waited pid =>
    if p.procs pid = .other then some { p with procs := Function.update p.procs pid .free }
    else none

/-- What can happen leads to the playback after it. -/
def Step (p : Playback) (a : PlaybackAct) (p' : Playback) : Prop := p.next a = some p'

/-- `Play` right after the fork: its four descriptors are different, and the
child lives. The kernel promises as much of the numbers that it gives out. -/
structure Forked (p : Playback) : Prop where
  pc : p.pc = .closeStdoutWrite
  log : p.log = []
  fds : ∀ fd ∈ [p.pipefd.1, p.pipefd.2, p.slave_pipefd.1, p.slave_pipefd.2],
    p.fds fd = some .session
  nodup : [p.pipefd.1, p.pipefd.2, p.slave_pipefd.1, p.slave_pipefd.2].Nodup
  pid : p.mplayer_pid ≠ -1
  child : p.procs p.mplayer_pid = .child true

/-! ## What a cleanup should do -/

/-- How often the session has closed a number, whoever had it. -/
def closes (fd : ℕ) (log : List CleanupEvent) : ℕ :=
  log.countP fun
    | .closed fd' _ => fd' == fd
    | .signalled _ _ => false

/-- **A cleanup that touches only what the session owns**: no descriptor of
another thread is closed, each end once, and no process number is signalled
after the child was waited for. -/
structure Clean (p : Playback) : Prop where
  foreign : ∀ fd, CleanupEvent.closed fd (some .other) ∉ p.log
  stdout_once : closes p.pipefd.1 p.log = 1
  slave_once : closes p.slave_pipefd.2 p.log = 1
  signals : ∀ pid proc, CleanupEvent.signalled pid proc ∈ p.log →
    proc = .child true ∨ proc = .child false

/-- How often `Play` has closed the end it reads from, where it is. -/
def closesOfStdout : Pc → ℕ
  | .closeSlave | .clearPid | .fcloseStdout => 1
  | .fcloseSlave | .done => 2
  | _ => 0

/-- And the end it writes to. -/
def closesOfSlave : Pc → ℕ
  | .clearPid | .fcloseStdout | .fcloseSlave => 1
  | .done => 2
  | _ => 0

/-- **Each end is closed as often as the steps of `Play` say**, and the
numbers of the four descriptors stay different, as they are never assigned
again. -/
structure Counted (p : Playback) : Prop where
  nodup : [p.pipefd.1, p.pipefd.2, p.slave_pipefd.1, p.slave_pipefd.2].Nodup
  stdout : closes p.pipefd.1 p.log = closesOfStdout p.pc
  slave : closes p.slave_pipefd.2 p.log = closesOfSlave p.pc

theorem Forked.counted {p : Playback} (h : p.Forked) : p.Counted where
  nodup := h.nodup
  stdout := by rw [h.log, h.pc]; rfl
  slave := by rw [h.log, h.pc]; rfl

theorem closes_append (fd : ℕ) (log log' : List CleanupEvent) :
    closes fd (log ++ log') = closes fd log + closes fd log' := List.countP_append

/-- Closing a number counts for that number. -/
theorem closes_closed (fd fd' : ℕ) (owner : Option Owner) :
    closes fd [.closed fd' owner] = if fd' = fd then 1 else 0 := by
  unfold closes
  rw [List.countP_singleton]
  simp only [beq_iff_eq]

/-- A signal counts for none. -/
theorem closes_signalled (fd : ℕ) (pid : ℤ) (proc : Proc) :
    closes fd [.signalled pid proc] = 0 := rfl

/-- What neither closes nor goes on keeps the counts. -/
theorem Counted.of_kept {p p' : Playback} (h : p.Counted) (hpipe : p'.pipefd = p.pipefd)
    (hslave : p'.slave_pipefd = p.slave_pipefd)
    (hlog : ∀ fd, closes fd p'.log = closes fd p.log)
    (hpc : closesOfStdout p'.pc = closesOfStdout p.pc ∧ closesOfSlave p'.pc = closesOfSlave p.pc) :
    p'.Counted where
  nodup := by rw [hpipe, hslave]; exact h.nodup
  stdout := by rw [hpipe, hlog, h.stdout, hpc.1]
  slave := by rw [hslave, hlog, h.slave, hpc.2]

/-- Closing a descriptor counts it for its end. -/
theorem Counted.close {p : Playback} (h : p.Counted) {fd : ℕ} {pc : Pc}
    (hstdout : closesOfStdout pc = closesOfStdout p.pc + if fd = p.pipefd.1 then 1 else 0)
    (hslave : closesOfSlave pc = closesOfSlave p.pc + if fd = p.slave_pipefd.2 then 1 else 0) :
    (p.close fd pc).Counted where
  nodup := h.nodup
  stdout := by
    show closes p.pipefd.1 (p.log ++ [.closed fd (p.fds fd)]) = closesOfStdout pc
    rw [closes_append, closes_closed, h.stdout, hstdout]
  slave := by
    show closes p.slave_pipefd.2 (p.log ++ [.closed fd (p.fds fd)]) = closesOfSlave pc
    rw [closes_append, closes_closed, h.slave, hslave]

/-- The four numbers are different. -/
theorem Counted.ne {p : Playback} (h : p.Counted) :
    p.pipefd.2 ≠ p.pipefd.1 ∧ p.pipefd.2 ≠ p.slave_pipefd.2 ∧ p.slave_pipefd.1 ≠ p.pipefd.1
      ∧ p.slave_pipefd.1 ≠ p.slave_pipefd.2 ∧ p.pipefd.1 ≠ p.slave_pipefd.2 := by
  have h := h.nodup
  simp only [List.nodup_cons, List.mem_cons, List.not_mem_nil, not_or, or_false] at h
  obtain ⟨⟨h₁, h₂, h₃⟩, ⟨-, h₄⟩, h₅, -⟩ := h
  exact ⟨Ne.symm h₁, h₄, Ne.symm h₂, h₅, h₃⟩

/-- A signal keeps the counts. -/
theorem closes_kill (fd : ℕ) (p : Playback) : closes fd p.kill.log = closes fd p.log := by
  show closes fd (p.log ++ [.signalled p.mplayer_pid (p.procs p.mplayer_pid)]) = _
  rw [closes_append, closes_signalled]
  rfl

/-- A close that is checked is a close. -/
theorem eq_of_checkedClose {p p' : Playback} {fd : ℕ} {pc : Pc}
    (h : p.checkedClose fd pc = some p') : p' = p.close fd pc := by
  unfold checkedClose at h
  split at h
  · cases h
  · exact (Option.some.inj h).symm

/-- **Every step of `Play` keeps the counts.** There is one case for each
place in `Play`; the steps that close nothing leave the log as it is for
these numbers. -/
theorem Counted.play {p p' : Playback} (h : p.Counted) {dead : Bool}
    (hplay : p.play dead = some p') : p'.Counted := by
  obtain ⟨hne₁, hne₂, hne₃, hne₄, hne₅⟩ := h.ne
  unfold Playback.play at hplay
  cases hpc : p.pc with
  | closeStdoutWrite =>
    rw [hpc] at hplay
    obtain rfl := Option.some.inj hplay
    exact h.close (by rw [hpc, if_neg hne₁]; rfl) (by rw [hpc, if_neg hne₂]; rfl)
  | closeSlaveRead =>
    rw [hpc] at hplay
    obtain rfl := Option.some.inj hplay
    exact h.close (by rw [hpc, if_neg hne₃]; rfl) (by rw [hpc, if_neg hne₄]; rfl)
  | waiting =>
    rw [hpc] at hplay
    dsimp only at hplay
    split at hplay
    · obtain rfl := Option.some.inj hplay
      exact h.of_kept rfl rfl (fun _ => rfl) (by rw [hpc]; exact ⟨rfl, rfl⟩)
    · split at hplay
      · obtain rfl := Option.some.inj hplay
        exact h.of_kept rfl rfl (fun _ => rfl) (by rw [hpc]; exact ⟨rfl, rfl⟩)
      · obtain rfl := Option.some.inj hplay
        exact h.of_kept rfl rfl (fun _ => rfl) (by rw [hpc]; exact ⟨rfl, rfl⟩)
  | polling =>
    rw [hpc] at hplay
    obtain rfl := Option.some.inj hplay
    refine h.of_kept rfl rfl (fun _ => rfl) ?_
    rw [hpc]
    cases dead <;> exact ⟨rfl, rfl⟩
  | killing =>
    rw [hpc] at hplay
    obtain rfl := Option.some.inj hplay
    exact h.of_kept rfl rfl (fun fd => closes_kill fd p) (by rw [hpc]; exact ⟨rfl, rfl⟩)
  | reaping =>
    rw [hpc] at hplay
    dsimp only at hplay
    split at hplay
    · cases hplay
    · split at hplay
      · obtain rfl := Option.some.inj hplay
        exact h.of_kept rfl rfl (fun _ => rfl) (by rw [hpc]; exact ⟨rfl, rfl⟩)
      · obtain rfl := Option.some.inj hplay
        exact h.of_kept rfl rfl (fun _ => rfl) (by rw [hpc]; exact ⟨rfl, rfl⟩)
  | closeStdout =>
    rw [hpc] at hplay
    obtain rfl := eq_of_checkedClose hplay
    exact h.close (by rw [hpc, if_pos rfl]; rfl) (by rw [hpc, if_neg hne₅]; rfl)
  | closeSlave =>
    rw [hpc] at hplay
    obtain rfl := eq_of_checkedClose hplay
    exact h.close (by rw [hpc, if_neg hne₅.symm]; rfl) (by rw [hpc, if_pos rfl]; rfl)
  | clearPid =>
    rw [hpc] at hplay
    obtain rfl := Option.some.inj hplay
    exact h.of_kept rfl rfl (fun _ => rfl) (by rw [hpc]; exact ⟨rfl, rfl⟩)
  | fcloseStdout =>
    rw [hpc] at hplay
    obtain rfl := Option.some.inj hplay
    exact h.close (by rw [hpc, if_pos rfl]; rfl) (by rw [hpc, if_neg hne₅]; rfl)
  | fcloseSlave =>
    rw [hpc] at hplay
    obtain rfl := Option.some.inj hplay
    have hclosed : (p.close p.slave_pipefd.2 .done).Counted :=
      h.close (by rw [hpc, if_neg hne₅.symm]; rfl) (by rw [hpc, if_pos rfl]; rfl)
    exact hclosed.of_kept rfl rfl (fun _ => rfl) ⟨rfl, rfl⟩
  | done =>
    rw [hpc] at hplay
    cases hplay

/-- **And so does whatever happens beside them.** -/
theorem Counted.step {p p' : Playback} {a : PlaybackAct} (h : p.Counted) (hstep : p.Step a p') :
    p'.Counted := by
  unfold Step next at hstep
  cases a with
  | play dead => exact h.play hstep
  | stopKill =>
    obtain ⟨-, hp'⟩ := Option.ite_none_right_eq_some.mp hstep
    obtain rfl := Option.some.inj hp'
    exact h.of_kept rfl rfl (fun fd => closes_kill fd p) ⟨rfl, rfl⟩
  | _ =>
    obtain ⟨-, hp'⟩ := Option.ite_none_right_eq_some.mp hstep
    obtain rfl := Option.some.inj hp'
    exact h.of_kept rfl rfl (fun _ => rfl) ⟨rfl, rfl⟩

/-- Each end is closed twice by a `Play` that is completed. -/
theorem closes_of_done {p₀ p : Playback} (h₀ : p₀.Forked) {trace : List (Playback × PlaybackAct)}
    (hrun : Run Step p₀ trace p) (hdone : p.pc = .done) :
    closes p.pipefd.1 p.log = 2 ∧ closes p.slave_pipefd.2 p.log = 2 := by
  have hcounted := (hrun.invariant Counted (fun _ _ => True) h₀.counted
    (fun _ _ _ h _ hstep => h.step hstep) (fun _ _ => trivial)).1
  exact ⟨by rw [hcounted.stdout, hdone]; rfl, by rw [hcounted.slave, hdone]; rfl⟩

/-- **No cleanup is clean**: along every path through `Play` and with any
steps of other threads in between, each end is closed twice.

`fclose` closes the descriptor of its stream, and `close` is called for the
same ones before it. In between another thread may be given the number, and
it is then its file that is closed. -/
theorem not_clean_of_done {p₀ p : Playback} (h₀ : p₀.Forked)
    {trace : List (Playback × PlaybackAct)} (hrun : Run Step p₀ trace p) (hdone : p.pc = .done) :
    ¬p.Clean := by
  intro hclean
  have htwice := (closes_of_done h₀ hrun hdone).1
  rw [hclean.stdout_once] at htwice
  exact absurd htwice (by decide)

/-- A playback whose child is process 7, with the descriptors from 3 to 6. -/
def ofChild7 : Playback where
  fds fd := if fd ∈ [3, 4, 5, 6] then some .session else none
  procs pid := if pid = 7 then .child true else .free
  slave_pipe := true
  mplayer_pid := 7
  slave_pipefd := (3, 4)
  pipefd := (5, 6)
  pc := .closeStdoutWrite
  stops := 0
  log := []

theorem forked_ofChild7 : ofChild7.Forked := ⟨rfl, rfl, by decide, by decide, by decide, rfl⟩

/-- A track that ends by itself, with no other thread about. The second close
of each end finds nothing open then. -/
theorem not_clean_of_done_quiet :
    ∃ p : Playback, p.log = [.closed 6 (some .session), .closed 3 (some .session),
        .signalled 7 .free, .closed 5 (some .session), .closed 4 (some .session),
        .closed 5 none, .closed 4 none]
      ∧ ¬p.Clean := by
  obtain ⟨p, hp⟩ : ∃ p, [.play false, .play false, .exit, .play false, .play false, .play false,
      .play false, .play false, .play false, .play false, PlaybackAct.play false].foldlM next
        ofChild7 = some p := Option.isSome_iff_exists.mp rfl
  obtain ⟨trace, hrun, -⟩ := Run.of_foldlM hp
  obtain rfl := Option.some.inj hp
  exact ⟨_, rfl, not_clean_of_done forked_ofChild7 hrun rfl⟩

/-- **A cleanup that touches what others own**: the loop has waited for the
child, whose number is signalled all the same; and another thread is given
the number of a closed end, whose stream is closed after that. -/
theorem cleanup_touches_others :
    ∃ trace, ∃ p : Playback, Run Step ofChild7 trace p
      ∧ trace.map Prod.snd = [.play false, .play false, .exit, .play false, .play false,
        .play false, .play false, .play false, .opened 5, .play false, .play false, .play false]
      ∧ p.pc = .done ∧ .closed 5 (some .other) ∈ p.log ∧ .signalled 7 .free ∈ p.log
      ∧ closes 5 p.log = 2 ∧ closes 4 p.log = 2 := by
  obtain ⟨p, hp⟩ : ∃ p, [.play false, .play false, .exit, .play false, .play false, .play false,
      .play false, .play false, .opened 5, .play false, .play false,
      PlaybackAct.play false].foldlM next ofChild7 = some p := Option.isSome_iff_exists.mp rfl
  obtain ⟨trace, hrun, hacts⟩ := Run.of_foldlM hp
  obtain rfl := Option.some.inj hp
  exact ⟨trace, _, hrun, hacts, rfl, by decide, by decide, by decide, by decide⟩

end Playback
