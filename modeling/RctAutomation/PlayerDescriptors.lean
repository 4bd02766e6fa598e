import Mathlib.Data.List.Nodup
import Mathlib.Logic.Function.Basic

/-!
# The descriptors a player inherits

A process that is forked has all the descriptors its parent had open. The child
side of `MplayerSession::Play` closes those it knows to be another's, makes its
pipe the standard output and the error log the standard error, and then closes
the rest in a loop, all but the pipe that mplayer reads its commands from. The
loop should pass over that one, but it ends there.

So `childSide_inheritsOnly_iff`: the player gets no more than its own pipe only if
nothing is open beyond it. The child side of `CalculateDuration` has no
descriptor to spare and closes them all.
-/

/-- The number of the last descriptor that is closed. Those beyond it are
inherited in any case, and nothing is said about them here. -/
def AUTOMATION_MAX_FD : ℕ := 250

/-! ## Tables of descriptors -/

/-- **The descriptors of a process**: what each of them refers to, if it is
open. What there is to refer to is left to the type; only whether a
descriptor is open is asked. -/
abbrev Descriptors (F : Type*) := ℕ → Option F

namespace Descriptors

variable {F : Type*}

/-- A descriptor is open: it refers to something. -/
def IsOpen (t : Descriptors F) (i : ℕ) : Prop := (t i).isSome = true

instance (t : Descriptors F) (i : ℕ) : Decidable (t.IsOpen i) :=
  inferInstanceAs (Decidable (_ = true))

/-- `close`: the descriptor refers to nothing after it. A descriptor that is
not open is left as it is, since the source does not look at the error. -/
def close (t : Descriptors F) (i : ℕ) : Descriptors F := Function.update t i none

/-- `dup2`: the new descriptor refers to what the old one does, whatever it
did before. It fails for an old descriptor that is not open. -/
def dup2 (t : Descriptors F) (old new : ℕ) : Option (Descriptors F) :=
  (t old).map fun f => Function.update t new (some f)

theorem isOpen_close_iff {t : Descriptors F} {i j : ℕ} :
    (t.close i).IsOpen j ↔ t.IsOpen j ∧ j ≠ i := by
  unfold IsOpen close
  by_cases h : j = i
  · rw [h, Function.update_self]
    simp
  · rw [Function.update_of_ne h, and_iff_left h]

/-- A descriptor that is open can be duplicated, and the others stay as they
are. -/
theorem dup2_of_isOpen {t : Descriptors F} {old : ℕ} (h : t.IsOpen old) (new : ℕ) :
    ∃ t', t.dup2 old new = some t' ∧ ∀ j, t'.IsOpen j ↔ t.IsOpen j ∨ j = new := by
  obtain ⟨f, hf⟩ := Option.isSome_iff_exists.mp h
  refine ⟨Function.update t new (some f), ?_, fun j => ?_⟩
  · unfold dup2
    rw [hf]
    rfl
  · unfold IsOpen
    by_cases hj : j = new
    · rw [hj, Function.update_self]
      simp
    · rw [Function.update_of_ne hj, or_iff_left hj]

/-- **A loop that closes descriptors** from `i` on, up to `AUTOMATION_MAX_FD`
or to the first that is spared. `n` bounds the turns.

The condition is one of the loop, as in the source, so a descriptor that is
spared ends it and those after it stay open. -/
def closeFrom (spared : ℕ → Bool) : ℕ → ℕ → Descriptors F → Descriptors F
  | 0, _, t => t
  | n + 1, i, t =>
    if i ≤ AUTOMATION_MAX_FD && !spared i then closeFrom spared n (i + 1) (t.close i) else t

/-- **What the loop leaves open**: what it does not reach. A descriptor is
not reached if it comes before the first one or after the last one, or if one
that is spared comes before it or is it. -/
theorem isOpen_closeFrom_iff {spared : ℕ → Bool} {n i : ℕ} (hn : n + i = AUTOMATION_MAX_FD + 1)
    {t : Descriptors F} {j : ℕ} :
    (closeFrom spared n i t).IsOpen j
      ↔ t.IsOpen j
        ∧ (j < i ∨ AUTOMATION_MAX_FD < j ∨ ∃ k, i ≤ k ∧ k ≤ j ∧ spared k = true) := by
  induction n generalizing i t with
  | zero =>
    have hout : j < i ∨ AUTOMATION_MAX_FD < j := by omega
    rw [← or_assoc, and_iff_left (Or.inl hout)]
    rfl
  | succ n ih =>
    unfold closeFrom
    by_cases hspared : spared i = true
    · rw [if_neg (by simp [hspared])]
      refine (and_iff_left ?_).symm
      by_cases hj : j < i
      · exact Or.inl hj
      · exact Or.inr (Or.inr ⟨i, Nat.le_refl i, Nat.le_of_not_lt hj, hspared⟩)
    · rw [if_pos (by simp [hspared]; omega), ih (by omega), isOpen_close_iff, and_assoc]
      refine and_congr_right fun _ => ?_
      constructor
      · rintro ⟨hne, hj | hj | ⟨k, hk, hkj, hsp⟩⟩
        · exact Or.inl (by omega)
        · exact Or.inr (Or.inl hj)
        · exact Or.inr (Or.inr ⟨k, by omega, hkj, hsp⟩)
      · rintro (hj | hj | ⟨k, hk, hkj, hsp⟩)
        · exact ⟨by omega, Or.inl (by omega)⟩
        · exact ⟨by omega, Or.inr (Or.inl hj)⟩
        · have hki : k ≠ i := by
            rintro rfl
            exact hspared hsp
          exact ⟨by omega, Or.inr (Or.inr ⟨k, by omega, hkj, hsp⟩)⟩

/-- The loop from the first descriptor that is not a standard one. It has
turns for all of the descriptors up to the last. -/
def closeOthers (spared : ℕ → Bool) (t : Descriptors F) : Descriptors F :=
  closeFrom spared (AUTOMATION_MAX_FD - 2) 3 t

end Descriptors

/-! ## The child of Play -/

/-- **What `Play` forks with**: two pipes it has just made, each from its
first descriptor to its second one, and the error log.

The numbers below 3 are in use in the server by then, so the pipes have
larger ones. No order among the five is assumed, as the system gives a new
descriptor the lowest free number. -/
structure PlayFork (F : Type*) where
  /-- The descriptors of the server when it forks. -/
  table : Descriptors F
  /-- The pipe that mplayer reads its commands from, at its first end. -/
  slave_pipefd : ℕ × ℕ
  /-- The pipe that mplayer writes its answers to, at its second end. -/
  pipefd : ℕ × ℕ
  /-- The file that gets what mplayer writes to its standard error. -/
  errorfd_ : ℕ
  distinct : [slave_pipefd.1, slave_pipefd.2, pipefd.1, pipefd.2, errorfd_].Nodup
  isOpen : ∀ i ∈ [slave_pipefd.1, slave_pipefd.2, pipefd.1, pipefd.2, errorfd_], table.IsOpen i
  inRange : ∀ i ∈ [slave_pipefd.1, slave_pipefd.2, pipefd.1, pipefd.2],
    3 ≤ i ∧ i ≤ AUTOMATION_MAX_FD

namespace PlayFork

variable {F : Type*} (s : PlayFork F)

/-- **The descriptors mplayer is started with**; nothing if a check fails.

The child closes its parent's ends of the pipes and moves its own answer pipe
and the log over the standard descriptors. The loop is to close what is left,
and spares the pipe that `-input file=/dev/fd/…` names. -/
def childSide : Option (Descriptors F) :=
  let t := (s.table.close s.pipefd.1).close s.slave_pipefd.2
  (t.dup2 s.pipefd.2 1).bind fun t =>
    (t.dup2 s.errorfd_ 2).map fun t =>
      t.closeOthers (fun i => i == s.slave_pipefd.1)

/-- **Only its own pipe** is left open of what should be closed, and it is. -/
def InheritsOnly (child : Descriptors F) : Prop :=
  ∀ i, 3 ≤ i → i ≤ AUTOMATION_MAX_FD → (child.IsOpen i ↔ i = s.slave_pipefd.1)

/-- The parent's ends are none of the descriptors the child keeps. -/
theorem ne_ends :
    ∀ i ∈ [s.slave_pipefd.1, s.pipefd.2, s.errorfd_], i ≠ s.pipefd.1 ∧ i ≠ s.slave_pipefd.2 := by
  have hdistinct := s.distinct
  simp only [List.nodup_cons, List.mem_cons, not_or, List.not_mem_nil, not_false_eq_true,
    and_true] at hdistinct
  obtain ⟨⟨hs, hsp, -, -⟩, ⟨-, hsp₂, hse⟩, ⟨hp, hpe⟩, -⟩ := hdistinct
  simp only [List.mem_cons, List.not_mem_nil, or_false]
  rintro i (rfl | rfl | rfl)
  · exact ⟨hsp, hs⟩
  · exact ⟨Ne.symm hp, Ne.symm hsp₂⟩
  · exact ⟨Ne.symm hpe, Ne.symm hse⟩

/-- What is open when the parent's ends are closed. -/
theorem isOpen_ends (i : ℕ) :
    ((s.table.close s.pipefd.1).close s.slave_pipefd.2).IsOpen i
      ↔ s.table.IsOpen i ∧ i ≠ s.pipefd.1 ∧ i ≠ s.slave_pipefd.2 := by
  rw [Descriptors.isOpen_close_iff, Descriptors.isOpen_close_iff, and_assoc]

/-- **What mplayer inherits**: the descriptors from its pipe on that were
open and are not the parent's ends. The ones below its pipe have been
closed. -/
theorem childSide_isOpen :
    ∃ child, s.childSide = some child
      ∧ ∀ i, 3 ≤ i → i ≤ AUTOMATION_MAX_FD →
        (child.IsOpen i ↔ s.slave_pipefd.1 ≤ i ∧ s.table.IsOpen i ∧ i ≠ s.pipefd.1
          ∧ i ≠ s.slave_pipefd.2) := by
  have hpipe := (s.isOpen_ends s.pipefd.2).mpr ⟨s.isOpen _ (by simp), s.ne_ends _ (by simp)⟩
  obtain ⟨t₁, ht₁, hopen₁⟩ := Descriptors.dup2_of_isOpen hpipe 1
  have herror := (s.isOpen_ends s.errorfd_).mpr ⟨s.isOpen _ (by simp), s.ne_ends _ (by simp)⟩
  obtain ⟨t₂, ht₂, hopen₂⟩ := Descriptors.dup2_of_isOpen ((hopen₁ s.errorfd_).mpr (Or.inl herror)) 2
  refine ⟨t₂.closeOthers (fun i => i == s.slave_pipefd.1), ?_, fun i hlo hhi => ?_⟩
  · show ((_ : Descriptors F).dup2 s.pipefd.2 1).bind _ = _
    rw [ht₁]
    show (t₁.dup2 s.errorfd_ 2).map _ = _
    rw [ht₂]
    rfl
  · have hloop : (i < 3 ∨ AUTOMATION_MAX_FD < i
        ∨ ∃ k, 3 ≤ k ∧ k ≤ i ∧ (k == s.slave_pipefd.1) = true) ↔ s.slave_pipefd.1 ≤ i := by
      constructor
      · rintro (h | h | ⟨k, -, hk, heq⟩)
        · omega
        · omega
        · rw [← eq_of_beq heq]
          exact hk
      · intro h
        have hthree := (s.inRange s.slave_pipefd.1 (by simp)).1
        exact Or.inr (Or.inr ⟨_, hthree, h, beq_self_eq_true _⟩)
    have hi₁ : i ≠ 1 := by omega
    have hi₂ : i ≠ 2 := by omega
    unfold Descriptors.closeOthers
    rw [Descriptors.isOpen_closeFrom_iff (by decide), hloop, hopen₂, or_iff_left hi₂, hopen₁,
      or_iff_left hi₁, isOpen_ends, and_comm]

/-- **Nothing else reaches mplayer** exactly when nothing is open beyond its
pipe but the parent's ends of the two.

Its own end of the answer pipe, which has been moved over the standard output
by then, counts among what may not be open beyond it; so it never holds where
the pipes were given increasing numbers. -/
theorem childSide_inheritsOnly_iff :
    ∃ child, s.childSide = some child
      ∧ (s.InheritsOnly child
        ↔ ∀ i, s.slave_pipefd.1 < i → i ≤ AUTOMATION_MAX_FD → s.table.IsOpen i →
          i = s.pipefd.1 ∨ i = s.slave_pipefd.2) := by
  obtain ⟨child, hchild, hopen⟩ := s.childSide_isOpen
  obtain ⟨hthree, hmax⟩ := s.inRange s.slave_pipefd.1 (by simp)
  refine ⟨child, hchild, ?_⟩
  constructor
  · intro honly i hlt hle hi
    by_contra hother
    rw [not_or] at hother
    have hleft := (hopen i (by omega) hle).mpr ⟨Nat.le_of_lt hlt, hi, hother⟩
    exact absurd ((honly i (by omega) hle).mp hleft) (Nat.ne_of_gt hlt)
  · intro hends i hlo hhi
    rw [hopen i hlo hhi]
    constructor
    · rintro ⟨hle, hi, hne₁, hne₂⟩
      by_contra hne
      rcases hends i (Nat.lt_of_le_of_ne hle (Ne.symm hne)) hhi hi with h | h
      · exact hne₁ h
      · exact hne₂ h
    · rintro rfl
      exact ⟨Nat.le_refl _, s.isOpen _ (by simp), s.ne_ends _ (by simp)⟩

/-- Where pipes are made with the lowest descriptors that are free, the second one
lies behind the first. Then mplayer always has one more than its own: the end
it writes to. -/
theorem not_inheritsOnly_of_lt (h : s.slave_pipefd.1 < s.pipefd.2) :
    ∃ child, s.childSide = some child ∧ ¬s.InheritsOnly child ∧ child.IsOpen s.pipefd.2 := by
  obtain ⟨child, hchild, hopen⟩ := s.childSide_isOpen
  obtain ⟨hthree, hmax⟩ := s.inRange s.pipefd.2 (by simp)
  have hleft : child.IsOpen s.pipefd.2 :=
    (hopen _ hthree hmax).mpr ⟨Nat.le_of_lt h, s.isOpen _ (by simp), s.ne_ends _ (by simp)⟩
  refine ⟨child, hchild, fun honly => ?_, hleft⟩
  exact Nat.ne_of_gt h ((honly _ hthree hmax).mp hleft)

end PlayFork

/-- A server with its database, its log and its clients, where the pipes of
`Play` have got 6 to 9, and another client 10. This is the usual case:
descriptors are given out in their order. -/
def servingFork : PlayFork Unit where
  table i := if i ≤ 10 then some () else none
  slave_pipefd := (6, 7)
  pipefd := (8, 9)
  errorfd_ := 3
  distinct := by decide
  isOpen := by decide
  inRange := by decide

/-- **The client's socket reaches mplayer**, and so does an end of its own
pipe. The client stays connected for as long as the track plays. -/
theorem servingFork_leaks :
    ∃ child, servingFork.childSide = some child ∧ ¬servingFork.InheritsOnly child
      ∧ child.IsOpen 9 ∧ child.IsOpen 10 := by
  obtain ⟨child, hchild, hopen⟩ := servingFork.childSide_isOpen
  have hnine : child.IsOpen 9 := (hopen 9 (by decide) (by decide)).mpr (by decide)
  have hten : child.IsOpen 10 := (hopen 10 (by decide) (by decide)).mpr (by decide)
  refine ⟨child, hchild, fun honly => ?_, hnine, hten⟩
  exact absurd ((honly 10 (by decide) (by decide)).mp hten) (by decide)

/-- A server whose clients have left, one of them between the two pipes of `Play`: the first
pipe has got 20 and 21, the second one 5 and 6, which were free by then. -/
def quietFork : PlayFork Unit where
  table i := if i ≤ 6 ∨ i = 20 ∨ i = 21 then some () else none
  slave_pipefd := (20, 21)
  pipefd := (5, 6)
  errorfd_ := 3
  distinct := by decide
  isOpen := by decide
  inRange := by decide

/-- **Only its own pipe reaches mplayer then**: the error log, the database and the ends of
the other pipe have lower numbers. -/
theorem quietFork_inheritsOnly :
    ∃ child, quietFork.childSide = some child ∧ quietFork.InheritsOnly child := by
  obtain ⟨child, hchild, hiff⟩ := quietFork.childSide_inheritsOnly_iff
  refine ⟨child, hchild, hiff.mpr fun i hlt _ hopen => Or.inr ?_⟩
  have hlow : ¬i ≤ 6 := fun h => absurd (Nat.lt_of_lt_of_le hlt h) (by decide)
  have hne : i ≠ 20 := Nat.ne_of_gt hlt
  by_contra hother
  have hclosed : quietFork.table i = none := if_neg (by simp [hlow, hne]; exact hother)
  rw [Descriptors.IsOpen, hclosed] at hopen
  cases hopen

/-! ## The child of CalculateDuration -/

/-- The descriptors mplayer is started with to find a duration. Nothing is
spared, because this one gets no commands. -/
def calculateDurationChild {F : Type*} (t : Descriptors F) (pipefd : ℕ × ℕ) (errorfd : ℕ) :
    Descriptors F :=
  let t := (t.dup2 pipefd.2 1).getD t
  let t := (t.dup2 errorfd 2).getD t
  (t.closeOthers (fun _ => false)).close 0

/-- **Here nothing reaches mplayer**: the loop has nothing to spare, so it
gets to its end. -/
theorem calculateDurationChild_closes {F : Type*} (t : Descriptors F) (pipefd : ℕ × ℕ)
    (errorfd : ℕ) {i : ℕ} (hlo : 3 ≤ i) (hhi : i ≤ AUTOMATION_MAX_FD) :
    ¬(calculateDurationChild t pipefd errorfd).IsOpen i := by
  unfold calculateDurationChild Descriptors.closeOthers
  rw [Descriptors.isOpen_close_iff, Descriptors.isOpen_closeFrom_iff (by decide)]
  rintro ⟨⟨-, h | h | ⟨k, -, -, hk⟩⟩, -⟩
  · omega
  · omega
  · exact absurd hk Bool.false_ne_true
