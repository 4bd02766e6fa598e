import Mathlib.Data.List.Induction

/-!
# Runs of a system

A system is a relation `step s a s'`: in the state `s` the action `a` can lead
to `s'`. A run of it from a state has a trace – its actions, each with the
state it was taken in – and an end.

`Run.invariant` is the rule for what holds along a run: it holds at the start,
and the actions that meet a condition keep it. `Run.prefixes_iff` is the one for
what should hold of all that a run has done so far: that it does after each
action is a condition on the actions.

A machine is a system that answers: each operation gives a state and an
answer, unless it fails. `perform_refines` is the rule for a machine that
follows a simpler one operation by operation.
-/

namespace Transitions

variable {σ α : Type*}

/-- **A run of a system**: its trace, which is the list of its actions, each
with the state it was taken in, and its end. A run grows at its end, so an
induction on a run has the state reached so far at hand, and what was done
before it as a list. -/
inductive Run (step : σ → α → σ → Prop) (s₀ : σ) : List (σ × α) → σ → Prop
  | nil : Run step s₀ [] s₀
  | snoc {trace : List (σ × α)} {s s' : σ} {a : α} (hrun : Run step s₀ trace s)
      (hstep : step s a s') : Run step s₀ (trace ++ [(s, a)]) s'

variable {step : σ → α → σ → Prop} {s₀ s : σ} {trace : List (σ × α)}

/-- **An invariant holds along a run**, at its end and wherever an action is
taken, if every action that is taken meets the condition under which it is
kept. The condition may look at the state before the action: it is where an
assumption about what is asked of the system goes, or the exact condition
under which the system does what it should. -/
theorem Run.invariant (Inv : σ → Prop) (Ok : σ → α → Prop) (h₀ : Inv s₀)
    (hkeep : ∀ s a s', Inv s → Ok s a → step s a s' → Inv s') (hrun : Run step s₀ trace s)
    (hok : ∀ x ∈ trace, Ok x.1 x.2) : Inv s ∧ ∀ x ∈ trace, Inv x.1 := by
  induction hrun with
  | nil => exact ⟨h₀, fun x hx => absurd hx List.not_mem_nil⟩
  | @snoc trace s s' a hrun hstep ih =>
    obtain ⟨hinv, hall⟩ := ih (fun x hx => hok x (List.mem_append_left _ hx))
    have hlast : (s, a) ∈ trace ++ [(s, a)] := List.mem_append_right _ (List.mem_singleton_self _)
    refine ⟨hkeep s a s' hinv (hok _ hlast) hstep, fun x hx => ?_⟩
    rcases List.mem_append.mp hx with hx | hx
    · exact hall x hx
    · rw [List.mem_singleton.mp hx]
      exact hinv

/-- A run of a system is one of every system that can do the same. -/
theorem Run.mono {step' : σ → α → σ → Prop} (h : ∀ s a s', step s a s' → step' s a s')
    (hrun : Run step s₀ trace s) : Run step' s₀ trace s := by
  induction hrun with
  | nil => exact .nil
  | snoc hrun hstep ih => exact ih.snoc (h _ _ _ hstep)

/-- An action of a run could be taken where it was. -/
theorem Run.step_of_mem (hrun : Run step s₀ trace s) {x : σ × α} (hx : x ∈ trace) :
    ∃ s', step x.1 x.2 s' := by
  induction hrun with
  | nil => exact absurd hx List.not_mem_nil
  | snoc hrun hstep ih =>
    rcases List.mem_append.mp hx with hx | hx
    · exact ih hx
    · rw [List.mem_singleton.mp hx]
      exact ⟨_, hstep⟩

theorem Run.of_nil (hrun : Run step s₀ [] s) : s = s₀ := by
  generalize hwhole : ([] : List (σ × α)) = whole at hrun
  cases hrun with
  | nil => rfl
  | snoc => exact absurd hwhole (by simp)

/-- The last action of a run, and the run before it. -/
theorem Run.of_concat {a : α} {s' : σ} (hrun : Run step s₀ (trace ++ [(s, a)]) s') :
    Run step s₀ trace s ∧ step s a s' := by
  generalize hwhole : trace ++ [(s, a)] = whole at hrun
  cases hrun with
  | nil => exact absurd hwhole (by simp)
  | snoc hrun hstep =>
    obtain ⟨rfl, hlast⟩ := List.append_inj' hwhole rfl
    obtain ⟨rfl, rfl⟩ := Prod.mk.inj (List.cons.inj hlast).1
    exact ⟨hrun, hstep⟩

/-- **What a run has done is right all along exactly when every action was
all right**: it is right at the start, and what an action adds to something
right is right exactly when the action meets a condition. The invariant `Inv`
needs no condition; it is what the step lemma may assume of the state. -/
theorem Run.prefixes_iff (Inv : σ → Prop) (Right : List (σ × α) → σ → Prop) (Ok : σ → α → Prop)
    (h₀ : Inv s₀) (hkeep : ∀ s a s', Inv s → step s a s' → Inv s') (hnil : Right [] s₀)
    (hsnoc : ∀ trace s a s', Inv s → Right trace s → step s a s' →
      (Right (trace ++ [(s, a)]) s' ↔ Ok s a))
    (hrun : Run step s₀ trace s) :
    (∀ trace' s', trace' <+: trace → Run step s₀ trace' s' → Right trace' s')
      ↔ ∀ x ∈ trace, Ok x.1 x.2 := by
  induction hrun with
  | nil =>
    refine iff_of_true (fun trace' s' hpre hrun' => ?_) (fun x hx => absurd hx List.not_mem_nil)
    obtain rfl := List.prefix_nil.mp hpre
    rw [hrun'.of_nil]
    exact hnil
  | @snoc trace s s' a hrun hstep ih =>
    have hinv : Inv s := (hrun.invariant Inv (fun _ _ => True) h₀
      (fun s a s' hs _ => hkeep s a s' hs) (fun _ _ => trivial)).1
    constructor
    · intro hall x hx
      have hbefore : ∀ trace' s', trace' <+: trace → Run step s₀ trace' s' → Right trace' s' :=
        fun trace' s' hpre => hall trace' s' (hpre.trans (List.prefix_append _ _))
      rcases List.mem_append.mp hx with hx | hx
      · exact ih.mp hbefore x hx
      · rw [List.mem_singleton.mp hx]
        exact (hsnoc trace s a s' hinv (hbefore trace s (List.prefix_refl _) hrun) hstep).mp
          (hall _ s' (List.prefix_refl _) (hrun.snoc hstep))
    · intro hok trace' s'' hpre hrun'
      have hbefore := ih.mpr (fun x hx => hok x (List.mem_append_left _ hx))
      rcases List.prefix_concat_iff.mp hpre with rfl | hpre
      · obtain ⟨-, hstep'⟩ := hrun'.of_concat
        exact (hsnoc trace s a s'' hinv (hbefore trace s (List.prefix_refl _) hrun) hstep').mpr
          (hok _ (List.mem_append_right _ (List.mem_singleton_self _)))
      · exact hbefore trace' s'' hpre hrun'

/-- Actions that can be taken one after the other are a run. -/
theorem Run.of_foldlM {next : σ → α → Option σ} {as : List α} (h : as.foldlM next s₀ = some s) :
    ∃ trace, Run (fun s a s' => next s a = some s') s₀ trace s ∧ trace.map Prod.snd = as := by
  induction as using List.reverseRecOn generalizing s with
  | nil =>
    obtain rfl := Option.some.inj h
    exact ⟨[], .nil, rfl⟩
  | append_singleton as a ih =>
    rw [List.foldlM_append] at h
    obtain ⟨s', hs', hnext⟩ := Option.bind_eq_some_iff.mp h
    obtain ⟨trace, hrun, hacts⟩ := ih hs'
    refine ⟨trace ++ [(s', a)], hrun.snoc ?_, by rw [List.map_append, hacts]; rfl⟩
    simpa using hnext

/-- Such actions may be checked one by one, in the states they are taken in. -/
theorem Run.of_foldlM_ok (next : σ → α → Option σ) (Ok : σ → α → Prop)
    [∀ s a, Decidable (Ok s a)] {as : List α}
    (h : as.foldlM (fun s a => if Ok s a then next s a else none) s₀ = some s) :
    ∃ trace, Run (fun s a s' => next s a = some s') s₀ trace s ∧ trace.map Prod.snd = as
      ∧ ∀ x ∈ trace, Ok x.1 x.2 := by
  obtain ⟨trace, hrun, hacts⟩ := Run.of_foldlM h
  refine ⟨trace, hrun.mono fun s a s' hstep => ?_, hacts, fun x hx => ?_⟩
  · exact (Option.ite_none_right_eq_some.mp hstep).2
  · obtain ⟨s', hstep⟩ := hrun.step_of_mem hx
    exact (Option.ite_none_right_eq_some.mp hstep).1

/-- Of such a run it is known what happened, if the actions are taken by a
system that also notes it. So a concrete run and what its steps did can be
computed at once. -/
theorem Run.of_foldlM_noted {β : Type*} (next : σ → α → Option σ) (f : σ → α → Option β)
    {as : List α} {notes : List β}
    (h : as.foldlM (fun x a => (next x.1 a).map fun s' => (s', x.2 ++ (f x.1 a).toList)) (s₀, [])
      = some (s, notes)) :
    ∃ trace, Run (fun s a s' => next s a = some s') s₀ trace s ∧ trace.map Prod.snd = as
      ∧ trace.filterMap (fun x => f x.1 x.2) = notes := by
  induction as using List.reverseRecOn generalizing s notes with
  | nil =>
    obtain ⟨rfl, rfl⟩ := Prod.mk.inj (Option.some.inj h)
    exact ⟨[], .nil, rfl, rfl⟩
  | append_singleton as a ih =>
    rw [List.foldlM_append] at h
    obtain ⟨⟨s', notes'⟩, hs', hlast⟩ := Option.bind_eq_some_iff.mp h
    obtain ⟨trace, hrun, hacts, hnotes⟩ := ih hs'
    rw [List.foldlM_cons] at hlast
    obtain ⟨⟨s'', notes''⟩, hnext, hend⟩ := Option.bind_eq_some_iff.mp hlast
    obtain ⟨hs'', hnotes''⟩ := Prod.mk.inj (Option.some.inj hend)
    obtain ⟨t, ht, heq⟩ := Option.map_eq_some_iff.mp hnext
    obtain ⟨ht', hnew⟩ := Prod.mk.inj heq
    refine ⟨trace ++ [(s', a)], hrun.snoc (by rw [ht, ht', hs'']), ?_, ?_⟩
    · rw [List.map_append, hacts]
      rfl
    · rw [List.filterMap_append, hnotes, ← hnotes'', ← hnew]
      cases hf : f s' a <;> simp [hf]

/-! ## Machines that answer -/

variable {τ β : Type*}

/-- The state after some operations, and their answers in order; nothing once
one of them fails, whatever the others would have answered. This is a machine
as the code has it, where an operation can end the process. -/
def perform (step : σ → α → Option (σ × β)) : σ → List α → Option (σ × List β)
  | s, [] => some (s, [])
  | s, a :: as => (step s a).bind fun (s', b) =>
      (perform step s' as).map fun (s'', bs) => (s'', b :: bs)

/-- The same for operations that do not fail. This is the machine as a
specification has it. -/
def performTotal (step : τ → α → τ × β) : τ → List α → τ × List β
  | t, [] => (t, [])
  | t, a :: as => ((performTotal step (step t a).1 as).1,
      (step t a).2 :: (performTotal step (step t a).1 as).2)

/-- **A machine whose operations follow those of another one** does so along
every sequence of operations: it does not fail, and gives the same answers.
What has to be shown of one operation is that it succeeds, that it answers
what the simpler machine answers to the abstraction of its state, and that
the abstraction of its new state is the simpler machine's new state. -/
theorem perform_refines {step : σ → α → Option (σ × β)} {spec : τ → α → τ × β} (abs : σ → τ)
    (hstep : ∀ s a, (step s a).map (Prod.map abs id) = some (spec (abs s) a)) (s : σ)
    (as : List α) :
    (perform step s as).map (Prod.map abs id) = some (performTotal spec (abs s) as) := by
  induction as generalizing s with
  | nil => rfl
  | cons a as ih =>
    obtain ⟨⟨s', b⟩, hs', hspec⟩ := Option.map_eq_some_iff.mp (hstep s a)
    obtain ⟨⟨s'', bs⟩, hs'', hrest⟩ := Option.map_eq_some_iff.mp (ih s')
    unfold perform performTotal
    rw [hs', ← hspec]
    dsimp only [Option.bind_some, Prod.map_fst, Prod.map_snd, id_eq]
    rw [hs'', ← hrest]
    rfl

end Transitions
