import RctAutomation.EarliestBlock

/-!
# The internal time

A block of requirements moves the internal time by the greatest of their
advances, where a negative one stands for the time until now, and by one
second at least (`documentedTime`). `RunBlock` keeps the greatest advance in a
variable in which `-1` is the mark for now, so that what it does depends on the
order of the requirements: `timeAfter_eq_iff` says when it is what is
documented.
-/

namespace RequirementEngine

/-! ## The documented advance -/

/-- The effective advance of a requirement, when a block that started from
the internal time is done at `done`: its own, or what there is up to now. -/
def effectiveAdvance (internal_time done : ℤ) (e : Entry) : ℤ :=
  if e.1.advanceD < 0 then done - internal_time else e.1.advanceD

/-- **The internal time after a block, as it is documented**: it moves by the
greatest effective advance of its requirements, and by one second at least. -/
def documentedTime (next : List Entry) (internal_time done : ℤ) : ℤ :=
  internal_time
    + next.foldl (fun acc e => max acc (effectiveAdvance internal_time done e)) 1

variable {next : List Entry} {internal_time done : ℤ}

/-- The documented time is after the internal time. -/
theorem lt_documentedTime (next : List Entry) (internal_time done : ℤ) :
    internal_time < documentedTime next internal_time done := by
  have h := (isGreatest_foldl_max (effectiveAdvance internal_time done) next 1).2
    (Set.mem_insert _ _)
  unfold documentedTime
  omega

/-- The documented time does not depend on the order of the requirements. -/
theorem documentedTime_perm {next' : List Entry} (h : next.Perm next') :
    documentedTime next internal_time done = documentedTime next' internal_time done := by
  have hmem : {g | ∃ e ∈ next, effectiveAdvance internal_time done e = g}
      = {g | ∃ e ∈ next', effectiveAdvance internal_time done e = g} := by
    ext g
    exact exists_congr (fun e => and_congr_left (fun _ => h.mem_iff))
  have hnext := isGreatest_foldl_max (effectiveAdvance internal_time done) next 1
  rw [hmem] at hnext
  exact congrArg (internal_time + ·) (hnext.unique (isGreatest_foldl_max _ next' 1))

/-! ## The accumulator -/

/-- The advance after one more requirement, in a variable of any size. It
differs from the documented one in that `-1` is a value among the others. -/
def exactStep (acc a : ℤ) : ℤ := if a < 0 ∧ 0 < acc then -1 else max acc a

/-- The advance that some advances accumulate, in a variable of any size. -/
def exactAdvance (as : List ℤ) : ℤ := as.foldl exactStep 1

theorem exactAdvance_append (as bs : List ℤ) :
    exactAdvance (as ++ bs) = bs.foldl exactStep (exactAdvance as) :=
  List.foldl_append

theorem exactAdvance_snoc (as : List ℤ) (a : ℤ) :
    exactAdvance (as ++ [a]) = exactStep (exactAdvance as) a :=
  List.foldl_append

/-- The accumulated advance is in range, if the advances are. -/
theorem exactAdvance_mem_range (as : List ℤ) (has : ∀ a ∈ as, a ≤ int32Max) :
    -1 ≤ exactAdvance as ∧ exactAdvance as ≤ int32Max := by
  induction as using List.reverseRecOn with
  | nil => exact ⟨by decide, by decide⟩
  | append_singleton as a ih =>
    obtain ⟨hge, hle⟩ := ih (fun b hb => has b (List.mem_append_left _ hb))
    have ha := has a (List.mem_append_right _ (List.mem_singleton_self a))
    rw [exactAdvance_snoc]
    unfold exactStep
    split
    · exact ⟨le_refl _, by decide⟩
    · exact ⟨le_max_of_le_left hge, max_le hle ha⟩

/-- **Nothing is truncated** when no advance exceeds an `int`, for what is
accumulated then stays between the mark for now and the largest `int`. -/
theorem blockAdvance_eq_exact (hnext : ∀ e ∈ next, e.1.advanceD ≤ int32Max) :
    blockAdvance next = exactAdvance (next.map (fun e => e.1.advanceD)) := by
  induction next using List.reverseRecOn with
  | nil => rfl
  | append_singleton next e ih =>
    have hold : ∀ e ∈ next, e.1.advanceD ≤ int32Max :=
      fun e he => hnext e (List.mem_append_left _ he)
    have hrange := exactAdvance_mem_range (next.map (fun e => e.1.advanceD)) (by
      rintro a ha
      obtain ⟨e, he, rfl⟩ := List.mem_map.mp ha
      exact hold e he)
    have he := hnext e (List.mem_append_right _ (List.mem_singleton_self e))
    have hsnoc : blockAdvance (next ++ [e]) = advanceStep (blockAdvance next) e.1 :=
      List.foldl_append
    rw [hsnoc, List.map_append, List.map_singleton, exactAdvance_snoc, ih hold]
    unfold advanceStep exactStep
    split
    · rfl
    · refine toInt32_of_fits ⟨?_, max_le hrange.2 he⟩
      have : int32Min ≤ -1 := by decide
      exact this.trans (le_max_of_le_left hrange.1)

/-- Advances that are not negative accumulate their maximum. -/
theorem foldl_exactStep_of_nonneg {as : List ℤ} (has : ∀ a ∈ as, 0 ≤ a) (acc : ℤ) :
    as.foldl exactStep acc = as.foldl max acc := by
  induction as generalizing acc with
  | nil => rfl
  | cons a as ih =>
    rw [List.foldl_cons, List.foldl_cons, ih (fun b hb => has b (List.mem_cons_of_mem _ hb))]
    exact congrArg (as.foldl max)
      (if_neg (fun h => absurd h.1 (not_lt.mpr (has a (List.mem_cons_self ..)))))

/-- The accumulator stays at a bound of what it holds and of all that
follows. -/
theorem foldl_exactStep_le {as : List ℤ} {m : ℤ} (hm : 0 < m) (has : ∀ a ∈ as, a ≤ m) {acc : ℤ}
    (hacc : acc ≤ m) : as.foldl exactStep acc ≤ m := by
  induction as generalizing acc with
  | nil => exact hacc
  | cons a as ih =>
    refine ih (fun b hb => has b (List.mem_cons_of_mem _ hb)) ?_
    unfold exactStep
    split
    · omega
    · exact max_le hacc (has a (List.mem_cons_self ..))

/-! ### The largest advance -/

/-- The largest advance is positive, and no negative one follows it. So it is
not replaced by the mark for now. -/
def EndsLargest (as : List ℤ) (m : ℤ) : Prop :=
  0 < m ∧ (∀ a ∈ as, a ≤ m) ∧ ∃ front back, as = front ++ m :: back ∧ ∀ a ∈ back, 0 ≤ a

theorem exactAdvance_of_endsLargest {as : List ℤ} {m : ℤ} (h : EndsLargest as m) :
    exactAdvance as = m := by
  obtain ⟨hm, hall, front, back, rfl, hback⟩ := h
  have hfront : exactAdvance front ≤ m :=
    foldl_exactStep_le hm (fun a ha => hall a (List.mem_append_left _ ha)) (by omega)
  have hat : exactStep (exactAdvance front) m = m := by
    unfold exactStep
    rw [if_neg (by omega), max_eq_right hfront]
  rw [exactAdvance_append, List.foldl_cons, hat, foldl_exactStep_of_nonneg hback]
  have hgreatest := isGreatest_foldl_max id back m
  refine le_antisymm ?_ (hgreatest.2 (Set.mem_insert _ _))
  rcases hgreatest.1 with h | ⟨a, ha, h⟩
  · exact le_of_eq h
  · exact h.symm.le.trans
      (hall a (List.mem_append_right _ (List.mem_cons_of_mem _ ha)))

/-- **A positive accumulator** is the maximum of advances that are not
negative, or else one of the advances, with no negative one after it. By
induction from the end: the last advance is larger than what was accumulated
and takes its place, or it is not and changes nothing. -/
theorem exactAdvance_of_pos {as : List ℤ} (h : 0 < exactAdvance as) :
    (∀ a ∈ as, 0 ≤ a)
      ∨ ∃ front back, as = front ++ exactAdvance as :: back ∧ ∀ a ∈ back, 0 ≤ a := by
  induction as using List.reverseRecOn with
  | nil => exact Or.inl (fun a ha => absurd ha List.not_mem_nil)
  | append_singleton as a ih =>
    rw [exactAdvance_snoc] at h ⊢
    unfold exactStep at h ⊢
    split at h
    · omega
    · rename_i hkept
      rw [if_neg hkept]
      have ha : 0 ≤ a := by
        by_contra hneg
        rcases lt_max_iff.mp h with hacc | hpos
        · exact hkept ⟨not_le.mp hneg, hacc⟩
        · omega
      by_cases hle : a ≤ exactAdvance as
      · -- the accumulator stays
        rw [max_eq_left hle] at h ⊢
        rcases ih h with hall | ⟨front, back, heq, hback⟩
        · refine Or.inl (fun b hb => ?_)
          rcases List.mem_append.mp hb with hb | hb
          · exact hall b hb
          · exact List.mem_singleton.mp hb ▸ ha
        · refine Or.inr ⟨front, back ++ [a], ?_, fun b hb => ?_⟩
          · rw [← List.cons_append, ← List.append_assoc, ← heq]
          · rcases List.mem_append.mp hb with hb | hb
            · exact hback b hb
            · exact List.mem_singleton.mp hb ▸ ha
      · rw [max_eq_right (le_of_lt (not_le.mp hle))]
        exact Or.inr ⟨as, [], rfl, fun b hb => absurd hb List.not_mem_nil⟩

/-! ### The mark for now -/

/-- After the last positive advance, if there is one, come zeros and then
negative advances, at least one. A zero after a negative one would take the
mark away. -/
def EndsNow (as : List ℤ) : Prop :=
  ∃ front zeros negs, as = front ++ (zeros ++ negs) ∧ (∀ p ∈ front.getLast?, 0 < p)
    ∧ (∀ a ∈ zeros, a = 0) ∧ negs ≠ [] ∧ ∀ a ∈ negs, a < 0

/-- A positive accumulator has had only zeros since the last positive
advance. A negative one would have set it back. -/
theorem zeros_of_exactAdvance_pos {as : List ℤ} (h : 0 < exactAdvance as) :
    ∃ front zeros, as = front ++ zeros ∧ (∀ p ∈ front.getLast?, 0 < p) ∧ ∀ a ∈ zeros, a = 0 := by
  induction as using List.reverseRecOn with
  | nil => exact ⟨[], [], rfl, fun p hp => (by cases hp), fun a ha => absurd ha List.not_mem_nil⟩
  | append_singleton as a ih =>
    rw [exactAdvance_snoc] at h
    unfold exactStep at h
    split at h
    · omega
    · rename_i hkept
      by_cases ha : 0 < a
      · refine ⟨as ++ [a], [], (List.append_nil _).symm, fun p hp => ?_,
          fun a ha => absurd ha List.not_mem_nil⟩
        rw [List.getLast?_append_of_ne_nil _ (List.cons_ne_nil a [])] at hp
        obtain rfl := Option.some.inj hp
        exact ha
      · have hacc : 0 < exactAdvance as := (lt_max_iff.mp h).resolve_right ha
        obtain ⟨front, zeros, heq, hfront, hzeros⟩ := ih hacc
        refine ⟨front, zeros ++ [a], ?_, hfront, fun b hb => ?_⟩
        · rw [heq, List.append_assoc]
        · rcases List.mem_append.mp hb with hb | hb
          · exact hzeros b hb
          · rw [List.mem_singleton.mp hb]
            by_contra hne
            exact hkept ⟨by omega, hacc⟩

/-- **The accumulator is the mark for now** exactly when negative advances
end the list, before which only zeros follow the last positive one. The
induction is from the end of the list, where the last advance decides. -/
theorem exactAdvance_neg_iff {as : List ℤ} : exactAdvance as < 0 ↔ EndsNow as := by
  constructor
  · intro h
    induction as using List.reverseRecOn with
    | nil => exact absurd h (by decide)
    | append_singleton as a ih =>
      rw [exactAdvance_snoc] at h
      unfold exactStep at h
      split at h
      · rename_i hset
        obtain ⟨front, zeros, rfl, hfront, hzeros⟩ := zeros_of_exactAdvance_pos hset.2
        refine ⟨front, zeros, [a], List.append_assoc .., hfront, hzeros,
          List.cons_ne_nil _ _, fun b hb => ?_⟩
        exact List.mem_singleton.mp hb ▸ hset.1
      · obtain ⟨hacc, ha⟩ := max_lt_iff.mp h
        obtain ⟨front, zeros, negs, rfl, hfront, hzeros, hne, hnegs⟩ := ih hacc
        refine ⟨front, zeros, negs ++ [a], by simp only [List.append_assoc], hfront, hzeros,
          fun h => hne (List.append_eq_nil_iff.mp h).1, fun b hb => ?_⟩
        rcases List.mem_append.mp hb with hb | hb
        · exact hnegs b hb
        · exact List.mem_singleton.mp hb ▸ ha
  · rintro ⟨front, zeros, negs, rfl, hfront, hzeros, hne, hnegs⟩
    -- the accumulator is positive after the front, and zeros leave it
    have hpos : 0 < exactAdvance front := by
      induction front using List.reverseRecOn with
      | nil => decide
      | append_singleton front p _ =>
        have hp := hfront p (by
          rw [List.getLast?_append_of_ne_nil _ (List.cons_ne_nil p [])]
          rfl)
        rw [exactAdvance_snoc]
        unfold exactStep
        rw [if_neg (by omega)]
        exact lt_max_of_lt_right hp
    have hzero : 0 < exactAdvance (front ++ zeros) := by
      rw [exactAdvance_append, foldl_exactStep_of_nonneg (fun a ha => (hzeros a ha).ge)]
      exact lt_of_lt_of_le hpos ((isGreatest_foldl_max id zeros _).2 (Set.mem_insert _ _))
    have hmark : ∀ bs : List ℤ, (∀ b ∈ bs, b < 0) → bs.foldl exactStep (-1) = -1 := by
      intro bs hbs
      induction bs with
      | nil => rfl
      | cons b bs ih =>
        have hb := hbs b (List.mem_cons_self ..)
        have hstep : exactStep (-1) b = -1 := by
          unfold exactStep
          rw [if_neg (by omega)]
          exact max_eq_left (by omega)
        rw [List.foldl_cons, hstep]
        exact ih (fun c hc => hbs c (List.mem_cons_of_mem _ hc))
    cases negs with
    | nil => exact absurd rfl hne
    | cons a negs =>
      have hstep : exactStep (exactAdvance (front ++ zeros)) a = -1 :=
        if_pos ⟨hnegs a (List.mem_cons_self ..), hzero⟩
      rw [← List.append_assoc, exactAdvance_append, List.foldl_cons, hstep,
        hmark negs (fun b hb => hnegs b (List.mem_cons_of_mem _ hb))]
      decide

/-! ## When a block moves the time as documented -/

/-- The advances of a block, in its order. -/
def advances (next : List Entry) : List ℤ := next.map (fun e => e.1.advanceD)

theorem mem_advances {a : ℤ} : a ∈ advances next ↔ ∃ e ∈ next, e.1.advanceD = a := List.mem_map

/-- **When a block moves the time as documented**: no advance is negative; or
the largest one comes after all negative ones and reaches what the clock
shows; or the time is set to the clock, which reaches every advance. -/
def MovesAsDocumented (next : List Entry) (internal_time done : ℤ) : Prop :=
  (∀ a ∈ advances next, 0 ≤ a)
  ∨ (∃ m, EndsLargest (advances next) m ∧ done ≤ internal_time + m)
  ∨ (EndsNow (advances next) ∧ internal_time < done
    ∧ ∀ a ∈ advances next, internal_time + a ≤ done)

/-- The greatest effective advance, and one second, is what no element
exceeds. -/
theorem documentedTime_eq {m : ℤ} (hone : 1 ≤ m)
    (hle : ∀ e ∈ next, effectiveAdvance internal_time done e ≤ m)
    (hmem : m = 1 ∨ ∃ e ∈ next, effectiveAdvance internal_time done e = m) :
    documentedTime next internal_time done = internal_time + m := by
  have hm : IsGreatest
      (insert 1 {g | ∃ e ∈ next, effectiveAdvance internal_time done e = g}) m := by
    refine ⟨hmem, ?_⟩
    rintro g (rfl | ⟨e, he, rfl⟩)
    · exact hone
    · exact hle e he
  exact congrArg (internal_time + ·)
    ((isGreatest_foldl_max (effectiveAdvance internal_time done) next 1).unique hm)

theorem le_documentedTime (internal_time done : ℤ) {e : Entry} (he : e ∈ next) :
    internal_time + effectiveAdvance internal_time done e
      ≤ documentedTime next internal_time done :=
  Int.add_le_add_left ((isGreatest_foldl_max (effectiveAdvance internal_time done) next 1).2
    (Set.mem_insert_of_mem _ ⟨e, he, rfl⟩)) internal_time

theorem effectiveAdvance_of_neg {e : Entry} (h : e.1.advanceD < 0) :
    effectiveAdvance internal_time done e = done - internal_time := if_pos h

theorem effectiveAdvance_of_nonneg {e : Entry} (h : 0 ≤ e.1.advanceD) :
    effectiveAdvance internal_time done e = e.1.advanceD := if_neg (not_lt.mpr h)

/-- Without a negative advance, the greatest is documented. -/
theorem documentedTime_of_nonneg (hall : ∀ a ∈ advances next, 0 ≤ a) :
    documentedTime next internal_time done = internal_time + exactAdvance (advances next) := by
  have hmax : exactAdvance (advances next) = (advances next).foldl max 1 :=
    foldl_exactStep_of_nonneg hall 1
  have hgreatest := isGreatest_foldl_max id (advances next) 1
  rw [hmax]
  refine documentedTime_eq (hgreatest.2 (Set.mem_insert _ _)) (fun e he => ?_) ?_
  · have hmem : e.1.advanceD ∈ advances next := mem_advances.mpr ⟨e, he, rfl⟩
    rw [effectiveAdvance_of_nonneg (hall _ hmem)]
    exact hgreatest.2 (Set.mem_insert_of_mem _ ⟨_, hmem, rfl⟩)
  · refine hgreatest.1.imp id ?_
    rintro ⟨a, ha, heq⟩
    obtain ⟨e, he, rfl⟩ := mem_advances.mp ha
    exact ⟨e, he, (effectiveAdvance_of_nonneg (hall _ ha)).trans heq⟩

/-- And so is the largest advance, if it reaches what the clock shows. -/
theorem documentedTime_of_endsLargest {m : ℤ} (hm : EndsLargest (advances next) m)
    (hreach : done ≤ internal_time + m) :
    documentedTime next internal_time done = internal_time + m := by
  obtain ⟨hpos, hle, front, back, hsplit, -⟩ := hm
  refine documentedTime_eq (by omega) (fun e he => ?_) (Or.inr ?_)
  · by_cases hneg : e.1.advanceD < 0
    · rw [effectiveAdvance_of_neg hneg]
      omega
    · rw [effectiveAdvance_of_nonneg (not_lt.mp hneg)]
      exact hle _ (mem_advances.mpr ⟨e, he, rfl⟩)
  · obtain ⟨e, he, rfl⟩ := mem_advances.mp
      (hsplit ▸ List.mem_append_right front (List.mem_cons_self ..))
    exact ⟨e, he, effectiveAdvance_of_nonneg (le_of_lt hpos)⟩

/-- And what the clock shows, if it reaches every advance and one is
negative. -/
theorem documentedTime_of_endsNow (hnow : EndsNow (advances next)) (hlt : internal_time < done)
    (hle : ∀ a ∈ advances next, internal_time + a ≤ done) :
    documentedTime next internal_time done = done := by
  have hdone : documentedTime next internal_time done
      = internal_time + (done - internal_time) := by
    refine documentedTime_eq (by omega) (fun e he => ?_) (Or.inr ?_)
    · by_cases hneg : e.1.advanceD < 0
      · exact le_of_eq (effectiveAdvance_of_neg hneg)
      · rw [effectiveAdvance_of_nonneg (not_lt.mp hneg)]
        have := hle _ (mem_advances.mpr ⟨e, he, rfl⟩)
        omega
    · obtain ⟨front, zeros, negs, hsplit, -, -, hne, hnegs⟩ := hnow
      obtain ⟨a, ha⟩ := List.exists_mem_of_ne_nil negs hne
      obtain ⟨e, he, rfl⟩ := mem_advances.mp
        (hsplit ▸ List.mem_append_right front (List.mem_append_right zeros ha))
      exact ⟨e, he, effectiveAdvance_of_neg (hnegs _ ha)⟩
  rw [hdone]
  omega

/-- What moves as documented does. -/
theorem timeAfter_of_moves (hnext : ∀ e ∈ next, e.1.advanceD ≤ int32Max)
    (h : MovesAsDocumented next internal_time done) :
    timeAfter next internal_time done = documentedTime next internal_time done := by
  have hacc : blockAdvance next = exactAdvance (advances next) := blockAdvance_eq_exact hnext
  unfold timeAfter
  rw [hacc]
  rcases h with hall | ⟨m, hm, hreach⟩ | ⟨hnow, hlt, hle⟩
  · have hpos : 0 ≤ exactAdvance (advances next) := by
      have h := lt_documentedTime next internal_time done
      rw [documentedTime_of_nonneg hall] at h
      omega
    rw [if_neg (not_lt.mpr hpos), documentedTime_of_nonneg hall]
  · rw [exactAdvance_of_endsLargest hm, if_neg (not_lt.mpr (le_of_lt hm.1)),
      documentedTime_of_endsLargest hm hreach]
  · rw [if_pos (exactAdvance_neg_iff.mpr hnow), documentedTime_of_endsNow hnow hlt hle]

/-- **When `RunBlock` moves the internal time as it is documented**, for
every list of requirements whose advances are ints. What `MovesAsDocumented`
says is about the advances, the internal time and the clock, and not about
the accumulator.

The largest advance is documented to count, and one below zero to stand for
the time when the block is done. The accumulator keeps both in one number, so
what comes after a mark for now is compared with the mark. -/
theorem timeAfter_eq_iff (next : List Entry) (internal_time done : ℤ)
    (hnext : ∀ e ∈ next, FitsInt32 e.1.advanceD) :
    timeAfter next internal_time done = documentedTime next internal_time done
      ↔ MovesAsDocumented next internal_time done := by
  refine ⟨fun heq => ?_, timeAfter_of_moves (fun e he => (hnext e he).2)⟩
  have hacc : blockAdvance next = exactAdvance (advances next) :=
    blockAdvance_eq_exact (fun e he => (hnext e he).2)
  have hafter := lt_documentedTime next internal_time done
  have hreach : ∀ a ∈ advances next, 0 ≤ a →
      internal_time + a ≤ documentedTime next internal_time done := by
    intro a ha hnonneg
    obtain ⟨e, he, rfl⟩ := mem_advances.mp ha
    have := le_documentedTime internal_time done he
    rwa [effectiveAdvance_of_nonneg hnonneg] at this
  unfold timeAfter at heq
  rw [hacc] at heq
  rcases lt_trichotomy (exactAdvance (advances next)) 0 with hneg | hzero | hpos
  · -- the time is set to the clock
    rw [if_pos hneg] at heq
    refine Or.inr (Or.inr ⟨exactAdvance_neg_iff.mp hneg, by omega, fun a ha => ?_⟩)
    by_cases hsign : 0 ≤ a
    · exact heq ▸ hreach a ha hsign
    · omega
  · -- the mark for now, cleared by a zero: the time does not move
    rw [if_neg (by omega), hzero] at heq
    omega
  · rw [if_neg (by omega)] at heq
    by_cases hall : ∀ a ∈ advances next, 0 ≤ a
    · exact Or.inl hall
    · obtain ⟨front, back, hsplit, hback⟩ := (exactAdvance_of_pos hpos).resolve_left hall
      refine Or.inr (Or.inl ⟨_, ⟨hpos, fun a ha => ?_, front, back, hsplit, hback⟩, ?_⟩)
      · by_cases hsign : 0 ≤ a
        · have := hreach a ha hsign
          omega
        · omega
      · obtain ⟨a, ha, hsign⟩ := not_forall₂.mp hall
        obtain ⟨e, he, rfl⟩ := mem_advances.mp ha
        have := le_documentedTime internal_time done he
        rw [effectiveAdvance_of_neg (not_le.mp hsign)] at this
        omega

/-- Requirements with some advances. -/
def withAdvances (as : List (Option ℤ)) : List Entry :=
  as.zipIdx.map fun x => ({ type := some .NO_OP, internal_time_advance := x.1 }, x.2)

/-- A block without an advance, beside one with an advance of five seconds. -/
theorem timeAfter_eq_iff_unset :
    timeAfter (withAdvances [none, some 5]) 1000 1003
        = documentedTime (withAdvances [none, some 5]) 1000 1003
      ↔ MovesAsDocumented (withAdvances [none, some 5]) 1000 1003 :=
  timeAfter_eq_iff _ _ _ (by decide)

/-- **Blocks that move the time otherwise**: an advance to now takes the
place of a larger one before it, the order of two requirements matters, and
the time does not move at all when no advance follows one to now. -/
theorem timeAfter_undocumented :
    timeAfter (withAdvances [some 5, some (-1)]) 1000 1003 = 1003
      ∧ documentedTime (withAdvances [some 5, some (-1)]) 1000 1003 = 1005
      ∧ timeAfter (withAdvances [some (-1), some 5]) 1000 1003 = 1005
      ∧ timeAfter (withAdvances [some (-1), some 0]) 1000 1003 = 1000
      ∧ documentedTime (withAdvances [some (-1), some 0]) 1000 1003 = 1003 := by
  decide

end RequirementEngine
