import Mathlib.Algebra.BigOperators.Group.Finset.Basic
import Mathlib.Algebra.Order.BigOperators.Group.Finset
import Mathlib.Data.Finset.Max
import Mathlib.Data.Int.ConditionallyCompleteOrder
import Mathlib.Data.Int.Interval
import Mathlib.Order.ConditionallyCompleteLattice.Basic
import Mathlib.Order.Interval.Finset.Basic

/-!
# Drawing from prefix sums

Elements in an order have weights, and a number is drawn between one and the
sum of all weights. The weights up to an element add up to its prefix sum, and
the numbers between the prefix sum of what is below an element and its own are
the **share** of the element: as many numbers as its weight (`card_share`), and
each number in one share (`exists_share`). Choosing the least element whose
prefix sum reaches the number is proportional to the weights.

`card_filter_heaviest` is about another choice: the heaviest element whose
prefix sum reaches the number. It is proportional when the weights decrease.
-/

namespace PrefixDraw

variable {α : Type*} [LinearOrder α] (s : Finset α) (w : α → ℤ)

/-- The weights up to an element, itself included: its prefix sum in the
order of the elements. -/
def upTo (a : α) : ℤ := ∑ b ∈ s with b ≤ a, w b

/-- The weights below an element. It is the prefix sum of the element before
it, if there is one, and nothing otherwise. -/
def below (a : α) : ℤ := ∑ b ∈ s with b < a, w b

/-- All weights. -/
def total : ℤ := ∑ b ∈ s, w b

/-- The numbers that are meant to choose an element: those above the sum of
what is below it, up to its own prefix sum. The shares of the elements lie
next to each other and fill the range that numbers are drawn from. -/
noncomputable def share (a : α) : Finset ℤ := Finset.Ioc (below s w a) (upTo s w a)

/-- **The heaviest element reached**: its prefix sum reaches the number, and
no element whose prefix sum reaches the number is heavier. It is what a query
picks that filters by the prefix sum and then sorts by the weight, where it
should have sorted by the prefix sum. -/
structure Heaviest (n : ℤ) (a : α) : Prop where
  mem : a ∈ s
  reached : n ≤ upTo s w a
  heaviest : ∀ b ∈ s, n ≤ upTo s w b → w b ≤ w a

/-- Of two elements that have a weight, the later one is lighter. In such an
order the heaviest element that is reached is the first one that is reached. -/
def Decreasing : Prop := ∀ a ∈ s, ∀ b ∈ s, a < b → 0 < w a → 0 < w b → w b < w a

variable {s w} {a b : α}

/-! ## Prefix sums -/

theorem upTo_eq (ha : a ∈ s) : upTo s w a = below s w a + w a := by
  have hsplit : s.filter (· ≤ a) = insert a (s.filter (· < a)) := by
    ext b
    simp only [Finset.mem_filter, Finset.mem_insert]
    constructor
    · rintro ⟨hb, hle⟩
      exact (eq_or_lt_of_le hle).imp id (fun hlt => ⟨hb, hlt⟩)
    · rintro (rfl | ⟨hb, hlt⟩)
      · exact ⟨ha, le_refl _⟩
      · exact ⟨hb, le_of_lt hlt⟩
  unfold upTo below
  rw [hsplit, Finset.sum_insert (by simp), add_comm]

/-- The greatest element has the whole sum as its prefix sum. -/
theorem upTo_max' (hne : s.Nonempty) : upTo s w (s.max' hne) = total s w :=
  congrArg (fun t => ∑ b ∈ t, w b) (Finset.filter_true_of_mem (fun c hc => s.le_max' c hc))

/-- What is below an element is the prefix sum of the element before it. -/
theorem exists_upTo_eq_below (h : below s w a ≠ 0) :
    ∃ b ∈ s, b < a ∧ upTo s w b = below s w a := by
  have hne : (s.filter (· < a)).Nonempty := Finset.nonempty_of_sum_ne_zero h
  obtain ⟨hbs, hba⟩ := Finset.mem_filter.mp (Finset.max'_mem _ hne)
  refine ⟨_, hbs, hba, congrArg (fun t => ∑ b ∈ t, w b) ?_⟩
  ext c
  simp only [Finset.mem_filter, and_congr_right_iff]
  exact fun hc => ⟨fun hle => lt_of_le_of_lt hle hba,
    fun hlt => Finset.le_max' _ c (Finset.mem_filter.mpr ⟨hc, hlt⟩)⟩

/-- **Every number is in a share**: that of the first element whose prefix
sum reaches it. What is below this element does not reach the number, or an
earlier element would have been the first. -/
theorem exists_share {n : ℤ} (hn : n ∈ Finset.Icc 1 (total s w)) :
    ∃ a ∈ s, n ∈ share s w a := by
  obtain ⟨h₁, hle⟩ := Finset.mem_Icc.mp hn
  have hne : s.Nonempty := Finset.nonempty_of_sum_ne_zero (show total s w ≠ 0 by omega)
  have hreached : (s.filter (fun a => n ≤ upTo s w a)).Nonempty := by
    refine ⟨s.max' hne, Finset.mem_filter.mpr ⟨s.max'_mem hne, ?_⟩⟩
    rw [upTo_max']
    exact hle
  obtain ⟨hmem, hupTo⟩ := Finset.mem_filter.mp (Finset.min'_mem _ hreached)
  refine ⟨_, hmem, Finset.mem_Ioc.mpr ⟨lt_of_not_ge (fun hge => ?_), hupTo⟩⟩
  -- otherwise the element before the first one is reached as well
  obtain ⟨b, hbs, hlt, hb⟩ :=
    exists_upTo_eq_below (ne_of_gt (lt_of_lt_of_le zero_lt_one (le_trans h₁ hge)))
  rw [← hb] at hge
  exact absurd (Finset.min'_le _ b (Finset.mem_filter.mpr ⟨hbs, hge⟩)) (not_le.mpr hlt)

section Nonneg

variable (hw : ∀ a ∈ s, 0 ≤ w a)

include hw

theorem upTo_le_below (h : a < b) : upTo s w a ≤ below s w b := by
  refine Finset.sum_le_sum_of_subset_of_nonneg (fun c hc => ?_) (fun c hc _ => ?_)
  · obtain ⟨hc, hle⟩ := Finset.mem_filter.mp hc
    exact Finset.mem_filter.mpr ⟨hc, lt_of_le_of_lt hle h⟩
  · exact hw c (Finset.mem_filter.mp hc).1

theorem upTo_le_total (a : α) : upTo s w a ≤ total s w :=
  Finset.sum_le_sum_of_subset_of_nonneg (Finset.filter_subset _ _) (fun c hc _ => hw c hc)

theorem below_nonneg (a : α) : 0 ≤ below s w a :=
  Finset.sum_nonneg (fun c hc => hw c (Finset.mem_filter.mp hc).1)

theorem upTo_mono (ha : b ∈ s) (h : a ≤ b) : upTo s w a ≤ upTo s w b := by
  rcases eq_or_lt_of_le h with rfl | hlt
  · exact le_refl _
  · rw [upTo_eq ha]
    exact le_trans (upTo_le_below hw hlt) (le_add_of_nonneg_right (hw b ha))

/-! ## Shares -/

/-- **A share has as many numbers as the element's weight.** -/
theorem card_share (ha : a ∈ s) : ((share s w a).card : ℤ) = w a := by
  unfold share
  rw [Int.card_Ioc, upTo_eq ha, add_sub_cancel_left, Int.toNat_of_nonneg (hw a ha)]

theorem mem_Icc_of_share {n : ℤ} (h : n ∈ share s w a) : n ∈ Finset.Icc 1 (total s w) := by
  obtain ⟨hlt, hle⟩ := Finset.mem_Ioc.mp h
  have hbelow := below_nonneg hw a
  have htotal := upTo_le_total hw a
  exact Finset.mem_Icc.mpr ⟨by omega, by omega⟩

/-! ## The heaviest element reached -/

/-- With decreasing weights the heaviest element reached is the one whose share
has the number. -/
theorem Heaviest.eq_of_share {n : ℤ} (hdec : Decreasing s w) (ha : a ∈ s)
    (hn : n ∈ share s w a) (hb : Heaviest s w n b) : b = a := by
  obtain ⟨hlt, hle⟩ := Finset.mem_Ioc.mp hn
  have hpos : 0 < w a := by
    rw [upTo_eq ha] at hle
    omega
  rcases lt_trichotomy b a with h | h | h
  · have hreached := hb.reached
    have hbelow := upTo_le_below hw h
    omega
  · exact h
  · have hheavy := hb.heaviest a ha hle
    have hlight := hdec a ha b hb.mem h hpos (by omega)
    omega

/-- **The heaviest element is drawn in proportion** to decreasing weights: as
many numbers draw an element as its weight says. The numbers that draw it are
then those of its share, since a number in a share is reached by the elements
from there on, of which the first is the heaviest. -/
theorem card_filter_heaviest {draw : ℤ → Option α} (hdec : Decreasing s w)
    (hdraw : ∀ n ∈ Finset.Icc 1 (total s w), ∃ b, draw n = some b ∧ Heaviest s w n b)
    (ha : a ∈ s) :
    (((Finset.Icc 1 (total s w)).filter (fun n => draw n = some a)).card : ℤ) = w a := by
  have hshare : (Finset.Icc 1 (total s w)).filter (fun n => draw n = some a) = share s w a := by
    ext n
    rw [Finset.mem_filter]
    constructor
    · rintro ⟨hn, hdrawn⟩
      obtain ⟨b, hb, hheavy⟩ := hdraw n hn
      obtain rfl := Option.some.inj (hdrawn.symm.trans hb)
      obtain ⟨c, hc, hshare⟩ := exists_share hn
      rwa [hheavy.eq_of_share hw hdec hc hshare]
    · intro hn
      have hIcc := mem_Icc_of_share hw hn
      obtain ⟨b, hb, hheavy⟩ := hdraw n hIcc
      rw [hheavy.eq_of_share hw hdec ha hn] at hb
      exact ⟨hIcc, hb⟩
  rw [hshare]
  exact card_share hw ha

end Nonneg

end PrefixDraw
