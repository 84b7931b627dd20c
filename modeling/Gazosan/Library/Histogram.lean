import Mathlib.Algebra.BigOperators.Pi
import Mathlib.Algebra.BigOperators.Ring.Finset
import Mathlib.Algebra.Order.BigOperators.Group.Finset
import Mathlib.Algebra.Order.Field.Basic
import Mathlib.Data.Finset.Lattice.Fold
import Mathlib.Order.Interval.Set.UnorderedInterval
import Mathlib.Tactic.FieldSimp
import Mathlib.Tactic.Linarith
import Mathlib.Tactic.Ring
import Mathlib.Tactic.Tauto

/-!
# Histograms

A histogram over finitely many bins, its normalisation to the range from 0 to 1
and the chi-square distance of two histograms.  The distance is not symmetric:
it sums over the bins that the first histogram occupies and divides by what it
holds there.

A bound on the distance bounds the difference in each of these bins
(`sq_sub_le_of_chiSquare_le`).  The distance is the sum over the bins that both
occupy and of all that the first holds alone (`chiSquare_eq_add`).  The sums over the bins
that both occupy differ by a sum of cubes when the histograms are exchanged
(`commonPart_eq_add_skew`), and by a factor close to 1 if the bins hold enough
(`commonPart_swap_le`).  Of normalised histograms the distance is 0 if the second is a
multiple of the first in the bins that the first occupies, and has its greatest value there
(`chiSquare_normalize_eq_zero`).
-/

namespace Histogram

variable {ι K : Type*} [LinearOrder K]

/-- A value is within both of two bounds or within neither if and only if it is not between
them. -/
theorem le_iff_le_iff_notMem_uIoc {a b c : K} : (c ≤ b ↔ c ≤ a) ↔ c ∉ Set.uIoc a b := by
  rw [Set.mem_uIoc, ← not_le, ← not_le]
  tauto

variable [Fintype ι]

section

variable [Nonempty ι]

/-- The least value of a histogram. -/
def least (h : ι → K) : K := Finset.univ.inf' Finset.univ_nonempty h

/-- The greatest value of a histogram. -/
def greatest (h : ι → K) : K := Finset.univ.sup' Finset.univ_nonempty h

theorem least_le (h : ι → K) (i : ι) : least h ≤ h i := Finset.inf'_le h (Finset.mem_univ i)

theorem le_greatest (h : ι → K) (i : ι) : h i ≤ greatest h := Finset.le_sup' h (Finset.mem_univ i)

theorem exists_eq_greatest (h : ι → K) : ∃ i, greatest h = h i := by
  obtain ⟨i, -, hi⟩ := Finset.exists_mem_eq_sup' Finset.univ_nonempty h
  exact ⟨i, hi⟩

theorem greatest_map {L : Type*} [LinearOrder L] {f : K → L} (hf : Monotone f) (h : ι → K) :
    greatest (fun i => f (h i)) = f (greatest h) := by
  obtain ⟨i, hi⟩ := exists_eq_greatest h
  refine le_antisymm (Finset.sup'_le _ _ fun j _ => hf (le_greatest h j)) ?_
  rw [hi]
  exact le_greatest (fun i => f (h i)) i

end

variable [Field K]

/-- The histogram scaled to the range from 0 to 1.  A constant histogram becomes 0. -/
def normalize [Nonempty ι] (h : ι → K) (i : ι) : K :=
  if greatest h = least h then 0 else (h i - least h) / (greatest h - least h)

/-- The chi-square distance. -/
def chiSquare (h g : ι → K) : K := ∑ i, if h i = 0 then 0 else (h i - g i) ^ 2 / h i

theorem chiSquare_self (h : ι → K) : chiSquare h h = 0 := by
  refine Finset.sum_eq_zero fun i _ => ?_
  simp

/-- What the bins that both histograms occupy add to the distance. -/
def commonPart (h g : ι → K) : K :=
  ∑ i, if h i = 0 ∨ g i = 0 then 0 else (h i - g i) ^ 2 / h i

/-- What the bins that only the first histogram occupies add to the distance: all
that it holds there. -/
def ownPart (h g : ι → K) : K := ∑ i, if g i = 0 then h i else 0

theorem chiSquare_eq_add (h g : ι → K) : chiSquare h g = commonPart h g + ownPart h g := by
  rw [chiSquare, commonPart, ownPart, ← Finset.sum_add_distrib]
  refine Finset.sum_congr rfl fun i _ => ?_
  by_cases hi : h i = 0
  · simp [hi]
  · by_cases gi : g i = 0
    · simp [gi, pow_two, hi]
    · simp [hi, gi]

/-- By how much the two common parts of a pair of histograms differ. -/
def skew (h g : ι → K) : K :=
  ∑ i, if h i = 0 ∨ g i = 0 then 0 else (g i - h i) ^ 3 / (h i * g i)

theorem commonPart_eq_add_skew (h g : ι → K) : commonPart h g = commonPart g h + skew h g := by
  rw [commonPart, commonPart, skew, ← Finset.sum_add_distrib]
  refine Finset.sum_congr rfl fun i _ => ?_
  by_cases hi : h i = 0
  · simp [hi]
  by_cases gi : g i = 0
  · simp [gi]
  rw [if_neg (not_or.mpr ⟨hi, gi⟩), if_neg (not_or.mpr ⟨gi, hi⟩), if_neg (not_or.mpr ⟨hi, gi⟩)]
  field_simp
  ring

/-- A bin that only the second histogram occupies does not count. -/
theorem chiSquare_add_single [DecidableEq ι] {h : ι → K} {j : ι} (hj : h j = 0) (c : K) :
    chiSquare h (h + Pi.single j c) = 0 := by
  refine Finset.sum_eq_zero fun i _ => ?_
  by_cases hi : i = j
  · simp [hi, hj]
  · simp [hi]

/-- A bin that only the first histogram occupies counts with all it holds. -/
theorem chiSquare_single_add [DecidableEq ι] {h : ι → K} {j : ι} (hj : h j = 0) {c : K}
    (hc : c ≠ 0) : chiSquare (h + Pi.single j c) h = c := by
  rw [chiSquare, Finset.sum_eq_single j]
  · simp [hj, hc, pow_two]
  · intro i _ hi
    simp [hi]
  · intro hnot
    exact absurd (Finset.mem_univ j) hnot

/-- A histogram that occupies one bin has the value 1 there. -/
theorem normalize_single [Nonempty ι] [DecidableEq ι] [Nontrivial ι] (i : ι) {c : K} (hc : 0 < c) :
    normalize (Pi.single i c) = Pi.single i 1 := by
  have hnonneg : ∀ j, 0 ≤ (Pi.single i c : ι → K) j := by
    intro j
    by_cases hj : j = i
    · simp [hj, hc.le]
    · simp [hj]
  have hleast : least (Pi.single i c : ι → K) = 0 := by
    obtain ⟨j, hj⟩ := exists_ne i
    refine le_antisymm ?_ (Finset.le_inf' _ _ fun j _ => hnonneg j)
    exact (least_le _ j).trans_eq (by simp [hj])
  have hgreatest : greatest (Pi.single i c : ι → K) = c := by
    refine le_antisymm (Finset.sup'_le _ _ fun j _ => ?_) ((le_greatest _ i).trans_eq' (by simp))
    by_cases hj : j = i
    · simp [hj]
    · simp [hj, hc.le]
  funext j
  rw [normalize, hleast, hgreatest, if_neg hc.ne', sub_zero, sub_zero]
  by_cases hj : j = i
  · simp [hj, hc.ne']
  · simp [hj]

theorem ownPart_single [DecidableEq ι] {g : ι → K} {i : ι} (hi : g i = 0) (c : K) :
    ownPart (Pi.single i c) g = c := by
  rw [ownPart, Finset.sum_eq_single i]
  · simp [hi]
  · intro j _ hj
    simp [hj]
  · intro hnot
    exact absurd (Finset.mem_univ i) hnot

theorem chiSquare_single_of_ne [DecidableEq ι] {i j : ι} (hij : i ≠ j) :
    chiSquare (Pi.single i (1 : K)) (Pi.single j 1) = 1 := by
  rw [chiSquare, Finset.sum_eq_single i]
  · simp [hij]
  · intro k _ hk
    simp [hk]
  · intro h
    exact absurd (Finset.mem_univ i) h

/-- A histogram that ranges from 0 to 1 already stays as it is. -/
theorem normalize_eq_self [Nonempty ι] {h : ι → K} (hnonneg : ∀ i, 0 ≤ h i)
    (hone : ∀ i, h i ≤ 1) {i j : ι} (hi : h i = 0) (hj : h j = 1) : normalize h = h := by
  have hleast : least h = 0 :=
    le_antisymm ((least_le h i).trans_eq hi) (Finset.le_inf' _ _ fun k _ => hnonneg k)
  have hgreatest : greatest h = 1 :=
    le_antisymm (Finset.sup'_le _ _ fun k _ => hone k) (hj.symm.trans_le (le_greatest h j))
  have hne : ¬ greatest h = least h := by
    rw [hleast, hgreatest]
    exact one_ne_zero
  funext k
  rw [normalize, if_neg hne, hleast, hgreatest, sub_zero, sub_zero, div_one]

/-- A histogram that is not negative and has an empty bin is divided by its greatest
value. -/
theorem normalize_eq_div [Nonempty ι] {h : ι → K} (hnonneg : ∀ i, 0 ≤ h i) {free : ι}
    (hfree : h free = 0) (i : ι) : normalize h i = h i / greatest h := by
  have hleast : least h = 0 :=
    le_antisymm ((least_le h free).trans_eq hfree) (Finset.le_inf' _ _ fun j _ => hnonneg j)
  rw [normalize, hleast, sub_zero, sub_zero]
  split
  · rename_i hzero
    rw [hzero, div_zero]
  · rfl

variable [IsStrictOrderedRing K]

theorem normalize_nonneg [Nonempty ι] (h : ι → K) (i : ι) : 0 ≤ normalize h i := by
  rw [normalize]
  split
  · exact le_refl 0
  · exact div_nonneg (sub_nonneg.mpr (least_le h i))
      (sub_nonneg.mpr ((least_le h i).trans (le_greatest h i)))

/-- A bound on the distance bounds the difference in every bin that counts. -/
theorem sq_sub_le_of_chiSquare_le {h g : ι → K} (hnonneg : ∀ i, 0 ≤ h i) {b : K}
    (hb : chiSquare h g ≤ b) {i : ι} (hi : h i ≠ 0) : (h i - g i) ^ 2 ≤ b * h i := by
  have hpos : 0 < h i := lt_of_le_of_ne (hnonneg i) (Ne.symm hi)
  have hterm : (h i - g i) ^ 2 / h i ≤ chiSquare h g := by
    have hle := Finset.single_le_sum
      (f := fun j => if h j = 0 then 0 else (h j - g j) ^ 2 / h j) (fun j _ => ?_)
      (Finset.mem_univ i)
    · rw [if_neg hi] at hle
      exact hle
    · split
      · exact le_refl 0
      · exact div_nonneg (sq_nonneg _) (hnonneg j)
  calc (h i - g i) ^ 2 = (h i - g i) ^ 2 / h i * h i := (div_mul_cancel₀ _ hi).symm
    _ ≤ b * h i := mul_le_mul_of_nonneg_right (hterm.trans hb) hpos.le

theorem commonPart_nonneg {h g : ι → K} (hnonneg : ∀ i, 0 ≤ h i) : 0 ≤ commonPart h g := by
  refine Finset.sum_nonneg fun i _ => ?_
  split
  · exact le_refl 0
  · exact div_nonneg (sq_nonneg _) (hnonneg i)

/-- Where the first histogram holds enough in the bins that both occupy, a small distance
bounds the other distance in these bins as well. -/
theorem commonPart_swap_le {h g : ι → K} (hh : ∀ i, 0 ≤ h i) (hg : ∀ i, 0 ≤ g i) {b ε : K}
    (hε : 0 ≤ ε) (hb : chiSquare h g ≤ b) (henough : ∀ i, h i ≠ 0 → g i ≠ 0 → b ≤ ε ^ 2 * h i) :
    (1 - ε) * commonPart g h ≤ commonPart h g := by
  rw [commonPart, commonPart, Finset.mul_sum]
  refine Finset.sum_le_sum fun i _ => ?_
  by_cases hi : h i = 0
  · rw [if_pos (Or.inr hi), if_pos (Or.inl hi), mul_zero]
  by_cases gi : g i = 0
  · rw [if_pos (Or.inl gi), if_pos (Or.inr gi), mul_zero]
  have hpos : 0 < h i := lt_of_le_of_ne (hh i) (Ne.symm hi)
  have gpos : 0 < g i := lt_of_le_of_ne (hg i) (Ne.symm gi)
  -- the difference is at most the part `ε` of what the first histogram holds
  have hsq : (h i - g i) ^ 2 ≤ (ε * h i) ^ 2 :=
    calc (h i - g i) ^ 2 ≤ b * h i := sq_sub_le_of_chiSquare_le hh hb hi
      _ ≤ ε ^ 2 * h i * h i := mul_le_mul_of_nonneg_right (henough i hi gi) hpos.le
      _ = (ε * h i) ^ 2 := by ring
  have hdiff : h i - g i ≤ ε * h i := (abs_le_of_sq_le_sq' hsq (mul_nonneg hε hpos.le)).2
  rw [if_neg (not_or.mpr ⟨gi, hi⟩), if_neg (not_or.mpr ⟨hi, gi⟩), sub_sq_comm (g i), mul_div_assoc',
    div_le_div_iff₀ gpos hpos]
  calc (1 - ε) * (h i - g i) ^ 2 * h i = (h i - g i) ^ 2 * ((1 - ε) * h i) := by ring
    _ ≤ (h i - g i) ^ 2 * g i := mul_le_mul_of_nonneg_left (by linarith) (sq_nonneg _)

/-- What the second histogram adds in bins of its own does not count, as long as it stays
below the greatest value, and no factor counts. -/
theorem chiSquare_normalize_eq_zero [Nonempty ι] {h g : ι → K} (hh : ∀ i, 0 ≤ h i)
    (hg : ∀ i, 0 ≤ g i) {free : ι} (hfree : h free = 0) (hfree' : g free = 0) {c : K} (hc : 0 < c)
    (hscaled : ∀ i, h i ≠ 0 → g i = c * h i) {peak : ι}
    (hpeak : ∀ i, h i = 0 → g i ≤ c * h peak) :
    chiSquare (normalize h) (normalize g) = 0 := by
  refine Finset.sum_eq_zero fun i _ => ?_
  rw [normalize_eq_div hh hfree, normalize_eq_div hg hfree']
  by_cases hi : h i = 0
  · rw [if_pos (by rw [hi, zero_div])]
  · obtain ⟨j, hj⟩ := exists_eq_greatest h
    have hpos : 0 < greatest h := lt_of_lt_of_le (lt_of_le_of_ne (hh i) (Ne.symm hi))
      (le_greatest h i)
    have hgreatest : greatest g = c * greatest h := by
      refine le_antisymm (Finset.sup'_le _ _ fun k _ => ?_) ?_
      · by_cases hk : h k = 0
        · exact (hpeak k hk).trans (mul_le_mul_of_nonneg_left (le_greatest h peak) hc.le)
        · rw [hscaled k hk]
          exact mul_le_mul_of_nonneg_left (le_greatest h k) hc.le
      · rw [hj, ← hscaled j (hj ▸ hpos.ne')]
        exact le_greatest g j
    rw [hscaled i hi, hgreatest, mul_div_mul_left _ _ hc.ne', sub_self]
    simp

end Histogram
