import Gazosan.Image.OpenCV
import Gazosan.Library.Histogram
import Mathlib.Algebra.BigOperators.Fin
import Mathlib.Algebra.Order.Field.Rat
import Mathlib.Data.Fintype.BigOperators
import Mathlib.Data.Fintype.Prod
import Mathlib.Tactic.Linarith

/-!
# The histogram check

`check_histogram_differential` compares the two images by their histograms of
hue and saturation, and `main` stops if they are close.  `calcHist` counts the
pixels per bin, `normalize` scales the counts to the range from 0 to 1 and
`compareHist` with method 1 is the chi-square distance.  All three are over
exact rationals here.

A verdict of "same" says that the normalised histograms are close in every bin
that the old image occupies (`histogram_verdict`).  Nothing in it depends on the
brightness of a pixel, on its place or on the size of the image, and what the new
image holds in other bins does not count.  So the verdict may be another one if the
images are exchanged.  `histogram_verdict_swap` says when, in terms of the share that
each bin has of the pixels of an image.
-/

namespace Gazosan

/-- A bin for the hue and a bin for the saturation. -/
abbrev Bin : Type := Fin 256 × Fin 256

/-- The bin of a pixel: 256 bins for hues from 0 to 180 and one per saturation.
Hues from 180 on are not counted. -/
def binOf (hsv : Vec3b) : Option Bin :=
  if h : hsv.b.toNat < 180 then
    some (⟨hsv.b.toNat * 256 / 180, by omega⟩, ⟨hsv.g.toNat, hsv.g.toNat_lt⟩)
  else none

/-- `cv::calcHist` with the ranges and sizes of the check. -/
def calcHist (hsv : Mat Vec3b) (bin : Bin) : ℚ :=
  (Finset.univ.filter fun p : Fin hsv.rows × Fin hsv.cols =>
    binOf (hsv.px p.1 p.2) = some bin).card

/-- `cvtColor(color, hsv, COLOR_BGR2HSV)`: the image in hue, saturation and value. -/
def hsvMat {ρ : Type} (cv : OpenCV ρ) (color : Mat Vec3b) : Mat Vec3b :=
  color.mapAt fun _ c => cv.bgr2hsv c

/-- `preprocess_image`. -/
def preprocessImage {ρ : Type} (cv : OpenCV ρ) (color : Mat Vec3b) : Bin → ℚ :=
  Histogram.normalize (calcHist (hsvMat cv color))

/-- `check_histogram_differential`: the verdict, or the error message. -/
def checkHistogramDifferential {ρ : Type} (cv : OpenCV ρ) (ctx : Context ρ) : Except String Bool :=
  if ctx.oldColorMat.empty || ctx.newColorMat.empty then .error "failed to decode image file"
  else .ok (decide (Histogram.chiSquare (preprocessImage cv ctx.oldColorMat)
    (preprocessImage cv ctx.newColorMat) - 1 / 10 ^ 5 ≤ 1 / 10 ^ 13))

/-- The tolerance of the check. -/
def tolerance : ℚ := 1 / 10 ^ 5 + 1 / 10 ^ 13

theorem checkHistogramDifferential_eq {ρ : Type} (cv : OpenCV ρ) {ctx : Context ρ}
    (hold : ctx.oldColorMat.empty = false) (hnew : ctx.newColorMat.empty = false) :
    checkHistogramDifferential cv ctx = .ok (decide (Histogram.chiSquare
      (preprocessImage cv ctx.oldColorMat) (preprocessImage cv ctx.newColorMat) ≤ tolerance)) := by
  rw [checkHistogramDifferential, hold, hnew, tolerance]
  simp only [Bool.or_self, Bool.false_eq_true, if_false, Except.ok.injEq, decide_eq_decide]
  constructor
  · intro h
    linarith
  · intro h
    linarith

/-! ## Counts of pixels -/

/-- Where the pixels of an image are. -/
abbrev Mat.Place {α : Type} (m : Mat α) : Type := Fin m.rows × Fin m.cols

section

variable {ρ : Type} (cv : OpenCV ρ)

/-- The bin of a pixel of an image. -/
def binAt (color : Mat Vec3b) (p : color.Place) : Option Bin :=
  binOf (cv.bgr2hsv (color.px p.1 p.2))

/-- The pixels that are counted in a bin. -/
def inBin (color : Mat Vec3b) (bin : Bin) : Finset color.Place :=
  Finset.univ.filter fun p => binAt cv color p = some bin

/-- The number of pixels in the fullest bin. -/
def peakCount (color : Mat Vec3b) : Nat :=
  Histogram.greatest fun bin => (inBin cv color bin).card

/-- The number of pixels in a bin, relative to the fullest one. -/
def share (color : Mat Vec3b) (bin : Bin) : ℚ := (inBin cv color bin).card / peakCount cv color

variable {cv}

theorem calcHist_eq (color : Mat Vec3b) (bin : Bin) :
    calcHist (hsvMat cv color) bin = (inBin cv color bin).card := rfl

/-- No hue is counted in bin 3, since 256 bins are too many for 180 hues. -/
theorem binOf_ne_free (hsv : Vec3b) (s : Fin 256) : binOf hsv ≠ some (3, s) := by
  intro h
  rw [binOf] at h
  split at h
  · have hbin : hsv.b.toNat * 256 / 180 = 3 :=
      congrArg (fun bin : Bin => bin.1.val) (Option.some.inj h)
    omega
  · cases h

theorem calcHist_free (color : Mat Vec3b) : calcHist (hsvMat cv color) (3, 0) = 0 := by
  rw [calcHist_eq, Nat.cast_eq_zero, Finset.card_eq_zero, inBin, Finset.filter_eq_empty_iff]
  exact fun p _ => binOf_ne_free _ 0

theorem greatest_calcHist (color : Mat Vec3b) :
    Histogram.greatest (calcHist (hsvMat cv color)) = peakCount cv color :=
  Histogram.greatest_map Nat.mono_cast fun bin => (inBin cv color bin).card

/-- Since there is always an empty bin, the normalised histogram holds the shares. -/
theorem preprocessImage_eq_share (color : Mat Vec3b) :
    preprocessImage cv color = share cv color := by
  have hnonneg : ∀ bin, 0 ≤ calcHist (hsvMat cv color) bin := fun bin => Nat.cast_nonneg _
  funext bin
  rw [preprocessImage, Histogram.normalize_eq_div hnonneg (calcHist_free color),
    greatest_calcHist, calcHist_eq, share]

theorem share_nonneg (color : Mat Vec3b) (bin : Bin) : 0 ≤ share cv color bin :=
  div_nonneg (Nat.cast_nonneg _) (Nat.cast_nonneg _)

theorem share_ne_zero {color : Mat Vec3b} {bin : Bin} (h : inBin cv color bin ≠ ∅) :
    share cv color bin ≠ 0 := by
  have hcard : 0 < (inBin cv color bin).card :=
    Finset.card_pos.mpr (Finset.nonempty_iff_ne_empty.mpr h)
  have hpeak : 0 < peakCount cv color :=
    hcard.trans_le (Histogram.le_greatest (fun bin => (inBin cv color bin).card) bin)
  exact div_ne_zero (Nat.cast_ne_zero.mpr hcard.ne') (Nat.cast_ne_zero.mpr hpeak.ne')

end

/-- The verdict "same" means that the chi-square distance of the normalised
histograms is within the tolerance.  It bounds the difference in every bin that
the old image occupies, and images with the same counts always get it.  In pixels, a bin
of the normalised histogram is the share of the bin. -/
theorem histogram_verdict {ρ : Type} (cv : OpenCV ρ) (ctx : Context ρ)
    (hold : ctx.oldColorMat.empty = false) (hnew : ctx.newColorMat.empty = false) :
    ∃ same, checkHistogramDifferential cv ctx = .ok same ∧
      (same = true ↔ Histogram.chiSquare (preprocessImage cv ctx.oldColorMat)
        (preprocessImage cv ctx.newColorMat) ≤ tolerance) ∧
      (same = true → ∀ bin, preprocessImage cv ctx.oldColorMat bin ≠ 0 →
        (preprocessImage cv ctx.oldColorMat bin - preprocessImage cv ctx.newColorMat bin) ^ 2 ≤
          tolerance * preprocessImage cv ctx.oldColorMat bin) ∧
      (same = true → ∀ bin, inBin cv ctx.oldColorMat bin ≠ ∅ →
        (share cv ctx.oldColorMat bin - share cv ctx.newColorMat bin) ^ 2 ≤
          tolerance * share cv ctx.oldColorMat bin) ∧
      (calcHist (hsvMat cv ctx.oldColorMat) = calcHist (hsvMat cv ctx.newColorMat) →
        same = true) := by
  have hbound : ∀ {same}, same = decide (Histogram.chiSquare (preprocessImage cv ctx.oldColorMat)
      (preprocessImage cv ctx.newColorMat) ≤ tolerance) → same = true → ∀ bin,
      preprocessImage cv ctx.oldColorMat bin ≠ 0 →
      (preprocessImage cv ctx.oldColorMat bin - preprocessImage cv ctx.newColorMat bin) ^ 2 ≤
        tolerance * preprocessImage cv ctx.oldColorMat bin := by
    rintro same rfl hsame bin hbin
    exact Histogram.sq_sub_le_of_chiSquare_le (Histogram.normalize_nonneg _)
      (of_decide_eq_true hsame) hbin
  refine ⟨_, checkHistogramDifferential_eq cv hold hnew, decide_eq_true_iff, hbound rfl, ?_, ?_⟩
  · intro hsame bin hbin
    have h := hbound rfl hsame bin
    rw [preprocessImage_eq_share, preprocessImage_eq_share] at h
    exact h (share_ne_zero hbin)
  · intro hcounts
    have heq : preprocessImage cv ctx.oldColorMat = preprocessImage cv ctx.newColorMat :=
      congrArg Histogram.normalize hcounts
    rw [heq, Histogram.chiSquare_self]
    exact decide_eq_true (by norm_num [tolerance])

/-! ## Which image is called old -/

section

variable {ρ : Type} (cv : OpenCV ρ)

/-- What the bins that both images occupy add to the distance: the sum of
`(s - s') ^ 2 / s` over the shares `s` of the first image and `s'` of the second. -/
def commonDistance (old new : Mat Vec3b) : ℚ :=
  Histogram.commonPart (share cv old) (share cv new)

/-- What the bins that only the first image occupies add to the distance: its shares. -/
def ownDistance (old new : Mat Vec3b) : ℚ := Histogram.ownPart (share cv old) (share cv new)

/-- The sum of `(s' - s) ^ 3 / (s * s')` over the bins that both images occupy. -/
def distanceSkew (old new : Mat Vec3b) : ℚ := Histogram.skew (share cv old) (share cv new)

variable {cv}

theorem checkHistogramDifferential_eq_shares {ctx : Context ρ}
    (hold : ctx.oldColorMat.empty = false) (hnew : ctx.newColorMat.empty = false) :
    checkHistogramDifferential cv ctx = .ok (decide
      (commonDistance cv ctx.oldColorMat ctx.newColorMat +
        ownDistance cv ctx.oldColorMat ctx.newColorMat ≤ tolerance)) := by
  rw [checkHistogramDifferential_eq cv hold hnew, preprocessImage_eq_share,
    preprocessImage_eq_share, Histogram.chiSquare_eq_add, commonDistance, ownDistance]

theorem commonDistance_eq_add_skew (cv : OpenCV ρ) (old new : Mat Vec3b) :
    commonDistance cv old new = commonDistance cv new old + distanceSkew cv old new :=
  Histogram.commonPart_eq_add_skew _ _

theorem commonDistance_nonneg (cv : OpenCV ρ) (old new : Mat Vec3b) :
    0 ≤ commonDistance cv old new :=
  Histogram.commonPart_nonneg (share_nonneg old)

/-- Equal shares have distance 0. -/
theorem distance_eq_zero {old new : Mat Vec3b} (h : share cv old = share cv new) :
    commonDistance cv old new + ownDistance cv old new = 0 := by
  rw [commonDistance, ownDistance, h, ← Histogram.chiSquare_eq_add, Histogram.chiSquare_self]

theorem commonDistance_swap_le {old new : Mat Vec3b} {ε : ℚ} (hε : 0 ≤ ε)
    (hsame : commonDistance cv old new + ownDistance cv old new ≤ tolerance)
    (henough : ∀ bin, inBin cv old bin ≠ ∅ → inBin cv new bin ≠ ∅ →
      tolerance ≤ ε ^ 2 * share cv old bin) :
    (1 - ε) * commonDistance cv new old ≤ commonDistance cv old new := by
  have hne : ∀ (color : Mat Vec3b) bin, share cv color bin ≠ 0 → inBin cv color bin ≠ ∅ := by
    intro color bin hbin hempty
    exact hbin (by rw [share, hempty, Finset.card_empty, Nat.cast_zero, zero_div])
  refine Histogram.commonPart_swap_le (share_nonneg old) (share_nonneg new) hε
    (b := tolerance) ?_ fun bin ho hn => henough bin (hne old bin ho) (hne new bin hn)
  rw [Histogram.chiSquare_eq_add]
  exact hsame

variable (cv)

/-- The verdict of each order of the images, and when they are the same.  A distance counts
what the old image holds in bins of its own and nothing that the new image holds in bins
of its own, and its common part is divided by the shares of the old image.  So the verdicts
differ if and only if the common part of one order is between the bounds that the own
parts and the skew of the common parts leave for it.  Equal shares are the same either
way, and if both images hold more than the tolerance in bins of their own, they are
different either way.  If the common bins hold enough of the old image, the verdict "same"
carries over with a factor close to 1. -/
theorem histogram_verdict_swap (ctx : Context ρ)
    (hold : ctx.oldColorMat.empty = false) (hnew : ctx.newColorMat.empty = false) :
    ∃ same same', checkHistogramDifferential cv ctx = .ok same ∧
      checkHistogramDifferential cv ctx.swap = .ok same' ∧
      (same = true ↔ commonDistance cv ctx.oldColorMat ctx.newColorMat +
        ownDistance cv ctx.oldColorMat ctx.newColorMat ≤ tolerance) ∧
      (same' = true ↔ commonDistance cv ctx.newColorMat ctx.oldColorMat +
        ownDistance cv ctx.newColorMat ctx.oldColorMat ≤ tolerance) ∧
      (same = same' ↔ commonDistance cv ctx.newColorMat ctx.oldColorMat ∉ Set.uIoc
        (tolerance - ownDistance cv ctx.newColorMat ctx.oldColorMat)
        (tolerance - ownDistance cv ctx.oldColorMat ctx.newColorMat -
          distanceSkew cv ctx.oldColorMat ctx.newColorMat)) ∧
      (share cv ctx.oldColorMat = share cv ctx.newColorMat → same = true ∧ same' = true) ∧
      (tolerance < ownDistance cv ctx.oldColorMat ctx.newColorMat →
        tolerance < ownDistance cv ctx.newColorMat ctx.oldColorMat →
        same = false ∧ same' = false) ∧
      (∀ ε : ℚ, 0 ≤ ε → ε < 1 → same = true →
        (∀ bin, inBin cv ctx.oldColorMat bin ≠ ∅ → inBin cv ctx.newColorMat bin ≠ ∅ →
          tolerance ≤ ε ^ 2 * share cv ctx.oldColorMat bin) →
        commonDistance cv ctx.oldColorMat ctx.newColorMat ≤
          (1 - ε) * (tolerance - ownDistance cv ctx.newColorMat ctx.oldColorMat) →
        same' = true) := by
  have hskew := commonDistance_eq_add_skew cv ctx.oldColorMat ctx.newColorMat
  have hswap := @checkHistogramDifferential_eq_shares ρ cv ctx.swap hnew hold
  rw [ctx.swap_oldColorMat, ctx.swap_newColorMat] at hswap
  refine ⟨_, _, checkHistogramDifferential_eq_shares hold hnew, hswap, decide_eq_true_iff,
    decide_eq_true_iff, ?_, ?_, ?_, ?_⟩
  · have hleft : commonDistance cv ctx.oldColorMat ctx.newColorMat +
        ownDistance cv ctx.oldColorMat ctx.newColorMat ≤ tolerance ↔
        commonDistance cv ctx.newColorMat ctx.oldColorMat ≤ tolerance -
          ownDistance cv ctx.oldColorMat ctx.newColorMat -
          distanceSkew cv ctx.oldColorMat ctx.newColorMat := by
      rw [hskew, le_sub_iff_add_le, le_sub_iff_add_le]
    have hright : commonDistance cv ctx.newColorMat ctx.oldColorMat +
        ownDistance cv ctx.newColorMat ctx.oldColorMat ≤ tolerance ↔
        commonDistance cv ctx.newColorMat ctx.oldColorMat ≤ tolerance -
          ownDistance cv ctx.newColorMat ctx.oldColorMat := le_sub_iff_add_le.symm
    rw [decide_eq_decide, hleft, hright]
    exact Histogram.le_iff_le_iff_notMem_uIoc
  · intro heq
    have hzero : (0 : ℚ) ≤ tolerance := by norm_num [tolerance]
    refine ⟨decide_eq_true ?_, decide_eq_true ?_⟩
    · exact (distance_eq_zero heq).trans_le hzero
    · exact (distance_eq_zero heq.symm).trans_le hzero
  · intro hown hown'
    refine ⟨decide_eq_false fun h => ?_, decide_eq_false fun h => ?_⟩
    · linarith [commonDistance_nonneg cv ctx.oldColorMat ctx.newColorMat]
    · linarith [commonDistance_nonneg cv ctx.newColorMat ctx.oldColorMat]
  · intro ε hε hε' hsame henough hclose
    have hback := commonDistance_swap_le hε (of_decide_eq_true hsame) henough
    have hle : commonDistance cv ctx.newColorMat ctx.oldColorMat ≤
        tolerance - ownDistance cv ctx.newColorMat ctx.oldColorMat :=
      le_of_mul_le_mul_left (hback.trans hclose) (sub_pos.mpr hε')
    exact decide_eq_true (by linarith)

end

/-! ## Images in one bin -/

/-- Every pixel of an image falls into one bin. -/
def InBin {ρ : Type} (cv : OpenCV ρ) (color : Mat Vec3b) (bin : Bin) : Prop :=
  ∀ i j, binOf (cv.bgr2hsv (color.px i j)) = some bin

theorem preprocessImage_inBin {ρ : Type} {cv : OpenCV ρ} {color : Mat Vec3b} {bin : Bin}
    (h : InBin cv color bin) (hne : color.empty = false) :
    preprocessImage cv color = Pi.single bin 1 := by
  have hpos : (0 : ℚ) < (color.rows * color.cols : Nat) := by
    have : color.rows * color.cols ≠ 0 := by simpa [Mat.empty] using hne
    exact_mod_cast Nat.pos_of_ne_zero this
  have hbin : ∀ p : Fin (hsvMat cv color).rows × Fin (hsvMat cv color).cols,
      binOf ((hsvMat cv color).px p.1 p.2) = some bin := fun p => h p.1 p.2
  have hcounts : calcHist (hsvMat cv color) =
      Pi.single bin ((color.rows * color.cols : Nat) : ℚ) := by
    funext other
    by_cases hb : other = bin
    · rw [hb, Pi.single_eq_same, calcHist, Finset.filter_true_of_mem fun p _ => hbin p,
        Finset.card_univ, Fintype.card_prod, Fintype.card_fin, Fintype.card_fin]
      rfl
    · rw [Pi.single_eq_of_ne hb, calcHist, Finset.filter_false_of_mem, Finset.card_empty,
        Nat.cast_zero]
      intro p _ hp
      rw [hbin p, Option.some.injEq] at hp
      exact hb hp.symm
  rw [preprocessImage, hcounts, Histogram.normalize_single bin hpos]

theorem inBin_pixel {ρ : Type} {cv : OpenCV ρ} {c : Vec3b} {bin : Bin}
    (h : binOf (cv.bgr2hsv c) = some bin) : InBin cv ⟨1, 1, fun _ _ => c⟩ bin :=
  fun _ _ => h

/-- Two images of one pixel. -/
def pixelContext (old new : Vec3b) : Context Nat where
  arg := {}
  newColorMat := ⟨1, 1, fun _ _ => new⟩
  oldColorMat := ⟨1, 1, fun _ _ => old⟩
  newGrayMat := ⟨1, 1, fun _ _ => 0⟩
  oldGrayMat := ⟨1, 1, fun _ _ => 0⟩

/-- Half as bright as `red`. -/
def darkRed : Vec3b := ⟨0, 0, 128⟩

theorem darker_pixel_same :
    checkHistogramDifferential sampleCV (pixelContext red darkRed) = .ok true ∧
      (pixelContext red darkRed).oldColorMat.at? ⟨0, 0⟩ ≠
        (pixelContext red darkRed).newColorMat.at? ⟨0, 0⟩ := by
  have hold : InBin sampleCV (pixelContext red darkRed).oldColorMat (0, 255) :=
    inBin_pixel (by decide)
  have hnew : InBin sampleCV (pixelContext red darkRed).newColorMat (0, 255) :=
    inBin_pixel (by decide)
  refine ⟨?_, by decide⟩
  rw [checkHistogramDifferential_eq _ rfl rfl, preprocessImage_inBin hold rfl,
    preprocessImage_inBin hnew rfl, Histogram.chiSquare_self]
  rw [decide_eq_true (by norm_num [tolerance])]

/-! ## A colour more -/

/-- `CV_RGB(0, 0, 255)`. -/
def blue : Vec3b := ⟨255, 0, 0⟩

/-- A red pixel as the old image, and the pixel with a blue one beside it as the new
image. -/
def moreColorsContext : Context Nat :=
  { pixelContext red red with newColorMat := ⟨1, 2, fun _ j => if j = 0 then red else blue⟩ }

theorem calcHist_moreColors :
    calcHist (hsvMat sampleCV moreColorsContext.newColorMat) =
      Pi.single (0, 255) 1 + Pi.single (170, 255) 1 := by
  have hred : binOf (sampleCV.bgr2hsv red) = some (0, 255) := by decide
  have hblue : binOf (sampleCV.bgr2hsv blue) = some (170, 255) := by decide
  funext bin
  change (((Finset.univ.filter fun p : Fin 1 × Fin 2 =>
    binOf (sampleCV.bgr2hsv (if p.2 = 0 then red else blue)) = some bin).card : Nat) : ℚ) = _
  rw [Finset.card_filter, Fintype.sum_prod_type, Fin.sum_univ_one, Fin.sum_univ_two]
  rw [if_neg (show ¬ (1 : Fin 2) = 0 by decide), if_pos rfl, hred, hblue, Pi.add_apply,
    Pi.single_apply, Pi.single_apply]
  simp only [Option.some.injEq, Nat.cast_add, Nat.cast_ite, Nat.cast_one, Nat.cast_zero,
    @eq_comm _ bin]

theorem preprocessImage_moreColors :
    preprocessImage sampleCV moreColorsContext.newColorMat =
      Pi.single (0, 255) 1 + Pi.single (170, 255) 1 := by
  have hvalue : ∀ bin : Bin, (Pi.single (0, 255) 1 + Pi.single (170, 255) 1 : Bin → ℚ) bin =
      if bin = (0, 255) ∨ bin = (170, 255) then 1 else 0 := by
    intro bin
    rw [Pi.add_apply, Pi.single_apply, Pi.single_apply]
    by_cases hb : bin = (0, 255)
    · rw [if_pos hb, if_neg (by rw [hb]; decide), if_pos (Or.inl hb), add_zero]
    · rw [if_neg hb, zero_add]
      simp only [hb, false_or]
  rw [preprocessImage, calcHist_moreColors]
  refine Histogram.normalize_eq_self ?_ ?_ (i := (1, 1)) (j := (0, 255)) ?_ ?_
  · intro bin
    rw [hvalue]
    split <;> norm_num
  · intro bin
    rw [hvalue]
    split <;> norm_num
  · rw [hvalue, if_neg (by decide)]
  · rw [hvalue, if_pos (Or.inl rfl)]

theorem preprocessImage_redPixel :
    preprocessImage sampleCV moreColorsContext.oldColorMat = Pi.single (0, 255) 1 :=
  preprocessImage_inBin (inBin_pixel (by decide)) rfl

theorem chiSquare_moreColors :
    Histogram.chiSquare (preprocessImage sampleCV moreColorsContext.oldColorMat)
      (preprocessImage sampleCV moreColorsContext.newColorMat) = 0 := by
  rw [preprocessImage_redPixel, preprocessImage_moreColors, Histogram.chiSquare_add_single]
  exact Pi.single_eq_of_ne (by decide) 1

theorem chiSquare_moreColors_swap :
    Histogram.chiSquare (preprocessImage sampleCV moreColorsContext.newColorMat)
      (preprocessImage sampleCV moreColorsContext.oldColorMat) = 1 := by
  rw [preprocessImage_redPixel, preprocessImage_moreColors,
    Histogram.chiSquare_single_add _ one_ne_zero]
  exact Pi.single_eq_of_ne (by decide) 1

/-- With the red pixel as the old image the two are the same, with the other one as
the old image they are not. -/
theorem more_colors_one_way :
    checkHistogramDifferential sampleCV moreColorsContext = .ok true ∧
      checkHistogramDifferential sampleCV moreColorsContext.swap = .ok false := by
  constructor
  · rw [checkHistogramDifferential_eq _ rfl rfl, chiSquare_moreColors]
    rw [decide_eq_true (by norm_num [tolerance])]
  · have hswap : checkHistogramDifferential sampleCV moreColorsContext.swap =
        .ok (decide (Histogram.chiSquare (preprocessImage sampleCV moreColorsContext.newColorMat)
          (preprocessImage sampleCV moreColorsContext.oldColorMat) ≤ tolerance)) :=
      checkHistogramDifferential_eq sampleCV rfl rfl
    rw [hswap, chiSquare_moreColors_swap]
    rw [decide_eq_false (by norm_num [tolerance])]

/-- The bound for the red bin, and the verdict, of the two images. -/
theorem histogram_verdict_moreColors :
    ∃ same, checkHistogramDifferential sampleCV moreColorsContext = .ok same ∧ same = true ∧
      (share sampleCV moreColorsContext.oldColorMat (0, 255) -
        share sampleCV moreColorsContext.newColorMat (0, 255)) ^ 2 ≤
        tolerance * share sampleCV moreColorsContext.oldColorMat (0, 255) := by
  obtain ⟨same, h, hsame, -, hbound, -⟩ :=
    histogram_verdict sampleCV moreColorsContext rfl rfl
  have htrue : same = true := hsame.mpr (chiSquare_moreColors.trans_le (by norm_num [tolerance]))
  exact ⟨same, h, htrue, hbound htrue (0, 255) (by decide)⟩

/-- Two images of one hue are the same either way, and two of different hues are different
either way. -/
theorem histogram_verdict_swap_pixels :
    (∃ same same', checkHistogramDifferential sampleCV (pixelContext red darkRed) = .ok same ∧
      checkHistogramDifferential sampleCV (pixelContext red darkRed).swap = .ok same' ∧
      same = true ∧ same' = true) ∧
    ∃ same same', checkHistogramDifferential sampleCV (pixelContext red blue) = .ok same ∧
      checkHistogramDifferential sampleCV (pixelContext red blue).swap = .ok same' ∧
      same = false ∧ same' = false := by
  have hshare : ∀ {c : Vec3b} {bin : Bin}, binOf (sampleCV.bgr2hsv c) = some bin →
      share sampleCV ⟨1, 1, fun _ _ => c⟩ = Pi.single bin 1 := by
    intro c bin hbin
    rw [← preprocessImage_eq_share, preprocessImage_inBin (inBin_pixel hbin) rfl]
  have hred := hshare (show binOf (sampleCV.bgr2hsv red) = some (0, 255) by decide)
  have hdark := hshare (show binOf (sampleCV.bgr2hsv darkRed) = some (0, 255) by decide)
  have hblue := hshare (show binOf (sampleCV.bgr2hsv blue) = some (170, 255) by decide)
  constructor
  · obtain ⟨same, same', h, h', -, -, -, hequal, -⟩ :=
      histogram_verdict_swap sampleCV (pixelContext red darkRed) rfl rfl
    exact ⟨same, same', h, h', hequal (hred.trans hdark.symm)⟩
  · obtain ⟨same, same', h, h', -, -, -, -, hown, -⟩ :=
      histogram_verdict_swap sampleCV (pixelContext red blue) rfl rfl
    have hfar : tolerance < 1 := by norm_num [tolerance]
    refine ⟨same, same', h, h', hown ?_ ?_⟩
    · have hone : ownDistance sampleCV ⟨1, 1, fun _ _ => red⟩ ⟨1, 1, fun _ _ => blue⟩ = 1 := by
        rw [ownDistance, hred, hblue]
        exact Histogram.ownPart_single (Pi.single_eq_of_ne (by decide) 1) 1
      exact hfar.trans_eq hone.symm
    · have hone : ownDistance sampleCV ⟨1, 1, fun _ _ => blue⟩ ⟨1, 1, fun _ _ => red⟩ = 1 := by
        rw [ownDistance, hred, hblue]
        exact Histogram.ownPart_single (Pi.single_eq_of_ne (by decide) 1) 1
      exact hfar.trans_eq hone.symm

end Gazosan
