import Gazosan.Main

/-!
# Changes that are not reported

`main` stops with "two images are same" before it looks for segments.  The check counts
the pixels of each hue and saturation, so it does not see where a pixel is, nor how bright
it is, nor how large the image is.  What is more, it looks only at the bins that the old
image occupies.  So pixels of other colours may be added, as long as no such colour has
more pixels than the most frequent old one.

`unreported_changes` states this for the whole program.
-/

namespace Gazosan

/-- A map that takes each value exactly `k` times takes the values in a set `k` times as
often as there are such values. -/
theorem card_fibres {α β : Type} [Fintype α] [DecidableEq α] [DecidableEq β] {k : Nat}
    {f : α → Option β} (hf : ∀ b, (Finset.univ.filter fun a => f a = some b).card = k)
    (s : Finset β) : (Finset.univ.filter fun a => ∃ b ∈ s, f a = some b).card = k * s.card := by
  have hunion : (Finset.univ.filter fun a => ∃ b ∈ s, f a = some b) =
      s.biUnion fun b => Finset.univ.filter fun a => f a = some b := by
    ext a
    simp
  rw [hunion, Finset.card_biUnion, Finset.sum_congr rfl fun b _ => hf b, Finset.sum_const,
    smul_eq_mul, Nat.mul_comm]
  intro b _ b' _ hne
  rw [Function.onFun, Finset.disjoint_left]
  intro a ha ha'
  rw [Finset.mem_filter] at ha ha'
  exact hne (Option.some.inj (ha.2.symm.trans ha'.2))

section

variable {ρ : Type} {cv : OpenCV ρ}

variable (cv) in
/-- The new image shows each pixel of the old one `k` times, in any place and of any
brightness, and besides only pixels of other colours, none of them too often.  `origin`
says which pixel a new one shows. -/
structure Unseen (old new : Mat Vec3b) (k : Nat) (origin : new.Place → Option old.Place) :
    Prop where
  pos : 0 < k
  shown : ∀ p, (Finset.univ.filter fun q => origin q = some p).card = k
  color : ∀ q p, origin q = some p → binAt cv new q = binAt cv old p
  extra : ∀ q bin, origin q = none → binAt cv new q = some bin → inBin cv old bin = ∅
  rare : ∃ peak, ∀ bin, inBin cv old bin = ∅ →
    (inBin cv new bin).card ≤ k * (inBin cv old peak).card

namespace Unseen

variable {old new : Mat Vec3b} {k : Nat} {origin : new.Place → Option old.Place}

/-- A colour of the old image is counted `k` times as often in the new one. -/
theorem card_inBin (h : Unseen cv old new k origin) {bin : Bin} (hbin : inBin cv old bin ≠ ∅) :
    (inBin cv new bin).card = k * (inBin cv old bin).card := by
  rw [← card_fibres h.shown (inBin cv old bin)]
  refine congrArg Finset.card (Finset.ext fun q => ?_)
  simp only [inBin, Finset.mem_filter, Finset.mem_univ, true_and]
  constructor
  · intro hq
    cases horigin : origin q with
    | none => exact absurd (h.extra q bin horigin hq) hbin
    | some p => exact ⟨p, by rw [← h.color q p horigin, hq], rfl⟩
  · rintro ⟨p, hp, horigin⟩
    rw [h.color q p horigin, hp]

/-- The distance of the histograms is 0. -/
theorem chiSquare_eq_zero (h : Unseen cv old new k origin) :
    Histogram.chiSquare (preprocessImage cv old) (preprocessImage cv new) = 0 := by
  obtain ⟨peak, hpeak⟩ := h.rare
  have hnonneg : ∀ (color : Mat Vec3b) bin, (0 : ℚ) ≤ calcHist (hsvMat cv color) bin :=
    fun color bin => Nat.cast_nonneg _
  have hempty : ∀ bin, calcHist (hsvMat cv old) bin = 0 ↔ inBin cv old bin = ∅ := by
    intro bin
    rw [calcHist_eq, Nat.cast_eq_zero, Finset.card_eq_zero]
  have hscaled : ∀ bin, calcHist (hsvMat cv old) bin ≠ 0 →
      calcHist (hsvMat cv new) bin = k * calcHist (hsvMat cv old) bin := by
    intro bin hbin
    rw [calcHist_eq, calcHist_eq, h.card_inBin fun hnone => hbin ((hempty bin).mpr hnone)]
    exact Nat.cast_mul _ _
  have hrare : ∀ bin, calcHist (hsvMat cv old) bin = 0 →
      calcHist (hsvMat cv new) bin ≤ k * calcHist (hsvMat cv old) peak := by
    intro bin hbin
    rw [calcHist_eq, calcHist_eq]
    exact_mod_cast hpeak bin ((hempty bin).mp hbin)
  exact Histogram.chiSquare_normalize_eq_zero (hnonneg old) (hnonneg new) (calcHist_free old)
    (calcHist_free new) (Nat.cast_pos.mpr h.pos) hscaled hrare

end Unseen

/-- Such a change is not reported: whatever the arguments and the files, both builds end
with "two images are same" and write nothing. -/
theorem unreported_changes {fs : FileSystem} {build : Build}
    {args : List String} {arg : Arg} {loaded : Context ρ}
    (harg : parseArgs build.threads args = .ok arg)
    (hload : loadImage cv fs build.oldFirst (emptyContext arg) = .ok loaded)
    (hold : loaded.oldColorMat.empty = false) (hnew : loaded.newColorMat.empty = false) {k : Nat}
    {origin : loaded.newColorMat.Place → Option loaded.oldColorMat.Place}
    (h : Unseen cv loaded.oldColorMat loaded.newColorMat k origin) :
    mainBeforeDiff cv fs build args = .error (.fatal (fatalLine arg "two images are same")) := by
  have hverdict : checkHistogramDifferential cv loaded = .ok true := by
    rw [checkHistogramDifferential_eq cv hold hnew, h.chiSquare_eq_zero]
    rw [decide_eq_true (by norm_num [tolerance])]
  obtain ⟨hnewFile, holdFile⟩ := parseArgs_files harg
  obtain ⟨new, old, -, -, rfl⟩ := loadImage_spec hnewFile holdFile hload
  refine bind_eq_error.mpr (.inr ⟨arg, harg, bind_eq_error.mpr (.inr ⟨_, hload, ?_⟩)⟩)
  refine bind_eq_error.mpr (.inl ?_)
  rw [hverdict]
  rfl

end

/-! ## A sample -/

/-- The file of an image of two pixels, one as red as `red` but darker and one blue. -/
def addedFile : List UInt8 :=
  [80, 54, 10, 50, 32, 49, 10, 50, 53, 53, 10, 128, 0, 0, 0, 0, 255]

/-- The first pixel of the new image shows the only one of the old. -/
def addedOrigin (q : (sampleCV.imdecode addedFile).Place) :
    Option (sampleCV.imdecode (pixelFile red)).Place :=
  if q.2.val = 0 then some (⟨0, by decide⟩, ⟨0, by decide⟩) else none

theorem unseen_added : Unseen sampleCV (sampleCV.imdecode (pixelFile red))
    (sampleCV.imdecode addedFile) 1 addedOrigin where
  pos := Nat.one_pos
  shown := by decide
  color := by decide
  extra q bin hq hbin := by
    have hblue : ∀ q, addedOrigin q = none → binAt sampleCV _ q = some (170, 255) := by decide
    rw [hblue q hq] at hbin
    obtain rfl := Option.some.inj hbin
    decide
  rare := by
    have hdifferent : ∀ q q', binAt sampleCV (sampleCV.imdecode addedFile) q = binAt sampleCV _ q' →
        q = q' := by
      decide
    have hone : (inBin sampleCV (sampleCV.imdecode (pixelFile red)) (0, 255)).card = 1 := by decide
    refine ⟨(0, 255), fun bin _ => ?_⟩
    rw [hone, Finset.card_le_one]
    intro q hq q' hq'
    rw [inBin, Finset.mem_filter] at hq hq'
    exact hdifferent q q' (hq.2.trans hq'.2.symm)

/-- A part is added and the rest gets darker, and nothing is reported. -/
theorem unreported_changes_added :
    mainBeforeDiff sampleCV (sampleFiles (pixelFile red) addedFile) .serial sampleArgs =
      .error (.fatal "gazo-san: fatal: two images are same\n") :=
  unreported_changes parseArgs_sample rfl (by decide) (by decide) unseen_added

end Gazosan
