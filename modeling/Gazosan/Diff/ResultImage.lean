import Gazosan.Diff.Flags

/-!
# The diff image

`DrawInv` links the result image to the tasks: it is the base image with what
the committed segments draw.  In a complete state the committed new segments are
the compatible ones, so every complete run ends with the same image.
-/

namespace Gazosan

section

variable {ρ : Type} (cv : OpenCV ρ) {descriptorMatch : List ρ → List ρ → Bool}
  {ctx : Context ρ}

/-! ## The invariant -/

/-- The image is the base image with what the committed segments draw, and it
exists if all of them can be drawn. -/
structure DrawInv (s : ctx.State) : Prop where
  painted : ∀ img, s.result = some img →
    Mat.PaintedBy (fun p => ∃ i j, s.task i j = .committed ∧ Draws cv ctx (ctx.newSegment j) p)
      red (baseImage cv ctx) img
  defined : s.result.isSome ↔
    ∀ i j, s.task i j = .committed → Drawable cv ctx (ctx.newSegment j)

variable {cv}

theorem drawInv_initState (cv : OpenCV ρ) : DrawInv cv (initState cv ctx) := by
  refine ⟨?_, ?_⟩
  · intro img h
    cases h
    exact (Mat.PaintedBy.refl red _).congr (by simp [initState])
  · simp [initState]

theorem oldSize_baseImage (hcv : cv.Lawful) : OldSize ctx (baseImage cv ctx) :=
  hcv.merge_size ctx.oldGrayMat

namespace DrawInv

variable {s : ctx.State}

/-- A step that commits nothing and draws nothing. -/
theorem of_same {s' : ctx.State} (hs : DrawInv cv s) (hr : s'.result = s.result)
    (ht : ∀ i j, s'.task i j = .committed ↔ s.task i j = .committed) : DrawInv cv s' := by
  refine ⟨?_, ?_⟩
  · intro img h
    rw [hr] at h
    exact (hs.painted img h).congr (fun p => by simp only [ht])
  · rw [hr, hs.defined]
    simp only [ht]

theorem commit (hcv : cv.Lawful) (hs : DrawInv cv s) (i : Fin ctx.oldSegments.length)
    (j : Fin ctx.newSegments.length) : DrawInv cv (commit cv s i j) := by
  have htask : ∀ i' j', (Gazosan.commit cv s i j).task i' j' = .committed ↔
      (i' = i ∧ j' = j) ∨ s.task i' j' = .committed := by
    intro i' j'
    rw [commit_task]
    split
    · rename_i hc
      simp [hc]
    · rename_i hc
      simp [hc]
  have hres : (Gazosan.commit cv s i j).result =
      s.result.bind (drawMatched cv ctx (ctx.newSegment j)) := rfl
  refine ⟨?_, ?_⟩
  · intro img h
    rw [hres] at h
    obtain ⟨img₀, h₀, h⟩ := Option.bind_eq_some_iff.mp h
    refine ((hs.painted img₀ h₀).trans (drawMatched_painted hcv h)).congr (fun p => ?_)
    simp only [htask]
    constructor
    · rintro (⟨i', j', ht, hp⟩ | hp)
      · exact ⟨i', j', Or.inr ht, hp⟩
      · exact ⟨i, j, Or.inl ⟨rfl, rfl⟩, hp⟩
    · rintro ⟨i', j', ⟨rfl, rfl⟩ | ht, hp⟩
      · exact Or.inr hp
      · exact Or.inl ⟨i', j', ht, hp⟩
  · rw [hres]
    simp only [htask]
    cases h₀ : s.result with
    | none =>
        have hnot := hs.defined.not.mp (by simp [h₀])
        simp only [Option.bind_none, Option.isSome_none, Bool.false_eq_true, false_iff]
        exact fun h => hnot (fun i' j' ht => h i' j' (Or.inr ht))
    | some img₀ =>
        have hall := hs.defined.mp (by simp [h₀])
        have hsize := (oldSize_baseImage hcv).of_painted (hs.painted img₀ h₀)
        rw [Option.bind_some, drawMatched_isSome hcv _ hsize]
        constructor
        · rintro hd i' j' (⟨rfl, rfl⟩ | ht)
          · exact hd
          · exact hall i' j' ht
        · intro h
          exact h i j (Or.inl ⟨rfl, rfl⟩)

/-- Every step keeps the invariant. -/
theorem step (hcv : cv.Lawful) {s' : ctx.State} (a : ctx.Step) (hf : FlagInv descriptorMatch s)
    (hs : DrawInv cv s)
    (h : matchStep cv descriptorMatch s a = some s') : DrawInv cv s' := by
  have hguard : ∀ {i j t}, s.task i j = .ready → t ≠ .committed →
      DrawInv cv (s.setTask i j t) := by
    intro i j t ht hne
    refine hs.of_same rfl (fun i' j' => ?_)
    rw [setTask_task]
    split
    · rename_i hc
      obtain ⟨rfl, rfl⟩ := hc
      rw [ht]
      exact ⟨fun h => absurd h hne, fun h => by cases h⟩
    · exact Iff.rfl
  rcases matchStep_cases h with ⟨i, -, he, rfl⟩ | ⟨i, j, -, ht, -, rfl⟩ |
    ⟨i, j, -, ht, -, rfl⟩ | ⟨i, j, -, -, rfl⟩
  · exact hs.of_same (enter_result s i) (fun _ _ => hf.enter_task_iff he (by simp) (by simp))
  · exact hguard ht (by simp)
  · exact hguard ht (by simp)
  · exact hs.commit hcv i j

end DrawInv

/-- The image hangs together with the tasks in every reachable state. -/
theorem drawInv_of_run (hcv : cv.Lawful) (hfresh : ctx.Fresh) {as : List ctx.Step}
    {s : ctx.State}
    (h : Transition.run (matchStep cv descriptorMatch) (initState cv ctx) as = some s) :
    DrawInv cv s :=
  (Transition.run_invariant (fun s => FlagInv descriptorMatch s ∧ DrawInv cv s)
    (fun _ a _ hs h => ⟨hs.1.step a h, hs.2.step hcv a hs.1 h⟩)
    ⟨flagInv_initState cv hfresh, drawInv_initState cv⟩ h).2

/-! ## Complete runs -/

variable {s : ctx.State}

/-- A new segment is matched when one of its tasks has committed. -/
theorem FlagInv.exists_committed_iff (hf : FlagInv descriptorMatch s) (P : Fin _ → Prop) :
    (∃ i j, s.task i j = .committed ∧ P j) ↔ ∃ j, s.newMatched j = true ∧ P j := by
  constructor
  · rintro ⟨i, j, ht, hp⟩
    exact ⟨j, (hf.newMatched_iff j).mpr ⟨i, ht⟩, hp⟩
  · rintro ⟨j, hm, hp⟩
    obtain ⟨i, ht⟩ := (hf.newMatched_iff j).mp hm
    exact ⟨i, j, ht, hp⟩

/-- The image is the base image with what the matched new segments draw. -/
theorem DrawInv.painted_matched (hf : FlagInv descriptorMatch s) (hs : DrawInv cv s)
    {img : Mat Vec3b} (h : s.result = some img) :
    Mat.PaintedBy (fun p => ∃ j, s.newMatched j = true ∧ Draws cv ctx (ctx.newSegment j) p)
      red (baseImage cv ctx) img :=
  (hs.painted img h).congr (fun _ => hf.exists_committed_iff _)

theorem DrawInv.defined_matched (hf : FlagInv descriptorMatch s) (hs : DrawInv cv s) :
    s.result.isSome ↔ ∀ j, s.newMatched j = true → Drawable cv ctx (ctx.newSegment j) := by
  rw [hs.defined]
  constructor
  · intro h j hm
    obtain ⟨i, ht⟩ := (hf.newMatched_iff j).mp hm
    exact h i j ht
  · intro h i j ht
    exact h j ((hf.newMatched_iff j).mpr ⟨i, ht⟩)

/-- A pixel of a painted base image is red if it is painted, and gray otherwise. -/
theorem red_iff_of_painted (hcv : cv.Lawful) {A : Point → Prop} {img : Mat Vec3b}
    (h : Mat.PaintedBy A red (baseImage cv ctx) img) (p : Point) :
    (img.at? p = some red ↔ ctx.oldGrayMat.InBounds p ∧ A p) ∧
      (img.at? p ≠ some red → img.at? p = (ctx.oldGrayMat.at? p).map Vec3b.gray) := by
  have hbase : (baseImage cv ctx).at? p = (ctx.oldGrayMat.at? p).map Vec3b.gray :=
    hcv.merge_at ctx.oldGrayMat p
  have hsize : OldSize ctx (baseImage cv ctx) := oldSize_baseImage hcv
  have hbounds := hsize.inBounds_iff p
  by_cases hA : A p
  · by_cases hb : ctx.oldGrayMat.InBounds p
    · rw [h.inside p hA (hbounds.mpr hb)]
      exact ⟨⟨fun _ => ⟨hb, hA⟩, fun _ => rfl⟩, fun hne => absurd rfl hne⟩
    · rw [Mat.at?_eq_none.mpr (fun h' => hb (hbounds.mp ((h.inBounds_iff p).mp h'))),
        Mat.at?_eq_none.mpr hb]
      exact ⟨⟨fun h' => (nomatch h'), fun h' => absurd h'.1 hb⟩, fun _ => rfl⟩
  · rw [h.outside p hA, hbase]
    refine ⟨⟨fun hred => ?_, fun h' => absurd h'.2 hA⟩, fun _ => rfl⟩
    obtain ⟨v, -, hv⟩ := Option.map_eq_some_iff.mp hred
    exact absurd hv (Vec3b.gray_ne_red v)

/-- Two complete runs match the same new segments. -/
theorem newMatched_eq_of_complete {s' : ctx.State} (hf : FlagInv descriptorMatch s)
    (hf' : FlagInv descriptorMatch s') (hc : s.Complete) (hc' : s'.Complete) :
    s'.newMatched = s.newMatched := by
  funext j
  have h := (hf.newMatched_of_complete hc j).trans (hf'.newMatched_of_complete hc' j).symm
  exact (Bool.eq_iff_iff.mpr h).symm

/-- Two complete runs end with the same image, or both with none. -/
theorem result_eq_of_complete {s' : ctx.State} (hf : FlagInv descriptorMatch s)
    (hf' : FlagInv descriptorMatch s') (hs : DrawInv cv s) (hs' : DrawInv cv s')
    (hc : s.Complete) (hc' : s'.Complete) : s'.result = s.result := by
  have hm := newMatched_eq_of_complete hf hf' hc hc'
  have hdef := hs.defined_matched hf
  have hdef' := hs'.defined_matched hf'
  rw [hm, ← hdef] at hdef'
  cases hr : s.result with
  | none =>
      cases hr' : s'.result with
      | none => rfl
      | some img' => rw [hr, hr'] at hdef'; simp at hdef'
  | some img =>
      cases hr' : s'.result with
      | none => rw [hr, hr'] at hdef'; simp at hdef'
      | some img' =>
          have hp' := hs'.painted_matched hf' hr'
          rw [hm] at hp'
          rw [(hs.painted_matched hf hr).unique hp']

/-- The matched new segments and the diff image of a complete run of the
parallel build.  There is an image if the matched segments can be drawn.  Nothing
of this depends on how the steps interleave. -/
theorem parallel_result_closed_form (hcv : cv.Lawful) (hfresh : ctx.Fresh)
    {as : List ctx.Step}
    (h : Transition.run (matchStep cv descriptorMatch) (initState cv ctx) as = some s)
    (hc : s.Complete) :
    (∀ j, s.newMatched j = true ↔ (ctx.newSegment j).descriptor ≠ [] ∧
      ∃ i, (ctx.oldSegment i).descriptor ≠ [] ∧
        descriptorMatch (ctx.oldSegment i).descriptor (ctx.newSegment j).descriptor = true) ∧
    (s.result.isSome ↔ ∀ j, s.newMatched j = true → Drawable cv ctx (ctx.newSegment j)) ∧
    (∀ img, s.result = some img → ∀ p,
      (img.at? p = some red ↔ ctx.oldGrayMat.InBounds p ∧
        ∃ j, s.newMatched j = true ∧ ∃ loc,
          cv.minLoc ctx.oldGrayMat (ctx.newSegment j).roi = some loc ∧
          (((ctx.newSegment j).rectFrom loc).OnBorder p ∨
            ((ctx.newSegment j).rectFrom loc).Contains p ∧
            ctx.oldColorMat.at? p ≠ ctx.newColorMat.at?
              (counterpart (ctx.newSegment j).area ((ctx.newSegment j).rectFrom loc) p))) ∧
      (img.at? p ≠ some red → img.at? p = (ctx.oldGrayMat.at? p).map Vec3b.gray)) ∧
    ∀ as' s', Transition.run (matchStep cv descriptorMatch) (initState cv ctx) as' = some s' →
      s'.Complete → s'.newMatched = s.newMatched ∧ s'.result = s.result := by
  have hf := flagInv_of_run hfresh h
  have hd := drawInv_of_run hcv hfresh h
  refine ⟨?_, hd.defined_matched hf, ?_, ?_⟩
  · intro j
    rw [hf.newMatched_of_complete hc j]
    constructor
    · rintro ⟨i, hi, hj, hm⟩
      exact ⟨hj, i, hi, hm⟩
    · rintro ⟨hj, i, hi, hm⟩
      exact ⟨i, hi, hj, hm⟩
  · intro img himg p
    exact red_iff_of_painted hcv (hd.painted_matched hf himg) p
  · intro as' s' h' hc'
    have hf' := flagInv_of_run hfresh h'
    exact ⟨newMatched_eq_of_complete hf hf' hc hc',
      result_eq_of_complete hf hf' hd (drawInv_of_run hcv hfresh h') hc hc'⟩

end

/-- Two old segments claim the same new one: both guards pass before either task commits. -/
def twoClaimsRun : Option (sampleContext [[1], [1]] [[1]]).State :=
  Transition.run (matchStep sampleCV fun d e => d == e) (initState sampleCV _)
    [.outer ⟨1, by decide⟩, .guard ⟨1, by decide⟩ ⟨0, by decide⟩, .outer ⟨0, by decide⟩,
      .guard ⟨0, by decide⟩ ⟨0, by decide⟩, .commit ⟨0, by decide⟩ ⟨0, by decide⟩,
      .commit ⟨1, by decide⟩ ⟨0, by decide⟩]

/-- The state it ends in. -/
def twoClaimsState : (sampleContext [[1], [1]] [[1]]).State := twoClaimsRun.get (by decide)

/-- Both tasks commit, the one pixel is red, and in every other run as well. -/
theorem parallel_result_two_claims :
    twoClaimsRun = some twoClaimsState ∧ twoClaimsState.Complete ∧
      (∃ img, twoClaimsState.result = some img ∧ img.at? ⟨0, 0⟩ = some red) ∧
      ∀ as s, Transition.run (matchStep sampleCV fun d e => d == e)
          (initState sampleCV (sampleContext [[1], [1]] [[1]])) as = some s →
        s.Complete → s.result = twoClaimsState.result := by
  have hrun : twoClaimsRun = some twoClaimsState := (Option.some_get _).symm
  have hc : twoClaimsState.Complete := by decide
  obtain ⟨img, himg⟩ : ∃ img, twoClaimsState.result = some img :=
    Option.isSome_iff_exists.mp (by decide)
  obtain ⟨-, -, hred, hsame⟩ :=
    parallel_result_closed_form sampleCV_lawful (sampleContext_fresh _ _) hrun hc
  refine ⟨hrun, hc, ⟨img, himg, (hred img himg ⟨0, 0⟩).1.mpr ?_⟩,
    fun as s h hs => (hsame as s h hs).2⟩
  exact ⟨by decide, ⟨0, by decide⟩, by decide, ⟨0, 0⟩, by decide, Or.inl (by decide)⟩

end Gazosan
