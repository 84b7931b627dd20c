import Gazosan.Diff.Claiming
import Gazosan.Diff.CreateDiffImage
import Mathlib.Data.Set.Card

/-!
# How many new segments an old one claims

The guard of line 297 looks at the flag of an old segment before any of its pair
bodies has run, and only these bodies set the flag.  So it never returns because
of the flag, and an old segment may claim every new segment it is compatible with.
Copies of one old part in the new image are then all matched, and none of them is
outlined in the image of added parts.

A new segment that is left over need not show in that image either: the outline of
an area without pixels paints nothing.  `old_claims_once_iff` says when every old
segment claims one new segment at most and the surplus is seen.
-/

namespace Gazosan

section

variable {ρ : Type} {cv : OpenCV ρ} {descriptorMatch : List ρ → List ρ → Bool}
  {ctx : Context ρ} {frame : Rect → Point → Prop}

/-! ## The surplus -/

/-- The outline of an area has pixels in the image, and all of them are green. -/
def ShowsOutline (frame : Rect → Point → Prop) (img : Mat Vec3b) (area : Rect) : Prop :=
  (∃ p, img.InBounds p ∧ frame area p) ∧
    ∀ p, img.InBounds p → frame area p → img.at? p = some green

/-- No old segment is the partner of two new segments. -/
def ClaimsOnce (s : ctx.State) : Prop :=
  ∀ i j j', s.task i j = .committed → s.task i j' = .committed → j = j'

variable (cv frame) in
/-- Whatever the order of its bodies, `draw_not_matched` outlines at least as many unmatched
new segments as there are more new segments than old ones.  `added` is the image that it
draws into. -/
def SurplusOutlined (s : ctx.State) : Prop :=
  ∀ order : List (Fin ctx.newSegments.length), order.Perm (List.finRange _) →
    ∀ added : Mat Vec3b, added.rows = ctx.newColorMat.rows → added.cols = ctx.newColorMat.cols →
      ctx.newSegments.length ≤ ctx.oldSegments.length +
        {j | s.newMatched j = false ∧
          ShowsOutline frame (drawNotMatchedParallel cv added (order.map (flaggedNew s)))
            (ctx.newSegment j).area}.ncard

variable (frame) in
/-- The outline of a new segment has a pixel in the new image. -/
def Visible (j : Fin ctx.newSegments.length) : Prop :=
  ∃ p, ctx.newColorMat.InBounds p ∧ frame (ctx.newSegment j).area p

variable (descriptorMatch ctx frame) in
/-- The new segments that do not show as added: those that match an old segment and those
that are invisible. -/
def neverOutlined : Set (Fin ctx.newSegments.length) :=
  {j | (∃ i, Compat descriptorMatch i j) ∨ ¬ Visible frame j}

/-- What is known of the pixels of an outline: those of the border are among them, and an
area without pixels has no outline. -/
structure Frames (frame : Rect → Point → Prop) : Prop where
  border : ∀ r p, r.OnBorder p → frame r p
  thin : ∀ r p, r.Thin → ¬ frame r p

/-- Inside the new image the areas with pixels are the visible ones. -/
theorem Frames.visible_iff (h : Frames frame) {j : Fin ctx.newSegments.length}
    (hfits : ctx.newColorMat.Fits (ctx.newSegment j).area) :
    Visible frame j ↔ ¬ (ctx.newSegment j).area.Thin := by
  constructor
  · rintro ⟨p, -, hp⟩ hthin
    exact h.thin _ p hthin hp
  · intro hthin
    obtain ⟨⟨hx, hw, hx'⟩, hy, hh, hy'⟩ := hfits
    rw [Rect.Thin] at hthin
    -- the upper left corner
    refine ⟨⟨(ctx.newSegment j).area.x, (ctx.newSegment j).area.y⟩, ?_, h.border _ _ ?_⟩
    · simp only [Mat.InBounds]
      omega
    · exact ⟨⟨⟨le_refl _, by simp only; omega⟩, le_refl _, by simp only; omega⟩, .inl rfl⟩

/-- The segments that end without a flag are outlined as far as they are visible. -/
theorem showsOutline_iff (hframe : cv.PaintsFrames frame) {s : ctx.State}
    {order : List (Fin ctx.newSegments.length)} (horder : order.Perm (List.finRange _))
    {added : Mat Vec3b} (hrows : added.rows = ctx.newColorMat.rows)
    (hcols : added.cols = ctx.newColorMat.cols) {j : Fin ctx.newSegments.length}
    (hj : s.newMatched j = false) :
    ShowsOutline frame (drawNotMatchedParallel cv added (order.map (flaggedNew s)))
      (ctx.newSegment j).area ↔ Visible frame j := by
  have hpainted := drawNotMatchedParallel_painted hframe (order.map (flaggedNew s)) added
  have hsize : ∀ p, added.InBounds p ↔ ctx.newColorMat.InBounds p := by
    intro p
    rw [Mat.InBounds, Mat.InBounds, hrows, hcols]
  constructor
  · rintro ⟨⟨p, hp, hframe⟩, -⟩
    exact ⟨p, (hsize p).mp ((hpainted.inBounds_iff p).mp hp), hframe⟩
  · rintro ⟨p, hp, hframe⟩
    refine ⟨⟨p, (hpainted.inBounds_iff p).mpr ((hsize p).mpr hp), hframe⟩, fun q hq hframe' => ?_⟩
    refine hpainted.inside q ⟨flaggedNew s j, ?_, hj, hframe'⟩ ((hpainted.inBounds_iff q).mp hq)
    exact List.mem_map_of_mem (horder.mem_iff.mpr (List.mem_finRange j))

/-- At the end, the surplus is outlined if few enough new segments are compatible with an old
one or invisible, and only then. -/
theorem FlagInv.surplusOutlined_iff (hframe : cv.PaintsFrames frame) {s : ctx.State}
    (hs : FlagInv descriptorMatch s) (hcomplete : s.Complete) :
    SurplusOutlined cv frame s ↔
      (neverOutlined descriptorMatch ctx frame).ncard ≤ ctx.oldSegments.length := by
  have hcompl : ∀ order : List (Fin ctx.newSegments.length), order.Perm (List.finRange _) →
      ∀ added : Mat Vec3b, added.rows = ctx.newColorMat.rows →
        added.cols = ctx.newColorMat.cols →
        {j | s.newMatched j = false ∧
          ShowsOutline frame (drawNotMatchedParallel cv added (order.map (flaggedNew s)))
            (ctx.newSegment j).area} = (neverOutlined descriptorMatch ctx frame)ᶜ := by
    intro order horder added hrows hcols
    ext j
    rw [Set.mem_compl_iff, neverOutlined, Set.mem_ofPred_eq, Set.mem_ofPred_eq, not_or, not_not,
      ← hs.newMatched_of_complete hcomplete j, Bool.not_eq_true]
    exact and_congr_right fun hj => showsOutline_iff hframe horder hrows hcols hj
  have hcard := Set.ncard_add_ncard_compl (neverOutlined descriptorMatch ctx frame)
  rw [Nat.card_eq_fintype_card, Fintype.card_fin] at hcard
  constructor
  · intro h
    have := h (List.finRange _) (.refl _) ctx.newColorMat rfl rfl
    rw [hcompl _ (.refl _) _ rfl rfl] at this
    omega
  · intro h order horder added hrows hcols
    rw [hcompl order horder added hrows hcols]
    omega

/-! ## Two claims of one old segment -/

theorem committed_of_bodyStep {s s' : ctx.State} {i : Fin ctx.oldSegments.length}
    {j : Fin ctx.newSegments.length} {b : Body ctx.oldSegments.length ctx.newSegments.length}
    (hs : FlagInv descriptorMatch s ∧ s.task i j = .committed)
    (h : bodyStep cv descriptorMatch s b = some s') :
    FlagInv descriptorMatch s' ∧ s'.task i j = .committed := by
  refine ⟨hs.1.body h, ?_⟩
  rcases bodyStep_cases h with ⟨i', -, he, rfl⟩ | ⟨i', j', -, ht, -, rfl⟩ |
    ⟨i', j', -, -, -, rfl⟩
  · exact (hs.1.enter_task_iff he (by simp) (by simp)).mpr hs.2
  · rw [setTask_task, if_neg]
    · exact hs.2
    · rintro ⟨rfl, rfl⟩
      rw [ht] at hs
      cases hs.2
  · rw [commit_task]
    split
    · rfl
    · rename_i hne
      rw [setTask_task, if_neg hne]
      exact hs.2

/-- An old segment whose bodies run first claims two new segments that it is
compatible with. -/
theorem two_claims_of_first (cv : OpenCV ρ) (hfresh : ctx.Fresh)
    {i : Fin ctx.oldSegments.length} {j j' : Fin ctx.newSegments.length} (hne : j ≠ j')
    (hj : Compat descriptorMatch i j) (hj' : Compat descriptorMatch i j') :
    let s := runBodies cv descriptorMatch (initState cv ctx) [.outer i, .pair i j, .pair i j']
    s.task i j = .committed ∧ s.task i j' = .committed := by
  have hold := initState_oldMatched cv hfresh i
  have hnew := initState_newMatched cv hfresh
  let s₁ := enter (initState cv ctx) i
  let s₂ := commit cv (s₁.setTask i j .passed) i j
  have h₁ : bodyStep cv descriptorMatch (initState cv ctx) (.outer i) = some s₁ := by
    rw [bodyStep]
    exact matchStep_outer rfl
  have h₂ : bodyStep cv descriptorMatch s₁ (.pair i j) = some s₂ :=
    bodyStep_pair_commit (enter_ready hold hj) hj (by simp [s₁, hnew])
  have hready : s₂.task i j' = .ready := by
    have : s₁.task i j' = .ready := enter_ready hold hj'
    simp [s₂, hne.symm, this]
  have h₃ : bodyStep cv descriptorMatch s₂ (.pair i j') =
      some (commit cv (s₂.setTask i j' .passed) i j') :=
    bodyStep_pair_commit hready hj' (by simp [s₂, s₁, hne.symm, hnew])
  simp only [runBodies, List.foldl_cons, List.foldl_nil, Transition.attempt_of_some h₁,
    Transition.attempt_of_some h₂, Transition.attempt_of_some h₃]
  simp [s₂, hne]

/-- Some complete execution keeps both claims. -/
theorem exists_run_two_claims (cv : OpenCV ρ) (hfresh : ctx.Fresh)
    {i : Fin ctx.oldSegments.length} {j j' : Fin ctx.newSegments.length} (hne : j ≠ j')
    (hj : Compat descriptorMatch i j) (hj' : Compat descriptorMatch i j') :
    ∃ bs s, Transition.run (bodyStep cv descriptorMatch) (initState cv ctx) bs = some s ∧
      s.Complete ∧ s.task i j = .committed ∧ s.task i j' = .committed := by
  obtain ⟨bs, s, hrun, hcomplete, rfl⟩ :=
    exists_complete_run cv descriptorMatch hfresh [.outer i, .pair i j, .pair i j']
  have hfirst := two_claims_of_first cv hfresh hne hj hj'
  have hinv : FlagInv descriptorMatch
      (runBodies cv descriptorMatch (initState cv ctx) [.outer i, .pair i j, .pair i j']) :=
    runBodies_invariant _ (fun _ _ _ hs h => hs.body h) _ (flagInv_initState cv hfresh)
  have hkept : ∀ k, (runBodies cv descriptorMatch (initState cv ctx)
      [.outer i, .pair i j, .pair i j']).task i k = .committed →
      (runBodies cv descriptorMatch (runBodies cv descriptorMatch (initState cv ctx)
        [.outer i, .pair i j, .pair i j']) (containerOrder _ _)).task i k = .committed :=
    fun k hk => (runBodies_invariant _ (fun _ _ _ => committed_of_bodyStep) _ ⟨hinv, hk⟩).2
  exact ⟨bs, _, hrun, hcomplete, hkept j hfirst.1, hkept j' hfirst.2⟩

/-- When an old segment accounts for one new segment at most, in whatever order the
pair bodies run, and the surplus of new segments is outlined: if no old segment is
compatible with two new ones, and no more new segments than there are old ones are
compatible with one of these or invisible.  Of the areas inside the new image those without
pixels are invisible, and no others. -/
theorem old_claims_once_iff (hframe : cv.PaintsFrames frame) (hframes : Frames frame)
    (hfresh : ctx.Fresh) :
    ((∀ bs s, Transition.run (bodyStep cv descriptorMatch) (initState cv ctx) bs = some s →
      s.Complete → ClaimsOnce s ∧ SurplusOutlined cv frame s) ↔
    (∀ (i : Fin ctx.oldSegments.length) (j j' : Fin ctx.newSegments.length),
      Compat descriptorMatch i j → Compat descriptorMatch i j' → j = j') ∧
    (neverOutlined descriptorMatch ctx frame).ncard ≤ ctx.oldSegments.length) ∧
    ∀ j : Fin ctx.newSegments.length, ctx.newColorMat.Fits (ctx.newSegment j).area →
      (Visible frame j ↔ ¬ (ctx.newSegment j).area.Thin) := by
  refine ⟨⟨fun hall => ⟨?_, ?_⟩, ?_⟩, fun j hfits => hframes.visible_iff hfits⟩
  · intro i j j' hj hj'
    by_contra hne
    obtain ⟨bs, s, hrun, hcomplete, hi, hi'⟩ :=
      exists_run_two_claims cv hfresh hne hj hj'
    exact hne ((hall bs s hrun hcomplete).1 i j j' hi hi')
  · obtain ⟨bs, s, hrun, hcomplete, -⟩ := exists_complete_run cv descriptorMatch hfresh []
    exact ((flagInv_of_bodies hfresh hrun).surplusOutlined_iff hframe hcomplete).mp
      (hall bs s hrun hcomplete).2
  · rintro ⟨huniq, hcount⟩ bs s hrun hcomplete
    have hs := flagInv_of_bodies hfresh hrun
    exact ⟨fun i j j' hj hj' => huniq i j j' (hs.committed i j hj) (hs.committed i j' hj'),
      (hs.surplusOutlined_iff hframe hcomplete).mpr hcount⟩

end

/-! ## Samples -/

/-- One old part and two copies of it in the new image. -/
def copies : Context Nat := sampleContext [[1]] [[1], [1]]

/-- The whole bodies in container order. -/
def copiesBodies : Option copies.State :=
  Transition.run (bodyStep sampleCV fun d e => d == e) (initState sampleCV copies)
    (containerOrder 1 2)

theorem frames_onBorder : Frames Rect.OnBorder where
  border _ _ hp := hp
  thin r p hthin hp := by
    simp only [Rect.OnBorder, Rect.Contains, Rect.Thin] at hp hthin
    omega

/-- Both copies are claimed by the one old segment, and none is outlined as added. -/
theorem copies_claimed :
    copies.Fresh ∧ ∃ s, copiesBodies = some s ∧ s.Complete ∧
      s.task (0 : Fin 1) (0 : Fin 2) = .committed ∧ s.task (0 : Fin 1) (1 : Fin 2) = .committed ∧
      ¬ ClaimsOnce s ∧ (∀ j, s.newMatched j = true) ∧
      ¬ SurplusOutlined sampleCV Rect.OnBorder s ∧
      copies.oldSegments.length < copies.newSegments.length := by
  have hmatched : ∀ j, (copiesBodies.get (by decide)).newMatched j = true := by decide
  refine ⟨sampleContext_fresh _ _, copiesBodies.get (by decide), (Option.some_get _).symm,
    by decide, by decide, by decide, fun h => ?_, hmatched, fun h => ?_, by decide⟩
  · have hsame : (0 : Fin 2) = 1 := h (0 : Fin 1) (0 : Fin 2) (1 : Fin 2) (by decide) (by decide)
    exact absurd hsame (by decide)
  · have hcount := h (List.finRange _) (.refl _) copies.newColorMat rfl rfl
    simp only [hmatched, Bool.true_eq_false, false_and, Set.ofPred_false, Set.ncard_empty] at hcount
    exact absurd hcount (by decide)

/-- One old part, and in the new image a copy of it and another part. -/
def parts : Context Nat := sampleContext [[1]] [[1], [2]]

/-- Of two different new segments the old one claims the first, and the second is
outlined. -/
theorem parts_outlined :
    parts.Fresh ∧
      ∀ bs s, Transition.run (bodyStep sampleCV fun d e => d == e) (initState sampleCV parts) bs =
          some s → s.Complete → ClaimsOnce s ∧ SurplusOutlined sampleCV Rect.OnBorder s := by
  have hfresh : parts.Fresh := sampleContext_fresh _ _
  have hfirst : ∀ i j, (parts.oldSegment i).descriptor == (parts.newSegment j).descriptor →
      j.val = 0 := by
    decide
  obtain ⟨hiff, hvisible⟩ :=
    old_claims_once_iff sampleCV_paintsFrames frames_onBorder hfresh
  refine ⟨hfresh, hiff.mpr ⟨?_, ?_⟩⟩
  · intro i j j' hj hj'
    exact Fin.ext ((hfirst i j hj.2.2).trans (hfirst i j' hj'.2.2).symm)
  · have hsub : neverOutlined (fun d e => d == e) parts Rect.OnBorder ⊆ {⟨0, by decide⟩} := by
      rintro j (⟨i, hij⟩ | hhidden)
      · exact Fin.ext (hfirst i j hij.2.2)
      · have hareas : ∀ j, parts.newColorMat.Fits (parts.newSegment j).area ∧
            ¬ (parts.newSegment j).area.Thin := by
          decide
        exact absurd ((hvisible j (hareas j).1).mpr (hareas j).2) hhidden
    calc (neverOutlined (fun d e => d == e) parts Rect.OnBorder).ncard
        ≤ Set.ncard {⟨0, by decide⟩} := Set.ncard_le_ncard hsub
      _ = 1 := Set.ncard_singleton _

end Gazosan
