import Gazosan.Diff.CreateDiffImage
import Mathlib.Data.List.FinRange

/-!
# The two builds compared

`builds_agree_iff` says on which contexts the build without `ENABLE_PARALLEL`
and the build with it, run in container order, do the same: those in which the
matching loops have nothing to do.
-/

namespace Gazosan

section

variable {ρ : Type} (cv : OpenCV ρ) (descriptorMatch : List ρ → List ρ → Bool)
  (ctx : Context ρ)

/-! ## Contexts -/

/-- A context as `detect_segments` leaves it. -/
structure Detected : Prop where
  fresh : ctx.Fresh
  oldDecoded : decodePointer cv ctx.oldFile = some ctx.oldColorMat
  newDecoded : decodePointer cv ctx.newFile = some ctx.newColorMat
  oldGray : ctx.oldGrayMat.rows = ctx.oldColorMat.rows ∧
    ctx.oldGrayMat.cols = ctx.oldColorMat.cols
  newGray : ctx.newGrayMat.rows = ctx.newColorMat.rows ∧
    ctx.newGrayMat.cols = ctx.newColorMat.cols
  /-- `gray_mat(segment)` raises unless the area is inside the image. -/
  area_inside : ∀ seg ∈ ctx.newSegments,
    (0 ≤ seg.area.x ∧ 0 ≤ seg.area.width ∧
      seg.area.x + seg.area.width ≤ ctx.newGrayMat.cols) ∧
    0 ≤ seg.area.y ∧ 0 ≤ seg.area.height ∧
      seg.area.y + seg.area.height ≤ ctx.newGrayMat.rows
  roi_size : ∀ seg ∈ ctx.newSegments,
    (seg.roi.cols : Int) = seg.area.width ∧ (seg.roi.rows : Int) = seg.area.height
  /-- `compute_descriptor` returns nothing for an empty image. -/
  roi_empty : ∀ seg ∈ ctx.newSegments, seg.roi.empty = true → seg.descriptor = []

/-- Every new segment fits inside the old image. -/
def FitsOld : Prop :=
  ∀ seg ∈ ctx.newSegments,
    seg.area.width ≤ ctx.oldGrayMat.cols ∧ seg.area.height ≤ ctx.oldGrayMat.rows

variable {cv ctx}

/-- A new segment with a descriptor that fits inside the old image can be drawn. -/
theorem Detected.drawable (hcv : cv.Lawful) (hd : Detected cv ctx) (hfit : FitsOld ctx)
    {seg : ImageSegment ρ} (hseg : seg ∈ ctx.newSegments) (hdesc : seg.descriptor ≠ []) :
    Drawable cv ctx seg := by
  obtain ⟨hcols, hrows⟩ := hd.roi_size seg hseg
  obtain ⟨⟨hx0, hw0, hx⟩, hy0, hh0, hy⟩ := hd.area_inside seg hseg
  obtain ⟨hw, hh⟩ := hfit seg hseg
  have hempty : seg.roi.empty = false := by
    cases he : seg.roi.empty with
    | false => rfl
    | true => exact absurd (hd.roi_empty seg hseg he) hdesc
  obtain ⟨loc, hloc, ⟨hlx0, hlx⟩, hly0, hly⟩ :=
    hcv.minLoc_fits ctx.oldGrayMat seg.roi hempty (by omega) (by omega)
  refine ⟨loc, hloc, fun p hp => ?_⟩
  rw [seg.rectFrom_eq loc hw0 hh0] at hp ⊢
  obtain ⟨⟨hpx, hpx'⟩, hpy, hpy'⟩ := hp
  simp only at hpx hpx' hpy hpy'
  have hog := hd.oldGray
  have hng := hd.newGray
  refine ⟨?_, ?_, fun _ => ?_⟩
  · refine ⟨⟨?_, ?_⟩, ?_, ?_⟩ <;> omega
  · refine ⟨⟨?_, ?_⟩, ?_, ?_⟩ <;> simp only [counterpart] <;> omega
  · refine ⟨⟨?_, ?_⟩, ?_, ?_⟩ <;> omega

/-! ## Agreement -/

/-- Both builds end normally, write the same files with the same pixels and
leave the same flags. -/
def Agree (o o' : Option (DiffOutcome ρ)) : Prop :=
  ∃ a b, o = some a ∧ o' = some b ∧ (∀ w, w ∈ a.writes ↔ w ∈ b.writes) ∧
    a.oldSegments.map ImageSegment.matched = b.oldSegments.map ImageSegment.matched ∧
    a.newSegments.map ImageSegment.matched = b.newSegments.map ImageSegment.matched

theorem Agree.of_eq {o : Option (DiffOutcome ρ)} (h : o.isSome) : Agree o o := by
  obtain ⟨a, rfl⟩ := Option.isSome_iff_exists.mp h
  exact ⟨a, a, rfl, rfl, fun _ => Iff.rfl, rfl, rfl⟩

/-! ## The parallel build in container order -/

variable (cv ctx)

theorem inOrderState_run :
    ∃ as, Transition.run (matchStep cv descriptorMatch) (initState cv ctx) as =
      some (inOrderState cv descriptorMatch ctx) := by
  obtain ⟨bs, hbs⟩ := Transition.exists_run_of_attempt (bodyStep cv descriptorMatch)
    (containerOrder _ _) (initState cv ctx)
  exact Transition.run_of_coarse (fun _ b _ => run_of_bodyStep b) hbs

variable {ctx}

theorem inOrderState_flagInv (hfresh : ctx.Fresh) :
    FlagInv descriptorMatch (inOrderState cv descriptorMatch ctx) := by
  obtain ⟨as, has⟩ := inOrderState_run cv descriptorMatch ctx
  exact flagInv_of_run hfresh has

variable {cv}

theorem inOrderState_drawInv (hcv : cv.Lawful) (hfresh : ctx.Fresh) :
    DrawInv cv (inOrderState cv descriptorMatch ctx) := by
  obtain ⟨as, has⟩ := inOrderState_run cv descriptorMatch ctx
  exact drawInv_of_run hcv hfresh has

variable {descriptorMatch}

theorem inOrderState_complete (hfresh : ctx.Fresh) :
    (inOrderState cv descriptorMatch ctx).Complete :=
  complete_containerOrder (BodyInv.init cv hfresh)

/-! ## Both builds return -/

/-- The matched segments can be drawn, so the image exists. -/
theorem Detected.result_of_complete (hcv : cv.Lawful) (hd : Detected cv ctx) (hfit : FitsOld ctx)
    {s : ctx.State} (hf : FlagInv descriptorMatch s) (hdraw : DrawInv cv s) (hc : s.Complete) :
    ∃ img, s.result = some img := by
  refine Option.isSome_iff_exists.mp ((hdraw.defined_matched hf).mpr ?_)
  intro j hj
  obtain ⟨i, -, hdesc, -⟩ := (hf.newMatched_of_complete hc j).mp hj
  exact hd.drawable hcv hfit (List.get_mem _ j) hdesc

theorem Detected.finishParallel_isSome (hd : Detected cv ctx) {s : ctx.State} {img : Mat Vec3b}
    (himg : s.result = some img) (oldOrder : List (Fin ctx.oldSegments.length))
    (newOrder : List (Fin ctx.newSegments.length)) (addFirst : Bool) :
    (finishParallel cv s oldOrder newOrder addFirst).isSome := by
  cases hc : ctx.arg.createChangeImage with
  | true => simp [finishParallel, himg, hc, hd.oldDecoded, hd.newDecoded]
  | false => simp [finishParallel, himg, hc]

/-- The inner loop returns, and the image it leaves has the size of the old one. -/
theorem serialInner_returns (hcv : cv.Lawful) {seg1 : ImageSegment ρ} {result : Mat Vec3b}
    {segs : List (ImageSegment ρ)}
    (hdraw : ∀ seg ∈ segs, seg.descriptor ≠ [] → Drawable cv ctx seg)
    (hsize : OldSize ctx result) :
    ∃ flow, serialInner cv descriptorMatch ctx seg1 result segs = some flow ∧
      ∀ r, flow = .next r → OldSize ctx r := by
  induction segs generalizing seg1 result with
  | nil =>
      refine ⟨.next result, rfl, fun r hr => ?_⟩
      cases hr
      exact hsize
  | cons seg2 rest ih =>
      rw [List.forall_mem_cons] at hdraw
      rw [serialInner]
      split
      · exact ⟨.ret, rfl, fun r hr => by cases hr⟩
      · rename_i hg
        simp only [Bool.or_eq_true, List.isEmpty_iff, not_or] at hg
        obtain ⟨m, hm⟩ := Option.isSome_iff_exists.mp
          ((drawMatched_isSome hcv seg2 hsize).mpr (hdraw.1 hg.1.1))
        rw [hm, Option.bind_some]
        exact ih hdraw.2 (hsize.of_painted (drawMatched_painted hcv hm))

theorem serialOuter_returns (hcv : cv.Lawful)
    (hdraw : ∀ seg ∈ ctx.newSegments, seg.descriptor ≠ [] → Drawable cv ctx seg)
    {result : Mat Vec3b} {segs : List (ImageSegment ρ)} (hsize : OldSize ctx result) :
    ∃ flow, serialOuter cv descriptorMatch ctx result segs = some flow := by
  induction segs generalizing result with
  | nil => exact ⟨.next result, rfl⟩
  | cons seg1 rest ih =>
      rw [serialOuter]
      split
      · exact ⟨.ret, rfl⟩
      · obtain ⟨flow, hflow, hsize'⟩ : ∃ flow,
            serialInner cv descriptorMatch ctx seg1 result ctx.newSegments = some flow ∧
              ∀ r, flow = .next r → OldSize ctx r := serialInner_returns hcv hdraw hsize
        rw [hflow, Option.bind_some]
        cases flow with
        | ret => exact ⟨.ret, rfl⟩
        | next r => exact ih (hsize' r rfl)

variable (descriptorMatch)

/-- The build without `ENABLE_PARALLEL` ends normally. -/
theorem createDiffImageSerial_isSome (hcv : cv.Lawful) (hd : Detected cv ctx)
    (hfit : FitsOld ctx) : (createDiffImageSerial cv descriptorMatch ctx).isSome := by
  have hdraw : ∀ seg ∈ ctx.newSegments, seg.descriptor ≠ [] → Drawable cv ctx seg :=
    fun seg hseg => hd.drawable hcv hfit hseg
  obtain ⟨flow, hflow⟩ : ∃ flow, serialOuter cv descriptorMatch ctx (baseImage cv ctx)
      ctx.oldSegments = some flow := serialOuter_returns hcv hdraw (oldSize_baseImage hcv)
  rw [createDiffImageSerial, hflow, Option.bind_some]
  cases flow with
  | ret => rfl
  | next result =>
      cases hc : ctx.arg.createChangeImage with
      | true => simp [hd.oldDecoded, hd.newDecoded]
      | false => simp

/-- The parallel build in container order ends normally. -/
theorem createDiffImageInOrder_isSome (hcv : cv.Lawful) (hd : Detected cv ctx)
    (hfit : FitsOld ctx) : (createDiffImageInOrder cv descriptorMatch ctx).isSome := by
  obtain ⟨img, himg⟩ := hd.result_of_complete hcv hfit
    (inOrderState_flagInv cv descriptorMatch hd.fresh)
    (inOrderState_drawInv descriptorMatch hcv hd.fresh) (inOrderState_complete hd.fresh)
  exact hd.finishParallel_isSome himg _ _ _

/-! ## When nothing matches -/

variable {descriptorMatch}

theorem map_flaggedOld {s : ctx.State} (h : ∀ i, s.oldMatched i = (ctx.oldSegment i).matched) :
    (List.finRange _).map (flaggedOld s) = ctx.oldSegments := by
  have hseg : flaggedOld s = ctx.oldSegments.get := by
    funext i
    rw [flaggedOld, h i]
    rfl
  rw [hseg, List.map_get_finRange]

theorem map_flaggedNew {s : ctx.State} (h : ∀ j, s.newMatched j = (ctx.newSegment j).matched) :
    (List.finRange _).map (flaggedNew s) = ctx.newSegments := by
  have hseg : flaggedNew s = ctx.newSegments.get := by
    funext j
    rw [flaggedNew, h j]
    rfl
  rw [hseg, List.map_get_finRange]

/-- Without a matched segment both versions of `draw_not_matched` outline all. -/
theorem drawNotMatched_eq (cv : OpenCV ρ) :
    ∀ (segs : List (ImageSegment ρ)) (ret : Mat Vec3b), (∀ seg ∈ segs, seg.matched = false) →
      drawNotMatchedSerial cv ret segs = drawNotMatchedParallel cv ret segs
  | [], _, _ => rfl
  | seg :: segs, ret, h => by
      rw [List.forall_mem_cons] at h
      have ih := drawNotMatched_eq cv segs (cv.rectangle ret seg.area green 2) h.2
      simp only [drawNotMatchedSerial, drawNotMatchedParallel, h.1, List.foldl_cons,
        Bool.false_eq_true, if_false] at ih ⊢
      exact ih

/-- No commit, no flag and no paint. -/
theorem FlagInv.of_not_compat {s : ctx.State} (hf : FlagInv descriptorMatch s)
    (hnone : ∀ (i : Fin ctx.oldSegments.length) (j : Fin ctx.newSegments.length),
      ¬ Compat descriptorMatch i j) :
    (∀ i, s.oldMatched i = false) ∧ ∀ j, s.newMatched j = false := by
  constructor
  · intro i
    rw [Bool.eq_false_iff, ne_eq, hf.oldMatched_iff]
    rintro ⟨j, hj⟩
    exact hnone i j (hf.committed i j hj)
  · intro j
    rw [Bool.eq_false_iff, ne_eq, hf.newMatched_iff]
    rintro ⟨i, hi⟩
    exact hnone i j (hf.committed i j hi)

theorem DrawInv.of_not_compat {s : ctx.State} (hf : FlagInv descriptorMatch s)
    (hs : DrawInv cv s)
    (hnone : ∀ (i : Fin ctx.oldSegments.length) (j : Fin ctx.newSegments.length),
      ¬ Compat descriptorMatch i j) : s.result = some (baseImage cv ctx) := by
  have hcom : ∀ i j, s.task i j ≠ .committed := fun i j h => hnone i j (hf.committed i j h)
  obtain ⟨img, himg⟩ :=
    Option.isSome_iff_exists.mp (hs.defined.mpr (fun i j h => absurd h (hcom i j)))
  have hp := (hs.painted img himg).congr (B := fun _ => False) (fun p => by simp [hcom])
  rw [himg, hp.unique (Mat.PaintedBy.refl red _)]

/-- The loops run to their end without drawing. -/
theorem serialOuter_idle (result : Mat Vec3b) :
    ∀ {segs : List (ImageSegment ρ)}, (∀ seg ∈ segs, seg.matched = false) →
      (segs = [] ∨ ctx.newSegments = [] ∧ ∀ seg ∈ segs, seg.descriptor ≠ []) →
      serialOuter cv descriptorMatch ctx result segs = some (.next result)
  | [], _, _ => rfl
  | seg :: segs, hfresh, h => by
      obtain ⟨hnew, hdesc⟩ := h.resolve_left (by simp)
      rw [List.forall_mem_cons] at hfresh hdesc
      have ih := serialOuter_idle result hfresh.2
        (Or.inr ⟨hnew, hdesc.2⟩)
      simp [serialOuter, serialInner, hfresh.1, hdesc.1, hnew, ih]

/-! ## The condition -/

/-- There is no old segment, or there is no new segment and every old segment
has a descriptor. -/
def NothingToMatch (ctx : Context ρ) : Prop :=
  ctx.oldSegments = [] ∨
    ctx.newSegments = [] ∧ ∀ seg ∈ ctx.oldSegments, seg.descriptor ≠ []

theorem NothingToMatch.not_compat (h : NothingToMatch ctx) (i : Fin ctx.oldSegments.length)
    (j : Fin ctx.newSegments.length) : ¬ Compat descriptorMatch i j := by
  rcases h with h | ⟨h, -⟩
  · rw [h] at i
    exact i.elim0
  · rw [h] at j
    exact j.elim0

/-- With nothing to match the two builds are equal. -/
theorem NothingToMatch.builds_eq (hcv : cv.Lawful) (hfresh : ctx.Fresh)
    (h : NothingToMatch ctx) :
    createDiffImageSerial cv descriptorMatch ctx =
      createDiffImageInOrder cv descriptorMatch ctx := by
  have hf := inOrderState_flagInv cv descriptorMatch hfresh
  have hd := inOrderState_drawInv descriptorMatch hcv hfresh
  obtain ⟨hold, hnew⟩ := hf.of_not_compat (fun i j => h.not_compat i j)
  have hres := DrawInv.of_not_compat hf hd (fun i j => h.not_compat i j)
  have hold' := map_flaggedOld (s := inOrderState cv descriptorMatch ctx)
    (fun i => (hold i).trans (initState_oldMatched cv hfresh i).symm)
  have hnew' := map_flaggedNew (s := inOrderState cv descriptorMatch ctx)
    (fun j => (hnew j).trans (initState_newMatched cv hfresh j).symm)
  rw [createDiffImageSerial, createDiffImageInOrder, finishParallel,
    serialOuter_idle (baseImage cv ctx) hfresh.1 h, hres]
  simp only [Option.bind_some, hold', hnew', drawNotMatched_eq cv _ _ hfresh.1,
    drawNotMatched_eq cv _ _ hfresh.2, Bool.false_eq_true, if_false]

/-- A compatible pair leaves a flag in the parallel build that the other build
does not leave. -/
theorem flags_differ_of_compat (hfresh : ctx.Fresh) {i : Fin ctx.oldSegments.length}
    {j : Fin ctx.newSegments.length} (hc : Compat descriptorMatch i j) :
    ctx.newSegments.map ImageSegment.matched ≠
      ((List.finRange _).map (flaggedNew (inOrderState cv descriptorMatch ctx))).map
        ImageSegment.matched := by
  intro heq
  have hm : (inOrderState cv descriptorMatch ctx).newMatched j = true :=
    ((inOrderState_flagInv cv descriptorMatch hfresh).newMatched_of_complete
      (inOrderState_complete hfresh) j).mpr ⟨i, hc⟩
  have hmem : true ∈ ctx.newSegments.map ImageSegment.matched := by
    rw [heq, List.map_map]
    exact List.mem_map.mpr ⟨j, List.mem_finRange j, hm⟩
  obtain ⟨seg, hseg, htrue⟩ := List.mem_map.mp hmem
  rw [hfresh.2 seg hseg] at htrue
  cases htrue

/-- If a `return` leaves the loops of one build, the diff image is written by the
other build only. -/
theorem not_agree_of_ret
    (hret : serialOuter cv descriptorMatch ctx (baseImage cv ctx) ctx.oldSegments = some .ret) :
    ¬ Agree (createDiffImageSerial cv descriptorMatch ctx)
      (createDiffImageInOrder cv descriptorMatch ctx) := by
  rintro ⟨a, b, ha, hb, hwrites, -⟩
  have hempty : a.writes = [] := by
    rw [createDiffImageSerial, hret] at ha
    cases ha
    rfl
  obtain ⟨-, -, hpaths⟩ := finishParallel_cases hb
  cases hb : b.writes with
  | nil => rw [hb] at hpaths; cases hpaths
  | cons w ws =>
      have hw := (hwrites w).mpr (by rw [hb]; exact List.mem_cons_self ..)
      rw [hempty] at hw
      cases hw

/-- The two builds of `create_diff_image` agree if there is nothing to match, and
only then. -/
theorem builds_agree_iff (hcv : cv.Lawful) (hd : Detected cv ctx) (hfit : FitsOld ctx) :
    Agree (createDiffImageSerial cv descriptorMatch ctx)
      (createDiffImageInOrder cv descriptorMatch ctx) ↔ NothingToMatch ctx := by
  constructor
  · intro hagree
    obtain ⟨a, b, ha, hb, -, -, hnew⟩ := id hagree
    obtain ⟨-, hbnew, -⟩ := finishParallel_cases hb
    obtain ⟨-, hanew, ⟨hret, -⟩ | ⟨⟨result, hnext⟩, -⟩⟩ := createDiffImageSerial_cases ha
    · exact absurd hagree (not_agree_of_ret hret)
    · have hall := serialOuter_next hnext
      by_contra hnot
      simp only [NothingToMatch, not_or, not_and] at hnot
      have hnonempty : ctx.newSegments ≠ [] :=
        fun he => hnot.2 he (fun seg hseg => (hall seg hseg).1)
      let i : Fin ctx.oldSegments.length := ⟨0, List.length_pos_iff.mpr hnot.1⟩
      let j : Fin ctx.newSegments.length := ⟨0, List.length_pos_iff.mpr hnonempty⟩
      obtain ⟨hi, hpairs⟩ := hall _ (List.get_mem _ i)
      have hc : Compat descriptorMatch i j := ⟨hi, hpairs _ (List.get_mem _ j)⟩
      rw [hanew, hbnew] at hnew
      exact flags_differ_of_compat hd.fresh hc hnew
  · intro h
    rw [h.builds_eq hcv hd.fresh]
    exact Agree.of_eq (createDiffImageInOrder_isSome descriptorMatch hcv hd hfit)

end

/-! ## Samples -/

theorem sampleContext_detected (olds news : List (List Nat)) :
    Detected sampleCV (sampleContext olds news) := by
  refine ⟨sampleContext_fresh olds news, rfl, rfl, ⟨rfl, rfl⟩, ⟨rfl, rfl⟩, ?_, ?_, ?_⟩
  · intro seg hseg
    obtain ⟨d, -, rfl⟩ := List.mem_map.mp hseg
    refine ⟨⟨?_, ?_, ?_⟩, ?_, ?_, ?_⟩ <;> simp [sampleSegment, sampleContext]
  · intro seg hseg
    obtain ⟨d, -, rfl⟩ := List.mem_map.mp hseg
    exact ⟨rfl, rfl⟩
  · intro seg hseg he
    obtain ⟨d, -, rfl⟩ := List.mem_map.mp hseg
    cases he

theorem sampleContext_fitsOld (olds news : List (List Nat)) :
    FitsOld (sampleContext olds news) := by
  intro seg hseg
  obtain ⟨d, -, rfl⟩ := List.mem_map.mp hseg
  refine ⟨?_, ?_⟩ <;> simp [sampleSegment, sampleContext]

/-- Without old segments the builds agree. -/
theorem builds_agree_no_old :
    Agree (createDiffImageSerial sampleCV (fun d e => d == e) (sampleContext [] [[1]]))
      (createDiffImageInOrder sampleCV (fun d e => d == e) (sampleContext [] [[1]])) :=
  (builds_agree_iff sampleCV_lawful (sampleContext_detected _ _)
    (sampleContext_fitsOld _ _)).mpr (Or.inl rfl)

/-- With one old segment without a descriptor they do not: only the parallel build
writes the diff image. -/
theorem builds_disagree_no_descriptor :
    Detected sampleCV (sampleContext [[]] []) ∧ FitsOld (sampleContext [[]] []) ∧
      ¬ Agree (createDiffImageSerial sampleCV (fun d e => d == e) (sampleContext [[]] []))
        (createDiffImageInOrder sampleCV (fun d e => d == e) (sampleContext [[]] [])) :=
  ⟨sampleContext_detected _ _, sampleContext_fitsOld _ _, not_agree_of_ret rfl⟩

end Gazosan
