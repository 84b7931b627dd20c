import Gazosan.Image.Load
import Gazosan.Diff.ResultImage
import Gazosan.Diff.Bodies

/-!
# `create_diff_image` in both builds

The source text of the matching loops is the body of two nested lambdas with
`ENABLE_PARALLEL` and the body of two nested loops without.  The text is the
same and the meaning is not.

* A `return` ends one call of a lambda.  In the loops it ends the whole function,
  before anything is written.
* The lambdas take the segments by reference.  The loops copy them
  (`for (auto image_segment1 : ...)`), so the flags they set are lost.

`createDiffImageSerial` models the loops, and `finishParallel` what follows the
matching phase in the other build.  `serialOuter_next` and `serialOuter_ret` say
when the loops reach the writes.
-/

namespace Gazosan

/-- How a loop ends: control goes on behind it, or a `return` left the
function. -/
inductive Flow (σ : Type) where
  | next (s : σ)
  | ret

/-- What `create_diff_image` leaves: the images it passed to `imwrite`, in order, and the
segments. -/
structure DiffOutcome (ρ : Type) where
  writes : List (String × Mat Vec3b)
  oldSegments : List (ImageSegment ρ)
  newSegments : List (ImageSegment ρ)

section

variable {ρ : Type} (cv : OpenCV ρ) (descriptorMatch : List ρ → List ρ → Bool)
  (ctx : Context ρ)

/-- The path of the diff image. -/
def diffPath : String := ctx.arg.outputName ++ "_diff.png"

/-- The path of the image of deleted parts. -/
def deletePath : String := ctx.arg.outputName ++ "_delete.png"

/-- The path of the image of added parts. -/
def addPath : String := ctx.arg.outputName ++ "_add.png"

/-- `decode_from_mapped_file(*file, IMREAD_COLOR)` through the pointer. -/
def decodePointer (file : Option MappedFile) : Option (Mat Vec3b) :=
  file.bind (decodeFromMappedFile cv)

/-! ## Without `ENABLE_PARALLEL` -/

/-- The inner loop, over copies of the new segments.  `seg1` is the copy of the
old segment. -/
def serialInner : ImageSegment ρ → Mat Vec3b → List (ImageSegment ρ) →
    Option (Flow (Mat Vec3b))
  | _, result, [] => some (.next result)
  | seg1, result, seg2 :: rest =>
      if seg2.descriptor.isEmpty || seg2.matched ||
          !descriptorMatch seg1.descriptor seg2.descriptor then some .ret
      else
        (drawMatched cv ctx seg2 result).bind fun result' =>
          serialInner { seg1 with matched := true } result' rest

/-- The outer loop, over copies of the old segments. -/
def serialOuter : Mat Vec3b → List (ImageSegment ρ) → Option (Flow (Mat Vec3b))
  | result, [] => some (.next result)
  | result, seg1 :: rest =>
      if seg1.descriptor.isEmpty || seg1.matched then some .ret
      else
        (serialInner cv descriptorMatch ctx seg1 result ctx.newSegments).bind fun flow =>
          match flow with
          | .ret => some .ret
          | .next result' => serialOuter result' rest

/-- `draw_not_matched`.  The `return` for a matched segment leaves the function
here as well. -/
def drawNotMatchedSerial : Mat Vec3b → List (ImageSegment ρ) → Mat Vec3b
  | ret, [] => ret
  | ret, seg :: rest =>
      if seg.matched then ret
      else drawNotMatchedSerial (cv.rectangle ret seg.area green 2) rest

/-- `create_diff_image` without `ENABLE_PARALLEL`. -/
def createDiffImageSerial : Option (DiffOutcome ρ) :=
  (serialOuter cv descriptorMatch ctx (baseImage cv ctx) ctx.oldSegments).bind fun flow =>
    match flow with
    | .ret => some ⟨[], ctx.oldSegments, ctx.newSegments⟩
    | .next result =>
        if ctx.arg.createChangeImage then
          (decodePointer cv ctx.oldFile).bind fun deleted =>
            (decodePointer cv ctx.newFile).bind fun added =>
              some ⟨[(diffPath ctx, result),
                (deletePath ctx, drawNotMatchedSerial cv deleted ctx.oldSegments),
                (addPath ctx, drawNotMatchedSerial cv added ctx.newSegments)],
                ctx.oldSegments, ctx.newSegments⟩
        else some ⟨[(diffPath ctx, result)], ctx.oldSegments, ctx.newSegments⟩

/-! ## With `ENABLE_PARALLEL` -/

/-- `draw_not_matched`, with the segments in the order their bodies run. -/
def drawNotMatchedParallel (ret : Mat Vec3b) (segments : List (ImageSegment ρ)) : Mat Vec3b :=
  segments.foldl (fun ret seg => if seg.matched then ret
    else cv.rectangle ret seg.area green 2) ret

/-- `rectangle` with thickness 2 paints the positions of a frame.  OpenCV does not say
which these are, so they are a parameter. -/
def OpenCV.PaintsFrames (frame : Rect → Point → Prop) : Prop :=
  ∀ m r c, Mat.PaintedBy (frame r) c m (cv.rectangle m r c 2)

variable {ctx}

/-- `ctx.old_segments[i]` with its flag in a state. -/
def flaggedOld (s : ctx.State) (i : Fin ctx.oldSegments.length) : ImageSegment ρ :=
  { ctx.oldSegment i with matched := s.oldMatched i }

/-- `ctx.new_segments[j]` with its flag in a state. -/
def flaggedNew (s : ctx.State) (j : Fin ctx.newSegments.length) : ImageSegment ρ :=
  { ctx.newSegment j with matched := s.newMatched j }

/-- `create_diff_image` behind the matching phase that ended in `s`.  The orders
are those of the bodies of `draw_not_matched`, and `addFirst` is set if the task
that writes the added parts ends first. -/
def finishParallel (s : ctx.State) (oldOrder : List (Fin ctx.oldSegments.length))
    (newOrder : List (Fin ctx.newSegments.length)) (addFirst : Bool) :
    Option (DiffOutcome ρ) :=
  let oldSegments := (List.finRange _).map (flaggedOld s)
  let newSegments := (List.finRange _).map (flaggedNew s)
  s.result.bind fun result =>
    if ctx.arg.createChangeImage then
      (decodePointer cv ctx.oldFile).bind fun deleted =>
        (decodePointer cv ctx.newFile).bind fun added =>
          let delete := (deletePath ctx,
            drawNotMatchedParallel cv deleted (oldOrder.map (flaggedOld s)))
          let add := (addPath ctx, drawNotMatchedParallel cv added (newOrder.map (flaggedNew s)))
          some ⟨(diffPath ctx, result) :: if addFirst then [add, delete] else [delete, add],
            oldSegments, newSegments⟩
    else some ⟨[(diffPath ctx, result)], oldSegments, newSegments⟩

variable (ctx)

/-- The state after the bodies of the matching phase in container order. -/
def inOrderState : ctx.State :=
  runBodies cv descriptorMatch (initState cv ctx) (containerOrder _ _)

/-- `create_diff_image` with `ENABLE_PARALLEL`, every body and task run one after
another in container and program order. -/
def createDiffImageInOrder : Option (DiffOutcome ρ) :=
  finishParallel cv (inOrderState cv descriptorMatch ctx) (List.finRange _) (List.finRange _)
    false

/-! ## When the loops reach the writes -/

/-- Every old segment has a descriptor, and it matches the descriptor of every
new segment. -/
def AllMatch : Prop :=
  ∀ seg1 ∈ ctx.oldSegments, seg1.descriptor ≠ [] ∧
    ∀ seg2 ∈ ctx.newSegments, seg2.descriptor ≠ [] ∧
      descriptorMatch seg1.descriptor seg2.descriptor = true

variable {cv descriptorMatch ctx}

/-- `draw_not_matched` outlines the segments without a flag, in whichever order. -/
theorem drawNotMatchedParallel_painted {frame : Rect → Point → Prop}
    (hframe : cv.PaintsFrames frame) (segs : List (ImageSegment ρ)) (ret : Mat Vec3b) :
    Mat.PaintedBy (fun p => ∃ seg ∈ segs, seg.matched = false ∧ frame seg.area p) green ret
      (drawNotMatchedParallel cv ret segs) := by
  induction segs generalizing ret with
  | nil => exact (Mat.PaintedBy.refl green ret).congr (by simp)
  | cons seg segs ih =>
      rw [drawNotMatchedParallel, List.foldl_cons]
      cases hm : seg.matched with
      | true => exact (ih ret).congr (by simp [hm])
      | false =>
          rw [if_neg Bool.false_ne_true]
          exact ((hframe ret seg.area green).trans (ih _)).congr (by simp [hm])

theorem serialInner_next {seg1 : ImageSegment ρ} {result result' : Mat Vec3b}
    {segs : List (ImageSegment ρ)}
    (h : serialInner cv descriptorMatch ctx seg1 result segs = some (.next result')) :
    ∀ seg2 ∈ segs, seg2.descriptor ≠ [] ∧
      descriptorMatch seg1.descriptor seg2.descriptor = true := by
  induction segs generalizing seg1 result with
  | nil => simp
  | cons seg2 rest ih =>
      rw [serialInner] at h
      split at h
      · cases h
      · rename_i hg
        obtain ⟨r, -, h⟩ := Option.bind_eq_some_iff.mp h
        simp only [Bool.or_eq_true, List.isEmpty_iff, Bool.not_eq_true', not_or,
          Bool.not_eq_false] at hg
        intro seg hseg
        cases List.mem_cons.mp hseg with
        | inl he => subst he; exact ⟨hg.1.1, hg.2⟩
        | inr hr => exact ih h seg hr

theorem serialInner_ret {seg1 : ImageSegment ρ} {result : Mat Vec3b}
    {segs : List (ImageSegment ρ)} (hfresh : ∀ seg ∈ segs, seg.matched = false)
    (h : serialInner cv descriptorMatch ctx seg1 result segs = some .ret) :
    ¬ ∀ seg2 ∈ segs, seg2.descriptor ≠ [] ∧
      descriptorMatch seg1.descriptor seg2.descriptor = true := by
  induction segs generalizing seg1 result with
  | nil => cases h
  | cons seg2 rest ih =>
      rw [serialInner] at h
      rw [List.forall_mem_cons] at hfresh ⊢
      split at h
      · rename_i hg
        simp only [hfresh.1, Bool.or_false, Bool.or_eq_true, List.isEmpty_iff,
          Bool.not_eq_true'] at hg
        rintro ⟨⟨hd, hm⟩, -⟩
        rcases hg with hg | hg
        · exact hd hg
        · rw [hm] at hg
          cases hg
      · obtain ⟨r, -, h⟩ := Option.bind_eq_some_iff.mp h
        exact fun hall => ih hfresh.2 h hall.2

/-- If the loops run to their end, every pair matches. -/
theorem serialOuter_next {result result' : Mat Vec3b} {segs : List (ImageSegment ρ)}
    (h : serialOuter cv descriptorMatch ctx result segs = some (.next result')) :
    ∀ seg1 ∈ segs, seg1.descriptor ≠ [] ∧
      ∀ seg2 ∈ ctx.newSegments, seg2.descriptor ≠ [] ∧
        descriptorMatch seg1.descriptor seg2.descriptor = true := by
  induction segs generalizing result with
  | nil => simp
  | cons seg1 rest ih =>
      rw [serialOuter] at h
      split at h
      · cases h
      · rename_i hg
        simp only [Bool.or_eq_true, List.isEmpty_iff, not_or] at hg
        obtain ⟨flow, hflow, h⟩ := Option.bind_eq_some_iff.mp h
        cases flow with
        | ret => cases h
        | next r =>
            intro seg hseg
            cases List.mem_cons.mp hseg with
            | inl he => subst he; exact ⟨hg.1, serialInner_next hflow⟩
            | inr hr => exact ih h seg hr

/-- If a `return` leaves the loops, some segment has no descriptor or some pair
does not match. -/
theorem serialOuter_ret {result : Mat Vec3b} {segs : List (ImageSegment ρ)}
    (hold : ∀ seg ∈ segs, seg.matched = false)
    (hnew : ∀ seg ∈ ctx.newSegments, seg.matched = false)
    (h : serialOuter cv descriptorMatch ctx result segs = some .ret) :
    ¬ ∀ seg1 ∈ segs, seg1.descriptor ≠ [] ∧
      ∀ seg2 ∈ ctx.newSegments, seg2.descriptor ≠ [] ∧
        descriptorMatch seg1.descriptor seg2.descriptor = true := by
  induction segs generalizing result with
  | nil => cases h
  | cons seg1 rest ih =>
      rw [serialOuter] at h
      rw [List.forall_mem_cons] at hold ⊢
      split at h
      · rename_i hg
        simp only [hold.1, Bool.or_false, List.isEmpty_iff] at hg
        exact fun hall => hall.1.1 hg
      · obtain ⟨flow, hflow, h⟩ := Option.bind_eq_some_iff.mp h
        cases flow with
        | ret => exact fun hall => serialInner_ret hnew hflow hall.1.2
        | next r => exact fun hall => ih hold.2 h hall.2

/-! ## The files written -/

/-- The build without `ENABLE_PARALLEL` changes no flag.  It writes nothing if a
`return` leaves the loops, and each file once if they run to their end. -/
theorem createDiffImageSerial_cases {a : DiffOutcome ρ}
    (h : createDiffImageSerial cv descriptorMatch ctx = some a) :
    a.oldSegments = ctx.oldSegments ∧ a.newSegments = ctx.newSegments ∧
    ((serialOuter cv descriptorMatch ctx (baseImage cv ctx) ctx.oldSegments = some .ret ∧
      a.writes = []) ∨
    ((∃ result, serialOuter cv descriptorMatch ctx (baseImage cv ctx) ctx.oldSegments =
        some (.next result)) ∧
      a.writes.map Prod.fst = diffPath ctx ::
        if ctx.arg.createChangeImage then [deletePath ctx, addPath ctx] else [])) := by
  rw [createDiffImageSerial] at h
  obtain ⟨flow, hflow, h⟩ := Option.bind_eq_some_iff.mp h
  cases flow with
  | ret =>
      cases h
      exact ⟨rfl, rfl, Or.inl ⟨hflow, rfl⟩⟩
  | next result =>
      simp only at h
      split at h
      · rename_i hc
        obtain ⟨deleted, -, h⟩ := Option.bind_eq_some_iff.mp h
        obtain ⟨added, -, h⟩ := Option.bind_eq_some_iff.mp h
        cases h
        exact ⟨rfl, rfl, Or.inr ⟨⟨result, hflow⟩, by simp [hc]⟩⟩
      · rename_i hc
        cases h
        exact ⟨rfl, rfl, Or.inr ⟨⟨result, hflow⟩, by simp [hc]⟩⟩

/-- The build with `ENABLE_PARALLEL` writes each file once. -/
theorem finishParallel_cases {s : ctx.State} {oldOrder : List (Fin ctx.oldSegments.length)}
    {newOrder : List (Fin ctx.newSegments.length)} {addFirst : Bool} {b : DiffOutcome ρ}
    (h : finishParallel cv s oldOrder newOrder addFirst = some b) :
    b.oldSegments = (List.finRange _).map (flaggedOld s) ∧
    b.newSegments = (List.finRange _).map (flaggedNew s) ∧
    b.writes.map Prod.fst = diffPath ctx ::
      if ctx.arg.createChangeImage then
        if addFirst then [addPath ctx, deletePath ctx] else [deletePath ctx, addPath ctx]
      else [] := by
  rw [finishParallel] at h
  obtain ⟨result, -, h⟩ := Option.bind_eq_some_iff.mp h
  split at h
  · rename_i hc
    obtain ⟨deleted, -, h⟩ := Option.bind_eq_some_iff.mp h
    obtain ⟨added, -, h⟩ := Option.bind_eq_some_iff.mp h
    cases h
    refine ⟨rfl, rfl, ?_⟩
    cases addFirst with
    | true => simp [hc]
    | false => simp [hc]
  · rename_i hc
    cases h
    exact ⟨rfl, rfl, by simp [hc]⟩

end

theorem sampleCV_paintsFrames : sampleCV.PaintsFrames Rect.OnBorder :=
  fun m r c => Mat.PaintedBy.of_mapAt r.OnBorder c m

end Gazosan
