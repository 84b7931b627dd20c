import Gazosan.Image.Grouping
import Gazosan.Image.Load

/-!
# Finding the segments

`split_segments` labels the outlines it finds in an image and groups the pixels
of each label, and `detect_segments` cuts out the segments and computes their
descriptors.  In the build with `ENABLE_PARALLEL` the two images and the
descriptors are handled by tasks that share nothing.
-/

namespace Gazosan

section

variable {ρ : Type} (cv : OpenCV ρ)

/-- The labelling loop, which follows `next` in the hierarchy from index 0. -/
def labelContours (contours : List (List Point)) (hierarchy : List Vec4i) :
    Nat → Int → Int → Mat Int → Option (Mat Int)
  | 0, _, _, _ => none
  | fuel + 1, idx, labels, markers =>
      if idx < 0 then some markers
      else
        hierarchy[idx.toNat]?.bind fun entry =>
          labelContours contours hierarchy fuel entry.next (labels + 1)
            (cv.drawContours markers contours idx.toNat (labels + 1) hierarchy)

/-- `split_segments`. -/
def splitSegments (gray : Mat UInt8) (color : Mat Vec3b) (threshold : Int) :
    Option (List Rect) :=
  let grd := cv.morphologyGradient (cv.threshold gray threshold)
  let (contours, hierarchy) := cv.findContours grd
  if contours.isEmpty then some []
  else do
    let markers ← labelContours cv contours hierarchy (hierarchy.length + 1) 0 0
      ⟨grd.rows, grd.cols, fun _ _ => 0⟩
    let (_, segments) ← grouping (cv.watershed color (markers.mapAt fun _ v => v + 1))
    return segments

/-- `compute_descriptor`. -/
def computeDescriptor (img : Mat UInt8) : Option (List ρ) :=
  if img.empty then none
  else
    let keypoint := cv.detect img
    if keypoint.isEmpty then none else some (cv.compute img keypoint)

/-- The segment of an area: the part of the image and its descriptor. -/
def makeSegment (gray : Mat UInt8) (area : Rect) : Option (ImageSegment ρ) :=
  (gray.roi? area).map fun roi =>
    { area, roi, descriptor := (computeDescriptor cv roi).getD [] }

/-- `do_detect`. -/
def doDetect (gray : Mat UInt8) (color : Mat Vec3b) (threshold : Int) :
    Except Stop (List (ImageSegment ρ)) :=
  match splitSegments cv gray color threshold with
  | none => .error .undefined
  | some areas =>
      match areas.mapM (makeSegment cv gray) with
      | none => .error (.exception .opencv)
      | some segments => .ok segments

/-- `detect_segments`. -/
def detectSegments (ctx : Context ρ) : Except Stop (Context ρ) := do
  let old ← doDetect cv ctx.oldGrayMat ctx.oldColorMat ctx.arg.binThreshold
  let new ← doDetect cv ctx.newGrayMat ctx.newColorMat ctx.arg.binThreshold
  return { ctx with
    oldSegments := ctx.oldSegments ++ old
    newSegments := ctx.newSegments ++ new }

/-! ## What a segment is -/

/-- A segment as `do_detect` leaves it. -/
structure FreshSegment (gray : Mat UInt8) (seg : ImageSegment ρ) : Prop where
  unmatched : seg.matched = false
  fits : gray.Fits seg.area
  roi_size : (seg.roi.cols : Int) = seg.area.width ∧ (seg.roi.rows : Int) = seg.area.height
  roi_empty : seg.roi.empty = true → seg.descriptor = []

variable {cv}

theorem freshSegment_of_make {gray : Mat UInt8} {area : Rect} {seg : ImageSegment ρ}
    (h : makeSegment cv gray area = some seg) : FreshSegment gray seg := by
  obtain ⟨roi, hroi, rfl⟩ := Option.map_eq_some_iff.mp h
  obtain ⟨hfits, hsize⟩ := Mat.fits_of_roi? hroi
  refine ⟨rfl, hfits, hsize, fun hempty => ?_⟩
  have hempty' : roi.empty = true := hempty
  simp [computeDescriptor, hempty']

theorem mem_of_mapM {α β : Type} {f : α → Option β} {b : β} :
    ∀ {as : List α} {bs : List β}, as.mapM f = some bs → b ∈ bs → ∃ a ∈ as, f a = some b
  | [], bs, h, hb => by
      cases h
      cases hb
  | a :: as, bs, h, hb => by
      simp only [List.mapM_cons, Option.bind_eq_bind, Option.bind_eq_some_iff] at h
      obtain ⟨b', hb', bs', hbs', h⟩ := h
      cases h
      rcases List.mem_cons.mp hb with rfl | hb
      · exact ⟨a, List.mem_cons_self, hb'⟩
      · obtain ⟨a', ha', hf⟩ := mem_of_mapM hbs' hb
        exact ⟨a', List.mem_cons_of_mem _ ha', hf⟩

theorem exists_mapM {α β : Type} {f : α → Option β} :
    ∀ {as : List α}, (∀ a ∈ as, ∃ b, f a = some b) → ∃ bs, as.mapM f = some bs
  | [], _ => ⟨[], rfl⟩
  | a :: as, h => by
      obtain ⟨b, hb⟩ := h a List.mem_cons_self
      obtain ⟨bs, hbs⟩ := exists_mapM fun a' ha' => h a' (List.mem_cons_of_mem a ha')
      exact ⟨b :: bs, by simp [List.mapM_cons, hb, hbs]⟩

theorem doDetect_fresh {gray : Mat UInt8} {color : Mat Vec3b} {threshold : Int}
    {segments : List (ImageSegment ρ)} (h : doDetect cv gray color threshold = .ok segments) :
    ∀ seg ∈ segments, FreshSegment gray seg := by
  rw [doDetect] at h
  split at h
  · cases h
  · split at h
    · cases h
    · rename_i hmap
      cases h
      intro seg hseg
      obtain ⟨area, -, hmake⟩ := mem_of_mapM hmap hseg
      exact freshSegment_of_make hmake

/-- `detect_segments` only adds segments. -/
theorem detectSegments_spec {ctx ctx' : Context ρ} (h : detectSegments cv ctx = .ok ctx') :
    ∃ old new, ctx' = { ctx with
        oldSegments := ctx.oldSegments ++ old, newSegments := ctx.newSegments ++ new } ∧
      (∀ seg ∈ old, FreshSegment ctx.oldGrayMat seg) ∧
      ∀ seg ∈ new, FreshSegment ctx.newGrayMat seg := by
  obtain ⟨old, hold, h⟩ := bind_eq_ok.mp h
  obtain ⟨new, hnew, h⟩ := bind_eq_ok.mp h
  cases h
  exact ⟨old, new, rfl, doDetect_fresh hold, doDetect_fresh hnew⟩

end

end Gazosan
