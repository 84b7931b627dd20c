import Gazosan.Context

/-!
# The OpenCV calls

OpenCV is not part of the repository.  The model takes the functions the
program calls as one parameter `cv : OpenCV ρ`, and `OpenCV.Lawful` names what
their documentation promises as far as a result relies on it.  Functions that
the program calls with one fixed choice of flags have that choice built in.

A call that raises a `cv::Exception` has no result.
-/

namespace Gazosan

/-- `cv::Vec4i` in a contour hierarchy: the next and previous contour of the
same level, the first child and the parent, `-1` for none. -/
structure Vec4i where
  next : Int
  previous : Int
  firstChild : Int
  parent : Int
deriving DecidableEq, Repr

/-- The functions of OpenCV that the program calls. -/
structure OpenCV (ρ : Type) where
  /-- `imdecode(buf, IMREAD_COLOR)`, empty if the data cannot be decoded. -/
  imdecode : List UInt8 → Mat Vec3b
  /-- `cvtColor(src, dst, COLOR_BGR2GRAY)`. -/
  bgr2gray : Mat Vec3b → Option (Mat UInt8)
  /-- `cvtColor(src, dst, COLOR_BGR2HSV)` at one pixel.  The channels of the
  result are hue, saturation and value. -/
  bgr2hsv : Vec3b → Vec3b
  /-- `threshold(src, dst, thresh, 255, THRESH_BINARY)`. -/
  threshold : Mat UInt8 → Int → Mat UInt8
  /-- `morphologyEx` with `MORPH_GRADIENT`, the 3 by 3 kernel and 7 iterations,
  and the conversion to `CV_32SC1`. -/
  morphologyGradient : Mat UInt8 → Mat Int
  /-- `findContours(src, contours, hierarchy, RETR_CCOMP, CHAIN_APPROX_SIMPLE)`. -/
  findContours : Mat Int → List (List Point) × List Vec4i
  /-- `drawContours(dst, contours, idx, Scalar::all(label), -1, LINE_8,
  hierarchy, INT_MAX)`. -/
  drawContours : Mat Int → List (List Point) → Nat → Int → List Vec4i → Mat Int
  /-- `watershed(color, markers)`. -/
  watershed : Mat Vec3b → Mat Int → Mat Int
  /-- The key points of `AKAZE::detect`. -/
  KeyPoint : Type
  /-- `AKAZE::detect`. -/
  detect : Mat UInt8 → List KeyPoint
  /-- `AKAZE::compute`, the rows of the descriptor. -/
  compute : Mat UInt8 → List KeyPoint → List ρ
  /-- `merge` of three channels. -/
  merge : Mat UInt8 → Mat UInt8 → Mat UInt8 → Mat Vec3b
  /-- `matchTemplate(image, templ, ret, TM_SQDIFF)` and then
  `minMaxLoc(ret, nullptr, nullptr, &min_point, nullptr)`. -/
  minLoc : Mat UInt8 → Mat UInt8 → Option Point
  /-- `rectangle(img, rec, color, thickness)`. -/
  rectangle : Mat Vec3b → Rect → Vec3b → Nat → Mat Vec3b
  /-- `imwrite(filename, img)`: whether the file could be written. -/
  imwrite : String → Mat Vec3b → Option Bool

/-- What the documentation of OpenCV promises about the calls. -/
structure OpenCV.Lawful {ρ : Type} (cv : OpenCV ρ) : Prop where
  /-- Conversions and filters keep the size of the image. -/
  bgr2gray_size : ∀ m g, cv.bgr2gray m = some g → g.rows = m.rows ∧ g.cols = m.cols
  threshold_size : ∀ m t, (cv.threshold m t).rows = m.rows ∧ (cv.threshold m t).cols = m.cols
  morphologyGradient_size : ∀ m,
    (cv.morphologyGradient m).rows = m.rows ∧ (cv.morphologyGradient m).cols = m.cols
  drawContours_size : ∀ m cs i l hs,
    (cv.drawContours m cs i l hs).rows = m.rows ∧ (cv.drawContours m cs i l hs).cols = m.cols
  watershed_size : ∀ c m, (cv.watershed c m).rows = m.rows ∧ (cv.watershed c m).cols = m.cols
  /-- Merging one matrix with itself keeps its size. -/
  merge_size : ∀ m, (cv.merge m m m).rows = m.rows ∧ (cv.merge m m m).cols = m.cols
  /-- Merging one matrix with itself gives gray pixels. -/
  merge_at : ∀ m p, (cv.merge m m m).at? p = (m.at? p).map Vec3b.gray
  /-- A rectangle of thickness 1 paints the border, clipped to the image. -/
  rectangle_border : ∀ m r c, Mat.PaintedBy r.OnBorder c m (cv.rectangle m r c 1)
  /-- If the template fits the image, the search finds a position at which the
  template lies inside the image. -/
  minLoc_fits : ∀ image templ : Mat UInt8, templ.empty = false →
    templ.rows ≤ image.rows → templ.cols ≤ image.cols →
    ∃ p, cv.minLoc image templ = some p ∧ (0 ≤ p.x ∧ p.x + templ.cols ≤ image.cols) ∧
      0 ≤ p.y ∧ p.y + templ.rows ≤ image.rows

/-- `imwrite` raises for an image without pixels and for no other. -/
def OpenCV.WritesImages {ρ : Type} (cv : OpenCV ρ) : Prop :=
  ∀ path m, cv.imwrite path m = none ↔ m.empty = true

/-! ## A sample

Functions that satisfy the laws and that do on the smallest images what OpenCV
does.  The decoder reads binary pixmaps with one-digit sizes, the contour of an
image without a zero is its outline, the watershed of a labelling without a zero
overwrites the border of the image, and no image is large enough for a key
point.  Every path can be written to. -/

namespace SampleCV

/-- `"P6\n"`, width, `" "`, height, `"\n255\n"`, and three bytes per pixel. -/
def imdecode (buf : List UInt8) : Mat Vec3b :=
  let width := (buf.getD 3 48).toNat - 48
  let height := (buf.getD 5 48).toNat - 48
  if buf.length = 11 + 3 * (width * height) then
    ⟨height, width, fun i j =>
      let k := 11 + 3 * (i.val * width + j.val)
      ⟨buf.getD (k + 2) 0, buf.getD (k + 1) 0, buf.getD k 0⟩⟩
  else ⟨0, 0, fun i => i.elim0⟩

/-- The fixed-point conversion with 14 fractional bits. -/
def bgr2gray (m : Mat Vec3b) : Option (Mat UInt8) :=
  if m.empty then none
  else some (m.mapAt fun _ v =>
    UInt8.ofNat ((v.b.toNat * 1868 + v.g.toNat * 9617 + v.r.toNat * 4899 + 8192) / 16384))

/-- Hue in half degrees, saturation and value, rounded down. -/
def bgr2hsv (c : Vec3b) : Vec3b :=
  let b := c.b.toNat
  let g := c.g.toNat
  let r := c.r.toNat
  let v := max b (max g r)
  let d := v - min b (min g r)
  let h := if d = 0 then 0
    else if v = r then (360 * d + 60 * g - 60 * b) / d % 360 / 2
    else if v = g then (120 * d + 60 * b - 60 * r) / d / 2
    else (240 * d + 60 * r - 60 * g) / d / 2
  ⟨UInt8.ofNat h, UInt8.ofNat (if v = 0 then 0 else 255 * d / v), UInt8.ofNat v⟩

/-- 255 where both a zero and another value are at most 7 pixels away. -/
def morphologyGradient (m : Mat UInt8) : Mat Int :=
  let near (p : Point) (f : UInt8 → Bool) : Bool :=
    (List.finRange m.rows).any fun i => (List.finRange m.cols).any fun j =>
      (p.y - i).natAbs ≤ 7 && (p.x - j).natAbs ≤ 7 && f (m.px i j)
  m.mapAt fun p _ => if near p (· == 0) && near p (· != 0) then 255 else 0

def findContours (m : Mat Int) : List (List Point) × List Vec4i :=
  if !m.empty && (List.finRange m.rows).all fun i => (List.finRange m.cols).all fun j =>
      m.px i j != 0 then
    ([[⟨0, 0⟩, ⟨0, m.rows - 1⟩, ⟨m.cols - 1, m.rows - 1⟩, ⟨m.cols - 1, 0⟩]], [⟨-1, -1, -1, -1⟩])
  else ([], [])

def watershed (_ : Mat Vec3b) (m : Mat Int) : Mat Int :=
  m.mapAt fun p v =>
    if p.x = 0 ∨ p.y = 0 ∨ p.x = m.cols - 1 ∨ p.y = m.rows - 1 then -1 else v

end SampleCV

/-- The sample. -/
def sampleCV : OpenCV Nat where
  imdecode := SampleCV.imdecode
  bgr2gray := SampleCV.bgr2gray
  bgr2hsv := SampleCV.bgr2hsv
  threshold m thresh := m.mapAt fun _ v => if (v.toNat : Int) > thresh then 255 else 0
  morphologyGradient := SampleCV.morphologyGradient
  findContours := SampleCV.findContours
  drawContours m _ _ label _ := m.mapAt fun _ _ => label
  watershed := SampleCV.watershed
  KeyPoint := Unit
  detect _ := []
  compute _ _ := []
  merge m _ _ := m.mapAt fun _ v => Vec3b.gray v
  minLoc image templ :=
    if templ.rows ≤ image.rows ∧ templ.cols ≤ image.cols ∨
        image.rows ≤ templ.rows ∧ image.cols ≤ templ.cols then some ⟨0, 0⟩ else none
  rectangle m r c _ := m.mapAt fun p v => if r.OnBorder p then c else v
  imwrite _ m := if m.empty then none else some true

/-- The file of an image of one pixel. -/
def pixelFile (c : Vec3b) : List UInt8 :=
  [80, 54, 10, 49, 32, 49, 10, 50, 53, 53, 10, c.r, c.g, c.b]

example : (sampleCV.imdecode (pixelFile red)).at? ⟨0, 0⟩ = some red := by decide

theorem sampleCV_lawful : sampleCV.Lawful where
  bgr2gray_size m g h := by
    simp only [sampleCV, SampleCV.bgr2gray] at h
    split at h
    · cases h
    · cases h
      exact ⟨rfl, rfl⟩
  threshold_size _ _ := ⟨rfl, rfl⟩
  morphologyGradient_size _ := ⟨rfl, rfl⟩
  drawContours_size _ _ _ _ _ := ⟨rfl, rfl⟩
  watershed_size _ _ := ⟨rfl, rfl⟩
  merge_size _ := ⟨rfl, rfl⟩
  merge_at m p := Mat.at?_mapAt m _ p
  rectangle_border m r c := Mat.PaintedBy.of_mapAt r.OnBorder c m
  minLoc_fits image templ _ hr hc :=
    ⟨⟨0, 0⟩, if_pos (.inl ⟨hr, hc⟩), ⟨le_refl 0, by simpa using hc⟩, le_refl 0, by simpa using hr⟩

theorem sampleCV_writesImages : sampleCV.WritesImages := by
  intro path m
  show (if m.empty then none else some true) = none ↔ m.empty = true
  cases m.empty with
  | true => simp
  | false => simp

/-! ### With key points -/

/-- The sample with one key point in every image that has a pixel.  All descriptors are the
same. -/
def keyCV : OpenCV Int :=
  { sampleCV with
    KeyPoint := Unit
    detect := fun m => if m.empty then [] else [()]
    compute := fun _ keypoint => keypoint.map fun _ => 0 }

theorem keyCV_lawful : keyCV.Lawful where
  bgr2gray_size := sampleCV_lawful.bgr2gray_size
  threshold_size := sampleCV_lawful.threshold_size
  morphologyGradient_size := sampleCV_lawful.morphologyGradient_size
  drawContours_size := sampleCV_lawful.drawContours_size
  watershed_size := sampleCV_lawful.watershed_size
  merge_size := sampleCV_lawful.merge_size
  merge_at := sampleCV_lawful.merge_at
  rectangle_border := sampleCV_lawful.rectangle_border
  minLoc_fits := sampleCV_lawful.minLoc_fits

end Gazosan
