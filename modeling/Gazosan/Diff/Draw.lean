import Gazosan.Image.OpenCV
import Gazosan.Library.Transition

/-!
# Drawing one matched segment

Lines 310 to 329 of `create_diff_image`.  The matched new segment is looked up
in the old image, the place found is outlined in red, and every pixel of it
whose old colour differs from the new one is painted red.

The drawing has no result if the template search raises or if an access leaves
one of the three matrices.  `Drawable` says when it has one, and
`drawMatched_painted` says what it paints.  All paint is red, so the order of
several drawings does not matter.
-/

namespace Gazosan

section

variable {ρ : Type} (cv : OpenCV ρ) (ctx : Context ρ)

/-! ## The pixel loops -/

/-- The body of the two loops, at row `i` and column `j` of the rectangle. -/
def comparePixel (area rect : Rect) (i : Nat) (result : Mat Vec3b) (j : Nat) :
    Option (Mat Vec3b) := do
  let oldCropped ← ctx.oldColorMat.at? ⟨j + rect.x, i + rect.y⟩
  let newCropped ← ctx.newColorMat.at? ⟨j + area.x, i + area.y⟩
  if oldCropped ≠ newCropped then
    result.set? ⟨j + rect.x, i + rect.y⟩ red
  else
    some result

/-- The inner loop. -/
def compareRow (area rect : Rect) (result : Mat Vec3b) (i : Nat) : Option (Mat Vec3b) :=
  (List.range rect.width.toNat).foldlM (comparePixel ctx area rect i) result

/-- Both loops. -/
def comparePixels (area rect : Rect) (result : Mat Vec3b) : Option (Mat Vec3b) :=
  (List.range rect.height.toNat).foldlM (compareRow ctx area rect) result

/-- Lines 310 to 329: what a matched new segment draws. -/
def drawMatched (seg : ImageSegment ρ) (result : Mat Vec3b) : Option (Mat Vec3b) := do
  let minPoint ← cv.minLoc ctx.oldGrayMat seg.roi
  let rect := seg.rectFrom minPoint
  comparePixels ctx seg.area rect (cv.rectangle result rect red 1)

/-! ## What is painted -/

/-- The position of the new image that is compared with `p`. -/
def counterpart (area rect : Rect) (p : Point) : Point :=
  ⟨p.x - rect.x + area.x, p.y - rect.y + area.y⟩

/-- The old colour at `p` differs from the new colour at its counterpart. -/
def Differs (area rect : Rect) (p : Point) : Prop :=
  ctx.oldColorMat.at? p ≠ ctx.newColorMat.at? (counterpart area rect p)

/-- The positions that drawing an area at `rect` paints. -/
def DrawArea (area rect : Rect) (p : Point) : Prop :=
  rect.OnBorder p ∨ rect.Contains p ∧ Differs ctx area rect p

/-- The positions that the drawing of `seg` paints. -/
def Draws (seg : ImageSegment ρ) (p : Point) : Prop :=
  ∃ minPoint, cv.minLoc ctx.oldGrayMat seg.roi = some minPoint ∧
    DrawArea ctx seg.area (seg.rectFrom minPoint) p

variable {ctx}

theorem comparePixel_painted {area rect : Rect} {i j : Nat} {m m' : Mat Vec3b}
    (h : comparePixel ctx area rect i m j = some m') :
    Mat.PaintedBy (fun p => p = ⟨j + rect.x, i + rect.y⟩ ∧ Differs ctx area rect p) red m m' := by
  have hcp : counterpart area rect ⟨j + rect.x, i + rect.y⟩ = ⟨j + area.x, i + area.y⟩ := by
    simp only [counterpart, Point.mk.injEq]
    omega
  obtain ⟨o, ho, h⟩ := Option.bind_eq_some_iff.mp h
  obtain ⟨n, hn, h⟩ := Option.bind_eq_some_iff.mp h
  by_cases hne : o = n
  · rw [if_neg (not_not.mpr hne)] at h
    cases h
    refine (Mat.PaintedBy.refl red m).congr (fun p => ⟨False.elim, ?_⟩)
    rintro ⟨rfl, hd⟩
    rw [Differs, hcp, ho, hn, hne] at hd
    exact hd rfl
  · rw [if_pos hne] at h
    refine (Mat.PaintedBy.of_set? h).congr (fun p => ⟨?_, And.left⟩)
    rintro rfl
    refine ⟨rfl, ?_⟩
    rw [Differs, hcp, ho, hn]
    exact fun he => hne (Option.some.inj he)

theorem compareRow_painted {area rect : Rect} {i : Nat} {m m' : Mat Vec3b}
    (h : compareRow ctx area rect m i = some m') :
    Mat.PaintedBy (fun p => ∃ j ∈ List.range rect.width.toNat,
      p = ⟨j + rect.x, i + rect.y⟩ ∧ Differs ctx area rect p) red m m' :=
  Mat.PaintedBy.foldlM (fun _ _ _ hj => comparePixel_painted hj) _ h

/-- The positions the two loops visit are those of the rectangle. -/
theorem contains_iff_visited (rect : Rect) (p : Point) :
    rect.Contains p ↔ ∃ i ∈ List.range rect.height.toNat, ∃ j ∈ List.range rect.width.toNat,
      p = ⟨j + rect.x, i + rect.y⟩ := by
  constructor
  · rintro ⟨⟨hx, hx'⟩, hy, hy'⟩
    refine ⟨(p.y - rect.y).toNat, ?_, (p.x - rect.x).toNat, ?_, ?_⟩
    · exact List.mem_range.mpr (by omega)
    · exact List.mem_range.mpr (by omega)
    · cases p
      simp only [Point.mk.injEq] at *
      omega
  · rintro ⟨i, hi, j, hj, rfl⟩
    rw [List.mem_range] at hi hj
    simp only [Rect.Contains]
    omega

theorem comparePixels_painted {area rect : Rect} {m m' : Mat Vec3b}
    (h : comparePixels ctx area rect m = some m') :
    Mat.PaintedBy (fun p => rect.Contains p ∧ Differs ctx area rect p) red m m' := by
  refine (Mat.PaintedBy.foldlM (fun _ _ _ hi => compareRow_painted hi) _ h).congr (fun p => ?_)
  rw [contains_iff_visited]
  constructor
  · rintro ⟨i, hi, j, hj, hp, hd⟩
    exact ⟨⟨i, hi, j, hj, hp⟩, hd⟩
  · rintro ⟨⟨i, hi, j, hj, hp⟩, hd⟩
    exact ⟨i, hi, j, hj, hp, hd⟩

variable {cv}

/-- A drawing paints the border of the place found and the differing pixels
inside it, and nothing else. -/
theorem drawMatched_painted (hcv : cv.Lawful) {seg : ImageSegment ρ} {m m' : Mat Vec3b}
    (h : drawMatched cv ctx seg m = some m') : Mat.PaintedBy (Draws cv ctx seg) red m m' := by
  obtain ⟨loc, hloc, h⟩ := Option.bind_eq_some_iff.mp h
  refine ((hcv.rectangle_border m (seg.rectFrom loc) red).trans (comparePixels_painted h)).congr
    (fun p => ?_)
  constructor
  · intro hp
    exact ⟨loc, hloc, hp⟩
  · rintro ⟨loc', hloc', hp⟩
    rw [hloc] at hloc'
    cases hloc'
    exact hp

/-! ## When the drawing is defined -/

variable (cv ctx)

/-- The accesses of the loop body for position `p` of the rectangle are inside
their matrices. -/
def AccessOk (area rect : Rect) (p : Point) : Prop :=
  ctx.oldColorMat.InBounds p ∧ ctx.newColorMat.InBounds (counterpart area rect p) ∧
    (Differs ctx area rect p → ctx.oldGrayMat.InBounds p)

/-- The template search finds a place, and every access of the loops over it is
inside its matrix. -/
def Drawable (seg : ImageSegment ρ) : Prop :=
  ∃ minPoint, cv.minLoc ctx.oldGrayMat seg.roi = some minPoint ∧
    ∀ p, (seg.rectFrom minPoint).Contains p → AccessOk ctx seg.area (seg.rectFrom minPoint) p

/-- The image has the size of the old image. -/
def OldSize (m : Mat Vec3b) : Prop :=
  m.rows = ctx.oldGrayMat.rows ∧ m.cols = ctx.oldGrayMat.cols

variable {cv ctx}

theorem OldSize.inBounds_iff {m : Mat Vec3b} (h : OldSize ctx m) (p : Point) :
    m.InBounds p ↔ ctx.oldGrayMat.InBounds p := by
  rw [Mat.InBounds, Mat.InBounds, h.1, h.2]

theorem OldSize.of_painted {A : Point → Prop} {m m' : Mat Vec3b} (h : OldSize ctx m)
    (hp : Mat.PaintedBy A red m m') : OldSize ctx m' :=
  ⟨hp.rows.trans h.1, hp.cols.trans h.2⟩

theorem comparePixel_isSome {area rect : Rect} {i j : Nat} {m : Mat Vec3b}
    (hm : OldSize ctx m) :
    (comparePixel ctx area rect i m j).isSome ↔
      AccessOk ctx area rect ⟨j + rect.x, i + rect.y⟩ := by
  have hcp : counterpart area rect ⟨j + rect.x, i + rect.y⟩ = ⟨j + area.x, i + area.y⟩ := by
    simp only [counterpart, Point.mk.injEq]
    omega
  rw [AccessOk, ← Mat.at?_isSome, ← Mat.at?_isSome, Differs, hcp, comparePixel]
  cases ctx.oldColorMat.at? ⟨j + rect.x, i + rect.y⟩ with
  | none => simp
  | some o =>
      cases ctx.newColorMat.at? ⟨j + area.x, i + area.y⟩ with
      | none => simp
      | some n =>
          by_cases hne : o = n
          · simp [hne]
          · simp [hne, Mat.set?_isSome, hm.inBounds_iff]

theorem compareRow_isSome {area rect : Rect} {i : Nat} {m : Mat Vec3b} (hm : OldSize ctx m) :
    (compareRow ctx area rect m i).isSome ↔
      ∀ j ∈ List.range rect.width.toNat, AccessOk ctx area rect ⟨j + rect.x, i + rect.y⟩ :=
  Transition.run_isSome_iff (OldSize ctx)
    (fun j : Nat => AccessOk ctx area rect ⟨j + rect.x, i + rect.y⟩)
    (fun _ _ _ h hj => h.of_painted (comparePixel_painted hj))
    (fun _ _ h => comparePixel_isSome h) _ hm

theorem comparePixels_isSome {area rect : Rect} {m : Mat Vec3b} (hm : OldSize ctx m) :
    (comparePixels ctx area rect m).isSome ↔
      ∀ p, rect.Contains p → AccessOk ctx area rect p := by
  have h := Transition.run_isSome_iff (OldSize ctx)
    (fun i : Nat => ∀ j ∈ List.range rect.width.toNat,
      AccessOk ctx area rect ⟨j + rect.x, i + rect.y⟩)
    (fun _ _ _ h hi => h.of_painted (compareRow_painted hi))
    (fun _ _ h => compareRow_isSome h) (List.range rect.height.toNat) hm
  refine h.trans ⟨fun h p hp => ?_, fun h i hi j hj => ?_⟩
  · obtain ⟨i, hi, j, hj, rfl⟩ := (contains_iff_visited _ _).mp hp
    exact h i hi j hj
  · exact h _ ((contains_iff_visited _ _).mpr ⟨i, hi, j, hj, rfl⟩)

/-- Drawing into an image of the old size is defined for the drawable segments. -/
theorem drawMatched_isSome (hcv : cv.Lawful) (seg : ImageSegment ρ) {m : Mat Vec3b}
    (hm : OldSize ctx m) : (drawMatched cv ctx seg m).isSome ↔ Drawable cv ctx seg := by
  rw [drawMatched, Drawable]
  cases cv.minLoc ctx.oldGrayMat seg.roi with
  | none => simp
  | some loc =>
      have hpix : (comparePixels ctx seg.area (seg.rectFrom loc) _).isSome ↔ _ :=
        comparePixels_isSome (hm.of_painted (hcv.rectangle_border m (seg.rectFrom loc) red))
      refine hpix.trans ⟨fun h => ⟨loc, rfl, h⟩, ?_⟩
      rintro ⟨loc', hloc', h⟩
      cases hloc'
      exact h

end

end Gazosan
