import Mathlib.Data.Set.Finite.Lemmas
import Gazosan.Image.Parts
import Gazosan.Main

/-!
# Saving the segments

`save_segments` writes the area of each segment to a numbered file, cut out of the colour
image.  `main` has its call in a comment, between `detect_segments` and
`create_diff_image`.  This module says what the call would do there.

The area of a part ends at the last column and the last row of its pixels and leaves them
out, so it is empty if all pixels are in one column or in one row.  `cv::imwrite` raises
for an image without pixels (`OpenCV.WritesImages`).  So the call returns if and only if no
part is straight (`saveSegments_parts`), and otherwise it stops at the first segment that
is.  Nobody creates the directories of the files, and a file that cannot be written is passed
over in silence.
-/

namespace Gazosan

/-! ## The loops -/

/-- What `save_segments` leaves: the files it wrote, in order, and the exception that
ended it. -/
structure Saved where
  writes : List (String × Mat Vec3b)
  exception : Option Exception

/-- The name of the file of a segment. -/
def segmentPath (arg : Arg) (dir : String) (i : Nat) : String :=
  arg.outputName ++ "/" ++ dir ++ "/" ++ toString i ++ ".png"

section

variable {ρ : Type} (cv : OpenCV ρ)

/-- `do_save`, with the counter before the loop. -/
def doSave (arg : Arg) (dir : String) (baseMat : Mat Vec3b) :
    Nat → List (ImageSegment ρ) → Saved
  | _, [] => ⟨[], none⟩
  | i, imageSegment :: segments =>
      -- `base_mat(area)` raises as well
      match baseMat.roi? imageSegment.area with
      | none => ⟨[], some .opencv⟩
      | some image =>
          match cv.imwrite (segmentPath arg dir (i + 1)) image with
          | none => ⟨[], some .opencv⟩
          | some written =>
              let rest := doSave arg dir baseMat (i + 1) segments
              ⟨if written then (segmentPath arg dir (i + 1), image) :: rest.writes
                else rest.writes, rest.exception⟩

/-- `save_segments`. -/
def saveSegments (ctx : Context ρ) : Saved :=
  let old := doSave cv ctx.arg "old" ctx.oldColorMat 0 ctx.oldSegments
  match old.exception with
  | some e => ⟨old.writes, some e⟩
  | none =>
      let new := doSave cv ctx.arg "new" ctx.newColorMat 0 ctx.newSegments
      ⟨old.writes ++ new.writes, new.exception⟩

/-! ## Names -/

theorem segmentPath_inj {arg : Arg} {dir : String} {i j : Nat}
    (h : segmentPath arg dir i = segmentPath arg dir j) : i = j := by
  have hrepr : i.repr = j.repr := (String.append_right_inj _).mp ((String.append_left_inj _).mp h)
  have hdigits := congrArg (fun text => Nat.ofDigitChars 10 text.toList 0) hrepr
  simpa only [Nat.toList_repr, Nat.ofDigitChars_ten_toDigits] using hdigits

theorem segmentPath_old_ne_new (arg : Arg) (i j : Nat) :
    segmentPath arg "old" i ≠ segmentPath arg "new" j := by
  intro h
  have hlist := congrArg String.toList h
  simp [segmentPath, String.toList_append] at hlist

/-! ## Areas without pixels -/

/-- All points are in one column, or in one row. -/
def Straight (C : Set Point) : Prop :=
  (∀ p ∈ C, ∀ q ∈ C, p.x = q.x) ∨ ∀ p ∈ C, ∀ q ∈ C, p.y = q.y

theorem BoundingRect.thin_iff {C : Set Point} {r : Rect} (h : BoundingRect C r) :
    r.Thin ↔ Straight C := by
  obtain ⟨⟨⟨p, hp, hpx⟩, hlox⟩, ⟨⟨q, hq, hqy⟩, hloy⟩, ⟨⟨p', hp', hpx'⟩, hhix⟩,
    ⟨⟨q', hq', hqy'⟩, hhiy⟩⟩ := h
  simp only at hpx hqy hpx' hqy'
  have hx : ∀ a ∈ C, r.x ≤ a.x ∧ a.x ≤ r.x + r.width :=
    fun a ha => ⟨hlox ⟨a, ha, rfl⟩, hhix ⟨a, ha, rfl⟩⟩
  have hy : ∀ a ∈ C, r.y ≤ a.y ∧ a.y ≤ r.y + r.height :=
    fun a ha => ⟨hloy ⟨a, ha, rfl⟩, hhiy ⟨a, ha, rfl⟩⟩
  constructor
  · rintro (hwidth | hheight)
    · refine .inl fun a ha b hb => ?_
      have hxa := hx a ha
      have hxb := hx b hb
      omega
    · refine .inr fun a ha b hb => ?_
      have hya := hy a ha
      have hyb := hy b hb
      omega
  · rintro (hsame | hsame)
    · have hpp' := hsame p hp p' hp'
      exact .inl (by omega)
    · have hqq' := hsame q hq q' hq'
      exact .inr (by omega)

/-- A component of a finite set has a first point. -/
theorem exists_isFirst {C : Set Point} (hfin : C.Finite) (hne : C.Nonempty) :
    ∃ p, IsFirst C p := by
  obtain ⟨p, hp, hmin⟩ := Set.exists_min_image C (fun p => toLex (p.y, p.x)) hfin hne
  refine ⟨p, hp, fun q hq => ?_⟩
  have hle := Prod.Lex.le_iff.mp (hmin q hq)
  simp only [ofLex_toLex] at hle
  by_cases heq : q = p
  · exact .inl heq
  · refine .inr ?_
    have hcoord : ¬ (q.x = p.x ∧ q.y = p.y) := fun ⟨hx, hy⟩ => heq (by cases p; cases q; simp_all)
    rw [Before]
    omega

/-- The areas of parts have pixels if and only if no part is straight. -/
theorem Parts.thin_iff {F : Set Point} (hfin : F.Finite) {rects : List Rect}
    (h : Parts F rects) :
    (∀ r ∈ rects, ¬ r.Thin) ↔
      ∀ p ∈ F, (component F p).Nontrivial → ¬ Straight (component F p) := by
  obtain ⟨firsts, -, hmem, hrects⟩ := h
  constructor
  · intro hthin p hp hpart
    obtain ⟨f, hf⟩ := exists_isFirst (hfin.subset (component_subset hp)) hpart.nonempty
    have hsame := component_eq_of_mem hp hf.1
    have hff : f ∈ firsts := (hmem f).mpr ⟨component_subset hp hf.1, hsame ▸ hpart, hsame ▸ hf⟩
    obtain ⟨i, hi, rfl⟩ := List.getElem_of_mem hff
    have hi' : i < rects.length := hrects.length_eq ▸ hi
    have hbox : BoundingRect (component F firsts[i]) rects[i] := hrects.get hi hi'
    rw [← hsame, ← hbox.thin_iff]
    exact hthin _ (List.getElem_mem _)
  · intro hstraight r hr
    obtain ⟨i, hi, rfl⟩ := List.getElem_of_mem hr
    have hi' : i < firsts.length := hrects.length_eq ▸ hi
    have hbox : BoundingRect (component F firsts[i]) rects[i] := hrects.get hi' hi
    obtain ⟨hF, hpart, -⟩ := (hmem _).mp (List.getElem_mem hi')
    rw [hbox.thin_iff]
    exact hstraight _ hF hpart

/-! ## What the loops write -/

variable {cv} {arg : Arg} {dir : String} {baseMat : Mat Vec3b}

/-- A segment with pixels is written, or passed over. -/
theorem doSave_cons (hwrite : cv.WritesImages) {seg : ImageSegment ρ} {image : Mat Vec3b}
    (himage : baseMat.roi? seg.area = some image) (i : Nat) (segs : List (ImageSegment ρ)) :
    doSave cv arg dir baseMat i (seg :: segs) =
      if seg.area.Thin then ⟨[], some .opencv⟩
      else
        ⟨(if cv.imwrite (segmentPath arg dir (i + 1)) image = some true
          then [(segmentPath arg dir (i + 1), image)] else []) ++
            (doSave cv arg dir baseMat (i + 1) segs).writes,
          (doSave cv arg dir baseMat (i + 1) segs).exception⟩ := by
  rw [doSave, himage]
  simp only
  cases hcall : cv.imwrite (segmentPath arg dir (i + 1)) image with
  | none => rw [if_pos ((Mat.empty_of_roi? himage).mp ((hwrite _ _).mp hcall))]
  | some written =>
      have hpixels : ¬ seg.area.Thin := by
        rw [← Mat.empty_of_roi? himage, ← hwrite (segmentPath arg dir (i + 1)), hcall]
        exact Option.some_ne_none written
      rw [if_neg hpixels]
      cases written with
      | true => rfl
      | false => rfl

theorem doSave_exception (hwrite : cv.WritesImages) {segs : List (ImageSegment ρ)}
    (hfits : ∀ seg ∈ segs, baseMat.Fits seg.area) (i : Nat) :
    (doSave cv arg dir baseMat i segs).exception = none ↔ ∀ seg ∈ segs, ¬ seg.area.Thin := by
  induction segs generalizing i with
  | nil => simp [doSave]
  | cons seg segs ih =>
      obtain ⟨image, himage⟩ := Mat.exists_roi? (hfits seg List.mem_cons_self)
      rw [doSave_cons hwrite himage, List.forall_mem_cons]
      by_cases hthin : seg.area.Thin
      · simp [hthin]
      · rw [if_neg hthin, ih (fun s hs => hfits s (List.mem_cons_of_mem _ hs))]
        simp [hthin]

/-- The segment with the number `i`, counted from 0, is passed to `imwrite` if none up to it
is empty. -/
def Saves (arg : Arg) (dir : String) (baseMat : Mat Vec3b) (before segs : List (ImageSegment ρ))
    (file : String × Mat Vec3b) : Prop :=
  ∃ i seg, segs[i]? = some seg ∧ file.1 = segmentPath arg dir (i + 1) ∧
    baseMat.roi? seg.area = some file.2 ∧ ∀ s ∈ before ++ segs.take (i + 1), ¬ s.area.Thin

theorem mem_doSave (hwrite : cv.WritesImages) {segs : List (ImageSegment ρ)}
    (hfits : ∀ seg ∈ segs, baseMat.Fits seg.area) (k : Nat) (file : String × Mat Vec3b) :
    file ∈ (doSave cv arg dir baseMat k segs).writes ↔ cv.imwrite file.1 file.2 = some true ∧
      ∃ i seg, segs[i]? = some seg ∧ file.1 = segmentPath arg dir (k + i + 1) ∧
        baseMat.roi? seg.area = some file.2 ∧ ∀ s ∈ segs.take (i + 1), ¬ s.area.Thin := by
  induction segs generalizing k with
  | nil => simp [doSave]
  | cons seg segs ih =>
      obtain ⟨image, himage⟩ := Mat.exists_roi? (hfits seg List.mem_cons_self)
      have ih' := ih (fun s hs => hfits s (List.mem_cons_of_mem _ hs)) (k + 1)
      rw [doSave_cons hwrite himage]
      by_cases hthin : seg.area.Thin
      · rw [if_pos hthin]
        constructor
        · exact nofun
        · rintro ⟨-, i, s, -, -, -, hno⟩
          exact absurd hthin (hno seg (by simp))
      · rw [if_neg hthin, List.mem_append, ih', List.mem_ite_nil_right, List.mem_singleton]
        constructor
        · rintro (⟨hcall, rfl⟩ | ⟨hcall, i, s, hs, hpath, hroi, hno⟩)
          · exact ⟨hcall, 0, seg, rfl, rfl, himage, by simpa using hthin⟩
          · refine ⟨hcall, i + 1, s, hs, ?_, hroi, ?_⟩
            · rw [hpath, Nat.add_right_comm k 1 i, Nat.add_assoc k i 1]
            · rw [List.take_succ_cons, List.forall_mem_cons]
              exact ⟨hthin, hno⟩
        · rintro ⟨hcall, i, s, hs, hpath, hroi, hno⟩
          cases i with
          | zero =>
              cases hs
              rw [himage] at hroi
              obtain rfl : file = (segmentPath arg dir (k + 1), image) :=
                Prod.ext hpath (Option.some.inj hroi).symm
              exact .inl ⟨hcall, rfl⟩
          | succ i =>
              rw [List.take_succ_cons, List.forall_mem_cons] at hno
              refine .inr ⟨hcall, i, s, hs, ?_, hroi, hno.2⟩
              rw [hpath, Nat.add_right_comm k 1 i, Nat.add_assoc k i 1]

/-- No file is written twice. -/
theorem doSave_nodup (hwrite : cv.WritesImages) {segs : List (ImageSegment ρ)}
    (hfits : ∀ seg ∈ segs, baseMat.Fits seg.area) (k : Nat) :
    ((doSave cv arg dir baseMat k segs).writes.map Prod.fst).Nodup := by
  induction segs generalizing k with
  | nil => exact List.nodup_nil
  | cons seg segs ih =>
      obtain ⟨image, himage⟩ := Mat.exists_roi? (hfits seg List.mem_cons_self)
      have hfits' := fun s hs => hfits s (List.mem_cons_of_mem _ hs)
      rw [doSave_cons hwrite himage]
      split
      · exact List.nodup_nil
      · split
        · refine List.nodup_cons.mpr ⟨?_, ih hfits' (k + 1)⟩
          intro hmem
          obtain ⟨file, hfile, hpath⟩ := List.mem_map.mp hmem
          obtain ⟨-, i, s, -, hpath', -⟩ := (mem_doSave hwrite hfits' (k + 1) file).mp hfile
          have hnum := segmentPath_inj (hpath.symm.trans hpath')
          omega
        · exact ih hfits' (k + 1)

theorem saves_iff (hwrite : cv.WritesImages) {segs : List (ImageSegment ρ)}
    (hfits : ∀ seg ∈ segs, baseMat.Fits seg.area) (before : List (ImageSegment ρ))
    (file : String × Mat Vec3b) :
    cv.imwrite file.1 file.2 = some true ∧ Saves arg dir baseMat before segs file ↔
      (∀ s ∈ before, ¬ s.area.Thin) ∧ file ∈ (doSave cv arg dir baseMat 0 segs).writes := by
  rw [mem_doSave hwrite hfits, Saves]
  simp only [List.forall_mem_append, Nat.zero_add]
  constructor
  · rintro ⟨hcall, i, seg, hseg, hpath, hroi, hbefore, hno⟩
    exact ⟨hbefore, hcall, i, seg, hseg, hpath, hroi, hno⟩
  · rintro ⟨hbefore, hcall, i, seg, hseg, hpath, hroi, hno⟩
    exact ⟨hcall, i, seg, hseg, hpath, hroi, hbefore, hno⟩

/-! ## Both images -/

/-- A context whose segments lie inside the images. -/
structure Context.SegmentsFit (ctx : Context ρ) : Prop where
  old : ∀ seg ∈ ctx.oldSegments, ctx.oldColorMat.Fits seg.area
  new : ∀ seg ∈ ctx.newSegments, ctx.newColorMat.Fits seg.area

variable {ctx : Context ρ}

/-- Either the second loop runs, or the first one has met an empty area. -/
theorem saveSegments_cases (hwrite : cv.WritesImages) (h : ctx.SegmentsFit) :
    ((∀ seg ∈ ctx.oldSegments, ¬ seg.area.Thin) ∧ saveSegments cv ctx =
      ⟨(doSave cv ctx.arg "old" ctx.oldColorMat 0 ctx.oldSegments).writes ++
        (doSave cv ctx.arg "new" ctx.newColorMat 0 ctx.newSegments).writes,
        (doSave cv ctx.arg "new" ctx.newColorMat 0 ctx.newSegments).exception⟩) ∨
    ¬ (∀ seg ∈ ctx.oldSegments, ¬ seg.area.Thin) ∧
      (saveSegments cv ctx).writes =
        (doSave cv ctx.arg "old" ctx.oldColorMat 0 ctx.oldSegments).writes ∧
      (saveSegments cv ctx).exception ≠ none := by
  rw [← doSave_exception hwrite h.old 0]
  cases hold : (doSave cv ctx.arg "old" ctx.oldColorMat 0 ctx.oldSegments).exception with
  | none =>
      refine .inl ⟨rfl, ?_⟩
      simp only [saveSegments, hold]
  | some e =>
      refine .inr ⟨nofun, ?_⟩
      simp [saveSegments, hold]

theorem saveSegments_exception (hwrite : cv.WritesImages) (h : ctx.SegmentsFit) :
    (saveSegments cv ctx).exception = none ↔
      (∀ seg ∈ ctx.oldSegments, ¬ seg.area.Thin) ∧ ∀ seg ∈ ctx.newSegments, ¬ seg.area.Thin := by
  obtain ⟨hold, heq⟩ | ⟨hold, -, hex⟩ := saveSegments_cases hwrite h
  · rw [heq, ← doSave_exception hwrite h.new 0]
    exact ⟨fun hnone => ⟨hold, hnone⟩, fun hnone => hnone.2⟩
  · exact ⟨fun hnone => absurd hnone hex, fun hnone => absurd hnone.1 hold⟩

theorem mem_saveSegments (hwrite : cv.WritesImages) (h : ctx.SegmentsFit)
    (file : String × Mat Vec3b) :
    file ∈ (saveSegments cv ctx).writes ↔ cv.imwrite file.1 file.2 = some true ∧
      (Saves ctx.arg "old" ctx.oldColorMat [] ctx.oldSegments file ∨
        Saves ctx.arg "new" ctx.newColorMat ctx.oldSegments ctx.newSegments file) := by
  rw [and_or_left, saves_iff hwrite h.old, saves_iff hwrite h.new]
  obtain ⟨hold, heq⟩ | ⟨hold, hwrites, -⟩ := saveSegments_cases hwrite h
  · simp only [heq, List.mem_append, List.not_mem_nil, false_implies, implies_true, true_and,
      eq_true hold]
  · simp only [hwrites, List.not_mem_nil, false_implies, implies_true, true_and, eq_false hold,
      false_and, or_false]

theorem saveSegments_nodup (hwrite : cv.WritesImages) (h : ctx.SegmentsFit) :
    ((saveSegments cv ctx).writes.map Prod.fst).Nodup := by
  obtain ⟨-, heq⟩ | ⟨-, hwrites, -⟩ := saveSegments_cases hwrite h
  · rw [heq, List.map_append]
    refine (doSave_nodup hwrite h.old 0).append (doSave_nodup hwrite h.new 0) ?_
    intro path hold hnew
    obtain ⟨file, hfile, rfl⟩ := List.mem_map.mp hold
    obtain ⟨file', hfile', hpath⟩ := List.mem_map.mp hnew
    obtain ⟨-, i, -, -, hi, -⟩ := (mem_doSave hwrite h.old 0 file).mp hfile
    obtain ⟨-, j, -, -, hj, -⟩ := (mem_doSave hwrite h.new 0 file').mp hfile'
    exact segmentPath_old_ne_new ctx.arg _ _ (hi.symm.trans (hpath.symm.trans hj))
  · rw [hwrites]
    exact doSave_nodup hwrite h.old 0

end

/-! ## Behind `detect_segments` -/

section

variable {ρ : Type} {cv : OpenCV ρ} {region : Mat Int → Nat → Point → Prop}
  {fs : FileSystem} {build : Build} {args : List String}
  {ctx : Context ρ}

theorem mainBeforeDiff_segmentsFit (hcv : cv.Lawful)
    (h : mainBeforeDiff cv fs build args = .ok ctx) : ctx.SegmentsFit := by
  have hd := mainBeforeDiff_detected hcv h
  obtain ⟨hold, hnew⟩ := mainBeforeDiff_segments h
  exact ⟨fun seg hseg => (hold seg hseg).fits.congr hd.oldGray.1 hd.oldGray.2,
    fun seg hseg => (hnew seg hseg).fits.congr hd.newGray.1 hd.newGray.2⟩

/-- The segments of `main` are the parts of both images. -/
theorem mainBeforeDiff_parts (hcv : cv.Lawful) (hcon : cv.Contours region)
    (h : mainBeforeDiff cv fs build args = .ok ctx) :
    FindsParts cv region ctx.oldGrayMat ctx.oldColorMat ctx.arg.binThreshold ctx.oldSegments ∧
      FindsParts cv region ctx.newGrayMat ctx.newColorMat ctx.arg.binThreshold
        ctx.newSegments := by
  obtain ⟨arg, loaded, harg, hload, -, hdetect⟩ := mainBeforeDiff_stages h
  obtain ⟨hnew, hold⟩ := parseArgs_files harg
  obtain ⟨new, old, -, -, rfl⟩ := loadImage_spec hnew hold hload
  obtain ⟨oldSegs, holdSegs, hdetect⟩ := bind_eq_ok.mp hdetect
  obtain ⟨newSegs, hnewSegs, hdetect⟩ := bind_eq_ok.mp hdetect
  obtain ⟨oldSegs', holdSegs', holdParts⟩ :=
    doDetect_parts hcv hcon old.2.2 old.2.1 arg.binThreshold
  obtain ⟨newSegs', hnewSegs', hnewParts⟩ :=
    doDetect_parts hcv hcon new.2.2 new.2.1 arg.binThreshold
  obtain rfl : oldSegs = oldSegs' := Except.ok.inj (holdSegs.symm.trans holdSegs')
  obtain rfl : newSegs = newSegs' := Except.ok.inj (hnewSegs.symm.trans hnewSegs')
  cases hdetect
  exact ⟨holdParts, hnewParts⟩

theorem finite_partPixels (gray : Mat UInt8) (color : Mat Vec3b) (threshold : Int) :
    (partPixels cv region gray color threshold).Finite := by
  refine (List.finite_toSet (positions gray.rows gray.cols)).subset ?_
  intro p hp
  exact mem_positions.mpr hp.1

/-- No part of the image is straight. -/
def NoStraightPart (cv : OpenCV ρ) (region : Mat Int → Nat → Point → Prop) (gray : Mat UInt8)
    (color : Mat Vec3b) (threshold : Int) : Prop :=
  ∀ p ∈ partPixels cv region gray color threshold,
    (component (partPixels cv region gray color threshold) p).Nontrivial →
      ¬ Straight (component (partPixels cv region gray color threshold) p)

theorem FindsParts.thin_iff {gray : Mat UInt8} {color : Mat Vec3b} {threshold : Int}
    {segs : List (ImageSegment ρ)} (h : FindsParts cv region gray color threshold segs) :
    (∀ seg ∈ segs, ¬ seg.area.Thin) ↔ NoStraightPart cv region gray color threshold := by
  rw [NoStraightPart, ← h.parts.thin_iff (finite_partPixels gray color threshold),
    List.forall_mem_map]

/-- Where `main` could call it, `save_segments` returns if and only if no part of either
image is straight.  It passes the segments before the first empty one to `imwrite`, each
with a path of its own, and writes those that `imwrite` can write. -/
theorem saveSegments_parts (hcv : cv.Lawful) (hwrite : cv.WritesImages)
    (hcon : cv.Contours region) (h : mainBeforeDiff cv fs build args = .ok ctx) :
    ((saveSegments cv ctx).exception = none ↔
      NoStraightPart cv region ctx.oldGrayMat ctx.oldColorMat ctx.arg.binThreshold ∧
        NoStraightPart cv region ctx.newGrayMat ctx.newColorMat ctx.arg.binThreshold) ∧
    ((saveSegments cv ctx).writes.map Prod.fst).Nodup ∧
    ∀ file, file ∈ (saveSegments cv ctx).writes ↔ cv.imwrite file.1 file.2 = some true ∧
      (Saves ctx.arg "old" ctx.oldColorMat [] ctx.oldSegments file ∨
        Saves ctx.arg "new" ctx.newColorMat ctx.oldSegments ctx.newSegments file) := by
  have hfit := mainBeforeDiff_segmentsFit hcv h
  obtain ⟨hold, hnew⟩ := mainBeforeDiff_parts hcv hcon h
  refine ⟨?_, saveSegments_nodup hwrite hfit, mem_saveSegments hwrite hfit⟩
  rw [saveSegments_exception hwrite hfit, hold.thin_iff, hnew.thin_iff]

end

/-- The segment of a black and white image is a square, and is saved. -/
theorem saveSegments_parts_halves :
    ∃ ctx, mainBeforeDiff sampleCV (sampleFiles halvesFile (pixelFile red)) .serial sampleArgs =
        .ok ctx ∧
      NoStraightPart sampleCV (fun _ _ _ => True) ctx.oldGrayMat ctx.oldColorMat
        ctx.arg.binThreshold ∧
      (saveSegments sampleCV ctx).writes.map Prod.fst = ["image_difference/old/1.png"] := by
  obtain ⟨ctx, hbefore, -⟩ := halves_before
  obtain ⟨arg, loaded, harg, hload, -, hdetect⟩ := mainBeforeDiff_stages hbefore
  obtain rfl : arg = sampleArg := Except.ok.inj (harg.symm.trans parseArgs_sample)
  have hload' : loadImage sampleCV (sampleFiles halvesFile (pixelFile red)) false
      (emptyContext sampleArg) = .ok loaded := hload
  have hsaved : ((loadImage sampleCV (sampleFiles halvesFile (pixelFile red)) false
      (emptyContext sampleArg)).bind (detectSegments sampleCV)).toOption.map (fun ctx =>
        ((saveSegments sampleCV ctx).exception,
          (saveSegments sampleCV ctx).writes.map Prod.fst)) =
      some (none, ["image_difference/old/1.png"]) := by
    decide +kernel
  rw [hload'] at hsaved
  simp only [Except.bind, hdetect, Except.toOption, Option.map_some, Option.some.injEq,
    Prod.mk.injEq] at hsaved
  have hparts :=
    saveSegments_parts sampleCV_lawful sampleCV_writesImages sampleCV_contours hbefore
  exact ⟨ctx, hbefore, (hparts.1.mp hsaved.1).1, hsaved.2⟩

end Gazosan
