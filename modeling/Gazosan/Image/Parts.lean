import Gazosan.Image.Labels

/-!
# The parts of an image

What `detect_segments` is for: it finds the parts of each image.  A part is a connected
component of a set of pixels that has two pixels or more, and `Parts` is the list of
their rectangles.  The set decides the list (`Parts.unique`), so the grouping stage sees
nothing of the labels but which of them are above 1, and it leaves nothing for a second
pass (`grouping_labels`).

`split_segments` takes the pixels inside the outer contours, without those that the
watershed has made a border.  So what `detect_segments` adds to the context are the parts
of this set (`detectSegments_parts`).
-/

namespace Gazosan

/-! ## Parts of a set of pixels -/

/-- The rectangles of the parts of `F`: its components with two pixels or more, in the
order of their first pixels. -/
def Parts (F : Set Point) (rects : List Rect) : Prop :=
  ∃ firsts : List Point, firsts.Pairwise Before ∧
    (∀ p, p ∈ firsts ↔ p ∈ F ∧ (component F p).Nontrivial ∧ IsFirst (component F p) p) ∧
    List.Forall₂ (fun p r => BoundingRect (component F p) r) firsts rects

theorem Before.asymm {p q : Point} (h : Before p q) : ¬ Before q p := by
  simp only [Before] at h ⊢
  omega

theorem IsFirst.unique {C : Set Point} {p q : Point} (hp : IsFirst C p) (hq : IsFirst C q) :
    p = q := by
  rcases hp.2 q hq.1 with hqp | hpq
  · exact hqp.symm
  · rcases hq.2 p hp.1 with hpq' | hqp
    · exact hpq'
    · exact absurd hqp hpq.asymm

theorem BoundingRect.unique {S : Set Point} {r r' : Rect} (h : BoundingRect S r)
    (h' : BoundingRect S r') : r = r' := by
  obtain ⟨hlo, hhi⟩ := Box.unique h h'
  obtain ⟨x, y, w, ht⟩ := r
  obtain ⟨x', y', w', ht'⟩ := r'
  simp only [Point.mk.injEq] at hlo hhi
  simp only [Rect.mk.injEq]
  omega

theorem nodup_of_before {ps : List Point} (h : ps.Pairwise Before) : ps.Nodup := by
  refine h.imp ?_
  rintro p _ hpq rfl
  exact Before.irrefl p hpq

/-- The pixels decide the list. -/
theorem Parts.unique {F : Set Point} {rects rects' : List Rect} (h : Parts F rects)
    (h' : Parts F rects') : rects = rects' := by
  obtain ⟨firsts, hordered, hmem, hrects⟩ := h
  obtain ⟨firsts', hordered', hmem', hrects'⟩ := h'
  have hperm : firsts.Perm firsts' :=
    (List.perm_ext_iff_of_nodup (nodup_of_before hordered) (nodup_of_before hordered')).mpr
      fun p => (hmem p).trans (hmem' p).symm
  have hsame : firsts = firsts' :=
    hperm.eq_of_pairwise (fun p q _ _ hpq hqp => absurd hqp hpq.asymm) hordered hordered'
  rw [← hsame] at hrects'
  exact List.right_unique_forall₂' (fun _ _ _ hb hb' => hb.unique hb') hrects hrects'

/-- A part has a second pixel, and different parts share none. -/
theorem Parts.length_le {F : Set Point} (hfin : F.Finite) {rects : List Rect}
    (h : Parts F rects) : 2 * rects.length ≤ F.ncard := by
  obtain ⟨firsts, hordered, hmem, hrects⟩ := h
  have hpart := fun i : Fin firsts.length => (hmem (firsts.get i)).mp (List.get_mem firsts i)
  choose second hsecond hne using fun i => (hpart i).2.1.exists_ne (firsts.get i)
  let pixel : Fin firsts.length × Bool → Point :=
    fun ib => if ib.2 then firsts.get ib.1 else second ib.1
  have hpixel : ∀ ib, pixel ib ∈ component F (firsts.get ib.1) := by
    rintro ⟨i, b⟩
    cases b with
    | true => exact mem_component_self F _
    | false => exact hsecond i
  have hinj : Function.Injective pixel := by
    rintro ⟨i, b⟩ ⟨j, c⟩ heq
    have hi := component_eq_of_mem (hpart i).1 (hpixel (i, b))
    have hj := component_eq_of_mem (hpart j).1 (hpixel (j, c))
    have hsame : component F (firsts.get i) = component F (firsts.get j) := by
      rw [← hi, heq, hj]
    have hget : firsts.get i = firsts.get j :=
      (hpart i).2.2.unique (hsame ▸ (hpart j).2.2)
    obtain rfl : i = j := (nodup_of_before hordered).injective_get hget
    cases b with
    | true =>
        cases c with
        | true => rfl
        | false => exact absurd heq.symm (hne i)
    | false =>
        cases c with
        | true => exact absurd heq (hne i)
        | false => rfl
  have hcard : (Set.range pixel).ncard = 2 * rects.length := by
    rw [Set.ncard_range_of_injective hinj, ← hrects.length_eq]
    simp [Nat.mul_comm]
  rw [← hcard]
  refine Set.ncard_le_ncard ?_ hfin
  rintro _ ⟨ib, rfl⟩
  exact component_subset (hpart ib.1).1 (hpixel ib)

/-! ## The grouping stage -/

/-- The pixels of `F` that are in no part. -/
def Alone (F : Set Point) : Set Point := {p | p ∈ F ∧ ¬ (component F p).Nontrivial}

/-- What is in no part has no parts. -/
theorem parts_alone (F : Set Point) : Parts (Alone F) [] := by
  refine ⟨[], .nil, fun p => ⟨nofun, ?_⟩, .nil⟩
  rintro ⟨hp, hnontrivial, -⟩
  obtain ⟨n, hn, hnF⟩ := component_nontrivial_iff.mp hnontrivial
  exact absurd (component_nontrivial_iff.mpr ⟨n, hn, hnF.1⟩) hp.2

/-- Nor is anything there to be cleared. -/
theorem alone_alone (F : Set Point) : Alone (Alone F) = Alone F := by
  ext p
  refine ⟨fun hp => hp.1, fun hp => ⟨hp, fun hnontrivial => ?_⟩⟩
  obtain ⟨n, hn, hnF⟩ := component_nontrivial_iff.mp hnontrivial
  exact hp.2 (component_nontrivial_iff.mpr ⟨n, hn, hnF.1⟩)

/-- The grouping stage returns the parts of the foreground and clears them. -/
theorem grouping_parts (markers : Mat Int) :
    ∃ left rects, grouping markers = some (left, rects) ∧ Parts (Foreground markers) rects ∧
      Mat.PaintedBy (fun p => p ∈ Foreground markers ∧ p ∉ Alone (Foreground markers)) 0
        markers left := by
  obtain ⟨left, rects, hrun, hinv⟩ := grouping_scanInv markers
  obtain ⟨firsts, hsub, hfirsts, hall, hrects⟩ := hinv.firsts
  refine ⟨left, rects, hrun, ⟨firsts, ?_, fun p => ⟨hfirsts p, ?_⟩, hrects⟩, ?_⟩
  · exact (positions_pairwise _ _).sublist hsub
  · rintro ⟨hp, hnontrivial, hfirst⟩
    obtain ⟨f, hf, heq⟩ := hall p (foreground_subset markers hp) hp hnontrivial
    have hpf : p = f := hfirst.unique (heq ▸ (hfirsts f hf).2.2)
    rw [hpf]
    exact hf
  · refine hinv.painted.congr fun q => ⟨?_, ?_⟩
    · rintro ⟨p, -, hp, hnontrivial, hq⟩
      have hqF := component_subset hp hq
      exact ⟨hqF, fun halone => halone.2 (component_eq_of_mem hp hq ▸ hnontrivial)⟩
    · rintro ⟨hq, hnot⟩
      have hnontrivial : (component (Foreground markers) q).Nontrivial := by
        by_contra htrivial
        exact hnot ⟨hq, htrivial⟩
      exact ⟨q, foreground_subset markers hq, hq, hnontrivial, mem_component_self _ q⟩

theorem foreground_left {markers left : Mat Int}
    (h : Mat.PaintedBy (fun p => p ∈ Foreground markers ∧ p ∉ Alone (Foreground markers)) 0
      markers left) : Foreground left = Alone (Foreground markers) := by
  ext p
  rw [mem_foreground_painted h]
  constructor
  · rintro ⟨hp, hnot⟩
    by_contra halone
    exact hnot ⟨hp, halone⟩
  · intro halone
    exact ⟨halone.1, fun hcleared => hcleared.2 halone⟩

/-- The grouping stage depends on which markers are above 1 and on nothing else, not on
the labels and not on the size of the image around them.  It leaves the foreground pixels
that touch no other, and a second pass over what it leaves finds nothing and changes
nothing. -/
theorem grouping_labels {markers markers' : Mat Int}
    (hfore : Foreground markers = Foreground markers') :
    ∃ left left' rects, grouping markers = some (left, rects) ∧
      grouping markers' = some (left', rects) ∧
      Foreground left = Foreground left' ∧
      (∀ p, p ∈ Foreground left ↔
        p ∈ Foreground markers ∧ ∀ q ∈ Foreground markers, ¬ Adjacent p q) ∧
      grouping left = some (left, []) := by
  obtain ⟨left, rects, hrun, hparts, hpainted⟩ := grouping_parts markers
  obtain ⟨left', rects', hrun', hparts', hpainted'⟩ := grouping_parts markers'
  obtain rfl : rects = rects' := hparts.unique (hfore ▸ hparts')
  have hleft := foreground_left hpainted
  refine ⟨left, left', rects, hrun, hrun', ?_, fun p => ?_, ?_⟩
  · rw [hleft, foreground_left hpainted', hfore]
  · rw [hleft, Alone, Set.mem_ofPred_eq, component_nontrivial_iff, not_exists]
    refine and_congr_right fun _ => forall_congr' fun q => ?_
    rw [Flood.Link, mem_neighbours, not_and']
  · obtain ⟨last, none, hsecond, hnone, hkept⟩ := grouping_parts left
    rw [hleft] at hnone hkept
    obtain rfl : none = [] := hnone.unique (parts_alone _)
    have hsame : last = left := by
      refine Mat.PaintedBy.unique (hkept.congr (B := fun _ => False) fun p => ?_)
        (Mat.PaintedBy.refl 0 left)
      rw [alone_alone]
      exact iff_false_intro fun h => h.2 h.1
    rw [hsecond, hsame]

/-! ## From an image to its parts -/

/-- What the parts of an image rest on: contours in a well-formed hierarchy with one entry
for each, drawing that fills a region of each contour, and a watershed that keeps markers
or makes them a border. -/
structure OpenCV.Contours {ρ : Type} (cv : OpenCV ρ) (region : Mat Int → Nat → Point → Prop) :
    Prop where
  wellFormed : cv.FindsWellFormed
  paired : ∀ m, (cv.findContours m).2.length = (cv.findContours m).1.length
  fills : ∀ m, cv.Fills (cv.findContours m).1 (cv.findContours m).2 (region m)
  keeps : cv.KeepsMarkers

section

variable {ρ : Type} (cv : OpenCV ρ) (region : Mat Int → Nat → Point → Prop) (gray : Mat UInt8)
  (color : Mat Vec3b) (threshold : Int)

/-- The image in which the contours are found. -/
def gradient : Mat Int := cv.morphologyGradient (cv.threshold gray threshold)

/-- The markers that the grouping stage starts from. -/
def floodedMarkers : Option (Mat Int) :=
  let grd := gradient cv gray threshold
  let (contours, hierarchy) := cv.findContours grd
  (labelContours cv contours hierarchy (hierarchy.length + 1) 0 0 (zeros grd.rows grd.cols)).map
    fun markers => cv.watershed color (markers.mapAt fun _ v => v + 1)

/-- The pixel lies inside an outer contour. -/
def Outlined (p : Point) : Prop :=
  ∃ i entry, (cv.findContours (gradient cv gray threshold)).2[i]? = some entry ∧
    entry.parent = -1 ∧ region (gradient cv gray threshold) i p

/-- The pixels that make up the parts of an image: those inside an outer contour, without
the border of the watershed. -/
def partPixels : Set Point :=
  {p | gray.InBounds p ∧ Outlined cv region gray threshold p ∧
    ∀ markers, floodedMarkers cv gray color threshold = some markers → markers.at? p ≠ some (-1)}

variable {cv region}

theorem splitSegments_eq :
    splitSegments cv gray color threshold =
      if (cv.findContours (gradient cv gray threshold)).1.isEmpty then some []
      else (floodedMarkers cv gray color threshold).bind fun markers =>
        (grouping markers).map Prod.snd := by
  rw [splitSegments, floodedMarkers, gradient]
  simp only [zeros, Option.bind_map]
  split
  · rfl
  · refine congrArg _ (funext fun markers => ?_)
    rw [Function.comp_apply]
    cases grouping (cv.watershed color (markers.mapAt fun _ v => v + 1)) with
    | none => rfl
    | some found => rfl

variable {gray color threshold}

/-- What the labelling loop leaves if contours are found. -/
theorem labelContours_outlined (hcon : cv.Contours region) {grd : Mat Int}
    (hfound : (cv.findContours grd).1 ≠ []) :
    ∃ labelled, labelContours cv (cv.findContours grd).1 (cv.findContours grd).2
        ((cv.findContours grd).2.length + 1) 0 0 (zeros grd.rows grd.cols) = some labelled ∧
      (labelled.rows = grd.rows ∧ labelled.cols = grd.cols) ∧
      Separates (fun p => ∃ i entry, (cv.findContours grd).2[i]? = some entry ∧
        entry.parent = -1 ∧ region grd i p) (labelled.mapAt fun _ v => v + 1) := by
  obtain ⟨calls, hcalls, hloop⟩ := (hcon.wellFormed grd hfound).exists_calls (ρ := ρ)
  have hlayers := hcalls.layered (hcon.fills grd) (zeros grd.rows grd.cols)
  refine ⟨_, hloop cv _ _ _ (Nat.lt_succ_self _), ⟨hlayers.rows, hlayers.cols⟩, ?_⟩
  have houter : (fun p => ∃ call ∈ calls, region grd call.1 p) = fun p => ∃ i entry,
      (cv.findContours grd).2[i]? = some entry ∧ entry.parent = -1 ∧ region grd i p := by
    funext p
    refine propext ⟨?_, ?_⟩
    · rintro ⟨call, hcall, hp⟩
      obtain ⟨entry, hentry, hparent⟩ := (hcalls.outer call.1).mp (List.mem_map_of_mem hcall)
      exact ⟨call.1, entry, hentry, hparent, hp⟩
    · rintro ⟨i, entry, hentry, hparent, hp⟩
      obtain ⟨call, hcall, rfl⟩ := List.mem_map.mp ((hcalls.outer i).mpr ⟨entry, hentry, hparent⟩)
      exact ⟨call, hcall, hp⟩
  exact houter ▸ separates_of_layered hlayers hcalls.pos

/-- If contours are found, the foreground of the markers is the pixels of the parts. -/
theorem foreground_flooded (hcv : cv.Lawful) (hcon : cv.Contours region) (color : Mat Vec3b)
    (hfound : (cv.findContours (gradient cv gray threshold)).1 ≠ []) :
    ∃ markers, floodedMarkers cv gray color threshold = some markers ∧
      (markers.rows = gray.rows ∧ markers.cols = gray.cols) ∧
      Foreground markers = partPixels cv region gray color threshold := by
  obtain ⟨hrows, hcols⟩ := hcv.threshold_size gray threshold
  obtain ⟨hrows', hcols'⟩ := hcv.morphologyGradient_size (cv.threshold gray threshold)
  obtain ⟨labelled, hlabelled, ⟨hr, hc⟩, hseparates⟩ := labelContours_outlined hcon hfound
  have hin : ∀ p, (labelled.mapAt fun _ v => v + 1).InBounds p ↔ gray.InBounds p := by
    intro p
    show labelled.InBounds p ↔ gray.InBounds p
    rw [Mat.InBounds, Mat.InBounds, hr, hc, gradient, hrows', hcols', hrows, hcols]
  obtain ⟨hr', hc'⟩ := hcv.watershed_size color (labelled.mapAt fun _ v => v + 1)
  have hflooded : floodedMarkers cv gray color threshold =
      some (cv.watershed color (labelled.mapAt fun _ v => v + 1)) := by
    rw [floodedMarkers]
    simp only [hlabelled, Option.map_some]
  refine ⟨_, hflooded, ⟨?_, ?_⟩, ?_⟩
  · exact hr'.trans (hr.trans (hrows'.trans hrows))
  · exact hc'.trans (hc.trans (hcols'.trans hcols))
  · ext p
    rw [partPixels, Set.mem_ofPred_eq, hflooded]
    by_cases hp : gray.InBounds p
    · obtain ⟨v, hv, htest⟩ := hseparates.watershed hcon.keeps color ((hin p).mpr hp)
      rw [Foreground, Set.mem_ofPred_eq, hv]
      simp only [Option.some.injEq, forall_eq', hv, exists_eq_left', hp, true_and]
      by_cases hborder : v = -1
      · simp [hborder]
      · have houtlined := htest.resolve_left hborder
        refine ⟨fun hlt => ⟨?_, fun h => hborder (Option.some.inj h)⟩, fun h => ?_⟩
        · by_contra hnot
          have := houtlined.mpr hnot
          omega
        · by_contra hle
          exact houtlined.mp (not_lt.mp hle) h.1
    · refine iff_of_false ?_ fun h => hp h.1
      rintro ⟨v, hv, -⟩
      refine hp ((hin p).mp ?_)
      have hb := Mat.inBounds_of_at? hv
      rwa [Mat.InBounds, hr', hc'] at hb

/-- `split_segments` returns the parts of the image. -/
theorem splitSegments_parts (hcv : cv.Lawful) (hcon : cv.Contours region) (gray : Mat UInt8)
    (color : Mat Vec3b) (threshold : Int) :
    ∃ areas, splitSegments cv gray color threshold = some areas ∧
      Parts (partPixels cv region gray color threshold) areas ∧
      2 * areas.length ≤ gray.rows * gray.cols := by
  rw [splitSegments_eq]
  by_cases hfound : (cv.findContours (gradient cv gray threshold)).1 = []
  · -- without contours there are no pixels
    refine ⟨[], by rw [hfound]; rfl, ⟨[], .nil, fun p => ⟨nofun, ?_⟩, .nil⟩, Nat.zero_le _⟩
    rintro ⟨⟨-, ⟨i, entry, hentry, -⟩, -⟩, -⟩
    have hlength := hcon.paired (gradient cv gray threshold)
    rw [hfound, List.length_nil, List.length_eq_zero_iff] at hlength
    rw [hlength] at hentry
    cases hentry
  · obtain ⟨markers, hflooded, ⟨hrows, hcols⟩, hfore⟩ := foreground_flooded hcv hcon color hfound
    obtain ⟨left, areas, hrun, hparts, -⟩ := grouping_parts markers
    refine ⟨areas, ?_, hfore ▸ hparts, ?_⟩
    · rw [if_neg (by simpa using hfound), hflooded, Option.bind_some, hrun]
      rfl
    · calc 2 * areas.length ≤ (Foreground markers).ncard :=
            hparts.length_le (finite_foreground markers)
        _ ≤ markers.rows * markers.cols := ncard_foreground_le markers
        _ = gray.rows * gray.cols := by rw [hrows, hcols]

/-- The segments of an image: one for each part, with the pixels of its area and their
descriptor. -/
structure FindsParts (cv : OpenCV ρ) (region : Mat Int → Nat → Point → Prop) (gray : Mat UInt8)
    (color : Mat Vec3b) (threshold : Int) (segs : List (ImageSegment ρ)) : Prop where
  parts : Parts (partPixels cv region gray color threshold) (segs.map ImageSegment.area)
  /-- At most one for two pixels. -/
  length_le : 2 * segs.length ≤ gray.rows * gray.cols
  segment : ∀ seg ∈ segs, gray.roi? seg.area = some seg.roi ∧
    seg.descriptor = (computeDescriptor cv seg.roi).getD [] ∧ seg.matched = false

theorem makeSegment_eq_some {area : Rect} {seg : ImageSegment ρ} :
    makeSegment cv gray area = some seg ↔ seg.area = area ∧ gray.roi? area = some seg.roi ∧
      seg.descriptor = (computeDescriptor cv seg.roi).getD [] ∧ seg.matched = false := by
  rw [makeSegment, Option.map_eq_some_iff]
  constructor
  · rintro ⟨roi, hroi, rfl⟩
    exact ⟨rfl, hroi, rfl, rfl⟩
  · rintro ⟨harea, hroi, hdescriptor, hmatched⟩
    refine ⟨seg.roi, hroi, ?_⟩
    rw [← harea, ← hdescriptor, ← hmatched]

theorem map_area_of_mapM {areas : List Rect} {segs : List (ImageSegment ρ)}
    (h : areas.mapM (makeSegment cv gray) = some segs) : segs.map ImageSegment.area = areas := by
  induction areas generalizing segs with
  | nil =>
      cases h
      rfl
  | cons area areas ih =>
      simp only [List.mapM_cons, Option.bind_eq_bind, Option.bind_eq_some_iff] at h
      obtain ⟨seg, hseg, rest, hrest, h⟩ := h
      cases h
      rw [List.map_cons, ih hrest, (makeSegment_eq_some.mp hseg).1]

theorem doDetect_parts (hcv : cv.Lawful) (hcon : cv.Contours region) (gray : Mat UInt8)
    (color : Mat Vec3b) (threshold : Int) :
    ∃ segs, doDetect cv gray color threshold = .ok segs ∧
      FindsParts cv region gray color threshold segs := by
  obtain ⟨segs, hdetect⟩ := doDetect_returns hcv hcon.wellFormed gray color threshold
  obtain ⟨areas, hsplit, hparts, hlength⟩ := splitSegments_parts hcv hcon gray color threshold
  refine ⟨segs, hdetect, ?_⟩
  simp only [doDetect, hsplit] at hdetect
  split at hdetect
  · cases hdetect
  · rename_i hmap
    cases hdetect
    have harea := map_area_of_mapM hmap
    refine ⟨harea ▸ hparts, ?_, fun seg hseg => ?_⟩
    · rwa [← harea, List.length_map] at hlength
    · obtain ⟨area, -, hmake⟩ := mem_of_mapM hmap hseg
      obtain ⟨rfl, h⟩ := makeSegment_eq_some.mp hmake
      exact h

/-- `detect_segments` finds the parts of both images. -/
theorem detectSegments_parts (hcv : cv.Lawful) (hcon : cv.Contours region) (ctx : Context ρ) :
    ∃ old new, detectSegments cv ctx = .ok { ctx with
        oldSegments := ctx.oldSegments ++ old, newSegments := ctx.newSegments ++ new } ∧
      FindsParts cv region ctx.oldGrayMat ctx.oldColorMat ctx.arg.binThreshold old ∧
      FindsParts cv region ctx.newGrayMat ctx.newColorMat ctx.arg.binThreshold new := by
  obtain ⟨old, hold, hpartsOld⟩ :=
    doDetect_parts hcv hcon ctx.oldGrayMat ctx.oldColorMat ctx.arg.binThreshold
  obtain ⟨new, hnew, hpartsNew⟩ :=
    doDetect_parts hcv hcon ctx.newGrayMat ctx.newColorMat ctx.arg.binThreshold
  refine ⟨old, new, ?_, hpartsOld, hpartsNew⟩
  rw [detectSegments, hold, hnew]
  rfl

end

/-! ## Samples -/

/-- The pixels of `strip` with two different labels, in a larger image. -/
def relabelledStrip : Mat Int :=
  ⟨4, 5, fun i j => if i.val = 1 ∧ j.val = 1 then 7 else if i.val = 1 ∧ j.val = 2 then 3
    else 1⟩

theorem foreground_strip : Foreground strip = Foreground relabelledStrip := by
  have hmem : ∀ {m : Mat Int}, Foreground m =
      {p | p ∈ (positions m.rows m.cols).filter fun p => 1 < (m.at? p).getD 0} := by
    intro m
    ext p
    simp only [Set.mem_ofPred_eq, List.mem_filter, decide_eq_true_eq]
    constructor
    · rintro ⟨v, hv, hlt⟩
      exact ⟨foreground_subset m ⟨v, hv, hlt⟩, by rwa [hv]⟩
    · rintro ⟨hp, hlt⟩
      obtain ⟨v, hv⟩ := Mat.exists_at? (mem_positions.mp hp)
      rw [hv] at hlt
      exact ⟨v, hv, hlt⟩
  rw [hmem, hmem]
  have hfilter : (positions strip.rows strip.cols).filter (fun p => 1 < (strip.at? p).getD 0) =
      (positions relabelledStrip.rows relabelledStrip.cols).filter
        fun p => 1 < (relabelledStrip.at? p).getD 0 := by
    decide
  rw [hfilter]

theorem grouping_labels_strip :
    (grouping strip).map Prod.snd = some [⟨1, 1, 1, 0⟩] ∧
      (grouping relabelledStrip).map Prod.snd = some [⟨1, 1, 1, 0⟩] := by
  obtain ⟨left, left', rects, hrun, hrun', -⟩ := grouping_labels foreground_strip
  have hstrip : (grouping strip).map Prod.snd = some [⟨1, 1, 1, 0⟩] := by decide
  refine ⟨hstrip, ?_⟩
  rw [hrun']
  rwa [hrun] at hstrip

theorem sampleCV_contours : sampleCV.Contours fun _ _ _ => True where
  wellFormed := sampleCV_findsWellFormed
  paired m := by
    simp only [sampleCV, SampleCV.findContours]
    split
    · rfl
    · rfl
  fills m idx _ label markers := Mat.PaintedBy.of_mapAt (fun _ => True) label markers
  keeps := ringCV_keepsMarkers

/-- A dark pixel in an image of white ones. -/
def dotMat (rows cols : Nat) : Mat UInt8 :=
  ⟨rows, cols, fun i j => if i.val = 1 ∧ j.val = 1 then 0 else 255⟩

/-- A dark pixel in an image of 4 by 4 pixels, and in a new image that is wider. -/
def squareContext : Context Nat where
  arg := {}
  newColorMat := (dotMat 4 5).mapAt fun _ v => Vec3b.gray v
  oldColorMat := (dotMat 4 4).mapAt fun _ v => Vec3b.gray v
  newGrayMat := dotMat 4 5
  oldGrayMat := dotMat 4 4

/-- What is inside the border of an image is one part. -/
theorem detectSegments_parts_square :
    ∃ ctx, detectSegments sampleCV squareContext = .ok ctx ∧
      ctx.oldSegments.map ImageSegment.area = [⟨1, 1, 1, 1⟩] ∧
      ctx.newSegments.map ImageSegment.area = [⟨1, 1, 2, 1⟩] ∧
      Parts (partPixels sampleCV (fun _ _ _ => True) squareContext.oldGrayMat
        squareContext.oldColorMat 200) [⟨1, 1, 1, 1⟩] ∧
      Parts (partPixels sampleCV (fun _ _ _ => True) squareContext.newGrayMat
        squareContext.newColorMat 200) [⟨1, 1, 2, 1⟩] := by
  obtain ⟨old, new, hdetect, hold, hnew⟩ :=
    detectSegments_parts sampleCV_lawful sampleCV_contours squareContext
  have hareas : (detectSegments sampleCV squareContext).toOption.map (fun ctx =>
      (ctx.oldSegments.map ImageSegment.area, ctx.newSegments.map ImageSegment.area)) =
      some ([⟨1, 1, 1, 1⟩], [⟨1, 1, 2, 1⟩]) := by
    decide
  rw [hdetect] at hareas
  obtain ⟨hold', hnew'⟩ := Prod.mk.inj (Option.some.inj hareas)
  refine ⟨_, hdetect, hold', hnew', ?_, ?_⟩
  · rw [← hold']
    exact hold.parts
  · rw [← hnew']
    exact hnew.parts

end Gazosan
