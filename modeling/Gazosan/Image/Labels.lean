import Gazosan.Image.Components
import Gazosan.Image.Segments
import Gazosan.Library.Links

/-!
# Labelling the contours

`findContours` returns the contours in a table, and `hierarchy` has the links
between them.  With `RETR_CCOMP` the outer contours are one list, and the holes of
each outer contour are another.  The labelling loop follows the links from
contour 0, so it draws the outer contours, with labels that count from 1.  There
are at most as many labels as contours, so `Int` has them as `int` does.  A label may
overwrite an earlier one, but none of them is 0, so after `markers + 1` the
background is what has the marker 1 (`labelling_separates`).

`WellFormed` is what is assumed of the hierarchy.  It is `Links.Table` for the raw
numbers of `Vec4i`, with what tells the lists apart.
-/

namespace Gazosan

/-! ## Well-formed hierarchies -/

/-- A hierarchy as `findContours` returns it with `RETR_CCOMP`. -/
@[mk_iff]
structure WellFormed (hierarchy : List Vec4i) : Prop where
  /-- The links to the next and to the previous contour are inverse to each other. -/
  next_previous : ∀ i : Fin hierarchy.length, (hierarchy.get i).next = -1 ∨
    ∃ j : Fin hierarchy.length, (hierarchy.get i).next = (j : Nat) ∧
      (hierarchy.get j).previous = (i : Nat)
  previous_next : ∀ j : Fin hierarchy.length, (hierarchy.get j).previous = -1 ∨
    ∃ i : Fin hierarchy.length, (hierarchy.get j).previous = (i : Nat) ∧
      (hierarchy.get i).next = (j : Nat)
  /-- Siblings share their parent. -/
  siblings : ∀ i j : Fin hierarchy.length, (hierarchy.get i).next = (j : Nat) →
    (hierarchy.get i).parent = (hierarchy.get j).parent
  later : ∀ i : Fin hierarchy.length, (hierarchy.get i).next ≠ -1 →
    (i : Nat) < (hierarchy.get i).next
  /-- Contour 0 is the only one without a parent and without a previous contour. -/
  first : ∃ h : 0 < hierarchy.length, ∀ i : Fin hierarchy.length,
    (hierarchy.get i).parent = -1 ∧ (hierarchy.get i).previous = -1 ↔ i = ⟨0, h⟩

instance (hierarchy : List Vec4i) : Decidable (WellFormed hierarchy) :=
  decidable_of_iff' _ (wellFormed_iff hierarchy)

/-- The entry that a link names, if it is not `-1`. -/
def linkAt (n : Nat) (k : Int) : Option (Fin n) :=
  if h : 0 ≤ k ∧ k < n then some ⟨k.toNat, by omega⟩ else none

theorem linkAt_eq_some {n : Nat} {k : Int} {j : Fin n} : linkAt n k = some j ↔ k = (j : Nat) := by
  rw [linkAt]
  constructor
  · intro h
    split at h
    · rename_i hk
      cases h
      exact (Int.toNat_of_nonneg hk.1).symm
    · cases h
  · rintro rfl
    have hj := j.isLt
    rw [dif_pos (by omega)]
    simp

/-- What a link says of the entry it names. -/
theorem of_link {n : Nat} {k : Int} {Q : Fin n → Prop}
    (h : k = -1 ∨ ∃ j : Fin n, k = (j : Nat) ∧ Q j) {j : Fin n} (hj : k = (j : Nat)) : Q j := by
  rcases h with hnone | ⟨j', hj', hQ⟩
  · omega
  · have hsame : j = j' := by omega
    rw [hsame]
    exact hQ

theorem eq_neg_one_of_linkAt {n : Nat} {k : Int} {Q : Fin n → Prop}
    (h : k = -1 ∨ ∃ j : Fin n, k = (j : Nat) ∧ Q j) (hnone : linkAt n k = none) : k = -1 := by
  rcases h with h | ⟨j, hj, -⟩
  · exact h
  · rw [linkAt_eq_some.mpr hj] at hnone
    cases hnone

namespace WellFormed

variable {hierarchy : List Vec4i} (hwf : WellFormed hierarchy)
include hwf

theorem next_iff (i j : Fin hierarchy.length) :
    (hierarchy.get i).next = (j : Nat) ↔ (hierarchy.get j).previous = (i : Nat) :=
  ⟨of_link (hwf.next_previous i), of_link (hwf.previous_next j)⟩

/-- The links of the hierarchy. -/
def table : Links.Table (Fin hierarchy.length) where
  next i := linkAt _ (hierarchy.get i).next
  previous i := linkAt _ (hierarchy.get i).previous
  inverse i j := by
    rw [linkAt_eq_some, linkAt_eq_some]
    exact hwf.next_iff i j
  ascending i j h := by
    have hj := linkAt_eq_some.mp h
    have := hwf.later i (by omega)
    rw [Fin.lt_def]
    omega

/-- The outer contours are the list that starts with contour 0. -/
theorem mem_chain_iff {i : Fin hierarchy.length} {is : List (Fin hierarchy.length)}
    (hi : i.val = 0) (hchain : Links.Chain hwf.table.next i is) {j : Fin hierarchy.length} :
    j ∈ is ↔ (hierarchy.get j).parent = -1 := by
  obtain ⟨h0, hfirst⟩ := hwf.first
  have hi0 : i = ⟨0, h0⟩ := Fin.ext hi
  refine hchain.mem_iff (P := fun j => (hierarchy.get j).parent = -1) ?_
    ((hfirst i).mpr hi0).1 ?_
  · intro a b hab
    rw [hwf.siblings a b (linkAt_eq_some.mp hab)]
  · intro j hj hprev
    rw [hi0]
    exact (hfirst j).mp ⟨hj, eq_neg_one_of_linkAt (hwf.previous_next j) hprev⟩

end WellFormed

/-! ## The calls of the loop -/

section

variable {ρ : Type} (cv : OpenCV ρ) (contours : List (List Point)) (hierarchy : List Vec4i)

/-- The call of `drawContours` with an index and a label. -/
def drawCall (markers : Mat Int) (call : Nat × Int) : Mat Int :=
  cv.drawContours markers contours call.1 call.2 hierarchy

/-- The labels of `n` calls, counting on from `labels`. -/
def labelsFrom (labels : Int) (n : Nat) : List Int :=
  (List.range n).map fun k : Nat => labels + 1 + k

theorem labelsFrom_succ (labels : Int) (n : Nat) :
    labelsFrom labels (n + 1) = (labels + 1) :: labelsFrom (labels + 1) n := by
  rw [labelsFrom, labelsFrom, List.range_succ_eq_map, List.map_cons, List.map_map]
  congr 1
  · simp
  · refine List.map_congr_left fun k _ => ?_
    simp only [Function.comp_apply, Nat.succ_eq_add_one, Nat.cast_add, Nat.cast_one]
    omega

/-- Indices with labels counting on from `labels`. -/
def callsFrom (labels : Int) (is : List Nat) : List (Nat × Int) :=
  is.zip (labelsFrom labels is.length)

theorem map_fst_callsFrom (labels : Int) (is : List Nat) :
    (callsFrom labels is).map Prod.fst = is :=
  List.map_fst_zip (by simp [labelsFrom])

theorem map_snd_callsFrom (labels : Int) (is : List Nat) :
    (callsFrom labels is).map Prod.snd = labelsFrom labels is.length :=
  List.map_snd_zip (by simp [labelsFrom])

theorem length_callsFrom (labels : Int) (is : List Nat) :
    (callsFrom labels is).length = is.length := by
  rw [← List.length_map Prod.fst, map_fst_callsFrom]

variable {hierarchy}

theorem callsFrom_cons (labels : Int) (i : Nat) (is : List Nat) :
    callsFrom labels (i :: is) = (i, labels + 1) :: callsFrom (labels + 1) is := by
  rw [callsFrom, List.length_cons, labelsFrom_succ, List.zip_cons_cons, callsFrom]

theorem labelContours_end (fuel : Nat) (labels : Int) (markers : Mat Int) :
    labelContours cv contours hierarchy (fuel + 1) (-1) labels markers = some markers := rfl

/-- One iteration: a call, and the link to the next contour. -/
theorem labelContours_step (fuel : Nat) (i : Fin hierarchy.length) (labels : Int)
    (markers : Mat Int) :
    labelContours cv contours hierarchy (fuel + 1) (i : Nat) labels markers =
      labelContours cv contours hierarchy fuel (hierarchy.get i).next (labels + 1)
        (drawCall cv contours hierarchy markers (i, labels + 1)) := by
  rw [labelContours, if_neg (by omega), Int.toNat_natCast, List.getElem?_eq_getElem i.isLt]
  rfl

/-- The loop draws the contours from `i` to the end of its list. -/
theorem labelContours_of_chain (hwf : WellFormed hierarchy) {i : Fin hierarchy.length}
    {is : List (Fin hierarchy.length)} (hchain : Links.Chain hwf.table.next i is) :
    ∀ (fuel : Nat) (labels : Int) (markers : Mat Int), is.length < fuel →
      labelContours cv contours hierarchy fuel (i : Nat) labels markers =
        some ((callsFrom labels (is.map Fin.val)).foldl (drawCall cv contours hierarchy)
          markers) := by
  induction hchain with
  | last hnone =>
      intro fuel labels markers hfuel
      obtain ⟨fuel, rfl⟩ : ∃ n, fuel = n + 1 + 1 := ⟨fuel - 2, by simp at hfuel; omega⟩
      rw [labelContours_step, eq_neg_one_of_linkAt (hwf.next_previous _) hnone,
        labelContours_end, List.map_cons, callsFrom_cons, List.foldl_cons]
      rfl
  | link hlink hrest ih =>
      intro fuel labels markers hfuel
      rw [List.length_cons] at hfuel
      obtain ⟨fuel, rfl⟩ : ∃ n, fuel = n + 1 := ⟨fuel - 1, by omega⟩
      rw [labelContours_step, linkAt_eq_some.mp hlink, ih fuel _ _ (by omega), List.map_cons,
        callsFrom_cons, List.foldl_cons]

end

/-! ## Foreground and background -/

/-- `drawContours` fills a region of each contour with the label, clipped to the
image, and changes nothing else. -/
def OpenCV.Fills {ρ : Type} (cv : OpenCV ρ) (contours : List (List Point))
    (hierarchy : List Vec4i) (region : Nat → Point → Prop) : Prop :=
  ∀ idx < hierarchy.length, ∀ label markers,
    Mat.PaintedBy (region idx) label markers (cv.drawContours markers contours idx label hierarchy)

/-- `watershed` gives markers to pixels without one.  It keeps a marker that is there,
or overwrites it with the -1 of a border. -/
def OpenCV.KeepsMarkers {ρ : Type} (cv : OpenCV ρ) : Prop :=
  ∀ color markers p v, markers.at? p = some v → 0 < v →
    (cv.watershed color markers).at? p = some v ∨ (cv.watershed color markers).at? p = some (-1)

/-- The painted pixels have markers above 1, and all others have the marker 1.  So the
test `<= 1` skips the others. -/
def Separates (painted : Point → Prop) (markers : Mat Int) : Prop :=
  ∀ p v, markers.at? p = some v →
    (1 < v ↔ painted p) ∧ (v = 1 ↔ ¬ painted p) ∧ (v ≤ 1 ↔ ¬ painted p)

/-- `cv::Mat::zeros(rows, cols, CV_32SC1)`. -/
def zeros (rows cols : Nat) : Mat Int := ⟨rows, cols, fun _ _ => 0⟩

theorem eq_zero_of_at?_zeros {rows cols : Nat} {p : Point} {v : Int}
    (h : (zeros rows cols).at? p = some v) : v = 0 := by
  rw [Mat.at?] at h
  split at h
  · cases h
    rfl
  · cases h

/-- Whichever of its labels a pixel shows, it is not the 0 of the background. -/
theorem separates_of_layered {calls : List (Nat × Int)} {region : Nat → Point → Prop}
    {rows cols : Nat} {markers : Mat Int}
    (hlayers : Mat.LayeredBy calls (fun call => region call.1) Prod.snd (zeros rows cols) markers)
    (hpos : ∀ call ∈ calls, 0 < call.2) :
    Separates (fun p => ∃ call ∈ calls, region call.1 p) (markers.mapAt fun _ v => v + 1) := by
  intro p v hv
  rw [Mat.at?_mapAt] at hv
  obtain ⟨label, hlabel, rfl⟩ := Option.map_eq_some_iff.mp hv
  by_cases hp : ∃ call ∈ calls, region call.1 p
  · have hb : (zeros rows cols).InBounds p := by
      have := Mat.inBounds_of_at? hlabel
      rw [Mat.InBounds, hlayers.rows, hlayers.cols] at this
      exact this
    obtain ⟨call, hmem, -, hat⟩ := hlayers.covered p hp hb
    have hsame : label = call.2 := Option.some.inj (hlabel.symm.trans hat)
    have := hpos call hmem
    simp only [hp, not_true, iff_true, iff_false]
    refine ⟨?_, ?_, ?_⟩ <;> omega
  · have hzero : label = 0 := by
      rw [hlayers.bare p fun call hmem hr => hp ⟨call, hmem, hr⟩] at hlabel
      exact eq_zero_of_at?_zeros hlabel
    simp [hp, hzero]

/-- What the tests of the grouping stage read: a pixel on a border, or a marker that
is above 1 if and only if the pixel is painted. -/
theorem Separates.watershed {ρ : Type} {cv : OpenCV ρ} (hkeeps : cv.KeepsMarkers)
    {painted : Point → Prop} {markers : Mat Int} (h : Separates painted markers)
    (color : Mat Vec3b) {p : Point} (hp : markers.InBounds p) :
    ∃ v, (cv.watershed color markers).at? p = some v ∧ (v = -1 ∨ (v ≤ 1 ↔ ¬ painted p)) := by
  obtain ⟨v, hv⟩ := Mat.exists_at? hp
  obtain ⟨-, hv'⟩ := h p v hv
  have hpos : 0 < v := by
    by_contra hle
    have hone := hv'.1.mpr (hv'.2.mp (by omega))
    omega
  rcases hkeeps color markers p v hv hpos with hkept | hborder
  · exact ⟨v, hkept, Or.inr hv'.2⟩
  · exact ⟨-1, hborder, Or.inl rfl⟩

/-! ## The labelling loop -/

/-- Calls of `drawContours` for the outer contours: once for each, in the order of the
table, with labels that count from 1. -/
structure LabelsOuter (hierarchy : List Vec4i) (calls : List (Nat × Int)) : Prop where
  ordered : (calls.map Prod.fst).Pairwise (· < ·)
  outer : ∀ i, i ∈ calls.map Prod.fst ↔ ∃ entry, hierarchy[i]? = some entry ∧ entry.parent = -1
  counted : calls.map Prod.snd = (List.range calls.length).map fun k : Nat => (k : Int) + 1
  distinct : (calls.map Prod.snd).Nodup

namespace LabelsOuter

variable {ρ : Type} {cv : OpenCV ρ} {contours : List (List Point)} {hierarchy : List Vec4i}
  {calls : List (Nat × Int)}

/-- No label is the 0 of the background. -/
theorem pos (h : LabelsOuter hierarchy calls) : ∀ call ∈ calls, 0 < call.2 := by
  intro call hmem
  have hlabel := List.mem_map_of_mem (f := Prod.snd) hmem
  rw [h.counted] at hlabel
  obtain ⟨k, -, hk⟩ := List.mem_map.mp hlabel
  omega

/-- The calls paint one over the other. -/
theorem layered (h : LabelsOuter hierarchy calls) {region : Nat → Point → Prop}
    (hfills : cv.Fills contours hierarchy region) (markers : Mat Int) :
    Mat.LayeredBy calls (fun call => region call.1) Prod.snd markers
      (calls.foldl (drawCall cv contours hierarchy) markers) := by
  refine Mat.LayeredBy.foldl calls markers fun call hmem m => ?_
  obtain ⟨entry, hentry, -⟩ := (h.outer call.1).mp (List.mem_map_of_mem hmem)
  exact hfills call.1 (List.getElem?_eq_some_iff.mp hentry).1 call.2 m

end LabelsOuter

/-- The chain of contour 0, with labels counting from 1. -/
theorem WellFormed.labelsOuter {hierarchy : List Vec4i} (hwf : WellFormed hierarchy)
    {i : Fin hierarchy.length} {is : List (Fin hierarchy.length)} (hi : i.val = 0)
    (hchain : Links.Chain hwf.table.next i is) :
    LabelsOuter hierarchy (callsFrom 0 (is.map Fin.val)) := by
  have hlabels : (callsFrom 0 (is.map Fin.val)).map Prod.snd =
      (List.range (callsFrom 0 (is.map Fin.val)).length).map fun k : Nat => (k : Int) + 1 := by
    rw [map_snd_callsFrom, length_callsFrom, labelsFrom]
    refine List.map_congr_left fun k _ => ?_
    omega
  refine ⟨?_, ?_, hlabels, ?_⟩
  · rw [map_fst_callsFrom]
    exact List.pairwise_map.mpr hchain.pairwise
  · intro k
    rw [map_fst_callsFrom, List.mem_map]
    constructor
    · rintro ⟨j, hj, rfl⟩
      exact ⟨hierarchy.get j, List.getElem?_eq_getElem j.isLt, (hwf.mem_chain_iff hi hchain).mp hj⟩
    · rintro ⟨entry, hentry, hparent⟩
      obtain ⟨hk, rfl⟩ := List.getElem?_eq_some_iff.mp hentry
      exact ⟨⟨k, hk⟩, (hwf.mem_chain_iff hi hchain).mpr hparent, rfl⟩
  · rw [hlabels]
    refine List.nodup_range.map ?_
    intro a b hab
    simp only at hab
    omega

/-- The loop ends after one call for each outer contour, whatever `drawContours` does. -/
theorem WellFormed.exists_calls {ρ : Type} {hierarchy : List Vec4i} (hwf : WellFormed hierarchy) :
    ∃ calls, LabelsOuter hierarchy calls ∧
      ∀ (cv : OpenCV ρ) (contours : List (List Point)) (fuel : Nat) (markers : Mat Int),
        hierarchy.length < fuel → labelContours cv contours hierarchy fuel 0 0 markers =
          some (calls.foldl (drawCall cv contours hierarchy) markers) := by
  obtain ⟨h0, -⟩ := hwf.first
  obtain ⟨is, hchain⟩ := hwf.table.exists_chain ⟨0, h0⟩
  refine ⟨callsFrom 0 (is.map Fin.val), hwf.labelsOuter rfl hchain, ?_⟩
  intro cv contours fuel markers hfuel
  have hlength : is.length ≤ hierarchy.length := by simpa using hchain.length_le_card
  exact labelContours_of_chain cv contours hwf hchain fuel 0 markers (by omega)

/-- The loop of `split_segments` calls `drawContours` once for each outer contour and
for no other, in the order of the table, with the labels 1, 2, and so on.  It ends
after these calls, whatever `drawContours` does.  If each of them fills some region
with its label, then after `markers + 1` the pixels of the regions have markers above
1 and all others have the marker 1.  The later tests skip these, and what `watershed`
has made a border. -/
theorem labelling_separates {ρ : Type} {hierarchy : List Vec4i} (hwf : WellFormed hierarchy) :
    ∃ calls : List (Nat × Int), LabelsOuter hierarchy calls ∧
      ∀ (cv : OpenCV ρ) (contours : List (List Point)),
        (∀ fuel markers, hierarchy.length < fuel →
          labelContours cv contours hierarchy fuel 0 0 markers =
            some (calls.foldl (drawCall cv contours hierarchy) markers)) ∧
        ∀ (region : Nat → Point → Prop) (rows cols : Nat), cv.Fills contours hierarchy region →
          ∃ labelled, labelContours cv contours hierarchy (hierarchy.length + 1) 0 0
              (zeros rows cols) = some labelled ∧
            (labelled.rows = rows ∧ labelled.cols = cols) ∧
            Separates (fun p => ∃ call ∈ calls, region call.1 p)
              (labelled.mapAt fun _ v => v + 1) ∧
            (cv.KeepsMarkers → ∀ color p, labelled.InBounds p →
              ∃ v, (cv.watershed color (labelled.mapAt fun _ v => v + 1)).at? p = some v ∧
                (v = -1 ∨ (v ≤ 1 ↔ ¬ ∃ call ∈ calls, region call.1 p))) := by
  obtain ⟨calls, hcalls, hloop⟩ := hwf.exists_calls
  refine ⟨calls, hcalls, fun cv contours => ⟨hloop cv contours, ?_⟩⟩
  intro region rows cols hfills
  have hlayers := hcalls.layered hfills (zeros rows cols)
  have hseparates := separates_of_layered hlayers hcalls.pos
  refine ⟨_, hloop cv contours _ _ (Nat.lt_succ_self _), ⟨hlayers.rows, hlayers.cols⟩,
    hseparates, ?_⟩
  intro hkeeps color p hp
  exact hseparates.watershed hkeeps color hp

/-! ## `detect_segments` returns -/

section

variable {ρ : Type} {cv : OpenCV ρ}

/-- The hierarchy of contours that were found is well formed. -/
def OpenCV.FindsWellFormed (cv : OpenCV ρ) : Prop :=
  ∀ m, (cv.findContours m).1 ≠ [] → WellFormed (cv.findContours m).2

theorem foldl_drawCall_size (hcv : cv.Lawful) (contours : List (List Point))
    (hierarchy : List Vec4i) (calls : List (Nat × Int)) (markers : Mat Int) :
    (calls.foldl (drawCall cv contours hierarchy) markers).rows = markers.rows ∧
      (calls.foldl (drawCall cv contours hierarchy) markers).cols = markers.cols := by
  induction calls generalizing markers with
  | nil => exact ⟨rfl, rfl⟩
  | cons call calls ih =>
      obtain ⟨hrows, hcols⟩ := hcv.drawContours_size markers contours call.1 call.2 hierarchy
      exact ⟨(ih _).1.trans hrows, (ih _).2.trans hcols⟩

/-- The labelling loop returns markers of the size of the image. -/
theorem labelContours_returns (hcv : cv.Lawful) {hierarchy : List Vec4i}
    (hwf : WellFormed hierarchy) (contours : List (List Point)) (rows cols : Nat) :
    ∃ labelled, labelContours cv contours hierarchy (hierarchy.length + 1) 0 0
        (zeros rows cols) = some labelled ∧
      labelled.rows = rows ∧ labelled.cols = cols := by
  obtain ⟨calls, -, hloop⟩ := hwf.exists_calls
  exact ⟨_, hloop cv contours _ _ (Nat.lt_succ_self _), foldl_drawCall_size hcv ..⟩

/-- `split_segments` returns, and what it returns lies inside the image. -/
theorem splitSegments_returns (hcv : cv.Lawful) (hfind : cv.FindsWellFormed) (gray : Mat UInt8)
    (color : Mat Vec3b) (threshold : Int) :
    ∃ areas, splitSegments cv gray color threshold = some areas ∧
      ∀ area ∈ areas, gray.Fits area := by
  rw [splitSegments]
  obtain ⟨hrows, hcols⟩ := hcv.threshold_size gray threshold
  obtain ⟨hrows', hcols'⟩ := hcv.morphologyGradient_size (cv.threshold gray threshold)
  rw [hrows] at hrows'
  rw [hcols] at hcols'
  generalize cv.morphologyGradient (cv.threshold gray threshold) = grd at hrows' hcols'
  rcases hfound : cv.findContours grd with ⟨contours, hierarchy⟩
  dsimp only
  by_cases hempty : contours = []
  · exact ⟨[], by rw [hempty]; rfl, nofun⟩
  · have hwf : WellFormed hierarchy := by
      have h := hfind grd
      rw [hfound] at h
      exact h hempty
    obtain ⟨labelled, hlabelled, hr, hc⟩ :=
      labelContours_returns hcv hwf contours grd.rows grd.cols
    obtain ⟨hr', hc'⟩ := hcv.watershed_size color (labelled.mapAt fun _ v => v + 1)
    obtain ⟨markers, areas, hgrouping, hfits⟩ :=
      grouping_inside (cv.watershed color (labelled.mapAt fun _ v => v + 1))
    refine ⟨areas, ?_, fun area harea => ?_⟩
    · rw [if_neg (by simpa using hempty)]
      rw [zeros] at hlabelled
      simp [hlabelled, hgrouping]
    · have h := hfits area harea
      rw [Mat.Fits, hr', hc'] at h
      rw [Mat.Fits, ← hrows', ← hcols', ← hr, ← hc]
      exact h

theorem doDetect_returns (hcv : cv.Lawful) (hfind : cv.FindsWellFormed) (gray : Mat UInt8)
    (color : Mat Vec3b) (threshold : Int) :
    ∃ segments, doDetect cv gray color threshold = .ok segments := by
  obtain ⟨areas, hsplit, hfits⟩ := splitSegments_returns hcv hfind gray color threshold
  obtain ⟨segments, hsegments⟩ : ∃ segments, areas.mapM (makeSegment cv gray) = some segments := by
    refine exists_mapM fun area harea => ?_
    obtain ⟨roi, hroi⟩ := Mat.exists_roi? (hfits area harea)
    exact ⟨_, by rw [makeSegment, hroi]; rfl⟩
  rw [doDetect, hsplit]
  simp only [hsegments]
  exact ⟨segments, rfl⟩

/-- `detect_segments` returns. -/
theorem detectSegments_returns (hcv : cv.Lawful) (hfind : cv.FindsWellFormed)
    (ctx : Context ρ) : ∃ ctx', detectSegments cv ctx = .ok ctx' := by
  obtain ⟨old, hold⟩ := doDetect_returns hcv hfind ctx.oldGrayMat ctx.oldColorMat
    ctx.arg.binThreshold
  obtain ⟨new, hnew⟩ := doDetect_returns hcv hfind ctx.newGrayMat ctx.newColorMat
    ctx.arg.binThreshold
  rw [detectSegments, hold, hnew]
  exact ⟨_, rfl⟩

end

/-! ## Samples -/

/-- The hierarchy of one contour is well formed. -/
theorem sampleCV_findsWellFormed : sampleCV.FindsWellFormed := by
  intro m h
  simp only [sampleCV, SampleCV.findContours] at h ⊢
  split
  · show WellFormed [⟨-1, -1, -1, -1⟩]
    decide
  · rename_i hnone
    rw [if_neg hnone] at h
    exact absurd rfl h

/-- The hierarchy that the comment in `split_segments` shows. -/
def ringHierarchy : List Vec4i :=
  [⟨1, -1, -1, -1⟩, ⟨3, 0, 2, -1⟩, ⟨-1, -1, -1, 1⟩, ⟨4, 1, -1, -1⟩, ⟨-1, 3, -1, -1⟩]

/-- Contours with that hierarchy: a pixel, a ring of eight pixels with the hole in it,
and two more pixels. -/
def ringContours : List (List Point) :=
  [[⟨0, 0⟩], [⟨2, 0⟩, ⟨2, 2⟩, ⟨4, 2⟩, ⟨4, 0⟩], [⟨2, 1⟩, ⟨3, 2⟩, ⟨4, 1⟩, ⟨3, 0⟩], [⟨6, 0⟩], [⟨8, 0⟩]]

/-- What filling these contours with their holes paints. -/
def ringRegions : List (List Point) :=
  [[⟨0, 0⟩], [⟨2, 0⟩, ⟨3, 0⟩, ⟨4, 0⟩, ⟨2, 1⟩, ⟨4, 1⟩, ⟨2, 2⟩, ⟨3, 2⟩, ⟨4, 2⟩],
    [⟨3, 0⟩, ⟨2, 1⟩, ⟨3, 1⟩, ⟨4, 1⟩, ⟨3, 2⟩], [⟨6, 0⟩], [⟨8, 0⟩]]

/-- The sample with these regions. -/
def ringCV : OpenCV Nat :=
  { sampleCV with
    drawContours := fun m _ idx label _ =>
      m.mapAt fun p v => if p ∈ ringRegions.getD idx [] then label else v }

theorem ringCV_fills :
    ringCV.Fills ringContours ringHierarchy fun idx p => p ∈ ringRegions.getD idx [] :=
  fun idx _ label markers => Mat.PaintedBy.of_mapAt (· ∈ ringRegions.getD idx []) label markers

theorem ringCV_keepsMarkers : ringCV.KeepsMarkers := by
  intro color markers p v hv _
  simp only [ringCV, sampleCV, SampleCV.watershed, Mat.at?_mapAt, hv, Option.map_some]
  split
  · exact Or.inr rfl
  · exact Or.inl rfl

/-- The ring is foreground, and the pixel in its hole is background. -/
theorem ring_separated :
    WellFormed ringHierarchy ∧ ∃ labelled,
      labelContours ringCV ringContours ringHierarchy 6 0 0 (zeros 3 9) = some labelled ∧
      (∀ v, (labelled.mapAt fun _ v => v + 1).at? ⟨2, 1⟩ = some v → 1 < v) ∧
      (∀ v, (labelled.mapAt fun _ v => v + 1).at? ⟨3, 1⟩ = some v → v = 1) ∧
      ∀ color, ∃ v, (ringCV.watershed color (labelled.mapAt fun _ v => v + 1)).at? ⟨2, 1⟩ =
        some v ∧ (v = -1 ∨ ¬ v ≤ 1) := by
  have hwf : WellFormed ringHierarchy := by decide
  refine ⟨hwf, ?_⟩
  obtain ⟨calls, hcalls, h⟩ := labelling_separates (ρ := Nat) hwf
  obtain ⟨labelled, hrun, hsize, hseparates, hlater⟩ :=
    (h ringCV ringContours).2 _ 3 9 ringCV_fills
  have hring : ∃ call ∈ calls, (⟨2, 1⟩ : Point) ∈ ringRegions.getD call.1 [] := by
    have hone : 1 ∈ calls.map Prod.fst := (hcalls.outer 1).mpr ⟨_, rfl, rfl⟩
    obtain ⟨call, hmem, hcall⟩ := List.mem_map.mp hone
    exact ⟨call, hmem, hcall ▸ by decide⟩
  refine ⟨labelled, hrun, ?_, ?_, ?_⟩
  · intro v hv
    exact (hseparates _ v hv).1.mpr hring
  · intro v hv
    have hbare : ∀ i : Fin ringHierarchy.length, (ringHierarchy.get i).parent = -1 →
        ⟨3, 1⟩ ∉ ringRegions.getD i [] := by
      decide
    refine (hseparates _ v hv).2.1.mpr ?_
    rintro ⟨call, hmem, hregion⟩
    obtain ⟨entry, hentry, hparent⟩ := (hcalls.outer call.1).mp (List.mem_map_of_mem hmem)
    obtain ⟨hlt, rfl⟩ := List.getElem?_eq_some_iff.mp hentry
    exact hbare ⟨call.1, hlt⟩ hparent hregion
  · intro color
    have hp : labelled.InBounds ⟨2, 1⟩ := by
      rw [Mat.InBounds, hsize.1, hsize.2]
      decide
    obtain ⟨v, hv, htest⟩ := hlater ringCV_keepsMarkers color ⟨2, 1⟩ hp
    exact ⟨v, hv, htest.imp id fun h hle => h.mp hle hring⟩

end Gazosan
