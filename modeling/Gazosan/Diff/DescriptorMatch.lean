import Gazosan.Library.Rank
import Mathlib.Algebra.Order.Group.Abs
import Mathlib.Algebra.Order.Group.Int
import Mathlib.Algebra.Ring.Int.Defs
import Mathlib.Data.Finset.Dedup
import Mathlib.Data.Finset.Max
import Mathlib.Data.List.Nodup

/-!
# Matching descriptors

`descriptor_match` asks the matcher for the nearest rows of each descriptor in
the other and looks at the middle distance of a sorted list of matches.  The
matcher is FLANN's, a parameter here, and so is `std::sort`, which compares
matches by distance only.  Distances are of any linear order with a one.

The middle of a sorted list is a majority decision (`descriptorMatch_majority`).
With the cross check only the matches that point back are looked at.  They are
the same pairs of rows seen from either descriptor (`mutual_perm`), so the
decision is symmetric in both modes (`descriptorMatch_comm`).
-/

namespace Gazosan

/-- `cv::DMatch`.  `operator<` compares distances. -/
structure DMatch (D : Type) where
  queryIdx : Nat
  trainIdx : Nat
  distance : D
deriving DecidableEq, Repr

section

variable {ρ D : Type}

/-- The entry of `match21` that a match leads to, if it points back. -/
def pointsBack (match21 : List (DMatch D)) (forward : DMatch D) : Bool :=
  (match21[forward.trainIdx]?).any fun backward => backward.trainIdx == forward.queryIdx

/-- The loop over `match12` with `cross_check`.  Reading `match21` outside its
bounds is undefined. -/
def mutualMatches (match21 : List (DMatch D)) : List (DMatch D) → Option (List (DMatch D))
  | [] => some []
  | forward :: match12 =>
      match match21[forward.trainIdx]? with
      | none => none
      | some backward =>
          (mutualMatches match21 match12).map fun matched =>
            if backward.trainIdx = forward.queryIdx then forward :: matched else matched

/-- If every match leads to an entry, the loop keeps those that point back. -/
theorem mutualMatches_eq {match12 match21 : List (DMatch D)}
    (h : ∀ m ∈ match12, m.trainIdx < match21.length) :
    mutualMatches match21 match12 = some (match12.filter (pointsBack match21)) := by
  induction match12 with
  | nil => rfl
  | cons forward match12 ih =>
      rw [List.forall_mem_cons] at h
      have hentry : match21[forward.trainIdx]? = some match21[forward.trainIdx] :=
        List.getElem?_eq_getElem h.1
      simp only [mutualMatches, hentry, ih h.2, Option.map_some, List.filter_cons, pointsBack,
        Option.any_some, beq_iff_eq]

variable [LinearOrder D] [One D]

/-- `!matched.empty() && matched[matched.size() / 2].distance <= 1.0f`.  Only an
empty list has no entry there. -/
def middleIsClose (matched : List (DMatch D)) : Bool :=
  (matched[matched.length / 2]?).any fun m => decide (m.distance ≤ 1)

variable (sorter : Rank.Sorter (DMatch.distance (D := D)))

/-- `descriptor_match` behind the two calls of the matcher. -/
def decideMatch (crossCheck : Bool) (match12 match21 : List (DMatch D)) : Option Bool :=
  if crossCheck then
    (mutualMatches match21 match12).map fun matched => middleIsClose (sorter.sort matched)
  else some (middleIsClose (sorter.sort match12) || middleIsClose (sorter.sort match21))

/-- `descriptor_match`. -/
def descriptorMatch (matcher : List ρ → List ρ → List (DMatch D)) (crossCheck : Bool)
    (descriptor1 descriptor2 : List ρ) : Option Bool :=
  decideMatch sorter crossCheck (matcher descriptor1 descriptor2)
    (matcher descriptor2 descriptor1)

/-! ## The majority -/

/-- More than half of the matches, rounded down, have a distance of at most 1. -/
abbrev Close (matched : List (DMatch D)) : Prop := Rank.Majority DMatch.distance 1 matched

variable {sorter}

theorem middleIsClose_sort (matched : List (DMatch D)) :
    middleIsClose (sorter.sort matched) = decide (Close matched) := by
  rw [Bool.eq_iff_iff, decide_eq_true_iff, Close, ← sorter.middle_le_iff, middleIsClose,
    Option.any_eq_true]
  simp only [decide_eq_true_eq]

theorem decideMatch_plain (match12 match21 : List (DMatch D)) :
    decideMatch sorter false match12 match21 = some (decide (Close match12 ∨ Close match21)) := by
  rw [decideMatch, if_neg (by simp), middleIsClose_sort, middleIsClose_sort, Bool.decide_or]

theorem decideMatch_cross {match12 match21 : List (DMatch D)}
    (h : ∀ m ∈ match12, m.trainIdx < match21.length) :
    decideMatch sorter true match12 match21 =
      some (decide (Close (match12.filter (pointsBack match21)))) := by
  rw [decideMatch, if_pos rfl, mutualMatches_eq h, Option.map_some, middleIsClose_sort]

/-- `descriptor_match` is a majority decision.  It does not depend on how the sort
orders equal distances, nor without the cross check on the order of the matches. -/
theorem descriptorMatch_majority (sorter : Rank.Sorter (DMatch.distance (D := D)))
    (matcher : List ρ → List ρ → List (DMatch D)) (d1 d2 : List ρ) :
    descriptorMatch sorter matcher false d1 d2 =
        some (decide (Close (matcher d1 d2) ∨ Close (matcher d2 d1))) ∧
      ((∀ m ∈ matcher d1 d2, m.trainIdx < (matcher d2 d1).length) →
        descriptorMatch sorter matcher true d1 d2 =
          some (decide (Close ((matcher d1 d2).filter (pointsBack (matcher d2 d1)))))) ∧
      (matcher d1 d2 = [] → matcher d2 d1 = [] → ∀ crossCheck,
        descriptorMatch sorter matcher crossCheck d1 d2 = some false) ∧
      ∀ (sorter' : Rank.Sorter (DMatch.distance (D := D)))
        (matcher' : List ρ → List ρ → List (DMatch D)),
        (matcher' d1 d2).Perm (matcher d1 d2) → (matcher' d2 d1).Perm (matcher d2 d1) →
          descriptorMatch sorter' matcher' false d1 d2 =
            descriptorMatch sorter matcher false d1 d2 := by
  refine ⟨decideMatch_plain _ _, decideMatch_cross, ?_, ?_⟩
  · intro h12 h21 crossCheck
    have hnil : ¬ Close ([] : List (DMatch D)) := Rank.not_majority_nil
    rw [descriptorMatch, h12, h21]
    cases crossCheck with
    | false => rw [decideMatch_plain, decide_eq_false (by simp [hnil])]
    | true => rw [decideMatch_cross (by simp), List.filter_nil, decide_eq_false hnil]
  · intro sorter' matcher' h12 h21
    have hp12 : Close (matcher' d1 d2) ↔ Close (matcher d1 d2) := Rank.majority_perm h12
    have hp21 : Close (matcher' d2 d1) ↔ Close (matcher d2 d1) := Rank.majority_perm h21
    rw [descriptorMatch, descriptorMatch, decideMatch_plain, decideMatch_plain]
    simp only [hp12, hp21]

end

/-! ## Matches by rows -/

section

variable {ρ D : Type}

/-- What the matcher returns for the rows of `q` in `t`: one match per row of `q`
in order, to some row of `t`, with their distance. -/
structure RowMatches (δ : ρ → ρ → D) (q t : List ρ) (matched : List (DMatch D)) : Prop where
  length_eq : matched.length = q.length
  entry : ∀ (i : Nat) (m : DMatch D), matched[i]? = some m →
    m.queryIdx = i ∧ ∃ a b, q[i]? = some a ∧ t[m.trainIdx]? = some b ∧ m.distance = δ a b

variable {δ : ρ → ρ → D} {d1 d2 : List ρ} {match12 match21 : List (DMatch D)}

namespace RowMatches

/-- A match stands at its own index. -/
theorem getElem?_queryIdx (h : RowMatches δ d1 d2 match12) {m : DMatch D} (hm : m ∈ match12) :
    match12[m.queryIdx]? = some m := by
  obtain ⟨i, hi⟩ := List.mem_iff_getElem?.mp hm
  rw [(h.entry i m hi).1]
  exact hi

theorem trainIdx_lt (h : RowMatches δ d1 d2 match12) (h' : RowMatches δ d2 d1 match21)
    {m : DMatch D} (hm : m ∈ match12) : m.trainIdx < match21.length := by
  obtain ⟨-, a, b, -, hb, -⟩ := h.entry _ m (h.getElem?_queryIdx hm)
  rw [h'.length_eq]
  exact (List.getElem?_eq_some_iff.mp hb).1

theorem nodup (h : RowMatches δ d1 d2 match12) : match12.Nodup := by
  have hindex : match12.map DMatch.queryIdx = List.range match12.length := by
    refine List.ext_getElem? fun i => ?_
    rw [List.getElem?_map]
    cases hi : match12[i]? with
    | none =>
        have := List.getElem?_eq_none_iff.mp hi
        rw [List.getElem?_eq_none (by simpa using this)]
        rfl
    | some m =>
        have := (List.getElem?_eq_some_iff.mp hi).1
        rw [List.getElem?_range this, Option.map_some, (h.entry i m hi).1]
  exact List.Nodup.of_map _ (hindex ▸ List.nodup_range)

end RowMatches

/-- The match that `m` leads to. -/
def partner (match21 : List (DMatch D)) (m : DMatch D) : DMatch D := match21.getD m.trainIdx m

/-- The partner of a match that points back is the same pair of rows seen from the
other side. -/
theorem partner_spec (hδ : ∀ a b, δ a b = δ b a) (h12 : RowMatches δ d1 d2 match12)
    (h21 : RowMatches δ d2 d1 match21) {m : DMatch D} (hm : m ∈ match12)
    (hback : pointsBack match21 m = true) :
    partner match21 m ∈ match21 ∧ (partner match21 m).queryIdx = m.trainIdx ∧
      (partner match21 m).trainIdx = m.queryIdx ∧ (partner match21 m).distance = m.distance := by
  have hat := h12.getElem?_queryIdx hm
  obtain ⟨b, hb, htrain⟩ := (Option.any_eq_true ..).mp hback
  have htrain : b.trainIdx = m.queryIdx := by simpa using htrain
  have hpartner : partner match21 m = b := by rw [partner, List.getD, hb, Option.getD_some]
  obtain ⟨-, a₁, a₂, ha₁, ha₂, hd⟩ := h12.entry _ m hat
  obtain ⟨hquery, b₂, b₁, hb₂, hb₁, hd'⟩ := h21.entry _ b hb
  rw [htrain, ha₁] at hb₁
  rw [ha₂] at hb₂
  cases hb₁
  cases hb₂
  rw [hpartner]
  exact ⟨List.mem_of_getElem? hb, hquery, htrain, by rw [hd, hd', hδ]⟩

theorem pointsBack_partner (hδ : ∀ a b, δ a b = δ b a) (h12 : RowMatches δ d1 d2 match12)
    (h21 : RowMatches δ d2 d1 match21) {m : DMatch D} (hm : m ∈ match12)
    (hback : pointsBack match21 m = true) :
    pointsBack match12 (partner match21 m) = true ∧
      partner match12 (partner match21 m) = m := by
  obtain ⟨-, hquery, htrain, -⟩ := partner_spec hδ h12 h21 hm hback
  have hat := h12.getElem?_queryIdx hm
  constructor
  · rw [pointsBack, htrain, hat, Option.any_some, hquery]
    exact beq_self_eq_true _
  · rw [partner, htrain, List.getD, hat, Option.getD_some]

/-- The matches that point back are the same pairs of rows from either side. -/
theorem mutual_perm (hδ : ∀ a b, δ a b = δ b a) (h12 : RowMatches δ d1 d2 match12)
    (h21 : RowMatches δ d2 d1 match21) :
    ((match12.filter (pointsBack match21)).map (partner match21)).Perm
      (match21.filter (pointsBack match12)) := by
  have hnodup : ((match12.filter (pointsBack match21)).map (partner match21)).Nodup := by
    refine List.Nodup.map_on ?_ (h12.nodup.filter _)
    intro m hm m' hm' heq
    rw [List.mem_filter] at hm hm'
    rw [← (pointsBack_partner hδ h12 h21 hm.1 hm.2).2,
      ← (pointsBack_partner hδ h12 h21 hm'.1 hm'.2).2, heq]
  rw [List.perm_ext_iff_of_nodup hnodup (h21.nodup.filter _)]
  intro b
  rw [List.mem_map, List.mem_filter]
  constructor
  · rintro ⟨m, hm, rfl⟩
    rw [List.mem_filter] at hm
    exact ⟨(partner_spec hδ h12 h21 hm.1 hm.2).1, (pointsBack_partner hδ h12 h21 hm.1 hm.2).1⟩
  · rintro ⟨hb, hback⟩
    obtain ⟨hmem, -⟩ := partner_spec hδ h21 h12 hb hback
    obtain ⟨hback', heq⟩ := pointsBack_partner hδ h21 h12 hb hback
    exact ⟨partner match12 b, List.mem_filter.mpr ⟨hmem, hback'⟩, heq⟩

theorem mutual_distances_perm (hδ : ∀ a b, δ a b = δ b a) (h12 : RowMatches δ d1 d2 match12)
    (h21 : RowMatches δ d2 d1 match21) :
    ((match12.filter (pointsBack match21)).map DMatch.distance).Perm
      ((match21.filter (pointsBack match12)).map DMatch.distance) := by
  have hdistance : (match12.filter (pointsBack match21)).map DMatch.distance =
      ((match12.filter (pointsBack match21)).map (partner match21)).map DMatch.distance := by
    rw [List.map_map]
    refine List.map_congr_left fun m hm => ?_
    rw [List.mem_filter] at hm
    exact (partner_spec hδ h12 h21 hm.1 hm.2).2.2.2.symm
  rw [hdistance]
  exact (mutual_perm hδ h12 h21).map _

/-! ## Symmetry and the cross check -/

variable [LinearOrder D] [One D] (sorter : Rank.Sorter (DMatch.distance (D := D)))
  {matcher : List ρ → List ρ → List (DMatch D)}

/-- Exchanging the two lists of matches does not change the decision. -/
theorem decideMatch_swap (sorter' : Rank.Sorter (DMatch.distance (D := D)))
    (hδ : ∀ a b, δ a b = δ b a) (h12 : RowMatches δ d1 d2 match12)
    (h21 : RowMatches δ d2 d1 match21) (crossCheck : Bool) :
    ∃ same, decideMatch sorter crossCheck match12 match21 = some same ∧
      decideMatch sorter' crossCheck match21 match12 = some same := by
  cases crossCheck with
  | false =>
      refine ⟨_, decideMatch_plain _ _, ?_⟩
      rw [decideMatch_plain]
      simp only [or_comm]
  | true =>
      have hclose : Close (match12.filter (pointsBack match21)) ↔
          Close (match21.filter (pointsBack match12)) :=
        Rank.majority_of_perm_keys (mutual_distances_perm hδ h12 h21)
      refine ⟨_, decideMatch_cross fun m hm => h12.trainIdx_lt h21 hm, ?_⟩
      rw [decideMatch_cross fun m hm => h21.trainIdx_lt h12 hm]
      simp only [hclose]

/-- `descriptor_match` is symmetric in the descriptors, with and without the cross
check.  The matches need not be to the nearest rows. -/
theorem descriptorMatch_comm (sorter' : Rank.Sorter (DMatch.distance (D := D)))
    (hδ : ∀ a b, δ a b = δ b a) (h12 : RowMatches δ d1 d2 (matcher d1 d2))
    (h21 : RowMatches δ d2 d1 (matcher d2 d1)) (crossCheck : Bool) :
    ∃ same, descriptorMatch sorter matcher crossCheck d1 d2 = some same ∧
      descriptorMatch sorter' matcher crossCheck d2 d1 = some same :=
  decideMatch_swap sorter sorter' hδ h12 h21 crossCheck

/-- The number of close matches that point back. -/
def closeMutual (match12 match21 : List (DMatch D)) : Nat :=
  Rank.countLe DMatch.distance 1 (match12.filter (pointsBack match21))

/-- The number of close matches that do not point back. -/
def closeOneSided (match12 match21 : List (DMatch D)) : Nat :=
  Rank.countLe DMatch.distance 1 (match12.filter fun m => !pointsBack match21 m)

theorem countLe_eq_closeMutual_add (match12 match21 : List (DMatch D)) :
    Rank.countLe DMatch.distance 1 match12 =
      closeMutual match12 match21 + closeOneSided match12 match21 :=
  List.countP_eq_countP_filter_add ..

theorem closeMutual_comm (hδ : ∀ a b, δ a b = δ b a) (h12 : RowMatches δ d1 d2 match12)
    (h21 : RowMatches δ d2 d1 match21) :
    closeMutual match21 match12 = closeMutual match12 match21 := by
  have h := (mutual_distances_perm hδ h12 h21).countP_eq fun d => decide (d ≤ 1)
  rw [List.countP_map, List.countP_map] at h
  exact h.symm

/-- The cross check looks at the mutual matches only, the other mode at all matches
of either side.  So a majority with the cross check is one without it if the
mutual matches are as good as all rows of one descriptor. -/
theorem cross_check_counts (hδ : ∀ a b, δ a b = δ b a)
    (h12 : RowMatches δ d1 d2 (matcher d1 d2)) (h21 : RowMatches δ d2 d1 (matcher d2 d1)) :
    (descriptorMatch sorter matcher true d1 d2 = some true ↔
      ((matcher d1 d2).filter (pointsBack (matcher d2 d1))).length / 2 <
        closeMutual (matcher d1 d2) (matcher d2 d1)) ∧
    (descriptorMatch sorter matcher false d1 d2 = some true ↔
      d1.length / 2 < closeMutual (matcher d1 d2) (matcher d2 d1) +
          closeOneSided (matcher d1 d2) (matcher d2 d1) ∨
        d2.length / 2 < closeMutual (matcher d1 d2) (matcher d2 d1) +
          closeOneSided (matcher d2 d1) (matcher d1 d2)) ∧
    (descriptorMatch sorter matcher true d1 d2 = some true →
      d1.length / 2 ≤ ((matcher d1 d2).filter (pointsBack (matcher d2 d1))).length / 2 ∨
        d2.length / 2 ≤ ((matcher d1 d2).filter (pointsBack (matcher d2 d1))).length / 2 →
      descriptorMatch sorter matcher false d1 d2 = some true) := by
  have hcross : descriptorMatch sorter matcher true d1 d2 = some true ↔
      ((matcher d1 d2).filter (pointsBack (matcher d2 d1))).length / 2 <
        closeMutual (matcher d1 d2) (matcher d2 d1) := by
    rw [descriptorMatch, decideMatch_cross fun m hm => h12.trainIdx_lt h21 hm,
      Option.some.injEq, decide_eq_true_iff]
    rfl
  have hplain : descriptorMatch sorter matcher false d1 d2 = some true ↔
      d1.length / 2 < closeMutual (matcher d1 d2) (matcher d2 d1) +
          closeOneSided (matcher d1 d2) (matcher d2 d1) ∨
        d2.length / 2 < closeMutual (matcher d1 d2) (matcher d2 d1) +
          closeOneSided (matcher d2 d1) (matcher d1 d2) := by
    rw [descriptorMatch, decideMatch_plain, Option.some.injEq, decide_eq_true_iff, Close, Close,
      Rank.Majority, Rank.Majority, countLe_eq_closeMutual_add _ (matcher d2 d1),
      countLe_eq_closeMutual_add _ (matcher d1 d2), closeMutual_comm hδ h12 h21, h12.length_eq,
      h21.length_eq]
  refine ⟨hcross, hplain, ?_⟩
  intro h hmany
  rw [hcross] at h
  rw [hplain]
  omega

end

/-! ## In the matching phase

The guards of `create_diff_image` call `descriptor_match` for descriptors with
rows only.  Without the cross check the call is always defined. -/

section

variable {ρ D : Type} [LinearOrder D] [One D]
  (sorter : Rank.Sorter (DMatch.distance (D := D)))
  (matcher : List ρ → List ρ → List (DMatch D))

/-- The relation between descriptors that `create_diff_image` works with. -/
def matchRelation (crossCheck : Bool) (descriptor1 descriptor2 : List ρ) : Bool :=
  (descriptorMatch sorter matcher crossCheck descriptor1 descriptor2).getD false

end

/-! ## Exact matching -/

section

variable {ρ D : Type} [LinearOrder D] (δ : ρ → ρ → D)

/-- The index of the first nearest row. -/
def nearest (a : ρ) (t : List ρ) : Nat := t.findIdx fun b => decide (∀ c ∈ t, δ a b ≤ δ a c)

/-- The matcher that finds the nearest rows. -/
def exactMatcher (q t : List ρ) : List (DMatch D) :=
  q.mapIdx fun i a => ⟨i, nearest δ a t, δ a (t.getD (nearest δ a t) a)⟩

variable {δ}

theorem nearest_spec (a : ρ) {t : List ρ} (ht : t ≠ []) :
    ∃ b, t[nearest δ a t]? = some b ∧ ∀ c ∈ t, δ a b ≤ δ a c := by
  obtain ⟨b, hb, hmin⟩ : ∃ b ∈ t, ∀ c ∈ t, δ a b ≤ δ a c := by
    classical
    obtain ⟨b, hb, hmin⟩ := t.toFinset.exists_min_image (δ a) (by simpa using ht)
    exact ⟨b, by simpa using hb, fun c hc => hmin c (by simpa using hc)⟩
  have hlt : nearest δ a t < t.length :=
    List.findIdx_lt_length_of_exists ⟨b, hb, by simpa using hmin⟩
  refine ⟨t[nearest δ a t], List.getElem?_eq_getElem hlt, ?_⟩
  have hfound := List.findIdx_getElem (w := hlt)
  rwa [decide_eq_true_iff] at hfound

theorem exactMatcher_rowMatches (q : List ρ) {t : List ρ} (ht : t ≠ []) :
    RowMatches δ q t (exactMatcher δ q t) where
  length_eq := by simp [exactMatcher]
  entry i m hm := by
    rw [exactMatcher, List.getElem?_mapIdx] at hm
    obtain ⟨a, ha, rfl⟩ := Option.map_eq_some_iff.mp hm
    obtain ⟨b, hb, -⟩ := nearest_spec (δ := δ) a ht
    refine ⟨rfl, a, b, ha, hb, ?_⟩
    rw [List.getD, hb, Option.getD_some]

end

/-! ## Samples

Descriptors with rows on a line. -/

/-- A distance that is a metric. -/
structure IsMetric {ρ D : Type} [Zero D] [Add D] [LE D] (δ : ρ → ρ → D) : Prop where
  eq_zero_iff : ∀ a b, δ a b = 0 ↔ a = b
  symm : ∀ a b, δ a b = δ b a
  triangle : ∀ a b c, δ a c ≤ δ a b + δ b c

/-- The distance of two numbers. -/
def lineDistance (a b : Int) : Int := |a - b|

theorem isMetric_lineDistance : IsMetric lineDistance where
  eq_zero_iff a b := by rw [lineDistance, abs_eq_zero, sub_eq_zero]
  symm a b := abs_sub_comm a b
  triangle a b c := abs_sub_le a b c

/-- Two of three rows are near a row of the other descriptor. -/
theorem descriptorMatch_majority_line :
    descriptorMatch (Rank.Sorter.merge _) (exactMatcher lineDistance) true [0, 5, 20] [1, 6, 40] =
      some true ∧
    descriptorMatch (Rank.Sorter.merge _) (exactMatcher lineDistance) false [0, 5, 20] [1, 6, 40] =
      some true := by
  have h := descriptorMatch_majority (Rank.Sorter.merge _) (exactMatcher lineDistance)
    [0, 5, 20] [1, 6, 40]
  exact ⟨(h.2.1 (by decide)).trans (by decide), h.1.trans (by decide)⟩

theorem descriptorMatch_comm_line :
    ∃ same, descriptorMatch (Rank.Sorter.merge _) (exactMatcher lineDistance) true [0, 10, 20]
        [0, -10] = some same ∧
      descriptorMatch (Rank.Sorter.merge _) (exactMatcher lineDistance) true [0, -10]
        [0, 10, 20] = some same :=
  descriptorMatch_comm _ _ isMetric_lineDistance.symm (exactMatcher_rowMatches _ (by simp))
    (exactMatcher_rowMatches _ (by simp)) true

/-- One pair of equal rows among three rows each: the only mutual match is close,
and all others are far. -/
theorem lone_mutual_match :
    IsMetric lineDistance ∧
      descriptorMatch (Rank.Sorter.merge _) (exactMatcher lineDistance) true [0, 10, 20]
        [0, -10, -20] = some true ∧
      descriptorMatch (Rank.Sorter.merge _) (exactMatcher lineDistance) false [0, 10, 20]
        [0, -10, -20] = some false := by
  refine ⟨isMetric_lineDistance, ?_, ?_⟩
  · rw [descriptorMatch, decideMatch_cross (by decide)]
    decide
  · rw [descriptorMatch, decideMatch_plain]
    decide

theorem cross_check_counts_line :
    descriptorMatch (Rank.Sorter.merge _) (exactMatcher lineDistance) true [0, 10] [1, 11, 40] =
        some true ∧
      descriptorMatch (Rank.Sorter.merge _) (exactMatcher lineDistance) false [0, 10]
        [1, 11, 40] = some true := by
  obtain ⟨hcross, -, hstrict⟩ := cross_check_counts (Rank.Sorter.merge _)
    isMetric_lineDistance.symm
    (exactMatcher_rowMatches [0, 10] (t := [1, 11, 40]) (by simp))
    (exactMatcher_rowMatches [1, 11, 40] (by simp))
  have h := hcross.mpr (by decide)
  exact ⟨h, hstrict h (Or.inl (by decide))⟩

/-- `descriptor_match` for rows on a line. -/
def lineMatch : Bool → List Int → List Int → Bool :=
  matchRelation (Rank.Sorter.merge _) (exactMatcher lineDistance)

theorem lineMatch_self : lineMatch false [0] [0] = true := by
  rw [lineMatch, matchRelation, descriptorMatch, decideMatch_plain]
  decide

end Gazosan
