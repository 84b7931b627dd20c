import Gazosan.Image.Mat
import Gazosan.Library.Flood
import Mathlib.Algebra.Order.Group.Abs
import Mathlib.Order.Bounds.Basic

/-!
# Grouping pixels

The last stage of `split_segments`: a scan over the markers that starts a
breadth-first search at every pixel whose marker is above 1.  The search sets
the markers it finds to 0 and keeps the corners of the box around them.  It does
not clear the pixel it starts from, which is found again from a neighbour.

The markers are read and written with `Mat.at?` and `Mat.set?`, and the loop over
the queue has fuel, so a search with a result has stayed inside the matrix and
has ended.  `bfs_spec` says that every search has one and what it is: the
connected component of the start, seen through `Flood.Inv`.
-/

namespace Gazosan

/-! ## The search -/

/-- The variables of `bfs`. -/
structure BfsState where
  markers : Mat Int
  minP : Point
  maxP : Point
  queue : List Point

/-- The values of `(dy, dx)` in the order of the loops. -/
def offsets : List (Int × Int) :=
  [(-1, -1), (-1, 0), (-1, 1), (0, -1), (0, 0), (0, 1), (1, -1), (1, 0), (1, 1)]

/-- The body of the loops over `dy` and `dx`, at the point `p`. -/
def bfsVisit (p : Point) (st : BfsState) (d : Int × Int) : Option BfsState :=
  let n : Point := ⟨p.x + d.2, p.y + d.1⟩
  if d.2 = 0 ∧ d.1 = 0 then some st
  else if n.x < 0 ∨ n.x ≥ st.markers.cols then some st
  else if n.y < 0 ∨ n.y ≥ st.markers.rows then some st
  else do
    if (← st.markers.at? n) ≤ 1 then return st
    else
      let markers ← st.markers.set? n 0
      return {
        markers
        minP := ⟨min st.minP.x n.x, min st.minP.y n.y⟩
        maxP := ⟨max st.maxP.x n.x, max st.maxP.y n.y⟩
        queue := st.queue ++ [n] }

/-- The loop over the queue. -/
def bfsLoop : Nat → BfsState → Option BfsState
  | 0, _ => none
  | fuel + 1, st =>
      match st.queue with
      | [] => some st
      | p :: queue => (offsets.foldlM (bfsVisit p) { st with queue }).bind (bfsLoop fuel)

/-- `bfs(sx, sy)`: the markers it leaves and the rectangle, if there is one. -/
def bfs (markers : Mat Int) (start : Point) : Option (Mat Int × Option Rect) := do
  let st ← bfsLoop (markers.rows * markers.cols + 2) ⟨markers, start, start, [start]⟩
  if st.minP = start ∧ st.maxP = start then return (st.markers, none)
  else return (st.markers, some (Rect.ofPoints st.minP st.maxP))

/-! ## The scan -/

/-- The positions of a matrix, row by row. -/
def positions (rows cols : Nat) : List Point :=
  (List.range rows).flatMap fun y : Nat => (List.range cols).map fun x : Nat => ⟨x, y⟩

/-- The body of the scan. -/
def scanStep (st : Mat Int × List Rect) (p : Point) : Option (Mat Int × List Rect) := do
  if (← st.1.at? p) ≤ 1 then return st
  else
    match ← bfs st.1 p with
    | (markers, none) => return (markers, st.2)
    | (markers, some rect) => return (markers, st.2 ++ [rect])

/-- The grouping stage of `split_segments`: the markers it leaves and `segments`. -/
def grouping (markers : Mat Int) : Option (Mat Int × List Rect) :=
  (positions markers.rows markers.cols).foldlM scanStep (markers, [])

/-! ## Components -/

/-- The pixels with a marker above 1. -/
def Foreground (markers : Mat Int) : Set Point := {p | ∃ v, markers.at? p = some v ∧ 1 < v}

/-- Two different pixels that touch, also at a corner. -/
def Adjacent (p q : Point) : Prop := p ≠ q ∧ |p.x - q.x| ≤ 1 ∧ |p.y - q.y| ≤ 1

/-- The pixels of `F` that can be reached from `p` over adjacent pixels of `F`. -/
def component (F : Set Point) (p : Point) : Set Point :=
  {q | Relation.ReflTransGen (fun a b => Adjacent a b ∧ b ∈ F) p q}

/-- `C` is an 8-connected component of `F`. -/
def IsComponent (F C : Set Point) : Prop := ∃ p ∈ F, C = component F p

/-- The box of a set of points: the least and the greatest coordinates. -/
structure Box (S : Set Point) (lo hi : Point) : Prop where
  loX : IsLeast (Point.x '' S) lo.x
  loY : IsLeast (Point.y '' S) lo.y
  hiX : IsGreatest (Point.x '' S) hi.x
  hiY : IsGreatest (Point.y '' S) hi.y

/-- The rectangle with the least corner and the differences of the coordinates. -/
def BoundingRect (S : Set Point) (r : Rect) : Prop :=
  Box S ⟨r.x, r.y⟩ ⟨r.x + r.width, r.y + r.height⟩

/-! ## Neighbours -/

/-- The points that the body of the loops looks at. -/
def neighbours (p : Point) : List Point :=
  (offsets.filter fun d => d ≠ (0, 0)).map fun d => ⟨p.x + d.2, p.y + d.1⟩

theorem mem_neighbours {p q : Point} : q ∈ neighbours p ↔ Adjacent p q := by
  obtain ⟨px, py⟩ := p
  obtain ⟨qx, qy⟩ := q
  simp only [neighbours, offsets, Adjacent, abs_le, ne_eq, Point.mk.injEq]
  simp
  omega

theorem Adjacent.symm {p q : Point} (h : Adjacent p q) : Adjacent q p := by
  obtain ⟨hne, hx, hy⟩ := h
  rw [abs_sub_comm] at hx hy
  exact ⟨hne.symm, hx, hy⟩

theorem component_eq (F : Set Point) (p : Point) :
    component F p = {q | Relation.ReflTransGen (Flood.Link neighbours F) p q} := by
  have h : (fun a b => Adjacent a b ∧ b ∈ F) = Flood.Link neighbours F := by
    funext a b
    rw [Flood.Link, mem_neighbours]
  rw [component, h]

/-! ## Boxes -/

theorem Box.insert {S : Set Point} {lo hi : Point} (h : Box S lo hi) (n : Point) :
    Box (insert n S) ⟨min lo.x n.x, min lo.y n.y⟩ ⟨max hi.x n.x, max hi.y n.y⟩ := by
  refine ⟨?_, ?_, ?_, ?_⟩
  · rw [Set.image_insert_eq, min_comm lo.x]
    exact h.loX.insert n.x
  · rw [Set.image_insert_eq, min_comm lo.y]
    exact h.loY.insert n.y
  · rw [Set.image_insert_eq, max_comm hi.x]
    exact h.hiX.insert n.x
  · rw [Set.image_insert_eq, max_comm hi.y]
    exact h.hiY.insert n.y

theorem box_singleton (p : Point) : Box {p} p p := by
  refine ⟨?_, ?_, ?_, ?_⟩ <;> simp [Set.image_singleton]

theorem Box.mem_le {S : Set Point} {lo hi p : Point} (h : Box S lo hi) (hp : p ∈ S) :
    (lo.x ≤ p.x ∧ p.x ≤ hi.x) ∧ lo.y ≤ p.y ∧ p.y ≤ hi.y :=
  ⟨⟨h.loX.2 ⟨p, hp, rfl⟩, h.hiX.2 ⟨p, hp, rfl⟩⟩, h.loY.2 ⟨p, hp, rfl⟩, h.hiY.2 ⟨p, hp, rfl⟩⟩

/-- The box of a set with a second point is not a point. -/
theorem Box.ne_of_mem {S : Set Point} {lo hi p n : Point} (h : Box S lo hi) (hn : n ∈ S)
    (hne : p ≠ n) : ¬ (lo = p ∧ hi = p) := by
  rintro ⟨hlo, hhi⟩
  obtain ⟨⟨hx, hx'⟩, hy, hy'⟩ := h.mem_le hn
  rw [hlo] at hx hy
  rw [hhi] at hx' hy'
  obtain ⟨px, py⟩ := p
  obtain ⟨nx, ny⟩ := n
  refine hne ?_
  rw [Point.mk.injEq]
  exact ⟨le_antisymm hx hx', le_antisymm hy hy'⟩

theorem Box.unique {S : Set Point} {lo hi lo' hi' : Point} (h : Box S lo hi)
    (h' : Box S lo' hi') : lo = lo' ∧ hi = hi' := by
  obtain ⟨x, y⟩ := lo
  obtain ⟨x', y'⟩ := lo'
  obtain ⟨z, w⟩ := hi
  obtain ⟨z', w'⟩ := hi'
  rw [Point.mk.injEq, Point.mk.injEq]
  exact ⟨⟨h.loX.unique h'.loX, h.loY.unique h'.loY⟩, h.hiX.unique h'.hiX, h.hiY.unique h'.hiY⟩

theorem Box.boundingRect {S : Set Point} {lo hi : Point} (h : Box S lo hi) :
    BoundingRect S (Rect.ofPoints lo hi) := by
  obtain ⟨p, hp, -⟩ := h.loX.1
  obtain ⟨⟨hx, hx'⟩, hy, hy'⟩ := h.mem_le hp
  rw [BoundingRect, Rect.ofPoints, min_eq_left (hx.trans hx'), min_eq_left (hy.trans hy'),
    max_eq_right (hx.trans hx'), max_eq_right (hy.trans hy')]
  simpa using h

/-! ## The foreground -/

theorem not_mem_foreground_of_le {markers : Mat Int} {n : Point} {v : Int}
    (hv : markers.at? n = some v) (hle : v ≤ 1) : n ∉ Foreground markers := by
  rintro ⟨w, hw, hlt⟩
  rw [hv] at hw
  cases hw
  omega

theorem not_mem_foreground_of_not_inBounds {markers : Mat Int} {n : Point}
    (h : ¬ markers.InBounds n) : n ∉ Foreground markers := by
  rintro ⟨w, hw, -⟩
  exact h (Mat.inBounds_of_at? hw)

/-- Clearing markers takes their positions out of the foreground. -/
theorem mem_foreground_painted {A : Point → Prop} {markers markers' : Mat Int}
    (h : Mat.PaintedBy A 0 markers markers') (p : Point) :
    p ∈ Foreground markers' ↔ p ∈ Foreground markers ∧ ¬ A p := by
  by_cases hA : A p
  · have hnot : p ∉ Foreground markers' := by
      by_cases hb : markers.InBounds p
      · exact not_mem_foreground_of_le (h.inside p hA hb) (by decide)
      · exact not_mem_foreground_of_not_inBounds fun hb' => hb ((h.inBounds_iff p).mp hb')
    exact ⟨fun hp => absurd hp hnot, fun hp => absurd hA hp.2⟩
  · rw [Foreground, Set.mem_ofPred_eq, h.outside p hA]
    exact ⟨fun hp => ⟨hp, hA⟩, fun hp => hp.1⟩

/-! ## One search -/

/-- The state of the search, seen as a flood fill. -/
def BfsState.flood (st : BfsState) : Flood.State Point := ⟨Foreground st.markers, st.queue⟩

/-- The search has painted what it has found, and its box is that of the start
and of what it has found. -/
structure BfsInv (markers : Mat Int) (start : Point) (st : BfsState) : Prop where
  painted : Mat.PaintedBy (fun p => p ∈ Foreground markers ∧ p ∉ Foreground st.markers) 0
    markers st.markers
  box : Box (insert start (Foreground markers \ Foreground st.markers)) st.minP st.maxP

theorem BfsInv.init (markers : Mat Int) (start : Point) :
    BfsInv markers start ⟨markers, start, start, [start]⟩ where
  painted := (Mat.PaintedBy.refl 0 markers).congr fun p => by simp
  box := by
    rw [Set.sdiff_self]
    simpa using box_singleton start

theorem BfsInv.subset {markers : Mat Int} {start : Point} {st : BfsState}
    (h : BfsInv markers start st) : Foreground st.markers ⊆ Foreground markers :=
  fun p hp => ((mem_foreground_painted h.painted p).mp hp).1

theorem foreground_set? {markers markers' : Mat Int} {n : Point}
    (h : markers.set? n 0 = some markers') : Foreground markers' = Foreground markers \ {n} :=
  Set.ext fun p => mem_foreground_painted (Mat.PaintedBy.of_set? h) p

/-- The state after the body of the loops has found the point `n`. -/
def BfsState.found (st : BfsState) (markers : Mat Int) (n : Point) : BfsState where
  markers := markers
  minP := ⟨min st.minP.x n.x, min st.minP.y n.y⟩
  maxP := ⟨max st.maxP.x n.x, max st.maxP.y n.y⟩
  queue := st.queue ++ [n]

theorem BfsInv.found {markers m : Mat Int} {start n : Point} {st : BfsState}
    (h : BfsInv markers start st) (hn : n ∈ Foreground st.markers)
    (hm : st.markers.set? n 0 = some m) : BfsInv markers start (st.found m n) := by
  have hn₀ := h.subset hn
  constructor
  · refine (h.painted.trans (Mat.PaintedBy.of_set? hm)).congr fun q => ?_
    rw [BfsState.found, foreground_set? hm]
    by_cases hq : q = n
    · simp [hq, hn₀]
    · simp [hq]
  · have hfound : insert start (Foreground markers \ Foreground (st.found m n).markers) =
        insert n (insert start (Foreground markers \ Foreground st.markers)) := by
      ext q
      rw [BfsState.found, foreground_set? hm]
      by_cases hq : q = n
      · simp [hq, hn₀]
      · simp [hq]
    rw [hfound]
    exact h.box.insert n

theorem flood_found {m : Mat Int} {n : Point} {st : BfsState}
    (hn : n ∈ Foreground st.markers) (hm : st.markers.set? n 0 = some m) :
    (st.found m n).flood = Flood.visit st.flood n := by
  have hvisit : Flood.visit st.flood n = _ := Flood.visit_of_mem hn
  rw [hvisit, BfsState.flood, BfsState.found, foreground_set? hm]
  rfl

/-- The boundary checks are those of the matrix. -/
theorem inBounds_iff_checks {markers : Mat Int} {n : Point} :
    markers.InBounds n ↔ ¬ (n.x < 0 ∨ n.x ≥ markers.cols) ∧ ¬ (n.y < 0 ∨ n.y ≥ markers.rows) := by
  rw [Mat.InBounds]
  omega

/-- One round of the loops over `dy` and `dx` is one visit of the flood fill. -/
theorem bfsVisit_spec {markers : Mat Int} {start : Point} {st : BfsState}
    (h : BfsInv markers start st) (p : Point) (d : Int × Int) :
    ∃ st', bfsVisit p st d = some st' ∧ BfsInv markers start st' ∧
      st'.flood = if d = (0, 0) then st.flood
        else Flood.visit st.flood ⟨p.x + d.2, p.y + d.1⟩ := by
  by_cases hd : d.2 = 0 ∧ d.1 = 0
  · have hd' : d = (0, 0) := Prod.ext hd.2 hd.1
    exact ⟨st, if_pos hd, h, by rw [if_pos hd']⟩
  have hd' : ¬ d = (0, 0) := fun he => hd (by simp [he])
  rw [if_neg hd']
  by_cases hb : st.markers.InBounds ⟨p.x + d.2, p.y + d.1⟩
  · obtain ⟨hx, hy⟩ := inBounds_iff_checks.mp hb
    obtain ⟨v, hv⟩ := Mat.exists_at? hb
    by_cases hle : v ≤ 1
    · refine ⟨st, ?_, h, (Flood.visit_of_not_mem (not_mem_foreground_of_le hv hle)).symm⟩
      simp only [bfsVisit, if_neg hd, if_neg hx, if_neg hy, hv]
      exact if_pos hle
    · obtain ⟨m, hm⟩ := Mat.exists_set? hb 0
      have hmem : ⟨p.x + d.2, p.y + d.1⟩ ∈ Foreground st.markers := ⟨v, hv, Int.not_le.mp hle⟩
      refine ⟨st.found m _, ?_, h.found hmem hm, flood_found hmem hm⟩
      simp only [bfsVisit, if_neg hd, if_neg hx, if_neg hy, hv, hm]
      exact if_neg hle
  · have hvisit : Flood.visit st.flood ⟨p.x + d.2, p.y + d.1⟩ = st.flood :=
      Flood.visit_of_not_mem (not_mem_foreground_of_not_inBounds hb)
    refine ⟨st, ?_, h, hvisit.symm⟩
    simp only [bfsVisit, if_neg hd]
    by_cases hx : p.x + d.2 < 0 ∨ p.x + d.2 ≥ st.markers.cols
    · exact if_pos hx
    · have hy : p.y + d.1 < 0 ∨ p.y + d.1 ≥ st.markers.rows := by
        by_contra hy
        exact hb (inBounds_iff_checks.mpr ⟨hx, hy⟩)
      rw [if_neg hx, if_pos hy]

/-- The loops over `dy` and `dx` visit the neighbours. -/
theorem foldlM_bfsVisit_spec {markers : Mat Int} {start : Point} (p : Point) :
    ∀ (ds : List (Int × Int)) {st : BfsState}, BfsInv markers start st →
      ∃ st', ds.foldlM (bfsVisit p) st = some st' ∧ BfsInv markers start st' ∧
        st'.flood = ((ds.filter fun d => d ≠ (0, 0)).map
          fun d => (⟨p.x + d.2, p.y + d.1⟩ : Point)).foldl Flood.visit st.flood
  | [], st, h => ⟨st, rfl, h, rfl⟩
  | d :: ds, st, h => by
      obtain ⟨st₁, h₁, hinv₁, hflood₁⟩ := bfsVisit_spec h p d
      obtain ⟨st₂, h₂, hinv₂, hflood₂⟩ := foldlM_bfsVisit_spec p ds hinv₁
      refine ⟨st₂, ?_, hinv₂, ?_⟩
      · rw [List.foldlM_cons, h₁]
        exact h₂
      · rw [hflood₂, hflood₁]
        by_cases hd : d = (0, 0)
        · simp [hd]
        · simp [hd]

theorem mem_positions {rows cols : Nat} {p : Point} :
    p ∈ positions rows cols ↔ (0 ≤ p.y ∧ p.y < rows) ∧ 0 ≤ p.x ∧ p.x < cols := by
  simp only [positions, List.mem_flatMap, List.mem_map, List.mem_range]
  constructor
  · rintro ⟨y, hy, x, hx, rfl⟩
    simp only
    omega
  · rintro ⟨⟨hy, hy'⟩, hx, hx'⟩
    refine ⟨p.y.toNat, by omega, p.x.toNat, by omega, ?_⟩
    rw [Int.toNat_of_nonneg hx, Int.toNat_of_nonneg hy]

theorem foreground_subset (markers : Mat Int) :
    Foreground markers ⊆ {p | p ∈ positions markers.rows markers.cols} := by
  rintro p ⟨v, hv, -⟩
  exact mem_positions.mpr (Mat.inBounds_of_at? hv)

theorem finite_foreground (markers : Mat Int) : (Foreground markers).Finite :=
  (List.finite_toSet _).subset (foreground_subset markers)

theorem ncard_foreground_le (markers : Mat Int) :
    (Foreground markers).ncard ≤ markers.rows * markers.cols := by
  have hlength : (positions markers.rows markers.cols).length = markers.rows * markers.cols := by
    simp [positions, List.length_flatMap]
  calc (Foreground markers).ncard
      ≤ ((positions markers.rows markers.cols).toFinset : Set Point).ncard := by
        refine Set.ncard_le_ncard ?_ (Finset.finite_toSet _)
        simpa using foreground_subset markers
    _ ≤ (positions markers.rows markers.cols).length := by
        rw [Set.ncard_coe_finset]
        exact List.toFinset_card_le _
    _ = markers.rows * markers.cols := hlength

/-- With enough fuel the loop ends with an empty queue. -/
theorem bfsLoop_spec {markers : Mat Int} {start : Point} :
    ∀ (fuel : Nat) {st : BfsState}, BfsInv markers start st →
      Flood.Inv neighbours (Foreground markers) start st.flood → st.flood.size < fuel →
      ∃ st', bfsLoop fuel st = some st' ∧ BfsInv markers start st' ∧
        Flood.Inv neighbours (Foreground markers) start ⟨Foreground st'.markers, []⟩
  | 0, _, _, _, hfuel => absurd hfuel (Nat.not_lt_zero _)
  | fuel + 1, ⟨m, minP, maxP, []⟩, h, hflood, _ => ⟨_, rfl, h, hflood⟩
  | fuel + 1, ⟨m, minP, maxP, p :: queue⟩, h, hflood, hfuel => by
      have hpop : BfsInv markers start ⟨m, minP, maxP, queue⟩ := ⟨h.painted, h.box⟩
      obtain ⟨st', hst', hinv, heq⟩ := foldlM_bfsVisit_spec p offsets hpop
      have hround : st'.flood = Flood.round neighbours (Foreground m) p queue := heq
      have hsize : st'.flood.size + 1 = Flood.State.size ⟨Foreground m, p :: queue⟩ := by
        rw [hround]
        exact Flood.size_round (finite_foreground m) p queue
      obtain ⟨last, hlast, hinv', hflood'⟩ := bfsLoop_spec fuel hinv (hround ▸ hflood.round)
        (by simp only [BfsState.flood] at hsize hfuel ⊢; omega)
      refine ⟨last, ?_, hinv', hflood'⟩
      rw [bfsLoop]
      simp only [hst', Option.bind_some, hlast]

/-! ## The component of the start -/

theorem mem_component_self (F : Set Point) (p : Point) : p ∈ component F p := .refl

/-- A component has two pixels if the start has a neighbour. -/
theorem component_nontrivial_iff {F : Set Point} {p : Point} :
    (component F p).Nontrivial ↔ ∃ n, Flood.Link neighbours F p n := by
  constructor
  · intro h
    obtain ⟨q, hq, hne⟩ := h.exists_ne p
    rw [component_eq] at hq
    rcases Relation.ReflTransGen.cases_head hq with rfl | ⟨n, hn, -⟩
    · exact absurd rfl hne
    · exact ⟨n, hn⟩
  · rintro ⟨n, hn⟩
    refine ⟨p, mem_component_self F p, n, ?_, (mem_neighbours.mp hn.1).1⟩
    rw [component_eq]
    exact .single hn

/-- The search ends, and it has found what can be reached in one step or more. -/
theorem bfsLoop_ends (markers : Mat Int) (start : Point) :
    ∃ st, bfsLoop (markers.rows * markers.cols + 2) ⟨markers, start, start, [start]⟩ = some st ∧
      BfsInv markers start st ∧
      ∀ p, p ∈ Foreground markers ∧ p ∉ Foreground st.markers ↔
        Relation.TransGen (Flood.Link neighbours (Foreground markers)) start p := by
  have hsize : Flood.State.size ⟨Foreground markers, [start]⟩ <
      markers.rows * markers.cols + 2 := by
    have := ncard_foreground_le markers
    simp only [Flood.State.size, List.length_singleton]
    omega
  obtain ⟨st, hst, hinv, hflood⟩ :=
    bfsLoop_spec _ (BfsInv.init markers start) Flood.Inv.init hsize
  refine ⟨st, hst, hinv, fun p => ?_⟩
  rw [hflood.mem_alive_iff]
  constructor
  · rintro ⟨hp, hnot⟩
    by_contra hreach
    exact hnot ⟨hp, hreach⟩
  · intro hreach
    exact ⟨Flood.mem_of_transGen hreach, fun h => h.2 hreach⟩

/-- From a pixel with a neighbour the start is found again, and so what is found
is the whole component. -/
theorem transGen_iff_mem_component {F : Set Point} {start n : Point} (hs : start ∈ F)
    (hn : Flood.Link neighbours F start n) (p : Point) :
    Relation.TransGen (Flood.Link neighbours F) start p ↔ p ∈ component F start := by
  rw [component_eq, Flood.transGen_iff_reflTransGen ?_ hs hn]
  · rfl
  · intro a b hb
    exact mem_neighbours.mpr (mem_neighbours.mp hb).symm

/-- The search from a foreground pixel clears its component and returns the
rectangle around it, or changes nothing if the pixel is alone. -/
theorem bfs_spec {markers : Mat Int} {start : Point} (hs : start ∈ Foreground markers) :
    ((component (Foreground markers) start).Nontrivial ∧ ∃ markers' rect,
      bfs markers start = some (markers', some rect) ∧
        Mat.PaintedBy (· ∈ component (Foreground markers) start) 0 markers markers' ∧
        BoundingRect (component (Foreground markers) start) rect) ∨
    (¬ (component (Foreground markers) start).Nontrivial ∧
      bfs markers start = some (markers, none)) := by
  obtain ⟨st, hst, hinv, hdead⟩ := bfsLoop_ends markers start
  by_cases hn : ∃ n, Flood.Link neighbours (Foreground markers) start n
  · left
    refine ⟨component_nontrivial_iff.mpr hn, ?_⟩
    obtain ⟨n, hn⟩ := hn
    have hcomponent : ∀ p, p ∈ Foreground markers ∧ p ∉ Foreground st.markers ↔
        p ∈ component (Foreground markers) start :=
      fun p => (hdead p).trans (transGen_iff_mem_component hs hn p)
    have hbox : Box (component (Foreground markers) start) st.minP st.maxP := by
      have hdied : Foreground markers \ Foreground st.markers =
          component (Foreground markers) start := Set.ext hcomponent
      have hbox := hinv.box
      rwa [hdied, Set.insert_eq_of_mem (mem_component_self _ _)] at hbox
    refine ⟨st.markers, _, ?_, hinv.painted.congr hcomponent, hbox.boundingRect⟩
    have hmem : n ∈ component (Foreground markers) start :=
      (transGen_iff_mem_component hs hn n).mp (.single hn)
    have hne := hbox.ne_of_mem hmem (mem_neighbours.mp hn.1).1
    simp only [bfs, hst, Option.bind_eq_bind, Option.bind_some, if_neg hne]
    rfl
  · right
    refine ⟨fun h => hn (component_nontrivial_iff.mp h), ?_⟩
    have hnone : ∀ p, ¬ (p ∈ Foreground markers ∧ p ∉ Foreground st.markers) := by
      intro p hp
      obtain ⟨n, hlink, -⟩ := Relation.TransGen.head'_iff.mp ((hdead p).mp hp)
      exact hn ⟨n, hlink⟩
    have hmarkers : st.markers = markers :=
      Mat.PaintedBy.unique (hinv.painted.congr fun p => iff_false_intro (hnone p))
        (Mat.PaintedBy.refl 0 markers)
    have hbox := hinv.box
    rw [hmarkers, Set.sdiff_self] at hbox
    obtain ⟨hmin, hmax⟩ := hbox.unique (by simpa using box_singleton start)
    simp only [bfs, hst, Option.bind_eq_bind, Option.bind_some, hmin, hmax, hmarkers, and_self,
      if_true]
    rfl

end Gazosan
