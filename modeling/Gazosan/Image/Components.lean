import Gazosan.Image.Grouping

/-!
# The segments of the grouping stage

The scan meets a component for the first time at its first pixel in row-major
order.  If the component has two pixels or more, the search clears it there and
adds its rectangle, so the scan never meets it again.  If it has one, nothing is
cleared.  `ScanInv` says this of the part of the scan that is done, and
`grouping_components` of the whole.

The rectangle of a component ends at the greatest coordinates of its pixels,
which `cv::Rect` excludes, so it misses the last column and the last row
(`grouping_covers_iff`).
-/

namespace Gazosan

/-! ## Row-major order -/

/-- `p` comes before `q` in a scan. -/
def Before (p q : Point) : Prop := p.y < q.y ∨ p.y = q.y ∧ p.x < q.x

/-- The first pixel of a set. -/
def IsFirst (C : Set Point) (p : Point) : Prop := p ∈ C ∧ ∀ q ∈ C, q = p ∨ Before p q

theorem positions_pairwise (rows cols : Nat) : (positions rows cols).Pairwise Before := by
  rw [positions, List.pairwise_flatMap]
  constructor
  · intro y _
    rw [List.pairwise_map]
    exact List.pairwise_lt_range.imp fun h => .inr ⟨rfl, by simpa using h⟩
  · refine List.pairwise_lt_range.imp ?_
    intro y y' h p hp q hq
    obtain ⟨x, -, rfl⟩ := List.mem_map.mp hp
    obtain ⟨x', -, rfl⟩ := List.mem_map.mp hq
    exact .inl (by simpa using h)

theorem Before.irrefl (p : Point) : ¬ Before p p := by
  simp only [Before]
  omega

/-- What comes before a position has been scanned before it. -/
theorem mem_done_of_before {rows cols : Nat} {done rest : List Point} {p q : Point}
    (hsplit : positions rows cols = done ++ p :: rest) (hq : q ∈ positions rows cols)
    (h : Before q p) : q ∈ done := by
  have hpairwise := positions_pairwise rows cols
  rw [hsplit] at hq hpairwise
  rcases List.mem_append.mp hq with hq | hq
  · exact hq
  · rcases List.mem_cons.mp hq with rfl | hq
    · exact absurd h (Before.irrefl q)
    · have hlater := List.rel_of_pairwise_cons (List.pairwise_append.mp hpairwise).2.1 hq
      simp only [Before] at h hlater
      omega

theorem before_trichotomy (p q : Point) : p = q ∨ Before p q ∨ Before q p := by
  obtain ⟨px, py⟩ := p
  obtain ⟨qx, qy⟩ := q
  simp only [Before, Point.mk.injEq]
  omega

/-! ## Components of the foreground -/

section

variable {F : Set Point}

theorem component_subset {p : Point} (hp : p ∈ F) : component F p ⊆ F := by
  rintro q hq
  induction hq with
  | refl => exact hp
  | tail _ h _ => exact h.2

/-- The component of a pixel is that of each of its pixels. -/
theorem component_eq_of_mem {p q : Point} (hp : p ∈ F) (hq : q ∈ component F p) :
    component F q = component F p := by
  have hback : p ∈ component F q := by
    rw [component_eq] at hq ⊢
    refine (Flood.reflTransGen_symm ?_ hp hq).2
    intro a b hb
    exact mem_neighbours.mpr (mem_neighbours.mp hb).symm
  ext r
  exact ⟨fun hr => hq.trans hr, fun hr => hback.trans hr⟩

/-- Taking away other components does not change a component. -/
theorem component_congr {A : Set Point} {p : Point} (hsub : A ⊆ F)
    (hkeep : component F p ⊆ A) : component A p = component F p := by
  apply Set.Subset.antisymm
  · intro q hq
    exact Relation.ReflTransGen.mono (fun a b h => And.imp_right (fun hb => hsub hb) h) p q hq
  · intro q hq
    induction hq with
    | refl => exact .refl
    | tail hab hbc ih => exact ih.tail ⟨hbc.1, hkeep (hab.tail hbc)⟩

end

/-! ## The scan -/

/-- The components that the scan has met at one of the positions `done`, and
that have two pixels or more. -/
def Met (F : Set Point) (done : List Point) (q : Point) : Prop :=
  ∃ p ∈ done, p ∈ F ∧ (component F p).Nontrivial ∧ q ∈ component F p

/-- What the scan has done after the positions `done`: cleared the components
it has met, and collected one rectangle for each, in the order of their first
pixels. -/
structure ScanInv (markers : Mat Int) (done : List Point) (st : Mat Int × List Rect) : Prop where
  painted : Mat.PaintedBy (Met (Foreground markers) done) 0 markers st.1
  firsts : ∃ firsts : List Point, firsts.Sublist done ∧
    (∀ p ∈ firsts, p ∈ Foreground markers ∧ (component (Foreground markers) p).Nontrivial ∧
      IsFirst (component (Foreground markers) p) p) ∧
    (∀ p ∈ done, p ∈ Foreground markers → (component (Foreground markers) p).Nontrivial →
      ∃ f ∈ firsts, component (Foreground markers) f = component (Foreground markers) p) ∧
    List.Forall₂ (fun p r => BoundingRect (component (Foreground markers) p) r) firsts st.2

section

variable {markers : Mat Int}

theorem Met.mono {F : Set Point} {done more : List Point} {q : Point} (h : Met F done q) :
    Met F (done ++ more) q := by
  obtain ⟨p, hp, h⟩ := h
  exact ⟨p, List.mem_append_left _ hp, h⟩

/-- A component that is met at one of its pixels is met at all of them. -/
theorem Met.of_component {F : Set Point} {done : List Point} {p q : Point} (hp : p ∈ F)
    (hq : q ∈ component F p) (h : Met F done q) : Met F done p := by
  obtain ⟨f, hf, hfF, hnontrivial, hqf⟩ := h
  have heq : component F f = component F p :=
    (component_eq_of_mem hfF hqf).symm.trans (component_eq_of_mem hp hq)
  exact ⟨f, hf, hfF, hnontrivial, heq ▸ mem_component_self F p⟩

theorem ScanInv.init (markers : Mat Int) : ScanInv markers [] (markers, []) where
  painted := (Mat.PaintedBy.refl 0 markers).congr fun p => by simp [Met]
  firsts := ⟨[], .refl _, nofun, nofun, .nil⟩

/-- A position at which nothing new is met. -/
theorem ScanInv.skip {done : List Point} {st : Mat Int × List Rect} (h : ScanInv markers done st)
    {p : Point} (hp : p ∈ Foreground markers → (component (Foreground markers) p).Nontrivial →
      Met (Foreground markers) done p) : ScanInv markers (done ++ [p]) st := by
  obtain ⟨firsts, hsub, hfirst, hall, hrects⟩ := h.firsts
  constructor
  · refine h.painted.congr fun q => ⟨Met.mono, ?_⟩
    rintro ⟨f, hf, hfF, hnontrivial, hq⟩
    rcases List.mem_append.mp hf with hf | hf
    · exact ⟨f, hf, hfF, hnontrivial, hq⟩
    · rw [List.mem_singleton.mp hf] at hfF hnontrivial hq
      obtain ⟨g, hg, hgF, hgn, hpg⟩ := hp hfF hnontrivial
      exact ⟨g, hg, hgF, hgn, component_eq_of_mem hgF hpg ▸ hq⟩
  · refine ⟨firsts, hsub.trans (List.sublist_append_left done [p]), hfirst, ?_, hrects⟩
    intro q hq hqF hnontrivial
    rcases List.mem_append.mp hq with hq | hq
    · exact hall q hq hqF hnontrivial
    · rw [List.mem_singleton.mp hq] at hqF hnontrivial ⊢
      obtain ⟨g, hg, hgF, hgn, hpg⟩ := hp hqF hnontrivial
      obtain ⟨f, hf, hfg⟩ := hall g hg hgF hgn
      exact ⟨f, hf, hfg.trans (component_eq_of_mem hgF hpg).symm⟩

/-- A position at which a component of two pixels or more is met. -/
theorem ScanInv.add {done : List Point} {st : Mat Int × List Rect} (h : ScanInv markers done st)
    {p : Point} (hpF : p ∈ Foreground markers)
    (hnontrivial : (component (Foreground markers) p).Nontrivial)
    (hfirst : IsFirst (component (Foreground markers) p) p) {markers' : Mat Int} {rect : Rect}
    (hpainted : Mat.PaintedBy (· ∈ component (Foreground markers) p) 0 st.1 markers')
    (hrect : BoundingRect (component (Foreground markers) p) rect) :
    ScanInv markers (done ++ [p]) (markers', st.2 ++ [rect]) := by
  obtain ⟨firsts, hsub, hfirsts, hall, hrects⟩ := h.firsts
  constructor
  · refine (h.painted.trans hpainted).congr fun q => ⟨?_, ?_⟩
    · rintro (hq | hq)
      · exact hq.mono
      · exact ⟨p, List.mem_concat_self, hpF, hnontrivial, hq⟩
    · rintro ⟨f, hf, hfF, hfn, hq⟩
      rcases List.mem_append.mp hf with hf | hf
      · exact .inl ⟨f, hf, hfF, hfn, hq⟩
      · rw [List.mem_singleton.mp hf] at hq
        exact .inr hq
  · refine ⟨firsts ++ [p], hsub.append (.refl [p]), ?_, ?_,
      List.rel_append hrects (.cons hrect .nil)⟩
    · intro f hf
      rcases List.mem_append.mp hf with hf | hf
      · exact hfirsts f hf
      · rw [List.mem_singleton.mp hf]
        exact ⟨hpF, hnontrivial, hfirst⟩
    · intro q hq hqF hqn
      rcases List.mem_append.mp hq with hq | hq
      · obtain ⟨f, hf, heq⟩ := hall q hq hqF hqn
        exact ⟨f, List.mem_append_left _ hf, heq⟩
      · rw [List.mem_singleton.mp hq]
        exact ⟨p, List.mem_concat_self, rfl⟩

/-- One position of the scan. -/
theorem ScanInv.step {done rest : List Point} {p : Point}
    (hsplit : positions markers.rows markers.cols = done ++ p :: rest)
    {st : Mat Int × List Rect} (h : ScanInv markers done st) :
    ∃ st', scanStep st p = some st' ∧ ScanInv markers (done ++ [p]) st' := by
  have hfore := mem_foreground_painted h.painted
  have hpos : p ∈ positions markers.rows markers.cols := by simp [hsplit]
  obtain ⟨v, hv⟩ := Mat.exists_at? ((h.painted.inBounds_iff p).mpr (mem_positions.mp hpos))
  by_cases hle : v ≤ 1
  · refine ⟨st, ?_, h.skip ?_⟩
    · simp only [scanStep, hv, Option.bind_eq_bind, Option.bind_some, if_pos hle]
      rfl
    · -- a foreground pixel with a small marker has been cleared
      intro hpF _
      by_contra hnot
      exact not_mem_foreground_of_le hv hle ((hfore p).mpr ⟨hpF, hnot⟩)
  · have hpst : p ∈ Foreground st.1 := ⟨v, hv, Int.not_le.mp hle⟩
    obtain ⟨hpF, hnot⟩ := (hfore p).mp hpst
    have hcomponent : component (Foreground st.1) p = component (Foreground markers) p := by
      refine component_congr (fun q hq => ((hfore q).mp hq).1) ?_
      intro q hq
      exact (hfore q).mpr ⟨component_subset hpF hq, fun hmet => hnot (hmet.of_component hpF hq)⟩
    have hbfs := bfs_spec hpst
    rw [hcomponent] at hbfs
    rcases hbfs with ⟨hnontrivial, markers', rect, hbfs, hpainted, hrect⟩ | ⟨htrivial, hbfs⟩
    · refine ⟨(markers', st.2 ++ [rect]), ?_, h.add hpF hnontrivial ?_ hpainted hrect⟩
      · simp only [scanStep, hv, hbfs, Option.bind_eq_bind, Option.bind_some, if_neg hle]
        rfl
      · -- an earlier pixel of the component would have been met
        refine ⟨mem_component_self _ p, fun q hq => ?_⟩
        rcases before_trichotomy q p with hqp | hqp | hqp
        · exact .inl hqp
        · have hqdone : q ∈ done := mem_done_of_before hsplit
            (foreground_subset markers (component_subset hpF hq)) hqp
          have hmet : Met (Foreground markers) done q := ⟨q, hqdone, component_subset hpF hq,
            component_eq_of_mem hpF hq ▸ hnontrivial, mem_component_self _ q⟩
          exact absurd (hmet.of_component hpF hq) hnot
        · exact .inr hqp
    · refine ⟨st, ?_, h.skip fun _ hnontrivial => absurd hnontrivial htrivial⟩
      simp only [scanStep, hv, hbfs, Option.bind_eq_bind, Option.bind_some, if_neg hle]
      rfl

/-- The whole scan. -/
theorem ScanInv.run : ∀ (rest : List Point) {done : List Point} {st : Mat Int × List Rect},
    positions markers.rows markers.cols = done ++ rest → ScanInv markers done st →
    ∃ st', rest.foldlM scanStep st = some st' ∧
      ScanInv markers (positions markers.rows markers.cols) st'
  | [], done, st, hsplit, h => by
      rw [List.append_nil] at hsplit
      exact ⟨st, rfl, hsplit ▸ h⟩
  | p :: rest, done, st, hsplit, h => by
      obtain ⟨st₁, h₁, hinv₁⟩ := h.step hsplit
      obtain ⟨st₂, h₂, hinv₂⟩ := ScanInv.run rest (by rw [hsplit]; simp) hinv₁
      refine ⟨st₂, ?_, hinv₂⟩
      rw [List.foldlM_cons, h₁]
      exact h₂

end

/-! ## Components and rectangles -/

theorem exists_of_forall₂ {α β : Type} {R : α → β → Prop} {as : List α} {bs : List β}
    (h : List.Forall₂ R as bs) {a : α} (ha : a ∈ as) : ∃ b ∈ bs, R a b := by
  induction h with
  | nil => cases ha
  | cons hab _ ih =>
      rcases List.mem_cons.mp ha with rfl | ha
      · exact ⟨_, List.mem_cons_self, hab⟩
      · obtain ⟨b, hb, hR⟩ := ih ha
        exact ⟨b, List.mem_cons_of_mem _ hb, hR⟩

theorem grouping_scanInv (markers : Mat Int) :
    ∃ markers' rects, grouping markers = some (markers', rects) ∧
      ScanInv markers (positions markers.rows markers.cols) (markers', rects) := by
  obtain ⟨⟨markers', rects⟩, hrun, hinv⟩ := ScanInv.run _ rfl (ScanInv.init markers)
  exact ⟨markers', rects, hrun, hinv⟩

/-- Every rectangle of the grouping stage lies inside the matrix. -/
theorem grouping_inside (markers : Mat Int) :
    ∃ markers' rects, grouping markers = some (markers', rects) ∧
      ∀ r ∈ rects, markers.Fits r := by
  obtain ⟨markers', rects, hrun, hinv⟩ := grouping_scanInv markers
  obtain ⟨firsts, -, hfirsts, -, hrects⟩ := hinv.firsts
  refine ⟨markers', rects, hrun, fun r hr => ?_⟩
  obtain ⟨p, hp, hbox⟩ := exists_of_forall₂ hrects.flip hr
  have hin : ∀ q ∈ component (Foreground markers) p, markers.InBounds q := fun q hq =>
    mem_positions.mp (foreground_subset _ (component_subset (hfirsts p hp).1 hq))
  obtain ⟨a, ha, hax⟩ := hbox.loX.1
  obtain ⟨b, hb, hby⟩ := hbox.loY.1
  obtain ⟨c, hc, hcx⟩ := hbox.hiX.1
  obtain ⟨d, hd, hdy⟩ := hbox.hiY.1
  obtain ⟨⟨hlx, hhx⟩, hly, hhy⟩ := hbox.mem_le ha
  have := hin a ha
  have := hin b hb
  have := hin c hc
  have := hin d hd
  simp only [Mat.InBounds, Mat.Fits] at *
  omega

/-- The grouping stage computes connected components: it returns one rectangle
for each component with two pixels or more, ordered by the first pixels of the
components, and clears the markers of these components and no others. -/
theorem grouping_components (markers : Mat Int) :
    ∃ markers' rects, grouping markers = some (markers', rects) ∧
      (∃ comps : List (Set Point),
        (∀ C, C ∈ comps ↔ IsComponent (Foreground markers) C ∧ C.Nontrivial) ∧
        comps.Pairwise (fun C D => ∃ p q, IsFirst C p ∧ IsFirst D q ∧ Before p q) ∧
        List.Forall₂ BoundingRect comps rects) ∧
      Mat.PaintedBy (fun p => ∃ C, IsComponent (Foreground markers) C ∧ C.Nontrivial ∧ p ∈ C) 0
        markers markers' := by
  obtain ⟨markers', rects, hrun, hinv⟩ := grouping_scanInv markers
  obtain ⟨firsts, hsub, hfirsts, hall, hrects⟩ := hinv.firsts
  refine ⟨markers', rects, hrun, ⟨firsts.map (component (Foreground markers)), ?_, ?_, ?_⟩, ?_⟩
  · intro C
    rw [List.mem_map]
    constructor
    · rintro ⟨p, hp, rfl⟩
      obtain ⟨hpF, hnontrivial, -⟩ := hfirsts p hp
      exact ⟨⟨p, hpF, rfl⟩, hnontrivial⟩
    · rintro ⟨⟨p, hpF, rfl⟩, hnontrivial⟩
      exact hall p (foreground_subset markers hpF) hpF hnontrivial
  · rw [List.pairwise_map]
    refine ((positions_pairwise _ _).sublist hsub).imp_of_mem ?_
    intro p q hp hq hpq
    exact ⟨p, q, (hfirsts p hp).2.2, (hfirsts q hq).2.2, hpq⟩
  · rw [List.forall₂_map_left_iff]
    exact hrects
  · refine hinv.painted.congr fun q => ⟨?_, ?_⟩
    · rintro ⟨p, -, hpF, hnontrivial, hq⟩
      exact ⟨_, ⟨p, hpF, rfl⟩, hnontrivial, hq⟩
    · rintro ⟨_, ⟨p, hpF, rfl⟩, hnontrivial, hq⟩
      exact ⟨p, foreground_subset markers hpF, hpF, hnontrivial, hq⟩

/-- Every component with two pixels or more has a rectangle that contains its
pixels, and no rectangle is empty. -/
def Covering (markers : Mat Int) (rects : List Rect) : Prop :=
  (∀ C, IsComponent (Foreground markers) C → C.Nontrivial →
    ∃ r ∈ rects, BoundingRect C r ∧ ∀ p ∈ C, r.Contains p) ∧
  ∀ r ∈ rects, 0 < r.width ∧ 0 < r.height

/-- The pixels in the last column of a component are outside its rectangle. -/
theorem BoundingRect.exists_not_contains {C : Set Point} {r : Rect} (h : BoundingRect C r) :
    ∃ p ∈ C, ¬ r.Contains p := by
  obtain ⟨p, hp, hx⟩ := h.hiX.1
  refine ⟨p, hp, fun hc => ?_⟩
  have := hc.1.2
  simp only at hx
  omega

/-- The rectangle is empty if the component lies in one column or in one row. -/
theorem BoundingRect.nonempty_iff {C : Set Point} {r : Rect} (h : BoundingRect C r) :
    0 < r.width ∧ 0 < r.height ↔
      (∃ p ∈ C, ∃ q ∈ C, p.x ≠ q.x) ∧ ∃ p ∈ C, ∃ q ∈ C, p.y ≠ q.y := by
  constructor
  · rintro ⟨hw, hh⟩
    obtain ⟨p, hp, hpx⟩ := h.loX.1
    obtain ⟨q, hq, hqx⟩ := h.hiX.1
    obtain ⟨p', hp', hpy⟩ := h.loY.1
    obtain ⟨q', hq', hqy⟩ := h.hiY.1
    simp only at hpx hqx hpy hqy
    exact ⟨⟨p, hp, q, hq, by omega⟩, p', hp', q', hq', by omega⟩
  · rintro ⟨⟨p, hp, q, hq, hx⟩, p', hp', q', hq', hy⟩
    have h₁ := (h.mem_le hp).1
    have h₂ := (h.mem_le hq).1
    have h₃ := (h.mem_le hp').2
    have h₄ := (h.mem_le hq').2
    simp only at h₁ h₂ h₃ h₄
    omega

/-- Two adjacent foreground pixels lie in a component with two pixels. -/
theorem exists_component_iff {F : Set Point} :
    (∃ C, IsComponent F C ∧ C.Nontrivial) ↔ ∃ p ∈ F, ∃ q ∈ F, Adjacent p q := by
  constructor
  · rintro ⟨_, ⟨p, hp, rfl⟩, hnontrivial⟩
    obtain ⟨q, hq⟩ := component_nontrivial_iff.mp hnontrivial
    exact ⟨p, hp, q, hq.2, mem_neighbours.mp hq.1⟩
  · rintro ⟨p, hp, q, hq, hpq⟩
    exact ⟨_, ⟨p, hp, rfl⟩, component_nontrivial_iff.mpr ⟨q, mem_neighbours.mpr hpq, hq⟩⟩

/-- The rectangle of a component never contains all of its pixels, and it is
empty if the component is one pixel wide or high.  So the components are covered
only if there is none, that is, if no two foreground pixels touch. -/
theorem grouping_covers_iff (markers : Mat Int) :
    ∃ markers' rects, grouping markers = some (markers', rects) ∧
      (∀ C, IsComponent (Foreground markers) C → C.Nontrivial →
        ∃ r ∈ rects, BoundingRect C r ∧ (∃ p ∈ C, ¬ r.Contains p) ∧
          (0 < r.width ∧ 0 < r.height ↔
            (∃ p ∈ C, ∃ q ∈ C, p.x ≠ q.x) ∧ ∃ p ∈ C, ∃ q ∈ C, p.y ≠ q.y)) ∧
      (Covering markers rects ↔
        ¬ ∃ p ∈ Foreground markers, ∃ q ∈ Foreground markers, Adjacent p q) := by
  obtain ⟨markers', rects, hrun, hinv⟩ := grouping_scanInv markers
  obtain ⟨firsts, -, hfirsts, hall, hrects⟩ := hinv.firsts
  refine ⟨markers', rects, hrun, ?_, ?_⟩
  · rintro _ ⟨p, hp, rfl⟩ hnontrivial
    obtain ⟨f, hf, heq⟩ := hall p (foreground_subset markers hp) hp hnontrivial
    obtain ⟨r, hr, hbox⟩ := exists_of_forall₂ hrects hf
    rw [heq] at hbox
    exact ⟨r, hr, hbox, hbox.exists_not_contains, hbox.nonempty_iff⟩
  · rw [← exists_component_iff]
    constructor
    · rintro hcover ⟨C, hC, hnontrivial⟩
      obtain ⟨r, -, hbox, hcontains⟩ := hcover.1 C hC hnontrivial
      obtain ⟨p, hp, hnot⟩ := hbox.exists_not_contains
      exact hnot (hcontains p hp)
    · intro hnone
      have hnil : firsts = [] := by
        refine List.eq_nil_iff_forall_not_mem.mpr fun p hp => ?_
        obtain ⟨hpF, hnontrivial, -⟩ := hfirsts p hp
        exact hnone ⟨_, ⟨p, hpF, rfl⟩, hnontrivial⟩
      rw [hnil, List.forall₂_nil_left_iff] at hrects
      simp only at hrects
      rw [hrects]
      exact ⟨fun C hC hnontrivial => absurd ⟨C, hC, hnontrivial⟩ hnone, nofun⟩

/-- A component of two pixels side by side, inside the border that `watershed` draws. -/
def strip : Mat Int := ⟨3, 4, fun i j => if i = 1 ∧ (j = 1 ∨ j = 2) then 2 else -1⟩

theorem strip_not_covered :
    (grouping strip).map Prod.snd = some [⟨1, 1, 1, 0⟩] ∧ ¬ Covering strip [⟨1, 1, 1, 0⟩] ∧
      ⟨1, 1⟩ ∈ Foreground strip ∧ ¬ (⟨1, 1, 1, 0⟩ : Rect).Contains ⟨1, 1⟩ := by
  refine ⟨by decide, fun h => ?_, ⟨2, by decide, by decide⟩, by decide⟩
  have hempty := h.2 ⟨1, 1, 1, 0⟩ List.mem_cons_self
  exact absurd hempty.2 (by decide)

end Gazosan
