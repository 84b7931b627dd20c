import Mathlib.Data.Int.Order.Basic
import Mathlib.Tactic.Common

/-!
# Points, rectangles and matrices

The parts of the `cv` data types that the program computes with itself.
Coordinates are `int` in the source and `Int` here.  No coordinate the program
forms leaves the 32-bit range, since all of them are within one image of a
valid one.

A `Mat` knows its size and holds one element per position.  `Mat::at` does not
check its arguments in a release build.  Here `Mat.at?` and `Mat.set?` have no
result at a position outside the matrix, so a computation with a result made
no such access.
-/

namespace Gazosan

/-! ## Points and rectangles -/

/-- `cv::Point`. -/
structure Point where
  /-- The column. -/
  x : Int
  /-- The row. -/
  y : Int
deriving DecidableEq, Repr

/-- `cv::Rect`: the upper left corner and the size. -/
structure Rect where
  x : Int
  y : Int
  width : Int
  height : Int
deriving DecidableEq, Repr

/-- `cv::Rect(pt1, pt2)`.  The lower right corner is exclusive. -/
def Rect.ofPoints (p q : Point) : Rect :=
  ⟨min p.x q.x, min p.y q.y, max p.x q.x - min p.x q.x, max p.y q.y - min p.y q.y⟩

/-- The rectangle has no pixels. -/
def Rect.Thin (r : Rect) : Prop := r.width = 0 ∨ r.height = 0

instance (r : Rect) : Decidable r.Thin := inferInstanceAs (Decidable (_ ∨ _))

/-- `r` contains `p`, in the half-open sense of `gray_mat(segment)` and of the
pixel loops. -/
def Rect.Contains (r : Rect) (p : Point) : Prop :=
  (r.x ≤ p.x ∧ p.x < r.x + r.width) ∧ (r.y ≤ p.y ∧ p.y < r.y + r.height)

instance (r : Rect) (p : Point) : Decidable (r.Contains p) :=
  inferInstanceAs (Decidable (_ ∧ _))

/-- `p` is on the one-pixel border of `r`. -/
def Rect.OnBorder (r : Rect) (p : Point) : Prop :=
  r.Contains p ∧
    (p.x = r.x ∨ p.x = r.x + r.width - 1 ∨ p.y = r.y ∨ p.y = r.y + r.height - 1)

instance (r : Rect) (p : Point) : Decidable (r.OnBorder p) :=
  inferInstanceAs (Decidable (_ ∧ _))

/-! ## Matrices -/

/-- `cv::Mat` with elements of type `α`. -/
structure Mat (α : Type) where
  rows : Nat
  cols : Nat
  /-- The element at a row and a column. -/
  px : Fin rows → Fin cols → α

namespace Mat

variable {α : Type}

/-- `Mat::empty`. -/
def empty (m : Mat α) : Bool := m.rows * m.cols == 0

/-- The position `p` is in the matrix. -/
def InBounds (m : Mat α) (p : Point) : Prop :=
  (0 ≤ p.y ∧ p.y < m.rows) ∧ (0 ≤ p.x ∧ p.x < m.cols)

instance (m : Mat α) (p : Point) : Decidable (m.InBounds p) :=
  inferInstanceAs (Decidable (_ ∧ _))

/-- `at<α>(p.y, p.x)`, read. -/
def at? (m : Mat α) (p : Point) : Option α :=
  if h : m.InBounds p then
    some (m.px ⟨p.y.toNat, by have := h.1; omega⟩ ⟨p.x.toNat, by have := h.2; omega⟩)
  else none

/-- `at<α>(p.y, p.x) = v`. -/
def set? (m : Mat α) (p : Point) (v : α) : Option (Mat α) :=
  if m.InBounds p then
    some { m with px := fun i j => if (i : Int) = p.y ∧ (j : Int) = p.x then v else m.px i j }
  else none

theorem at?_isSome (m : Mat α) (p : Point) : (m.at? p).isSome ↔ m.InBounds p := by
  by_cases h : m.InBounds p
  · simp [at?, h]
  · simp [at?, h]

theorem inBounds_of_at? {m : Mat α} {p : Point} {v : α} (h : m.at? p = some v) : m.InBounds p :=
  (m.at?_isSome p).mp (by rw [h]; rfl)

theorem at?_eq_none {m : Mat α} {p : Point} : m.at? p = none ↔ ¬ m.InBounds p := by
  rw [← m.at?_isSome p, Option.not_isSome_iff_eq_none]

theorem exists_at? {m : Mat α} {p : Point} (h : m.InBounds p) : ∃ v, m.at? p = some v :=
  Option.isSome_iff_exists.mp ((m.at?_isSome p).mpr h)

/-- The element at a position given by its row and column. -/
theorem at?_mk (m : Mat α) (i : Fin m.rows) (j : Fin m.cols) :
    m.at? ⟨(j : Int), (i : Int)⟩ = some (m.px i j) := by
  have h : m.InBounds ⟨(j : Int), (i : Int)⟩ := by
    refine ⟨⟨?_, ?_⟩, ⟨?_, ?_⟩⟩ <;> simp only <;> omega
  rw [at?, dif_pos h]
  rfl

/-- The matrix of the values of `f` at each position and element. -/
def mapAt {β : Type} (m : Mat α) (f : Point → α → β) : Mat β :=
  ⟨m.rows, m.cols, fun i j => f ⟨(j : Int), (i : Int)⟩ (m.px i j)⟩

theorem at?_mapAt {β : Type} (m : Mat α) (f : Point → α → β) (p : Point) :
    (m.mapAt f).at? p = (m.at? p).map (f p) := by
  by_cases h : m.InBounds p
  · have h' : (m.mapAt f).InBounds p := h
    have hy := h.1.1
    have hx := h.2.1
    rw [at?, dif_pos h', at?, dif_pos h]
    simp [mapAt, Int.toNat_of_nonneg hy, Int.toNat_of_nonneg hx]
  · have h' : ¬ (m.mapAt f).InBounds p := h
    rw [at?_eq_none.mpr h, at?_eq_none.mpr h']
    rfl

/-- A write inside the matrix succeeds. -/
theorem set?_isSome (m : Mat α) (p : Point) (v : α) : (m.set? p v).isSome ↔ m.InBounds p := by
  by_cases h : m.InBounds p
  · simp [set?, h]
  · simp [set?, h]

theorem exists_set? {m : Mat α} {p : Point} (h : m.InBounds p) (v : α) :
    ∃ m', m.set? p v = some m' :=
  Option.isSome_iff_exists.mp ((m.set?_isSome p v).mpr h)

/-- A write keeps the size. -/
theorem set?_size {m m' : Mat α} {p : Point} {v : α} (h : m.set? p v = some m') :
    m'.rows = m.rows ∧ m'.cols = m.cols := by
  rw [set?] at h
  split at h
  · cases h
    exact ⟨rfl, rfl⟩
  · cases h

/-- What a write leaves at each position. -/
theorem at?_set? {m m' : Mat α} {p : Point} {v : α} (h : m.set? p v = some m') (q : Point) :
    m'.at? q = if q = p then some v else m.at? q := by
  rw [set?] at h
  split at h
  · rename_i hp
    cases h
    by_cases hq : m.InBounds q
    · have hq' : Mat.InBounds { m with px := fun i j =>
          if (i : Int) = p.y ∧ (j : Int) = p.x then v else m.px i j } q := hq
      rw [at?, dif_pos hq', at?, dif_pos hq]
      by_cases hqp : q = p
      · subst hqp
        obtain ⟨⟨hy, _⟩, ⟨hx, _⟩⟩ := hq
        simp [Int.toNat_of_nonneg hy, Int.toNat_of_nonneg hx]
      · have hne : ¬ ((q.y.toNat : Int) = p.y ∧ (q.x.toNat : Int) = p.x) := by
          rintro ⟨hy, hx⟩
          obtain ⟨⟨hy0, _⟩, ⟨hx0, _⟩⟩ := hq
          rw [Int.toNat_of_nonneg hy0] at hy
          rw [Int.toNat_of_nonneg hx0] at hx
          exact hqp (by cases q; cases p; simp_all)
        rw [if_neg hqp]
        exact congrArg some (if_neg hne)
    · have hqp : q ≠ p := fun he => hq (he ▸ hp)
      rw [if_neg hqp, at?_eq_none.mpr hq]
      exact at?_eq_none.mpr hq
  · cases h

/-- Matrices of one size that agree at every position are equal. -/
theorem ext_at? {m m' : Mat α} (hr : m.rows = m'.rows) (hc : m.cols = m'.cols)
    (h : ∀ p, m.at? p = m'.at? p) : m = m' := by
  obtain ⟨rows, cols, px⟩ := m
  obtain ⟨rows', cols', px'⟩ := m'
  simp only at hr hc
  subst hr
  subst hc
  congr
  funext i j
  have hij := h ⟨(j : Int), (i : Int)⟩
  rw [at?_mk ⟨rows, cols, px⟩ i j, at?_mk ⟨rows, cols, px'⟩ i j] at hij
  exact Option.some.inj hij

/-- A default constructed matrix. -/
def none : Mat α := ⟨0, 0, fun i => i.elim0⟩

/-- The rectangle lies inside the matrix. -/
def Fits (m : Mat α) (r : Rect) : Prop :=
  (0 ≤ r.x ∧ 0 ≤ r.width ∧ r.x + r.width ≤ m.cols) ∧
    0 ≤ r.y ∧ 0 ≤ r.height ∧ r.y + r.height ≤ m.rows

instance (m : Mat α) (r : Rect) : Decidable (m.Fits r) := inferInstanceAs (Decidable (_ ∧ _))

/-- `m(r)`, the part of a matrix.  It raises unless the rectangle lies inside. -/
def roi? (m : Mat α) (r : Rect) : Option (Mat α) :=
  if h : m.Fits r then
    some ⟨r.height.toNat, r.width.toNat, fun i j =>
      m.px ⟨r.y.toNat + i, by have := h.2; omega⟩ ⟨r.x.toNat + j, by have := h.1; omega⟩⟩
  else .none

theorem exists_roi? {m : Mat α} {r : Rect} (h : m.Fits r) : ∃ m', m.roi? r = some m' :=
  ⟨_, dif_pos h⟩

theorem fits_of_roi? {m m' : Mat α} {r : Rect} (h : m.roi? r = some m') :
    m.Fits r ∧ (m'.cols : Int) = r.width ∧ (m'.rows : Int) = r.height := by
  rw [roi?] at h
  split at h
  · rename_i hfits
    cases h
    exact ⟨hfits, Int.toNat_of_nonneg hfits.1.2.1, Int.toNat_of_nonneg hfits.2.2.1⟩
  · cases h

theorem empty_of_roi? {m m' : Mat α} {r : Rect} (h : m.roi? r = some m') :
    m'.empty = true ↔ r.Thin := by
  obtain ⟨-, hcols, hrows⟩ := fits_of_roi? h
  rw [empty, beq_iff_eq, Nat.mul_eq_zero, Rect.Thin]
  omega

theorem Fits.congr {β : Type} {m : Mat α} {m' : Mat β} {r : Rect} (h : m.Fits r)
    (hrows : m.rows = m'.rows) (hcols : m.cols = m'.cols) : m'.Fits r := by
  rw [Fits, ← hrows, ← hcols]
  exact h

/-- `m'` is `m` with the positions of `A` painted `c` and every other position
kept. -/
structure PaintedBy (A : Point → Prop) (c : α) (m m' : Mat α) : Prop where
  rows : m'.rows = m.rows
  cols : m'.cols = m.cols
  inside : ∀ p, A p → m.InBounds p → m'.at? p = some c
  outside : ∀ p, ¬ A p → m'.at? p = m.at? p

namespace PaintedBy

variable {A B : Point → Prop} {c : α} {m m' m'' : Mat α}

theorem inBounds_iff (h : PaintedBy A c m m') (p : Point) : m'.InBounds p ↔ m.InBounds p := by
  rw [InBounds, InBounds, h.rows, h.cols]

theorem refl (c : α) (m : Mat α) : PaintedBy (fun _ => False) c m m :=
  ⟨rfl, rfl, fun _ hp => hp.elim, fun _ _ => rfl⟩

theorem congr (h : PaintedBy A c m m') (hAB : ∀ p, A p ↔ B p) : PaintedBy B c m m' :=
  ⟨h.rows, h.cols, fun p hp => h.inside p ((hAB p).mpr hp),
    fun p hp => h.outside p (fun ha => hp ((hAB p).mp ha))⟩

/-- Only the positions inside the matrix count. -/
theorem congr_inBounds (h : PaintedBy A c m m') (hAB : ∀ p, m.InBounds p → (A p ↔ B p)) :
    PaintedBy B c m m' := by
  refine ⟨h.rows, h.cols, fun p hp hb => h.inside p ((hAB p hb).mpr hp) hb, fun p hp => ?_⟩
  by_cases hb : m.InBounds p
  · exact h.outside p fun ha => hp ((hAB p hb).mp ha)
  · rw [at?_eq_none.mpr hb, at?_eq_none.mpr fun hb' => hb ((h.inBounds_iff p).mp hb')]

/-- Painting `A` and then `B` paints their union. -/
theorem trans (h : PaintedBy A c m m') (h' : PaintedBy B c m' m'') :
    PaintedBy (fun p => A p ∨ B p) c m m'' := by
  refine ⟨h'.rows.trans h.rows, h'.cols.trans h.cols, ?_, ?_⟩
  · intro p hp hb
    by_cases hB : B p
    · exact h'.inside p hB ((h.inBounds_iff p).mpr hb)
    · rw [h'.outside p hB]
      exact h.inside p (hp.resolve_right hB) hb
  · intro p hp
    rw [h'.outside p (fun hB => hp (Or.inr hB)), h.outside p (fun hA => hp (Or.inl hA))]

/-- One write paints one position. -/
theorem of_set? {p : Point} (h : m.set? p c = some m') : PaintedBy (· = p) c m m' := by
  refine ⟨(set?_size h).1, (set?_size h).2, ?_, ?_⟩
  · intro q hq _
    rw [at?_set? h, if_pos hq]
  · intro q hq
    rw [at?_set? h, if_neg hq]

/-- Painting by a test of the position. -/
theorem of_mapAt (A : Point → Prop) [DecidablePred A] (c : α) (m : Mat α) :
    PaintedBy A c m (m.mapAt fun p v => if A p then c else v) := by
  refine ⟨rfl, rfl, ?_, ?_⟩
  · intro p hp hb
    obtain ⟨v, hv⟩ := exists_at? hb
    simp [at?_mapAt, hv, hp]
  · intro p hp
    simp [at?_mapAt, hp]

/-- A loop whose iterations paint paints what its iterations paint. -/
theorem foldlM {ι : Type} {f : Mat α → ι → Option (Mat α)} {A : ι → Point → Prop}
    (hf : ∀ i m m', f m i = some m' → PaintedBy (A i) c m m') :
    ∀ (l : List ι) {m m' : Mat α}, l.foldlM f m = some m' →
      PaintedBy (fun p => ∃ i ∈ l, A i p) c m m'
  | [], m, m', h => by
      cases h
      exact (refl c m).congr (by simp)
  | i :: l, m, m', h => by
      rw [List.foldlM_cons] at h
      obtain ⟨m₁, h₁, h₂⟩ := Option.bind_eq_some_iff.mp h
      exact ((hf i m m₁ h₁).trans (foldlM hf l h₂)).congr (by simp)

/-- Painting determines the result. -/
theorem unique (h : PaintedBy A c m m') (h' : PaintedBy A c m m'') : m' = m'' := by
  refine ext_at? (h.rows.trans h'.rows.symm) (h.cols.trans h'.cols.symm) (fun p => ?_)
  by_cases hA : A p
  · by_cases hb : m.InBounds p
    · rw [h.inside p hA hb, h'.inside p hA hb]
    · rw [at?_eq_none.mpr (fun hb' => hb ((h.inBounds_iff p).mp hb')),
        at?_eq_none.mpr (fun hb' => hb ((h'.inBounds_iff p).mp hb'))]
  · rw [h.outside p hA, h'.outside p hA]

end PaintedBy

/-- `m'` is `m` after paintings one over the other: a position shows the colour of
one of the paintings that cover it, or what `m` has there if none does. -/
structure LayeredBy {ι : Type} (l : List ι) (A : ι → Point → Prop) (c : ι → α) (m m' : Mat α) :
    Prop where
  rows : m'.rows = m.rows
  cols : m'.cols = m.cols
  covered : ∀ p, (∃ i ∈ l, A i p) → m.InBounds p → ∃ i ∈ l, A i p ∧ m'.at? p = some (c i)
  bare : ∀ p, (∀ i ∈ l, ¬ A i p) → m'.at? p = m.at? p

/-- A loop that paints in every iteration, each time in a colour of its own. -/
theorem LayeredBy.foldl {ι : Type} {f : Mat α → ι → Mat α} {A : ι → Point → Prop} {c : ι → α} :
    ∀ (l : List ι) (m : Mat α), (∀ i ∈ l, ∀ m, PaintedBy (A i) (c i) m (f m i)) →
      LayeredBy l A c m (l.foldl f m)
  | [], _, _ => ⟨rfl, rfl, fun _ ⟨_, hi, _⟩ => (List.not_mem_nil hi).elim, fun _ _ => rfl⟩
  | i :: l, m, hf => by
      have hi := hf i List.mem_cons_self m
      have ih := LayeredBy.foldl l (f m i) fun j hj => hf j (List.mem_cons_of_mem i hj)
      refine ⟨ih.rows.trans hi.rows, ih.cols.trans hi.cols, ?_, ?_⟩
      · intro p hp hb
        by_cases hl : ∃ j ∈ l, A j p
        · obtain ⟨j, hj, hA, hat⟩ := ih.covered p hl ((hi.inBounds_iff p).mpr hb)
          exact ⟨j, List.mem_cons_of_mem i hj, hA, hat⟩
        -- No later painting covers the position, so the colour of `i` stays.
        · have hA : A i p := by
            obtain ⟨j, hj, hA⟩ := hp
            rcases List.mem_cons.mp hj with rfl | hj
            · exact hA
            · exact (hl ⟨j, hj, hA⟩).elim
          refine ⟨i, List.mem_cons_self, hA, ?_⟩
          rw [List.foldl_cons, ih.bare p fun j hj hj' => hl ⟨j, hj, hj'⟩]
          exact hi.inside p hA hb
      · intro p hp
        obtain ⟨hA, hl⟩ := List.forall_mem_cons.mp hp
        rw [List.foldl_cons, ih.bare p hl, hi.outside p hA]

end Mat

end Gazosan
