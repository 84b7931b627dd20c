import Gazosan.Library.Outline
import Mathlib.Data.List.Perm.Basic
import Mathlib.Data.List.Sort

/-!
# Nested blocks

Blocks that are entered one inside another, as a forest: the first block, the
blocks inside it, and the blocks after it.  They are numbered in the order in
which they are entered, and the *enclosers* are the list of the blocks around
them, in that order.

The enclosers determine the forest: the blocks directly inside block `i` are the
numbers with encloser `i` (`enclosed_cases`).  So a depth-first walk that takes the
blocks inside a block in increasing order writes the forest as an outline
(`walk_entries`), and there is no other such walk (`Outline.Walk.unique`).
-/

namespace Blocks

/-- A forest of blocks. -/
inductive Block (α : Type*) where
  | nil
  | block (label : α) (inner rest : Block α)

variable {α : Type*}

namespace Block

/-- The number of blocks. -/
def size : Block α → Nat
  | nil => 0
  | block _ inner rest => inner.size + 1 + rest.size

/-- The labels, in the order of the entries. -/
def labels : Block α → List α
  | nil => []
  | block label inner rest => label :: (inner.labels ++ rest.labels)

/-- The outermost blocks, if the first one has number `n`. -/
def tops (n : Nat) : Block α → List Nat
  | nil => []
  | block _ inner rest => n :: rest.tops (n + 1 + inner.size)

/-- The block around each block, if all are inside `p`. -/
def enclosers (p : Option Nat) (n : Nat) : Block α → List (Option Nat)
  | nil => []
  | block _ inner rest =>
      p :: (inner.enclosers (some n) (n + 1) ++ rest.enclosers p (n + 1 + inner.size))

/-- The numbers with their depths. -/
def entries (n d : Nat) : Block α → List (Nat × Nat)
  | nil => []
  | block _ inner rest =>
      (n, d) :: (inner.entries (n + 1) (d + 1) ++ rest.entries (n + 1 + inner.size) d)

/-- The labels with their depths. -/
def outline (d : Nat) : Block α → List (α × Nat)
  | nil => []
  | block label inner rest => (label, d) :: (inner.outline (d + 1) ++ rest.outline d)

@[simp] theorem length_labels (t : Block α) : t.labels.length = t.size := by
  induction t with
  | nil => rfl
  | block label inner rest ihInner ihRest =>
      simp only [labels, size, List.length_cons, List.length_append, ihInner, ihRest]
      omega

@[simp] theorem length_enclosers (t : Block α) (p : Option Nat) (n : Nat) :
    (t.enclosers p n).length = t.size := by
  induction t generalizing p n with
  | nil => rfl
  | block label inner rest ihInner ihRest =>
      simp only [enclosers, size, List.length_cons, List.length_append, ihInner, ihRest]
      omega

theorem mem_tops {t : Block α} {n c : Nat} (h : c ∈ t.tops n) : n ≤ c ∧ c < n + t.size := by
  induction t generalizing n with
  | nil => cases h
  | block label inner rest _ ihRest =>
      simp only [size]
      rcases List.mem_cons.mp h with rfl | h
      · omega
      · have := ihRest h
        omega

theorem pairwise_tops (t : Block α) (n : Nat) : (t.tops n).Pairwise (· < ·) := by
  induction t generalizing n with
  | nil => exact .nil
  | block label inner rest _ ihRest =>
      refine .cons ?_ (ihRest _)
      intro c hc
      have := mem_tops hc
      omega

/-- The blocks are numbered one after another. -/
theorem map_fst_entries (t : Block α) (n d : Nat) :
    (t.entries n d).map Prod.fst = List.range' n t.size := by
  induction t generalizing n d with
  | nil => rfl
  | block label inner rest ihInner ihRest =>
      rw [entries, List.map_cons, List.map_append, ihInner, ihRest, size, List.range'_append_1]
      rw [show inner.size + 1 + rest.size = inner.size + rest.size + 1 by omega,
        List.range'_succ]

/-- The labels of the entries are the outline. -/
theorem map_entries {β : Type*} (f : α → β) (labelOf : Nat → β) (t : Block α) (n d : Nat)
    (h : ∀ (k : Nat) (label : α), t.labels[k]? = some label → labelOf (n + k) = f label) :
    (t.entries n d).map (fun e => (labelOf e.1, e.2)) =
      (t.outline d).map fun e => (f e.1, e.2) := by
  induction t generalizing n d with
  | nil => rfl
  | block label inner rest ihInner ihRest =>
      have hself : labelOf n = f label := h 0 label rfl
      have hinner := ihInner (n + 1) (d + 1) fun k l hl => by
        have hk : k < inner.labels.length := (List.getElem?_eq_some_iff.mp hl).1
        rw [Nat.add_assoc, Nat.add_comm 1 k]
        refine h (k + 1) l ?_
        rw [labels, List.getElem?_cons_succ, List.getElem?_append_left hk, hl]
      have hrest := ihRest (n + 1 + inner.size) d fun k l hl => by
        rw [show n + 1 + inner.size + k = n + (inner.size + k + 1) by omega]
        refine h (inner.size + k + 1) l ?_
        rw [labels, List.getElem?_cons_succ, List.getElem?_append_right (by simp)]
        simpa using hl
      simp only [entries, outline, List.map_cons, List.map_append, hself, hinner, hrest]

end Block

open Block

/-! ## Which blocks are inside a block -/

/-- The blocks `n, n + 1, …` of the forest have the enclosers that `enc` says. -/
def Numbered (enc : Nat → Option Nat) (p : Option Nat) (n : Nat) : Block α → Prop
  | nil => True
  | block _ inner rest =>
      enc n = p ∧ Numbered enc (some n) (n + 1) inner ∧ Numbered enc p (n + 1 + inner.size) rest

theorem numbered_of_enclosers {enc : Nat → Option Nat} {p : Option Nat} {n : Nat} {t : Block α}
    (h : ∀ (k : Nat) (e : Option Nat), (t.enclosers p n)[k]? = some e → enc (n + k) = e) :
    Numbered enc p n t := by
  induction t generalizing p n with
  | nil => trivial
  | block label inner rest ihInner ihRest =>
      refine ⟨h 0 p rfl, ihInner fun k e he => ?_, ihRest fun k e he => ?_⟩
      · have hk : k < (inner.enclosers (some n) (n + 1)).length :=
          (List.getElem?_eq_some_iff.mp he).1
        rw [Nat.add_assoc, Nat.add_comm 1 k]
        refine h (k + 1) e ?_
        rw [enclosers, List.getElem?_cons_succ, List.getElem?_append_left hk, he]
      · rw [show n + 1 + inner.size + k = n + (inner.size + k + 1) by omega]
        refine h (inner.size + k + 1) e ?_
        rw [enclosers, List.getElem?_cons_succ, List.getElem?_append_right (by simp)]
        simpa using he

section

variable {enc : Nat → Option Nat} {p : Option Nat} {n : Nat} {t : Block α}

/-- An outermost block has the given encloser, any other block one of the forest. -/
theorem Numbered.cases (h : Numbered enc p n t) {c : Nat} (hc : n ≤ c) (hlt : c < n + t.size) :
    c ∈ t.tops n ∧ enc c = p ∨ c ∉ t.tops n ∧ ∃ q, enc c = some q ∧ n ≤ q ∧ q < n + t.size := by
  induction t generalizing p n with
  | nil =>
      simp only [size] at hlt
      omega
  | block label inner rest ihInner ihRest =>
      obtain ⟨hself, hinner, hrest⟩ := h
      simp only [size] at hlt ⊢
      rcases Nat.eq_or_lt_of_le hc with rfl | hc
      · exact .inl ⟨List.mem_cons_self, hself⟩
      · rcases Nat.lt_or_ge c (n + 1 + inner.size) with hin | hout
        · have hnot : c ∉ (block label inner rest).tops n := by
            intro hmem
            rcases List.mem_cons.mp hmem with rfl | hmem
            · omega
            · have := mem_tops hmem
              omega
          refine .inr ⟨hnot, ?_⟩
          rcases ihInner hinner hc hin with ⟨-, he⟩ | ⟨-, q, he, hq, hqlt⟩
          · exact ⟨n, he, Nat.le_refl n, by omega⟩
          · exact ⟨q, he, by omega, by omega⟩
        · rcases ihRest hrest hout (by omega) with ⟨hmem, he⟩ | ⟨hnot, q, he, hq, hqlt⟩
          · exact .inl ⟨List.mem_cons_of_mem n hmem, he⟩
          · refine .inr ⟨?_, q, he, by omega, by omega⟩
            intro hmem
            rcases List.mem_cons.mp hmem with rfl | hmem
            · omega
            · exact hnot hmem

/-- Blocks that are inside a block of the forest belong to the forest. -/
def Closed (enc : Nat → Option Nat) (n m : Nat) : Prop :=
  ∀ c q, enc c = some q → n ≤ q → q < m → n ≤ c ∧ c < m

/-- Where the blocks directly inside one of the forest are. -/
theorem enclosed_cases {label : α} {inner rest : Block α}
    (h : Numbered enc p n (block label inner rest)) (hp : ∀ q ∈ p, q < n)
    (hclosed : Closed enc n (n + (block label inner rest).size)) {c q : Nat}
    (hq : enc c = some q) (hn : n ≤ q) (hlt : q < n + (block label inner rest).size) :
    q = n ∧ c ∈ inner.tops (n + 1) ∨
      (n + 1 ≤ q ∧ q < n + 1 + inner.size) ∧ n + 1 ≤ c ∧ c < n + 1 + inner.size ∨
      n + 1 + inner.size ≤ q ∧ n + 1 + inner.size ≤ c ∧ c < n + 1 + inner.size + rest.size := by
  obtain ⟨hself, hinner, hrest⟩ := h
  have hc := hclosed c q hq hn hlt
  simp only [size] at hc
  have hnot : p ≠ some q := by
    rintro rfl
    have := hp q rfl
    omega
  rcases Nat.eq_or_lt_of_le hc.1 with rfl | hlt'
  · exact absurd (hself.symm.trans hq) hnot
  · rcases Nat.lt_or_ge c (n + 1 + inner.size) with hin | hout
    · rcases hinner.cases hlt' hin with ⟨hmem, he⟩ | ⟨-, q', he, hq', hqlt'⟩
      · rw [hq, Option.some.injEq] at he
        exact .inl ⟨he, hmem⟩
      · rw [hq, Option.some.injEq] at he
        subst he
        exact .inr (.inl ⟨⟨hq', hqlt'⟩, hlt', hin⟩)
    · rcases hrest.cases hout (by omega) with ⟨-, he⟩ | ⟨-, q', he, hq', hqlt'⟩
      · exact absurd (he.symm.trans hq) hnot
      · rw [hq, Option.some.injEq] at he
        subst he
        exact .inr (.inr ⟨hq', hout, by omega⟩)

/-- If the blocks inside a block are walked in increasing order, the walk writes the
forest as an outline. -/
theorem walk_entries {order : Nat → List Nat → Prop}
    (horder : ∀ i children, children.Pairwise (· < ·) →
      (∀ c, c ∈ children ↔ enc c = some i) → order i children)
    (h : Numbered enc p n t) (hp : ∀ q ∈ p, q < n) (hclosed : Closed enc n (n + t.size))
    (d : Nat) : Outline.Walk order (t.tops n) d (t.entries n d) := by
  induction t generalizing p n d with
  | nil => exact .nil
  | block label inner rest ihInner ihRest =>
      have hcases {c q : Nat} := enclosed_cases h hp hclosed (c := c) (q := q)
      simp only [size] at hcases
      obtain ⟨hself, hinner, hrest⟩ := h
      refine .cons (horder n _ (pairwise_tops inner (n + 1)) fun c => ⟨?_, ?_⟩)
        (ihInner hinner ?_ ?_ (d + 1)) (ihRest hrest ?_ ?_ d)
      · intro hmem
        have hc := mem_tops hmem
        rcases hinner.cases hc.1 hc.2 with ⟨-, he⟩ | ⟨hnot, -⟩
        · exact he
        · exact absurd hmem hnot
      · intro he
        rcases hcases he (Nat.le_refl n) (by omega) with ⟨-, hmem⟩ | ⟨hq, -⟩ | ⟨hq, -⟩
        · exact hmem
        · omega
        · omega
      · rintro q ⟨⟩
        exact Nat.lt_succ_self n
      · intro c q he hq hlt
        rcases hcases he (by omega) (by omega) with ⟨rfl, -⟩ | ⟨-, hc⟩ | ⟨hq', -⟩
        · omega
        · exact hc
        · omega
      · intro q hq
        have := hp q hq
        omega
      · intro c q he hq hlt
        rcases hcases he (by omega) (by omega) with ⟨rfl, -⟩ | ⟨hq', -⟩ | ⟨-, hc⟩
        · omega
        · omega
        · exact hc

/-- In a forest that is all there is, the outermost blocks are those without an
encloser. -/
theorem mem_tops_iff (h : Numbered enc none 0 t) {c : Nat} (hc : c < t.size) :
    c ∈ t.tops 0 ↔ enc c = none := by
  rcases h.cases (Nat.zero_le c) (by omega) with ⟨hmem, he⟩ | ⟨hnot, q, he, -⟩
  · simp [hmem, he]
  · simp [hnot, he]

end

end Blocks
