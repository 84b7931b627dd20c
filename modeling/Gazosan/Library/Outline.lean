import Mathlib.Data.List.Count
import Mathlib.Data.List.Nodup

/-!
# Outlines

A depth-first walk over a forest writes one row per visit: the node and its
depth.  `Walk order vs d rows` says that `rows` is what a walk writes that
visits the nodes `vs` at depth `d`, each followed by the walk over its children
one level deeper, in an order that `order` allows.

Nothing is assumed about the shape of what is walked over.  If the children of
a node are the nodes with that parent, each once, then the number of visits of
a node is the number of visits of its parent, plus one for each time it stands
in `vs` (`Walk.count_of_parent`).  From that equation follow that a forest is
visited once per node (`Walk.perm`), that a row stands below the row of its
parent (`Walk.under`), and that siblings come in the order of the walk
(`Walk.pairwise_siblings`).
-/

namespace Outline

variable {V : Type*}

/-- A depth-first walk over the nodes `vs` at depth `d`. -/
inductive Walk (order : V → List V → Prop) : List V → Nat → List (V × Nat) → Prop
  | nil {d} : Walk order [] d []
  | cons {v vs children d below rest} (h : order v children)
      (hbelow : Walk order children (d + 1) below) (hrest : Walk order vs d rest) :
      Walk order (v :: vs) d ((v, d) :: (below ++ rest))

/-- The nodes of an outline, in the order of the rows. -/
def nodes (rows : List (V × Nat)) : List V := rows.map Prod.fst

@[simp] theorem nodes_nil : nodes ([] : List (V × Nat)) = [] := rfl

@[simp] theorem nodes_cons (r : V × Nat) (rows : List (V × Nat)) :
    nodes (r :: rows) = r.1 :: nodes rows := rfl

@[simp] theorem nodes_append (xs ys : List (V × Nat)) :
    nodes (xs ++ ys) = nodes xs ++ nodes ys :=
  List.map_append

theorem Walk.append {order : V → List V → Prop} {vs ws : List V} {d : Nat}
    {rows more : List (V × Nat)} (h : Walk order vs d rows) (h' : Walk order ws d more) :
    Walk order (vs ++ ws) d (rows ++ more) := by
  induction h with
  | nil => exact h'
  | cons h hbelow hrest _ ih =>
      have := Walk.cons h hbelow (ih h')
      simpa using this

/-- There is one walk if there is one order. -/
theorem Walk.unique {order : V → List V → Prop}
    (huniq : ∀ v children children', order v children → order v children' → children = children')
    {vs : List V} {d : Nat} {rows rows' : List (V × Nat)} (h : Walk order vs d rows)
    (h' : Walk order vs d rows') : rows = rows' := by
  induction h generalizing rows' with
  | nil =>
      cases h'
      rfl
  | cons h hbelow hrest ihbelow ihrest =>
      cases h' with
      | cons hother hbelow' hrest' =>
          obtain rfl := huniq _ _ _ h hother
          rw [ihbelow hbelow', ihrest hrest']

/-! ## Visits -/

section

variable [DecidableEq V] {parent : V → Option V} {order : V → List V → Prop}

/-- The children of a node are the nodes with that parent, each once. -/
def Mirrors (parent : V → Option V) (order : V → List V → Prop) : Prop :=
  ∀ v children, order v children → ∀ c, children.count c = if parent c = some v then 1 else 0

theorem Mirrors.parent_eq (hm : Mirrors parent order) {v c : V} {children : List V}
    (h : order v children) (hc : c ∈ children) : parent c = some v := by
  by_contra hne
  have := hm v children h c
  rw [if_neg hne] at this
  exact List.count_eq_zero.mp this hc

/-- A node without a parent is visited where the walk starts, and nowhere else. -/
theorem Walk.count_of_root (hm : Mirrors parent order) {vs : List V} {d : Nat}
    {rows : List (V × Nat)} (h : Walk order vs d rows) {c : V} (hc : parent c = none) :
    (nodes rows).count c = vs.count c := by
  induction h with
  | nil => rfl
  | cons h hbelow hrest ihbelow ihrest =>
      have hzero := hm _ _ h c
      rw [hc, if_neg nofun] at hzero
      simp only [nodes_cons, nodes_append, List.count_cons, List.count_append]
      omega

/-- Any other node is visited once more for each visit of its parent. -/
theorem Walk.count_of_parent (hm : Mirrors parent order) {vs : List V} {d : Nat}
    {rows : List (V × Nat)} (h : Walk order vs d rows) {c p : V} (hc : parent c = some p) :
    (nodes rows).count c = vs.count c + (nodes rows).count p := by
  induction h with
  | nil => rfl
  | @cons v _ _ _ _ _ h hbelow hrest ihbelow ihrest =>
      have hone := hm _ _ h c
      simp only [hc, Option.some.injEq] at hone
      simp only [nodes_cons, nodes_append, List.count_cons, List.count_append, beq_iff_eq,
        eq_comm (b := p)]
      omega

/-- A walk that starts at every root visits every node once. -/
theorem Walk.perm (hm : Mirrors parent order) (rank : V → Nat)
    (hrank : ∀ c p, parent c = some p → rank p < rank c) {vs all : List V} {d : Nat}
    {rows : List (V × Nat)} (h : Walk order vs d rows) (hnodup : all.Nodup)
    (hclosed : ∀ c p, parent c = some p → (c ∈ all ∧ p ∈ all))
    (hvs : ∀ c, vs.count c = if c ∈ all ∧ parent c = none then 1 else 0) :
    (nodes rows).Perm all := by
  rw [List.perm_iff_count]
  intro c
  induction hr : rank c using Nat.strongRecOn generalizing c with
  | _ r ih =>
      cases hp : parent c with
      | none =>
          rw [h.count_of_root hm hp, hvs c, hnodup.count]
          simp [hp]
      | some p =>
          have hc := hclosed c p hp
          rw [h.count_of_parent hm hp, hvs c, ih (rank p) (hr ▸ hrank c p hp) p rfl,
            hnodup.count, hnodup.count]
          simp [hp, hc]

/-! ## Rows under their parents -/

omit [DecidableEq V] in
theorem Walk.depth_le {vs : List V} {d : Nat} {rows : List (V × Nat)}
    (h : Walk order vs d rows) : ∀ r ∈ rows, d ≤ r.2 := by
  induction h with
  | nil => nofun
  | cons h hbelow hrest ihbelow ihrest =>
      intro r hr
      rcases List.mem_cons.mp hr with rfl | hr
      · exact Nat.le_refl _
      · rcases List.mem_append.mp hr with hr | hr
        · exact Nat.le_of_succ_le (ihbelow r hr)
        · exact ihrest r hr

/-- Among the rows before it, a row finds its parent one level up, with only
deeper rows in between. -/
def Under (parent : V → Option V) (before : List (V × Nat)) (row : V × Nat) : Prop :=
  ∃ p a f b, parent row.1 = some p ∧ before = a ++ (p, f) :: b ∧ row.2 = f + 1 ∧ ∀ r ∈ b, f < r.2

omit [DecidableEq V] in
theorem Under.append {before : List (V × Nat)} {row : V × Nat} (h : Under parent before row)
    (more : List (V × Nat)) : Under parent (more ++ before) row := by
  obtain ⟨p, a, f, b, hp, rfl, hd, hb⟩ := h
  exact ⟨p, more ++ a, f, b, hp, (List.append_assoc ..).symm, hd, hb⟩

/-- A row either belongs to a node the walk starts from or stands under its parent. -/
theorem Walk.under (hm : Mirrors parent order) {vs : List V} {d : Nat} {rows : List (V × Nat)}
    (h : Walk order vs d rows) {before after : List (V × Nat)} {row : V × Nat}
    (hrow : rows = before ++ row :: after) :
    row.1 ∈ vs ∧ row.2 = d ∨ Under parent before row := by
  induction h generalizing before after with
  | nil => exact absurd hrow.symm (List.append_ne_nil_of_right_ne_nil _ (List.cons_ne_nil _ _))
  | @cons v vs children d below rest h hbelow hrest ihbelow ihrest =>
      cases before with
      | nil =>
          cases hrow
          exact .inl ⟨List.mem_cons_self, rfl⟩
      | cons head before =>
          rw [List.cons_append, List.cons.injEq] at hrow
          obtain ⟨rfl, hrow⟩ := hrow
          -- the row lies in the walk over the children or in the rest
          rcases List.append_eq_append_iff.mp hrow with ⟨mid, rfl, hmid⟩ | ⟨mid, hmid, hafter⟩
          · rcases ihrest hmid with ⟨hvs, hd⟩ | hunder
            · exact .inl ⟨List.mem_cons_of_mem _ hvs, hd⟩
            · exact .inr (hunder.append ((v, d) :: below))
          · cases mid with
            | nil =>
                rw [List.append_nil] at hmid
                subst hmid
                have hrest : rest = [] ++ row :: after := hafter.symm
                rcases ihrest hrest with ⟨hvs, hd⟩ | ⟨_, a, _, _, _, hnil, _⟩
                · exact .inl ⟨List.mem_cons_of_mem _ hvs, hd⟩
                · exact absurd hnil.symm
                    (List.append_ne_nil_of_right_ne_nil _ (List.cons_ne_nil _ _))
            | cons first mid =>
                rw [List.cons_append, List.cons.injEq] at hafter
                obtain ⟨rfl, rfl⟩ := hafter
                rcases ihbelow hmid with ⟨hmem, hd⟩ | hunder
                · refine .inr ⟨v, [], d, before, hm.parent_eq h hmem, rfl, hd, ?_⟩
                  intro r hr
                  exact hbelow.depth_le r (by rw [hmid]; exact List.mem_append_left _ hr)
                · exact .inr (hunder.append [(v, d)])

/-! ## Siblings -/

/-- A visited node is one the walk starts from, or its parent is visited. -/
theorem Walk.parent_mem (hm : Mirrors parent order) {vs : List V} {d : Nat}
    {rows : List (V × Nat)} (h : Walk order vs d rows) {c p : V} (hp : parent c = some p)
    (hc : c ∈ nodes rows) : c ∈ vs ∨ p ∈ nodes rows := by
  have hpos := List.count_pos_iff.mpr hc
  rw [h.count_of_parent hm hp] at hpos
  rcases Nat.eq_zero_or_pos (vs.count c) with hzero | hvs
  · exact .inr (List.count_pos_iff.mp (by omega))
  · exact .inl (List.count_pos_iff.mp hvs)

/-- If nothing is visited twice, the walk does not start from a node whose
parent it visits. -/
theorem Walk.parent_not_mem (hm : Mirrors parent order) {vs : List V} {d : Nat}
    {rows : List (V × Nat)} (h : Walk order vs d rows) (hnodup : (nodes rows).Nodup) {c p : V}
    (hp : parent c = some p) (hc : c ∈ vs) : p ∉ nodes rows := by
  intro hmem
  have hone := List.nodup_iff_count_le_one.mp hnodup c
  have hvs := List.count_pos_iff.mpr hc
  have hrows := List.count_pos_iff.mpr hmem
  rw [h.count_of_parent hm hp] at hone
  omega

/-- Nodes with the same parent are in order. -/
def SiblingsLe (parent : V → Option V) (le : V → V → Prop) (x y : V) : Prop :=
  ∀ p, parent x = some p → parent y = some p → le x y

/-- If nothing is visited twice, siblings are visited in the order of the walk. -/
theorem Walk.pairwise_siblings (hm : Mirrors parent order) {le : V → V → Prop}
    (hle : ∀ v children, order v children → children.Pairwise le) {vs : List V} {d : Nat}
    {rows : List (V × Nat)} (h : Walk order vs d rows) (hnodup : (nodes rows).Nodup)
    (hvs : vs.Pairwise (SiblingsLe parent le)) :
    (nodes rows).Pairwise (SiblingsLe parent le) := by
  induction h with
  | nil => exact .nil
  | @cons v vs children d below rest h hbelow hrest ihbelow ihrest =>
      have hnot {c p : V} := Walk.parent_not_mem hm (.cons h hbelow hrest) hnodup (c := c) (p := p)
      rw [nodes_cons, nodes_append, List.nodup_cons, List.nodup_append] at hnodup
      obtain ⟨hv, hbelowNodup, hrestNodup, hdisjoint⟩ := hnodup
      rw [List.pairwise_cons] at hvs
      rw [nodes_cons, nodes_append, List.pairwise_cons, List.pairwise_append]
      refine ⟨?_, ihbelow hbelowNodup ((hle v children h).imp fun h _ _ _ => h),
        ihrest hrestNodup hvs.2, ?_⟩
      · -- the parent of `v` is not visited, so only another start can share it
        intro y hy p hpv hpy
        have hp := hnot hpv List.mem_cons_self
        rw [nodes_cons, nodes_append, List.mem_cons, List.mem_append, not_or, not_or] at hp
        rcases List.mem_append.mp hy with hy | hy
        · rcases hbelow.parent_mem hm hpy hy with hy | hy
          · rw [hm.parent_eq h hy, Option.some.injEq] at hpy
            exact absurd hpy.symm hp.1
          · exact absurd hy hp.2.1
        · rcases hrest.parent_mem hm hpy hy with hy | hy
          · exact hvs.1 y hy p hpv hpy
          · exact absurd hy hp.2.2
      · -- the parent of a node below `v` is `v` or below it, and so not in the rest
        intro x hx y hy p hpx hpy
        have hp : p ∈ nodes ((v, d) :: (below ++ rest)) ∧ p ∉ nodes rest := by
          rcases hbelow.parent_mem hm hpx hx with hx | hx
          · rw [hm.parent_eq h hx, Option.some.injEq] at hpx
            subst hpx
            exact ⟨List.mem_cons_self, fun hmem => hv (List.mem_append_right _ hmem)⟩
          · refine ⟨List.mem_cons_of_mem _ ?_, fun hmem => hdisjoint p hx p hmem rfl⟩
            rw [← nodes, nodes_append]
            exact List.mem_append_left _ hx
        rcases hrest.parent_mem hm hpy hy with hy | hy
        · exact absurd hp.1 (hnot hpy (List.mem_cons_of_mem _ hy))
        · exact absurd hy hp.2

end

end Outline
