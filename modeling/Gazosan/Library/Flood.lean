import Mathlib.Data.Set.Card
import Mathlib.Logic.Relation

/-!
# Flood fill with a queue

A flood fill takes a node from the front of a queue, and visits the neighbours
of the node: a neighbour that is alive dies and joins the queue.  The node from
which the fill starts is alive and stays so until a neighbour finds it.

`Inv` is kept by every round (`Inv.round`) and says at the end that the nodes
that died are those that can be reached from the start in one step or more
(`Inv.mem_alive_iff`).  Every round uses up one unit of `size`, so the fill ends
(`size_round`).  For a symmetric neighbourhood, the nodes that die are the
whole component of the start, or none if the start is alone
(`transGen_iff_reflTransGen`).
-/

namespace Flood

variable {V : Type*}

/-- The nodes that are alive and the nodes that wait. -/
structure State (V : Type*) where
  alive : Set V
  queue : List V

open Classical in
/-- Visit one node. -/
noncomputable def visit (st : State V) (n : V) : State V :=
  if n ∈ st.alive then ⟨st.alive \ {n}, st.queue ++ [n]⟩ else st

theorem visit_of_mem {st : State V} {n : V} (h : n ∈ st.alive) :
    visit st n = ⟨st.alive \ {n}, st.queue ++ [n]⟩ :=
  if_pos h

theorem visit_of_not_mem {st : State V} {n : V} (h : n ∉ st.alive) : visit st n = st :=
  if_neg h

/-- Visit the neighbours of `p` after `p` has left the queue. -/
noncomputable def round (nbrs : V → List V) (alive : Set V) (p : V) (queue : List V) : State V :=
  (nbrs p).foldl visit ⟨alive, queue⟩

/-- What is left to do. -/
noncomputable def State.size (st : State V) : Nat := st.alive.ncard + st.queue.length

/-! ## One round -/

theorem foldl_visit_alive (ns : List V) (st : State V) :
    (ns.foldl visit st).alive = st.alive \ {n | n ∈ ns} := by
  induction ns generalizing st with
  | nil => simp
  | cons n ns ih =>
      rw [List.foldl_cons, ih]
      by_cases h : n ∈ st.alive
      · ext v
        simp only [visit_of_mem h, Set.mem_sdiff, Set.mem_singleton_iff, Set.mem_ofPred_eq,
          List.mem_cons, not_or, and_assoc]
      · ext v
        have hne : v ∈ st.alive → v ≠ n := fun hv he => h (he ▸ hv)
        simp only [visit_of_not_mem h, Set.mem_sdiff, Set.mem_ofPred_eq, List.mem_cons, not_or]
        tauto

theorem mem_foldl_visit_queue (ns : List V) (st : State V) (v : V) :
    v ∈ (ns.foldl visit st).queue ↔ v ∈ st.queue ∨ v ∈ ns ∧ v ∈ st.alive := by
  induction ns generalizing st with
  | nil => simp
  | cons n ns ih =>
      rw [List.foldl_cons, ih]
      by_cases h : n ∈ st.alive
      · simp only [visit_of_mem h, List.mem_append, Set.mem_sdiff, Set.mem_singleton_iff,
          List.mem_cons]
        by_cases hv : v = n
        · simp [hv, h]
        · simp [hv]
      · simp only [visit_of_not_mem h, List.mem_cons]
        by_cases hv : v = n
        · simp [hv, h]
        · simp [hv]

theorem size_foldl_visit (ns : List V) (st : State V) (hfin : st.alive.Finite) :
    (ns.foldl visit st).size = st.size := by
  induction ns generalizing st with
  | nil => rfl
  | cons n ns ih =>
      rw [List.foldl_cons]
      by_cases h : n ∈ st.alive
      · have hcard := Set.ncard_sdiff_singleton_add_one h hfin
        rw [visit_of_mem h, ih _ hfin.sdiff]
        simp only [State.size, List.length_append, List.length_singleton]
        omega
      · rw [visit_of_not_mem h, ih _ hfin]

/-- A round uses up one unit. -/
theorem size_round {nbrs : V → List V} {alive : Set V} (hfin : alive.Finite) (p : V)
    (queue : List V) : (round nbrs alive p queue).size + 1 = State.size ⟨alive, p :: queue⟩ := by
  rw [round, size_foldl_visit _ _ hfin]
  rfl

/-! ## The invariant -/

/-- One step between neighbours, to a node of `A`. -/
def Link (nbrs : V → List V) (A : Set V) (a b : V) : Prop := b ∈ nbrs a ∧ b ∈ A

section

variable {nbrs : V → List V} {A : Set V} {s : V}

/-- The start, and the nodes that have died. -/
def Touched (A : Set V) (s : V) (st : State V) (v : V) : Prop := v = s ∨ v ∈ A ∧ v ∉ st.alive

/-- The nodes that have died were reached, those that wait were touched, and
around a touched node that does not wait nothing is alive. -/
structure Inv (nbrs : V → List V) (A : Set V) (s : V) (st : State V) : Prop where
  subset : st.alive ⊆ A
  reached : ∀ v ∈ A, v ∉ st.alive → Relation.TransGen (Link nbrs A) s v
  waiting : ∀ v ∈ st.queue, Touched A s st v
  done : ∀ v, Touched A s st v → v ∉ st.queue → ∀ n ∈ nbrs v, n ∉ st.alive

theorem Inv.init : Inv nbrs A s ⟨A, [s]⟩ where
  subset := subset_rfl
  reached v hv hn := absurd hv hn
  waiting v hv := .inl (List.mem_singleton.mp hv)
  done v hv hq := by
    rcases hv with rfl | ⟨hv, hn⟩
    · exact absurd (List.mem_singleton_self v) hq
    · exact absurd hv hn

theorem Inv.round {alive : Set V} {p : V} {queue : List V}
    (h : Inv nbrs A s ⟨alive, p :: queue⟩) : Inv nbrs A s (round nbrs alive p queue) := by
  have halive : (Flood.round nbrs alive p queue).alive = alive \ {n | n ∈ nbrs p} :=
    foldl_visit_alive _ _
  have hqueue : ∀ v, v ∈ (Flood.round nbrs alive p queue).queue ↔
      v ∈ queue ∨ v ∈ nbrs p ∧ v ∈ alive := mem_foldl_visit_queue _ _
  refine ⟨?_, ?_, ?_, ?_⟩
  · rw [halive]
    exact Set.sdiff_subset.trans h.subset
  · intro v hv hn
    by_cases hva : v ∈ alive
    · -- `v` died in this round, so it is a neighbour of `p`
      have hnbr : v ∈ nbrs p := by
        by_contra hnot
        exact hn (halive ▸ ⟨hva, hnot⟩)
      rcases h.waiting p List.mem_cons_self with rfl | ⟨hp, hpn⟩
      · exact .single ⟨hnbr, hv⟩
      · exact (h.reached p hp hpn).tail ⟨hnbr, hv⟩
    · exact h.reached v hv hva
  · intro v hv
    rcases (hqueue v).mp hv with hv | ⟨hnbr, hva⟩
    · rcases h.waiting v (List.mem_cons_of_mem p hv) with rfl | ⟨hvA, hvn⟩
      · exact .inl rfl
      · exact .inr ⟨hvA, fun hmem => hvn (halive ▸ hmem : v ∈ alive \ _).1⟩
    · exact .inr ⟨h.subset hva, fun hmem => (halive ▸ hmem : v ∈ alive \ _).2 hnbr⟩
  · intro v hv hq n hn hmem
    rw [halive] at hmem
    rw [hqueue, not_or] at hq
    by_cases hvp : v = p
    · exact hmem.2 (hvp ▸ hn)
    · have htouched : Touched A s ⟨alive, p :: queue⟩ v := by
        rcases hv with rfl | ⟨hvA, hvn⟩
        · exact .inl rfl
        · refine .inr ⟨hvA, fun hva => hvn ?_⟩
          rw [halive]
          exact ⟨hva, fun hnbr => hq.2 ⟨hnbr, hva⟩⟩
      exact h.done v htouched (by simp [hvp, hq.1]) n hn hmem.1

theorem mem_of_transGen {v : V} (h : Relation.TransGen (Link nbrs A) s v) : v ∈ A := by
  cases h with
  | single hlink => exact hlink.2
  | tail _ hlink => exact hlink.2

/-- When the queue is empty, exactly the nodes that can be reached have died. -/
theorem Inv.mem_alive_iff {alive : Set V} (h : Inv nbrs A s ⟨alive, []⟩) (v : V) :
    v ∈ alive ↔ v ∈ A ∧ ¬ Relation.TransGen (Link nbrs A) s v := by
  constructor
  · intro hv
    refine ⟨h.subset hv, fun hreach => ?_⟩
    suffices hdead : v ∉ alive from hdead hv
    clear hv
    induction hreach with
    | single hlink => exact h.done s (.inl rfl) List.not_mem_nil _ hlink.1
    | tail hab hlink ih =>
        exact h.done _ (.inr ⟨mem_of_transGen hab, ih⟩) List.not_mem_nil _ hlink.1
  · rintro ⟨hv, hnot⟩
    by_contra hn
    exact hnot (h.reached v hv hn)

/-! ## Components -/

/-- A step in a symmetric neighbourhood can be taken back. -/
theorem transGen_iff_reflTransGen (hsymm : ∀ a b, b ∈ nbrs a → a ∈ nbrs b) (hs : s ∈ A) {n : V}
    (hn : Link nbrs A s n) (v : V) :
    Relation.TransGen (Link nbrs A) s v ↔ Relation.ReflTransGen (Link nbrs A) s v := by
  constructor
  · exact Relation.TransGen.to_reflTransGen
  · intro h
    have hback : Link nbrs A n s := ⟨hsymm s n hn.1, hs⟩
    exact ((Relation.TransGen.single hn).tail hback).trans_left h

theorem reflTransGen_symm (hsymm : ∀ a b, b ∈ nbrs a → a ∈ nbrs b) (hs : s ∈ A) {v : V}
    (h : Relation.ReflTransGen (Link nbrs A) s v) :
    v ∈ A ∧ Relation.ReflTransGen (Link nbrs A) v s := by
  induction h with
  | refl => exact ⟨hs, .refl⟩
  | tail _ hlink ih => exact ⟨hlink.2, .head ⟨hsymm _ _ hlink.1, ih.1⟩ ih.2⟩

end

end Flood
