import Mathlib.Data.Fintype.Card
import Mathlib.Order.RelClasses
import Mathlib.Tactic.Common

/-!
# Linked lists in a table

The entries of a table are linked to the next and to the previous entry of
their list.  `Table` has both links, each the inverse of the other, and a link
to the next entry goes up in the table.  The table holds any number of lists.

`Chain next i is` says that `is` are the entries from `i` to the end of its
list.  A chain exists if the order has no infinite ascent (`Table.exists_chain`),
and it is ascending (`Chain.pairwise`).  Which entries it has is found backwards:
if a property is kept by links in both directions, and `i` is the only entry with
it that has no previous one, the chain from `i` has all entries with the property
(`Chain.mem_iff`).
-/

namespace Links

variable {ι : Type*}

/-- The links of a table, in both directions. -/
structure Table (ι : Type*) [LT ι] where
  next : ι → Option ι
  previous : ι → Option ι
  inverse : ∀ i j, next i = some j ↔ previous j = some i
  ascending : ∀ i j, next i = some j → i < j

/-- The entries from `i` to the end of its list. -/
inductive Chain (next : ι → Option ι) : ι → List ι → Prop
  | last {i} (h : next i = none) : Chain next i [i]
  | link {i j is} (h : next i = some j) (hrest : Chain next j is) : Chain next i (i :: is)

namespace Chain

variable {next : ι → Option ι} {i j k : ι} {is : List ι}

theorem mem_start (h : Chain next i is) : i ∈ is := by
  cases h with
  | last => exact List.mem_singleton_self i
  | link => exact List.mem_cons_self

/-- A chain goes on to the end of the list. -/
theorem mem_next (h : Chain next i is) (hj : j ∈ is) (hk : next j = some k) : k ∈ is := by
  induction h with
  | last hnone =>
      rw [List.mem_singleton.mp hj, hnone] at hk
      cases hk
  | link hlink hrest ih =>
      rcases List.mem_cons.mp hj with rfl | hj
      · rw [hlink] at hk
        cases hk
        exact List.mem_cons_of_mem _ hrest.mem_start
      · exact List.mem_cons_of_mem _ (ih hj)

/-- What is kept by links holds along a chain. -/
theorem forall_mem {P : ι → Prop} (hP : ∀ i j, next i = some j → P i → P j)
    (h : Chain next i is) (hi : P i) : ∀ j ∈ is, P j := by
  induction h with
  | last => simpa using hi
  | link hlink _ ih => exact List.forall_mem_cons.mpr ⟨hi, ih (hP _ _ hlink hi)⟩

end Chain

namespace Table

variable [Preorder ι] (t : Table ι)

/-- Every list ends. -/
theorem exists_chain [WellFoundedGT ι] (i : ι) : ∃ is, Chain t.next i is := by
  induction i using WellFoundedGT.induction with
  | ind i ih =>
      cases h : t.next i with
      | none => exact ⟨[i], .last h⟩
      | some j =>
          obtain ⟨is, his⟩ := ih j (t.ascending i j h)
          exact ⟨i :: is, .link h his⟩

end Table

namespace Chain

variable [Preorder ι] {t : Table ι} {i : ι} {is : List ι}

/-- A chain is ascending, so it has no entry twice. -/
theorem pairwise (h : Chain t.next i is) : is.Pairwise (· < ·) := by
  induction h with
  | last => exact List.pairwise_singleton _ _
  | link hlink hrest ih =>
      refine List.pairwise_cons.mpr ⟨?_, ih⟩
      have hlt := t.ascending _ _ hlink
      exact hrest.forall_mem (fun a b hab ha => ha.trans (t.ascending a b hab)) hlt

/-- A chain has at most as many entries as the table. -/
theorem length_le_card [Fintype ι] (h : Chain t.next i is) : is.length ≤ Fintype.card ι := by
  have hnodup : is.Nodup := h.pairwise.imp ne_of_lt
  exact hnodup.length_le_card

/-- The entries of a list are those from which the links back lead to its start. -/
theorem mem_iff [WellFoundedLT ι] (h : Chain t.next i is) {P : ι → Prop}
    (hP : ∀ a b, t.next a = some b → (P a ↔ P b)) (hi : P i)
    (honly : ∀ j, P j → t.previous j = none → j = i) {j : ι} : j ∈ is ↔ P j := by
  constructor
  · exact h.forall_mem (fun a b hab => (hP a b hab).mp) hi j
  · intro hj
    induction j using WellFoundedLT.induction with
    | ind j ih =>
        cases hprev : t.previous j with
        | none =>
            rw [honly j hj hprev]
            exact h.mem_start
        | some k =>
            have hlink := (t.inverse k j).mpr hprev
            exact h.mem_next (ih k (t.ascending k j hlink) ((hP k j hlink).mpr hj)) hlink

end Chain

end Links
