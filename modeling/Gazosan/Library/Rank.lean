import Mathlib.Data.List.Count
import Mathlib.Order.Lattice

/-!
# Ranks in sorted lists

The entry at position `k` of a list sorted by a key is at most a bound if more
than `k` entries are.  For the middle of the list this is a majority, which does
not depend on how the sort orders entries with equal keys.
-/

namespace Rank

variable {α D : Type*} [LinearOrder D]

/-- A sort by a key.  Entries with equal keys may come in any order. -/
structure Sorter (key : α → D) where
  sort : List α → List α
  perm : ∀ l, (sort l).Perm l
  sorted : ∀ l, (sort l).Pairwise fun a b => key a ≤ key b

/-- A stable sort is one. -/
def Sorter.merge (key : α → D) : Sorter key where
  sort l := l.mergeSort fun a b => key a ≤ key b
  perm l := List.mergeSort_perm l _
  sorted l := by
    have h := @List.pairwise_mergeSort α (fun a b => decide (key a ≤ key b))
      (fun a b c hab hbc => by simpa using le_trans (by simpa using hab) (by simpa using hbc))
      (fun a b => by simpa using le_total (key a) (key b)) l
    exact h.imp fun hab => by simpa using hab

/-- The number of entries with a key of at most `t`. -/
def countLe (key : α → D) (t : D) (l : List α) : Nat := l.countP fun a => decide (key a ≤ t)

/-- More than half of the entries, rounded down, have a key of at most `t`. -/
def Majority (key : α → D) (t : D) (l : List α) : Prop := l.length / 2 < countLe key t l

instance (key : α → D) (t : D) (l : List α) : Decidable (Majority key t l) :=
  inferInstanceAs (Decidable (_ < _))

variable {key : α → D} {t : D}

theorem countLe_cons (a : α) (l : List α) :
    countLe key t (a :: l) = countLe key t l + if key a ≤ t then 1 else 0 := by
  simp [countLe, List.countP_cons]

theorem countLe_eq_zero {l : List α} (h : ∀ a ∈ l, ¬ key a ≤ t) : countLe key t l = 0 := by
  rw [countLe, List.countP_eq_zero]
  intro a ha
  simpa using h a ha

theorem countLe_perm {l l' : List α} (h : l.Perm l') : countLe key t l = countLe key t l' :=
  h.countP_eq _

theorem majority_perm {l l' : List α} (h : l.Perm l') :
    Majority key t l ↔ Majority key t l' := by
  rw [Majority, Majority, h.length_eq, countLe_perm h]

theorem not_majority_nil : ¬ Majority key t [] := by simp [Majority, countLe]

/-- The entries of a sorted list with a key of at most `t` come first. -/
theorem key_le_iff_lt_countLe {l : List α} (h : l.Pairwise fun a b => key a ≤ key b) {k : Nat}
    {a : α} (ha : l[k]? = some a) : key a ≤ t ↔ k < countLe key t l := by
  induction l generalizing k with
  | nil => cases ha
  | cons b l ih =>
      obtain ⟨hb, hl⟩ := List.pairwise_cons.mp h
      by_cases hbt : key b ≤ t
      · rw [countLe_cons, if_pos hbt]
        cases k with
        | zero =>
            cases ha
            simp [hbt]
        | succ k =>
            rw [List.getElem?_cons_succ] at ha
            rw [ih hl ha]
            omega
      · -- no later entry is smaller than the head
        have hlate : ∀ c ∈ b :: l, ¬ key c ≤ t := by
          intro c hc hct
          rcases List.mem_cons.mp hc with rfl | hc
          · exact hbt hct
          · exact hbt (le_trans (hb c hc) hct)
        rw [countLe_eq_zero hlate]
        exact ⟨fun hat => absurd hat (hlate a (List.mem_of_getElem? ha)), fun hk => by omega⟩

/-- The middle entry after a sort is at most `t` if a majority of the entries is. -/
theorem Sorter.middle_le_iff (s : Sorter key) (l : List α) :
    (∃ a, (s.sort l)[(s.sort l).length / 2]? = some a ∧ key a ≤ t) ↔ Majority key t l := by
  rw [← majority_perm (s.perm l)]
  constructor
  · rintro ⟨a, ha, hat⟩
    exact (key_le_iff_lt_countLe (s.sorted l) ha).mp hat
  · intro h
    have hlt : (s.sort l).length / 2 < (s.sort l).length :=
      Nat.lt_of_lt_of_le h List.countP_le_length
    obtain ⟨a, ha⟩ : ∃ a, (s.sort l)[(s.sort l).length / 2]? = some a :=
      ⟨_, List.getElem?_eq_getElem hlt⟩
    exact ⟨a, ha, (key_le_iff_lt_countLe (s.sorted l) ha).mpr h⟩

/-- What is counted is the keys. -/
theorem majority_of_perm_keys {β : Type*} {key' : β → D} {l : List α} {l' : List β}
    (h : (l.map key).Perm (l'.map key')) : Majority key t l ↔ Majority key' t l' := by
  have hlength : l.length = l'.length := by simpa using h.length_eq
  have hcount : countLe key t l = countLe key' t l' := by
    have := h.countP_eq fun d => decide (d ≤ t)
    rwa [List.countP_map, List.countP_map] at this
  rw [Majority, Majority, hlength, hcount]

end Rank
