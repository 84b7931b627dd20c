import Mathlib.Order.Lattice
import Mathlib.Data.List.Basic

/-!
# Nested spans of time

Spans are opened and closed at increasing times, and the span that is closed is
the innermost open one.  Each span remembers which span was the innermost open
one when it was opened, its *encloser*.

`Inv` is kept by both operations.  When every span is closed, it says that the
encloser can be found from the times alone: it is the last earlier span that
contains the span (`Inv.contains_encloser`, `Inv.not_contains`).
-/

namespace Nesting

variable {T : Type*}

/-- A span of time, without a `finish` as long as it is open. -/
structure Span (T : Type*) where
  start : T
  finish : Option T
  encloser : Option Nat

/-- The spans in the order of their openings, the open ones with the innermost
first, and the time of the last operation. -/
structure State (T : Type*) where
  spans : List (Span T) := []
  running : List Nat := []
  clock : Option T := none

/-! ## Opening and closing -/

/-- Open a span at time `t`. -/
def State.opens (st : State T) (t : T) : State T where
  spans := st.spans ++ [⟨t, none, st.running.head?⟩]
  running := st.spans.length :: st.running
  clock := some t

/-- Close the span `i`, the innermost open one, at time `t`. -/
def State.closes (st : State T) (i : Nat) (t : T) : State T where
  spans := st.spans.modify i fun s => { s with finish := some t }
  running := st.running.tail
  clock := some t

theorem getElem?_opens {st : State T} {t : T} {i : Nat} {s : Span T} :
    (st.opens t).spans[i]? = some s ↔ st.spans[i]? = some s ∨
      i = st.spans.length ∧ s = ⟨t, none, st.running.head?⟩ := by
  rw [State.opens]
  rcases Nat.lt_trichotomy i st.spans.length with hi | rfl | hi
  · simp [List.getElem?_append_left hi, Nat.ne_of_lt hi]
  · simp [eq_comm]
  · rw [List.getElem?_eq_none (by simp; omega), List.getElem?_eq_none (by omega)]
    simp [Nat.ne_of_gt hi]

theorem getElem?_closes (st : State T) (t : T) (i k : Nat) :
    (st.closes i t).spans[k]? = st.spans[k]?.map fun s =>
      { s with finish := if k = i then some t else s.finish } := by
  simp only [State.closes, List.getElem?_modify]
  cases st.spans[k]? with
  | none => rfl
  | some s =>
      by_cases hk : i = k
      · simp [hk]
      · simp [hk, Ne.symm hk]

/-- A span after the closing is one before, closed now if it is the innermost. -/
theorem exists_of_closes {st : State T} {t : T} {i k : Nat} {s : Span T}
    (hs : (st.closes i t).spans[k]? = some s) :
    ∃ s₀, st.spans[k]? = some s₀ ∧
      s = { s₀ with finish := if k = i then some t else s₀.finish } := by
  rw [getElem?_closes] at hs
  obtain ⟨s₀, hs₀, rfl⟩ := Option.map_eq_some_iff.mp hs
  exact ⟨s₀, hs₀, rfl⟩

/-! ## The invariant -/

variable [LinearOrder T]

/-- The time `t` is after the last operation. -/
def State.later (st : State T) (t : T) : Bool := st.clock.all (· < t)

/-- `outer` contains `inner`, both closed. -/
def Span.Contains (outer inner : Span T) : Prop :=
  outer.start ≤ inner.start ∧ ∃ g ∈ outer.finish, ∃ f ∈ inner.finish, f ≤ g

/-- What holds between two operations. -/
structure Inv (st : State T) : Prop where
  sorted : st.running.Pairwise (· > ·)
  running_iff : ∀ i, i ∈ st.running ↔ ∃ s : Span T, st.spans[i]? = some s ∧ s.finish = none
  past : ∀ (i : Nat) (s : Span T), st.spans[i]? = some s → ∀ t, st.later t →
    s.start < t ∧ ∀ f ∈ s.finish, f < t
  ordered : ∀ (i : Nat) (s : Span T), st.spans[i]? = some s → ∀ f ∈ s.finish, s.start < f
  /-- The encloser is opened before and is not closed before. -/
  inside : ∀ (i : Nat) (s : Span T) (p : Nat), st.spans[i]? = some s → s.encloser = some p →
    p < i ∧ ∃ q : Span T, st.spans[p]? = some q ∧ q.start < s.start ∧
      ∀ g ∈ q.finish, ∃ f ∈ s.finish, f < g
  /-- What was opened after the encloser is closed already. -/
  between : ∀ (i : Nat) (s : Span T) (j : Nat) (q : Span T), st.spans[i]? = some s →
    st.spans[j]? = some q → j < i → (∀ p ∈ s.encloser, p < j) → ∃ g ∈ q.finish, g < s.start

section

variable {st : State T}

theorem Inv.init : Inv ({} : State T) where
  sorted := .nil
  running_iff := by simp
  past := nofun
  ordered := nofun
  inside := nofun
  between := nofun

/-- What is running was opened no later than the innermost. -/
theorem Inv.le_head (h : Inv st) {i : Nat} (hi : i ∈ st.running) :
    ∃ p, st.running.head? = some p ∧ i ≤ p := by
  have hsorted := h.sorted
  cases hr : st.running with
  | nil =>
      rw [hr] at hi
      cases hi
  | cons p rest =>
      rw [hr] at hi hsorted
      refine ⟨p, rfl, ?_⟩
      rcases List.mem_cons.mp hi with rfl | hi
      · exact Nat.le_refl i
      · exact Nat.le_of_lt ((List.pairwise_cons.mp hsorted).1 i hi)

/-- What was opened after the innermost open span is closed. -/
theorem Inv.not_mem_of_head_lt (h : Inv st) {i : Nat} (hi : ∀ p ∈ st.running.head?, p < i) :
    i ∉ st.running := by
  intro hmem
  obtain ⟨p, hhead, hle⟩ := h.le_head hmem
  exact Nat.not_lt.mpr hle (hi p hhead)

theorem Inv.lt_length (h : Inv st) {i : Nat} (hi : i ∈ st.running) : i < st.spans.length := by
  obtain ⟨s, hs, -⟩ := (h.running_iff i).mp hi
  exact (List.getElem?_eq_some_iff.mp hs).1

/-- A span that is not running is closed. -/
theorem Inv.closed (h : Inv st) {i : Nat} {s : Span T} (hs : st.spans[i]? = some s)
    (hi : i ∉ st.running) : ∃ f, s.finish = some f := by
  cases hf : s.finish with
  | some f => exact ⟨f, rfl⟩
  | none => exact absurd ((h.running_iff i).mpr ⟨s, hs, hf⟩) hi

/-- A closed span is not the innermost open one. -/
theorem Inv.ne_head (h : Inv st) {i k : Nat} {s : Span T} {f : T}
    (hi : st.running.head? = some i) (hs : st.spans[k]? = some s) (hf : f ∈ s.finish) :
    k ≠ i := by
  rintro rfl
  obtain ⟨s', hs', hopen⟩ := (h.running_iff k).mp (List.mem_of_mem_head? hi)
  rw [hs] at hs'
  cases hs'
  rw [hopen] at hf
  cases hf

/-! ## Both operations keep it -/

theorem later_opens {t t' : T} : (st.opens t).later t' ↔ t < t' := by
  simp [State.later, State.opens]

theorem later_closes {t t' : T} {i : Nat} : (st.closes i t).later t' ↔ t < t' := by
  simp [State.later, State.closes]

theorem Inv.opens (h : Inv st) {t : T} (ht : st.later t) : Inv (st.opens t) where
  sorted := List.pairwise_cons.mpr ⟨fun i hi => h.lt_length hi, h.sorted⟩
  running_iff i := by
    have hmem : i ∈ (st.opens t).running ↔ i = st.spans.length ∨ i ∈ st.running := List.mem_cons
    rw [hmem, h.running_iff]
    constructor
    · rintro (rfl | ⟨s, hs, hf⟩)
      · exact ⟨_, getElem?_opens.mpr (.inr ⟨rfl, rfl⟩), rfl⟩
      · exact ⟨s, getElem?_opens.mpr (.inl hs), hf⟩
    · rintro ⟨s, hs, hf⟩
      rcases getElem?_opens.mp hs with hs | ⟨hi, -⟩
      · exact .inr ⟨s, hs, hf⟩
      · exact .inl hi
  past i s hs t' ht' := by
    rw [later_opens] at ht'
    rcases getElem?_opens.mp hs with hs | ⟨-, rfl⟩
    · obtain ⟨hstart, hfinish⟩ := h.past i s hs t ht
      exact ⟨hstart.trans ht', fun f hf => (hfinish f hf).trans ht'⟩
    · exact ⟨ht', nofun⟩
  ordered i s hs := by
    rcases getElem?_opens.mp hs with hs | ⟨-, rfl⟩
    · exact h.ordered i s hs
    · nofun
  inside i s p hs hp := by
    rcases getElem?_opens.mp hs with hs | ⟨rfl, rfl⟩
    · obtain ⟨hlt, q, hq, hinside⟩ := h.inside i s p hs hp
      exact ⟨hlt, q, getElem?_opens.mpr (.inl hq), hinside⟩
    · have hmem : p ∈ st.running := List.mem_of_mem_head? hp
      obtain ⟨q, hq, hopen⟩ := (h.running_iff p).mp hmem
      refine ⟨h.lt_length hmem, q, getElem?_opens.mpr (.inl hq), (h.past p q hq t ht).1, ?_⟩
      rw [hopen]
      nofun
  between i s j q hs hq hlt hp := by
    have hq : st.spans[j]? = some q := by
      rcases getElem?_opens.mp hq with hq | ⟨rfl, -⟩
      · exact hq
      · have := (List.getElem?_eq_some_iff.mp hs).1
        simp only [State.opens, List.length_append, List.length_singleton] at this
        omega
    rcases getElem?_opens.mp hs with hs | ⟨rfl, rfl⟩
    · exact h.between i s j q hs hq hlt hp
    · obtain ⟨g, hg⟩ := h.closed hq (h.not_mem_of_head_lt hp)
      exact ⟨g, hg, (h.past j q hq t ht).2 g hg⟩

theorem Inv.mem_tail_iff (h : Inv st) {i : Nat} (hi : st.running.head? = some i) (k : Nat) :
    k ∈ st.running.tail ↔ k ∈ st.running ∧ k ≠ i := by
  have hsorted := h.sorted
  cases hr : st.running with
  | nil =>
      rw [hr] at hi
      cases hi
  | cons j rest =>
      rw [hr] at hi hsorted
      cases hi
      have hlt := (List.pairwise_cons.mp hsorted).1
      constructor
      · intro hk
        exact ⟨List.mem_cons_of_mem _ hk, Nat.ne_of_lt (hlt k hk)⟩
      · rintro ⟨hk, hne⟩
        exact (List.mem_cons.mp hk).resolve_left hne

theorem Inv.closes (h : Inv st) {i : Nat} {t : T} (ht : st.later t)
    (hi : st.running.head? = some i) : Inv (st.closes i t) where
  sorted := h.sorted.tail
  running_iff k := by
    have hmem : k ∈ (st.closes i t).running ↔ k ∈ st.running ∧ k ≠ i := h.mem_tail_iff hi k
    rw [hmem, h.running_iff]
    constructor
    · rintro ⟨⟨s, hs, hf⟩, hk⟩
      refine ⟨s, ?_, hf⟩
      simp [getElem?_closes, hs, hk]
    · rintro ⟨s, hs, hf⟩
      obtain ⟨s₀, hs₀, rfl⟩ := exists_of_closes hs
      simp only at hf
      split at hf
      · cases hf
      · exact ⟨⟨s₀, hs₀, hf⟩, ‹_›⟩
  past k s hs t' ht' := by
    rw [later_closes] at ht'
    obtain ⟨s₀, hs₀, rfl⟩ := exists_of_closes hs
    obtain ⟨hstart, hfinish⟩ := h.past k s₀ hs₀ t ht
    refine ⟨hstart.trans ht', fun f hf => ?_⟩
    simp only at hf
    split at hf
    · cases hf
      exact ht'
    · exact (hfinish f hf).trans ht'
  ordered k s hs f hf := by
    obtain ⟨s₀, hs₀, rfl⟩ := exists_of_closes hs
    simp only at hf
    split at hf
    · cases hf
      exact (h.past k s₀ hs₀ _ ht).1
    · exact h.ordered k s₀ hs₀ f hf
  inside k s p hs hp := by
    obtain ⟨s₀, hs₀, rfl⟩ := exists_of_closes hs
    obtain ⟨hlt, q, hq, hstart, hinside⟩ := h.inside k s₀ p hs₀ hp
    have hq' : (st.closes i t).spans[p]? =
        some { q with finish := if p = i then some t else q.finish } := by
      rw [getElem?_closes, hq, Option.map_some]
    refine ⟨hlt, _, hq', hstart, fun g hg => ?_⟩
    simp only at hg
    by_cases hpi : p = i
    · -- the encloser is closed now, and the span is not running any more
      have hk : k ∉ st.running := by
        refine h.not_mem_of_head_lt fun p' hp' => ?_
        rw [hi] at hp'
        cases hp'
        omega
      obtain ⟨f, hf⟩ := h.closed hs₀ hk
      rw [if_pos hpi] at hg
      cases hg
      refine ⟨f, ?_, (h.past k s₀ hs₀ _ ht).2 f hf⟩
      simp only [if_neg (show k ≠ i by omega), hf]
      rfl
    · rw [if_neg hpi] at hg
      obtain ⟨f, hf, hfg⟩ := hinside g hg
      refine ⟨f, ?_, hfg⟩
      simp only [if_neg (h.ne_head hi hs₀ hf)]
      exact hf
  between k s j q hs hq hlt hp := by
    obtain ⟨s₀, hs₀, rfl⟩ := exists_of_closes hs
    obtain ⟨q₀, hq₀, rfl⟩ := exists_of_closes hq
    obtain ⟨g, hg, hgs⟩ := h.between k s₀ j q₀ hs₀ hq₀ hlt hp
    refine ⟨g, ?_, hgs⟩
    simp only [if_neg (h.ne_head hi hq₀ hg)]
    exact hg

/-- Spans are opened one after another. -/
theorem Inv.start_lt (h : Inv st) {i j : Nat} {s q : Span T} (hlt : j < i)
    (hs : st.spans[i]? = some s) (hq : st.spans[j]? = some q) : q.start < s.start := by
  induction i using Nat.strongRecOn generalizing s with
  | _ i ih =>
      by_cases hp : ∀ p ∈ s.encloser, p < j
      · obtain ⟨g, hg, hgs⟩ := h.between i s j q hs hq hlt hp
        exact (h.ordered j q hq g hg).trans hgs
      · -- the encloser lies between the two, or is the earlier one
        push Not at hp
        obtain ⟨p, hp, hle⟩ := hp
        obtain ⟨hpi, r, hr, hstart, -⟩ := h.inside i s p hs hp
        rcases Nat.eq_or_lt_of_le hle with rfl | hjp
        · rw [hq] at hr
          cases hr
          exact hstart
        · exact (ih p hpi hjp hr).trans hstart

/-! ## The encloser from the times -/

/-- When every span is closed, the encloser of a span contains it. -/
theorem Inv.contains_encloser (h : Inv st) (hclosed : st.running = []) {i p : Nat} {s : Span T}
    (hs : st.spans[i]? = some s) (hp : s.encloser = some p) :
    p < i ∧ ∃ q, st.spans[p]? = some q ∧ q.Contains s := by
  obtain ⟨hlt, q, hq, hstart, hinside⟩ := h.inside i s p hs hp
  obtain ⟨g, hg⟩ := h.closed hq (by simp [hclosed])
  obtain ⟨f, hf, hfg⟩ := hinside g hg
  exact ⟨hlt, q, hq, hstart.le, g, hg, f, hf, hfg.le⟩

/-- An earlier span after the encloser does not contain the span. -/
theorem Inv.not_contains (h : Inv st) {i j : Nat} {s q : Span T} (hs : st.spans[i]? = some s)
    (hq : st.spans[j]? = some q) (hlt : j < i) (hp : ∀ p ∈ s.encloser, p < j) :
    ¬ q.Contains s := by
  rintro ⟨-, g, hg, f, hf, hfg⟩
  obtain ⟨g', hg', hgs⟩ := h.between i s j q hs hq hlt hp
  obtain rfl : g' = g := Option.mem_unique hg' hg
  exact absurd ((hgs.trans (h.ordered i s hs f hf)).trans_le hfg) (lt_irrefl g')

end

end Nesting
