import Gazosan.Diff.Matching

/-!
# The matched flags

`FlagInv` links the matched flags to the tasks.  It holds in every reachable
state, and in a complete one it determines the flags of the new segments: a new
segment ends matched when it is compatible with some old segment.
-/

namespace Gazosan

section

variable {ρ : Type} {cv : OpenCV ρ} {descriptorMatch : List ρ → List ρ → Bool}
  {ctx : Context ρ}

/-! ## The invariant -/

variable (descriptorMatch)

/-- Both segments have a descriptor and the descriptors match. -/
def Compat (i : Fin ctx.oldSegments.length) (j : Fin ctx.newSegments.length) : Prop :=
  (ctx.oldSegment i).descriptor ≠ [] ∧ (ctx.newSegment j).descriptor ≠ [] ∧
    descriptorMatch (ctx.oldSegment i).descriptor (ctx.newSegment j).descriptor = true

/-- How the flags hang together with the tasks. -/
structure FlagInv (s : ctx.State) : Prop where
  /-- Only an outer body whose guard passed has released tasks. -/
  released : ∀ i j, s.task i j ≠ .idle →
    s.entered i = true ∧ (ctx.oldSegment i).descriptor ≠ []
  /-- An outer body releases its tasks unless there is no descriptor. -/
  releases : ∀ i j, s.entered i = true → (ctx.oldSegment i).descriptor ≠ [] →
    s.task i j ≠ .idle
  passed : ∀ i j, s.task i j = .passed → Compat descriptorMatch i j
  committed : ∀ i j, s.task i j = .committed → Compat descriptorMatch i j
  skipped : ∀ i j, s.task i j = .skipped → Compat descriptorMatch i j → s.newMatched j = true
  oldMatched_iff : ∀ i, s.oldMatched i = true ↔ ∃ j, s.task i j = .committed
  newMatched_iff : ∀ j, s.newMatched j = true ↔ ∃ i, s.task i j = .committed

variable {descriptorMatch}

theorem pairReturns_of_not_compat {s : ctx.State} {i : Fin ctx.oldSegments.length}
    {j : Fin ctx.newSegments.length} (hi : (ctx.oldSegment i).descriptor ≠ [])
    (h : ¬ Compat descriptorMatch i j) : pairReturns descriptorMatch s i j = true := by
  by_contra hr
  simp only [pairReturns, Bool.or_eq_true, List.isEmpty_iff, Bool.not_eq_true', not_or,
    Bool.not_eq_false] at hr
  exact h ⟨hi, hr.1.1, hr.2⟩

theorem pairReturns_eq_true {s : ctx.State} {i : Fin ctx.oldSegments.length}
    {j : Fin ctx.newSegments.length} (h : Compat descriptorMatch i j) :
    pairReturns descriptorMatch s i j = s.newMatched j := by
  simp [pairReturns, h.2.1, h.2.2]

/-- No old segment of a fresh context is matched before the matching phase. -/
theorem initState_oldMatched (cv : OpenCV ρ) (hfresh : ctx.Fresh)
    (i : Fin ctx.oldSegments.length) : (initState cv ctx).oldMatched i = false :=
  hfresh.1 _ (List.get_mem _ i)

/-- No new segment of a fresh context is matched before the matching phase. -/
theorem initState_newMatched (cv : OpenCV ρ) (hfresh : ctx.Fresh)
    (j : Fin ctx.newSegments.length) : (initState cv ctx).newMatched j = false :=
  hfresh.2 _ (List.get_mem _ j)

theorem flagInv_initState (cv : OpenCV ρ) (hfresh : ctx.Fresh) :
    FlagInv descriptorMatch (initState cv ctx) := by
  refine ⟨?_, ?_, ?_, ?_, ?_, ?_, ?_⟩
  · intro i j h
    exact absurd rfl h
  · intro i j h
    cases h
  · intro i j h
    cases h
  · intro i j h
    cases h
  · intro i j h
    cases h
  · intro i
    rw [initState_oldMatched cv hfresh]
    simp [initState]
  · intro j
    rw [initState_newMatched cv hfresh]
    simp [initState]

namespace FlagInv

variable {s : ctx.State} {i : Fin ctx.oldSegments.length} {j : Fin ctx.newSegments.length}

/-- An old segment is unmatched until its outer body has run. -/
theorem oldMatched_of_not_entered (hs : FlagInv descriptorMatch s) (he : s.entered i = false) :
    s.oldMatched i = false := by
  cases hm : s.oldMatched i with
  | false => rfl
  | true =>
      obtain ⟨j, hj⟩ := (hs.oldMatched_iff i).mp hm
      have := (hs.released i j (by rw [hj]; simp)).1
      rw [he] at this
      cases this

/-- The tasks an outer body releases were idle, so it moves no task that has
evaluated its guard. -/
theorem enter_task_iff (hs : FlagInv descriptorMatch s) (he : s.entered i = false)
    {i' : Fin ctx.oldSegments.length} {t : Task} (hidle : t ≠ .idle) (hready : t ≠ .ready) :
    (Gazosan.enter s i).task i' j = t ↔ s.task i' j = t := by
  rw [enter_task]
  split
  · rename_i hc
    obtain ⟨rfl, -⟩ := hc
    constructor
    · intro h
      exact absurd h.symm hready
    · intro h
      have := (hs.released i' j (by rw [h]; exact hidle)).1
      rw [he] at this
      cases this
  · exact Iff.rfl

theorem enter (hs : FlagInv descriptorMatch s) (he : s.entered i = false) :
    FlagInv descriptorMatch (enter s i) := by
  have hret : outerReturns s i = (ctx.oldSegment i).descriptor.isEmpty := by
    rw [outerReturns, hs.oldMatched_of_not_entered he, Bool.or_false]
  have htask : ∀ i' j t, t ≠ .idle → t ≠ .ready →
      ((Gazosan.enter s i).task i' j = t ↔ s.task i' j = t) :=
    fun _ _ _ hi hr => hs.enter_task_iff he hi hr
  refine ⟨?_, ?_, ?_, ?_, ?_, ?_, ?_⟩
  · intro i' j h
    rw [enter_task] at h
    rw [enter_entered]
    split at h
    · rename_i hc
      obtain ⟨rfl, hr⟩ := hc
      rw [hret] at hr
      exact ⟨if_pos rfl, by simpa using hr⟩
    · obtain ⟨h1, h2⟩ := hs.released i' j h
      refine ⟨?_, h2⟩
      split
      · rfl
      · exact h1
  · intro i' j h hd
    rw [enter_task]
    split
    · simp
    · rename_i hc
      by_cases hi : i' = i
      · subst hi
        exact absurd ⟨rfl, by rw [hret]; simpa using hd⟩ hc
      · rw [enter_entered, if_neg hi] at h
        exact hs.releases i' j h hd
  · intro i' j h
    exact hs.passed i' j ((htask i' j _ (by simp) (by simp)).mp h)
  · intro i' j h
    exact hs.committed i' j ((htask i' j _ (by simp) (by simp)).mp h)
  · intro i' j h hc
    rw [enter_newMatched]
    exact hs.skipped i' j ((htask i' j _ (by simp) (by simp)).mp h) hc
  · intro i'
    rw [enter_oldMatched, hs.oldMatched_iff]
    exact exists_congr fun j => (htask i' j _ (by simp) (by simp)).symm
  · intro j
    rw [enter_newMatched, hs.newMatched_iff]
    exact exists_congr fun i' => (htask i' j _ (by simp) (by simp)).symm

/-- A step of one released task releases no other. -/
theorem released_of_step (hs : FlagInv descriptorMatch s) (ht : s.task i j ≠ .idle) {t : Task}
    {i' : Fin ctx.oldSegments.length} {j' : Fin ctx.newSegments.length}
    (h : (if i' = i ∧ j' = j then t else s.task i' j') ≠ .idle) :
    s.entered i' = true ∧ (ctx.oldSegment i').descriptor ≠ [] := by
  split at h
  · rename_i hc
    obtain ⟨rfl, rfl⟩ := hc
    exact hs.released i' j' ht
  · exact hs.released i' j' h

/-- The guard of a task: `t` is where it goes. -/
theorem guard (hs : FlagInv descriptorMatch s) {t : Task} (ht : s.task i j = .ready)
    (hpass : t = .passed → Compat descriptorMatch i j)
    (hskip : t = .skipped → Compat descriptorMatch i j → s.newMatched j = true)
    (hidle : t ≠ .idle) (hcommit : t ≠ .committed) :
    FlagInv descriptorMatch (s.setTask i j t) := by
  have hcom : ∀ i' j', (s.setTask i j t).task i' j' = .committed ↔ s.task i' j' = .committed := by
    intro i' j'
    rw [setTask_task]
    split
    · rename_i hc
      obtain ⟨rfl, rfl⟩ := hc
      rw [ht]
      exact ⟨fun h => absurd h hcommit, fun h => by cases h⟩
    · exact Iff.rfl
  refine ⟨?_, ?_, ?_, ?_, ?_, ?_, ?_⟩
  · intro i' j' h
    rw [setTask_task] at h
    exact hs.released_of_step (by rw [ht]; simp) h
  · intro i' j' he hd
    rw [setTask_task]
    split
    · exact hidle
    · exact hs.releases i' j' he hd
  · intro i' j' h
    rw [setTask_task] at h
    split at h
    · rename_i hc
      obtain ⟨rfl, rfl⟩ := hc
      exact hpass h
    · exact hs.passed i' j' h
  · intro i' j' h
    exact hs.committed i' j' ((hcom i' j').mp h)
  · intro i' j' h hc'
    rw [setTask_task] at h
    split at h
    · rename_i hc
      obtain ⟨rfl, rfl⟩ := hc
      exact hskip h hc'
    · exact hs.skipped i' j' h hc'
  · intro i'
    rw [setTask_oldMatched, hs.oldMatched_iff]
    exact exists_congr fun j' => (hcom i' j').symm
  · intro j'
    rw [setTask_newMatched, hs.newMatched_iff]
    exact exists_congr fun i' => (hcom i' j').symm

theorem commit (hs : FlagInv descriptorMatch s) (ht : s.task i j = .passed) :
    FlagInv descriptorMatch (commit cv s i j) := by
  have hold : ∀ i' j' t, t ≠ .committed → (Gazosan.commit cv s i j).task i' j' = t →
      s.task i' j' = t := by
    intro i' j' t htc h
    rw [commit_task] at h
    split at h
    · exact absurd h.symm htc
    · exact h
  refine ⟨?_, ?_, ?_, ?_, ?_, ?_, ?_⟩
  · intro i' j' h
    rw [commit_task] at h
    exact hs.released_of_step (by rw [ht]; simp) h
  · intro i' j' he hd
    rw [commit_task]
    split
    · simp
    · exact hs.releases i' j' he hd
  · intro i' j' h
    exact hs.passed i' j' (hold i' j' _ (by simp) h)
  · intro i' j' h
    rw [commit_task] at h
    split at h
    · rename_i hc
      obtain ⟨rfl, rfl⟩ := hc
      exact hs.passed i' j' ht
    · exact hs.committed i' j' h
  · intro i' j' h hc
    rw [commit_newMatched]
    split
    · rfl
    · exact hs.skipped i' j' (hold i' j' _ (by simp) h) hc
  · intro i'
    rw [commit_oldMatched]
    by_cases hi : i' = i
    · subst hi
      simp only [if_true, true_iff]
      exact ⟨j, by rw [commit_task, if_pos ⟨rfl, rfl⟩]⟩
    · rw [if_neg hi, hs.oldMatched_iff]
      exact exists_congr fun j' => by rw [commit_task, if_neg (fun hc => hi hc.1)]
  · intro j'
    rw [commit_newMatched]
    by_cases hj : j' = j
    · subst hj
      simp only [if_true, true_iff]
      exact ⟨i, by rw [commit_task, if_pos ⟨rfl, rfl⟩]⟩
    · rw [if_neg hj, hs.newMatched_iff]
      exact exists_congr fun i' => by rw [commit_task, if_neg (fun hc => hj hc.2)]

/-- A guard passes for compatible pairs only. -/
theorem compat_of_pass (hs : FlagInv descriptorMatch s) (ht : s.task i j = .ready)
    (hr : pairReturns descriptorMatch s i j = false) : Compat descriptorMatch i j := by
  have hdesc := (hs.released i j (by rw [ht]; simp)).2
  by_contra hc
  rw [pairReturns_of_not_compat hdesc hc] at hr
  cases hr

/-- Every step keeps the invariant. -/
theorem step {s' : ctx.State} (a : ctx.Step) (hs : FlagInv descriptorMatch s)
    (h : matchStep cv descriptorMatch s a = some s') : FlagInv descriptorMatch s' := by
  rcases matchStep_cases h with ⟨i, -, he, rfl⟩ | ⟨i, j, -, ht, hr, rfl⟩ |
    ⟨i, j, -, ht, hr, rfl⟩ | ⟨i, j, -, ht, rfl⟩
  · exact hs.enter he
  · refine hs.guard ht (by simp) (fun _ hc => ?_) (by simp) (by simp)
    rw [← pairReturns_eq_true hc, hr]
  · exact hs.guard ht (fun _ => hs.compat_of_pass ht hr) (by simp) (by simp) (by simp)
  · exact hs.commit ht

/-- Once the task of a compatible pair has ended, its new segment is matched. -/
theorem newMatched_of_ended (hs : FlagInv descriptorMatch s) (he : s.entered i = true)
    (hready : s.task i j ≠ .ready) (hpassed : s.task i j ≠ .passed)
    (hc : Compat descriptorMatch i j) : s.newMatched j = true := by
  have hidle := hs.releases i j he hc.1
  cases ht : s.task i j with
  | idle => exact absurd ht hidle
  | ready => exact absurd ht hready
  | passed => exact absurd ht hpassed
  | skipped => exact hs.skipped i j ht hc
  | committed => exact (hs.newMatched_iff j).mpr ⟨i, ht⟩

/-- In a complete state a new segment is matched when it is compatible with some
old segment. -/
theorem newMatched_of_complete (hs : FlagInv descriptorMatch s) (hc : s.Complete)
    (j : Fin ctx.newSegments.length) :
    s.newMatched j = true ↔ ∃ i, Compat descriptorMatch i j := by
  constructor
  · intro h
    obtain ⟨i, hi⟩ := (hs.newMatched_iff j).mp h
    exact ⟨i, hs.committed i j hi⟩
  · rintro ⟨i, hij⟩
    exact hs.newMatched_of_ended (hc i).1 ((hc i).2 j).1 ((hc i).2 j).2 hij

end FlagInv

/-- The flags hang together with the tasks in every reachable state. -/
theorem flagInv_of_run (hfresh : ctx.Fresh) {as : List ctx.Step} {s : ctx.State}
    (h : Transition.run (matchStep cv descriptorMatch) (initState cv ctx) as = some s) :
    FlagInv descriptorMatch s :=
  Transition.run_invariant (FlagInv descriptorMatch) (fun _ a _ hs h => hs.step a h)
    (flagInv_initState cv hfresh) h

end

end Gazosan
