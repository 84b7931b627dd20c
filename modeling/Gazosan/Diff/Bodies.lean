import Gazosan.Diff.Flags

/-!
# Pair bodies without interruption

The bodies of the matching phase as whole steps: an outer body, or a pair body
with its commit right after its guard.  Running all of them in container order
completes the phase (`complete_containerOrder`).
-/

namespace Gazosan

section

variable {ρ : Type} {cv : OpenCV ρ} {descriptorMatch : List ρ → List ρ → Bool}
  {ctx : Context ρ}

/-! ## What a body can do -/

theorem bodyStep_cases {s s' : ctx.State}
    {b : Body ctx.oldSegments.length ctx.newSegments.length}
    (h : bodyStep cv descriptorMatch s b = some s') :
    (∃ i, b = .outer i ∧ s.entered i = false ∧ s' = enter s i) ∨
    (∃ i j, b = .pair i j ∧ s.task i j = .ready ∧ pairReturns descriptorMatch s i j = true ∧
      s' = s.setTask i j .skipped) ∨
    (∃ i j, b = .pair i j ∧ s.task i j = .ready ∧ pairReturns descriptorMatch s i j = false ∧
      s' = commit cv (s.setTask i j .passed) i j) := by
  cases b with
  | outer i =>
      have h' : matchStep cv descriptorMatch s (.outer i) = some s' := h
      rcases matchStep_cases h' with ⟨i', hi, he, rfl⟩ | ⟨_, _, hi, _⟩ | ⟨_, _, hi, _⟩ |
        ⟨_, _, hi, _⟩
      · cases hi
        exact Or.inl ⟨i, rfl, he, rfl⟩
      · cases hi
      · cases hi
      · cases hi
  | pair i j =>
      obtain ⟨t, ht, h⟩ := Option.bind_eq_some_iff.mp h
      rcases matchStep_cases ht with ⟨_, hi, _⟩ | ⟨_, _, hi, hr, hp, rfl⟩ |
        ⟨_, _, hi, hr, hp, rfl⟩ | ⟨_, _, hi, _⟩
      · cases hi
      · cases hi
        simp only [setTask_task, and_self, if_true] at h
        rw [if_neg (by simp)] at h
        cases h
        exact Or.inr (Or.inl ⟨i, j, rfl, hr, hp, rfl⟩)
      · cases hi
        simp only [setTask_task, and_self, if_true] at h
        rw [matchStep_commit (by simp)] at h
        cases h
        exact Or.inr (Or.inr ⟨i, j, rfl, hr, hp, rfl⟩)
      · cases hi

theorem bodyStep_outer_eq_none {s : ctx.State} {i : Fin ctx.oldSegments.length} :
    bodyStep cv descriptorMatch s (.outer i) = none ↔ s.entered i = true := by
  simp [bodyStep, matchStep]

theorem bodyStep_pair_eq_none {s : ctx.State} {i : Fin ctx.oldSegments.length}
    {j : Fin ctx.newSegments.length} :
    bodyStep cv descriptorMatch s (.pair i j) = none ↔ s.task i j ≠ .ready := by
  by_cases hr : s.task i j = .ready
  · cases hp : pairReturns descriptorMatch s i j with
    | true => simp [bodyStep, matchStep, hr, hp]
    | false => simp [bodyStep, matchStep, hr, hp]
  · simp [bodyStep, matchStep, hr]

/-- What holds between two whole bodies. -/
structure BodyInv (descriptorMatch : List ρ → List ρ → Bool) (s : ctx.State) : Prop where
  flags : FlagInv descriptorMatch s
  not_passed : ∀ i j, s.task i j ≠ .passed

theorem FlagInv.body {s s' : ctx.State}
    {b : Body ctx.oldSegments.length ctx.newSegments.length} (hs : FlagInv descriptorMatch s)
    (h : bodyStep cv descriptorMatch s b = some s') : FlagInv descriptorMatch s' := by
  obtain ⟨as, has⟩ := run_of_bodyStep b h
  exact Transition.run_invariant (FlagInv descriptorMatch) (fun _ a _ hs h => hs.step a h) hs has

namespace BodyInv

variable {s s' : ctx.State} {b : Body ctx.oldSegments.length ctx.newSegments.length}

theorem init (cv : OpenCV ρ) (hfresh : ctx.Fresh) :
    BodyInv descriptorMatch (initState cv ctx) :=
  ⟨flagInv_initState cv hfresh, fun _ _ h => by cases h⟩

theorem step (hs : BodyInv descriptorMatch s)
    (h : bodyStep cv descriptorMatch s b = some s') : BodyInv descriptorMatch s' := by
  refine ⟨hs.flags.body h, ?_⟩
  intro i' j'
  rcases bodyStep_cases h with ⟨i, -, he, rfl⟩ | ⟨i, j, -, ht, -, rfl⟩ | ⟨i, j, -, ht, -, rfl⟩
  · rw [ne_eq, hs.flags.enter_task_iff he (by simp) (by simp)]
    exact hs.not_passed i' j'
  · rw [setTask_task]
    split
    · simp
    · exact hs.not_passed i' j'
  · rw [commit_task]
    split
    · simp
    · rename_i hc
      rw [setTask_task, if_neg hc]
      exact hs.not_passed i' j'

end BodyInv

/-- The body of an old segment and those of its pairs have run. -/
def Settled (s : ctx.State) (i : Fin ctx.oldSegments.length) : Prop :=
  s.entered i = true ∧ ∀ j, s.task i j ≠ .ready

theorem entered_of_bodyStep {s s' : ctx.State} {i : Fin ctx.oldSegments.length}
    {b : Body ctx.oldSegments.length ctx.newSegments.length} (hs : s.entered i = true)
    (h : bodyStep cv descriptorMatch s b = some s') : s'.entered i = true := by
  rcases bodyStep_cases h with ⟨i', -, -, rfl⟩ | ⟨_, _, -, -, -, rfl⟩ | ⟨_, _, -, -, -, rfl⟩
  · rw [enter_entered]
    split
    · rfl
    · exact hs
  · exact hs
  · exact hs

/-- A task that has run does not become ready again. -/
theorem not_ready_of_bodyStep {s s' : ctx.State} {i : Fin ctx.oldSegments.length}
    {j : Fin ctx.newSegments.length} {b : Body ctx.oldSegments.length ctx.newSegments.length}
    (hs : s.entered i = true ∧ s.task i j ≠ .ready)
    (h : bodyStep cv descriptorMatch s b = some s') :
    s'.entered i = true ∧ s'.task i j ≠ .ready := by
  refine ⟨entered_of_bodyStep hs.1 h, ?_⟩
  rcases bodyStep_cases h with ⟨i', -, he, rfl⟩ | ⟨i', j', -, -, -, rfl⟩ |
    ⟨i', j', -, -, -, rfl⟩
  · rw [enter_task]
    split
    · rename_i hc
      rw [hc.1, he] at hs
      cases hs.1
    · exact hs.2
  · rw [setTask_task]
    split
    · simp
    · exact hs.2
  · rw [commit_task]
    split
    · simp
    · rename_i hc
      rw [setTask_task, if_neg hc]
      exact hs.2

theorem Settled.step {s s' : ctx.State} {i : Fin ctx.oldSegments.length}
    {b : Body ctx.oldSegments.length ctx.newSegments.length} (hs : Settled s i)
    (h : bodyStep cv descriptorMatch s b = some s') : Settled s' i :=
  ⟨entered_of_bodyStep hs.1 h, fun j => (not_ready_of_bodyStep ⟨hs.1, hs.2 j⟩ h).2⟩

/-! ## Schedules in container order -/

/-- The outer body of one old segment and then its pair bodies in order. -/
def settle (m n : Nat) (i : Fin m) : List (Body m n) :=
  .outer i :: (List.finRange n).map (.pair i)

/-- All bodies in container order. -/
def containerOrder (m n : Nat) : List (Body m n) := (List.finRange m).flatMap (settle m n)

variable (cv descriptorMatch)

/-- Run the bodies in the order given, those of unreleased tasks left out. -/
def runBodies (s : ctx.State)
    (bs : List (Body ctx.oldSegments.length ctx.newSegments.length)) : ctx.State :=
  bs.foldl (Transition.attempt (bodyStep cv descriptorMatch)) s

variable {cv descriptorMatch}

theorem runBodies_append (s : ctx.State)
    (bs bs' : List (Body ctx.oldSegments.length ctx.newSegments.length)) :
    runBodies cv descriptorMatch s (bs ++ bs') =
      runBodies cv descriptorMatch (runBodies cv descriptorMatch s bs) bs' :=
  List.foldl_append ..

theorem runBodies_invariant (I : ctx.State → Prop)
    (hI : ∀ s b s', I s → bodyStep cv descriptorMatch s b = some s' → I s') {s : ctx.State}
    (bs : List (Body ctx.oldSegments.length ctx.newSegments.length)) (hs : I s) :
    I (runBodies cv descriptorMatch s bs) :=
  Transition.foldl_attempt_invariant I (fun b _ s s' => hI s b s') hs

theorem entered_of_attempt_outer (s : ctx.State) (i : Fin ctx.oldSegments.length) :
    (Transition.attempt (bodyStep cv descriptorMatch) s (.outer i)).entered i = true := by
  cases h : bodyStep cv descriptorMatch s (.outer i) with
  | none =>
      rw [Transition.attempt_of_none h]
      exact bodyStep_outer_eq_none.mp h
  | some s' =>
      rw [Transition.attempt_of_some h]
      rcases bodyStep_cases h with ⟨i', hb, -, rfl⟩ | ⟨_, _, hb, _⟩ | ⟨_, _, hb, _⟩
      · cases hb
        rw [enter_entered, if_pos rfl]
      · cases hb
      · cases hb

theorem not_ready_of_attempt_pair {s : ctx.State} {i : Fin ctx.oldSegments.length}
    (j : Fin ctx.newSegments.length) :
    (Transition.attempt (bodyStep cv descriptorMatch) s (.pair i j)).task i j ≠ .ready := by
  cases h : bodyStep cv descriptorMatch s (.pair i j) with
  | none =>
      rw [Transition.attempt_of_none h]
      exact bodyStep_pair_eq_none.mp h
  | some s' =>
      rw [Transition.attempt_of_some h]
      rcases bodyStep_cases h with ⟨_, hb, _⟩ | ⟨_, _, hb, -, -, rfl⟩ | ⟨_, _, hb, -, -, rfl⟩
      · cases hb
      · cases hb
        simp
      · cases hb
        simp

/-- After its bodies have been attempted, an old segment is settled. -/
theorem settled_of_settle (s : ctx.State) (i : Fin ctx.oldSegments.length) :
    Settled (runBodies cv descriptorMatch s (settle _ _ i)) i := by
  let s₁ : ctx.State := Transition.attempt (bodyStep cv descriptorMatch) s (.outer i)
  let I : ctx.State → Prop := fun s => s.entered i = true
  have hI : ∀ s b s', I s → bodyStep cv descriptorMatch s b = some s' → I s' :=
    fun _ _ _ => entered_of_bodyStep
  have h₁ : I s₁ := entered_of_attempt_outer s i
  change Settled (runBodies cv descriptorMatch s₁ ((List.finRange _).map (.pair i))) i
  refine ⟨runBodies_invariant I hI _ h₁, fun j => ?_⟩
  let Q : ctx.State → Prop := fun s => s.entered i = true ∧ s.task i j ≠ .ready
  have hQ : Q (runBodies cv descriptorMatch s₁ ((List.finRange _).map (.pair i))) :=
    Transition.foldl_attempt_of_mem I Q hI (fun _ _ _ => not_ready_of_bodyStep)
      (fun s hs => ⟨Transition.attempt_invariant I (fun s s' => hI s _ s') hs,
        not_ready_of_attempt_pair j⟩)
      (List.mem_map_of_mem (List.mem_finRange j)) h₁
  exact hQ.2

/-- A schedule that goes through the old segments of a list settles them. -/
theorem settled_of_mem {i : Fin ctx.oldSegments.length} :
    ∀ {is : List (Fin ctx.oldSegments.length)} {s : ctx.State}, i ∈ is →
      Settled (runBodies cv descriptorMatch s (is.flatMap (settle _ _))) i
  | k :: is, s, hmem => by
      rw [List.flatMap_cons, runBodies_append]
      cases List.mem_cons.mp hmem with
      | inl he =>
          subst he
          exact runBodies_invariant (fun s => Settled s i) (fun _ _ _ hs h => hs.step h) _
            (settled_of_settle s i)
      | inr hmem' => exact settled_of_mem hmem'

theorem BodyInv.complete {s : ctx.State} (hs : BodyInv descriptorMatch s)
    (h : ∀ i, Settled s i) : s.Complete :=
  fun i => ⟨(h i).1, fun j => ⟨(h i).2 j, hs.not_passed i j⟩⟩

/-- Running all bodies in container order completes the phase. -/
theorem complete_containerOrder {s : ctx.State} (hs : BodyInv descriptorMatch s) :
    (runBodies cv descriptorMatch s (containerOrder _ _)).Complete :=
  (runBodies_invariant (BodyInv descriptorMatch) (fun _ _ _ hs h => hs.step h) _ hs).complete
    (fun _ => settled_of_mem (List.mem_finRange _))

/-- Running the bodies in any order and then all of them in container order is a
complete run. -/
theorem exists_complete_run (cv : OpenCV ρ) (descriptorMatch : List ρ → List ρ → Bool)
    (hfresh : ctx.Fresh) (bs : List (Body ctx.oldSegments.length ctx.newSegments.length)) :
    ∃ bs' s, Transition.run (bodyStep cv descriptorMatch) (initState cv ctx) bs' = some s ∧
      s.Complete ∧ s = runBodies cv descriptorMatch
        (runBodies cv descriptorMatch (initState cv ctx) bs) (containerOrder _ _) := by
  obtain ⟨bs', hbs'⟩ := Transition.exists_run_of_attempt (bodyStep cv descriptorMatch)
    (bs ++ containerOrder _ _) (initState cv ctx)
  rw [List.foldl_append] at hbs'
  exact ⟨bs', _, hbs', complete_containerOrder (runBodies_invariant (BodyInv descriptorMatch)
    (fun _ _ _ hs h => hs.step h) bs (BodyInv.init cv hfresh)), rfl⟩

theorem flagInv_of_bodies (hfresh : ctx.Fresh)
    {bs : List (Body ctx.oldSegments.length ctx.newSegments.length)} {s : ctx.State}
    (h : Transition.run (bodyStep cv descriptorMatch) (initState cv ctx) bs = some s) :
    FlagInv descriptorMatch s :=
  Transition.run_invariant (FlagInv descriptorMatch) (fun _ _ _ hs h => hs.body h)
    (flagInv_initState cv hfresh) h

end

end Gazosan
