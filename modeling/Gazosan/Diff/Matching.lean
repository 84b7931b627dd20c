import Gazosan.Diff.Draw

/-!
# The matching phase

Lines 292 to 332 of `create_diff_image` in the build with `ENABLE_PARALLEL`, as
a transition system.  Each old segment has an outer body, which evaluates the
guard of line 297 and then releases one task for each new segment.  A task
evaluates the guard of line 304 and, if the guard passes, later commits: it sets
both matched flags and draws.  The steps of different tasks interleave freely.

A commit whose drawing is undefined leaves no result image, and the flags go on
as the source sets them, before the drawing.

A coarser system runs each pair body without interruption.  Its runs are runs of
this one.
-/

namespace Gazosan

/-! ## States and steps -/

/-- Where the task of one pair of segments stands. -/
inductive Task where
  /-- The outer body has not released the task. -/
  | idle
  /-- The task is released and its guard not evaluated. -/
  | ready
  /-- The guard has passed and the commit is to come. -/
  | passed
  /-- The guard has returned. -/
  | skipped
  /-- The commit has been made. -/
  | committed
deriving DecidableEq, Repr

/-- The state of the matching phase over `m` old and `n` new segments. -/
structure MatchState (m n : Nat) where
  /-- `ctx.old_segments[i].matched`. -/
  oldMatched : Fin m → Bool
  /-- `ctx.new_segments[j].matched`. -/
  newMatched : Fin n → Bool
  /-- The outer bodies that have evaluated their guard. -/
  entered : Fin m → Bool
  task : Fin m → Fin n → Task
  /-- The image drawn so far, none if a drawing was undefined. -/
  result : Option (Mat Vec3b)

/-- The steps of the matching phase. -/
inductive Act (m n : Nat) where
  | outer (i : Fin m)
  | guard (i : Fin m) (j : Fin n)
  | commit (i : Fin m) (j : Fin n)

/-- A state with the task of one pair moved. -/
def MatchState.setTask {m n : Nat} (s : MatchState m n) (i : Fin m) (j : Fin n) (t : Task) :
    MatchState m n :=
  { s with task := fun i' j' => if i' = i ∧ j' = j then t else s.task i' j' }

/-- Every outer body has run and every released task has ended. -/
def MatchState.Complete {m n : Nat} (s : MatchState m n) : Prop :=
  ∀ i, s.entered i = true ∧ ∀ j, s.task i j ≠ .ready ∧ s.task i j ≠ .passed

instance {m n : Nat} (s : MatchState m n) : Decidable s.Complete :=
  inferInstanceAs (Decidable (∀ _, _ ∧ ∀ _, _))

section

variable {ρ : Type} (cv : OpenCV ρ) (descriptorMatch : List ρ → List ρ → Bool)
  (ctx : Context ρ)

/-- The states of the matching phase of a context. -/
abbrev Context.State : Type := MatchState ctx.oldSegments.length ctx.newSegments.length

/-- The steps of the matching phase of a context. -/
abbrev Context.Step : Type := Act ctx.oldSegments.length ctx.newSegments.length

/-- `ctx.old_segments[i]`. -/
def Context.oldSegment (i : Fin ctx.oldSegments.length) : ImageSegment ρ := ctx.oldSegments.get i

/-- `ctx.new_segments[j]`. -/
def Context.newSegment (j : Fin ctx.newSegments.length) : ImageSegment ρ := ctx.newSegments.get j

/-- The merged gray image the drawing starts from. -/
def baseImage : Mat Vec3b := cv.merge ctx.oldGrayMat ctx.oldGrayMat ctx.oldGrayMat

/-- The state before the matching phase. -/
def initState : ctx.State where
  oldMatched i := (ctx.oldSegment i).matched
  newMatched j := (ctx.newSegment j).matched
  entered _ := false
  task _ _ := .idle
  result := some (baseImage cv ctx)

variable {ctx}

/-- The guard of line 297. -/
def outerReturns (s : ctx.State) (i : Fin ctx.oldSegments.length) : Bool :=
  (ctx.oldSegment i).descriptor.isEmpty || s.oldMatched i

/-- The guard of line 304. -/
def pairReturns (s : ctx.State) (i : Fin ctx.oldSegments.length)
    (j : Fin ctx.newSegments.length) : Bool :=
  (ctx.newSegment j).descriptor.isEmpty || s.newMatched j ||
    !descriptorMatch (ctx.oldSegment i).descriptor (ctx.newSegment j).descriptor

/-- The outer body: the guard, and the release of the tasks if it passes. -/
def enter (s : ctx.State) (i : Fin ctx.oldSegments.length) : ctx.State :=
  if outerReturns s i then
    { s with entered := Function.update s.entered i true }
  else
    { s with
      entered := Function.update s.entered i true
      task := fun i' j => if i' = i then .ready else s.task i' j }

/-- Lines 307 to 329: both flags and the drawing. -/
def commit (s : ctx.State) (i : Fin ctx.oldSegments.length) (j : Fin ctx.newSegments.length) :
    ctx.State :=
  { s.setTask i j .committed with
    oldMatched := Function.update s.oldMatched i true
    newMatched := Function.update s.newMatched j true
    result := s.result.bind (drawMatched cv ctx (ctx.newSegment j)) }

/-- One step of one body. -/
def matchStep (s : ctx.State) : ctx.Step → Option ctx.State
  | .outer i => if s.entered i then none else some (enter s i)
  | .guard i j =>
      if s.task i j = .ready then
        some (s.setTask i j (if pairReturns descriptorMatch s i j then .skipped else .passed))
      else none
  | .commit i j => if s.task i j = .passed then some (commit cv s i j) else none

/-- A pair body that runs without interruption: the guard, and the commit right
after it if the guard passes. -/
inductive Body (m n : Nat) where
  | outer (i : Fin m)
  | pair (i : Fin m) (j : Fin n)

/-- One whole body. -/
def bodyStep (s : ctx.State) :
    Body ctx.oldSegments.length ctx.newSegments.length → Option ctx.State
  | .outer i => matchStep cv descriptorMatch s (.outer i)
  | .pair i j =>
      (matchStep cv descriptorMatch s (.guard i j)).bind fun s' =>
        if s'.task i j = .passed then matchStep cv descriptorMatch s' (.commit i j) else some s'

/-! ## What a step can do -/

variable {cv descriptorMatch}

theorem matchStep_cases {s s' : ctx.State} {a : ctx.Step}
    (h : matchStep cv descriptorMatch s a = some s') :
    (∃ i, a = .outer i ∧ s.entered i = false ∧ s' = enter s i) ∨
    (∃ i j, a = .guard i j ∧ s.task i j = .ready ∧ pairReturns descriptorMatch s i j = true ∧
      s' = s.setTask i j .skipped) ∨
    (∃ i j, a = .guard i j ∧ s.task i j = .ready ∧ pairReturns descriptorMatch s i j = false ∧
      s' = s.setTask i j .passed) ∨
    (∃ i j, a = .commit i j ∧ s.task i j = .passed ∧ s' = commit cv s i j) := by
  cases a with
  | outer i =>
      simp only [matchStep] at h
      split at h
      · cases h
      · rename_i he
        exact Or.inl ⟨i, rfl, by simpa using he, (Option.some.inj h).symm⟩
  | guard i j =>
      simp only [matchStep] at h
      split at h
      · rename_i ht
        cases hr : pairReturns descriptorMatch s i j with
        | true =>
            rw [hr, if_pos rfl] at h
            exact Or.inr (Or.inl ⟨i, j, rfl, ht, hr, (Option.some.inj h).symm⟩)
        | false =>
            rw [hr, if_neg (by simp)] at h
            exact Or.inr (Or.inr (Or.inl ⟨i, j, rfl, ht, hr, (Option.some.inj h).symm⟩))
      · cases h
  | commit i j =>
      simp only [matchStep] at h
      split at h
      · rename_i ht
        exact Or.inr (Or.inr (Or.inr ⟨i, j, rfl, ht, (Option.some.inj h).symm⟩))
      · cases h

theorem matchStep_outer {s : ctx.State} {i : Fin ctx.oldSegments.length}
    (h : s.entered i = false) :
    matchStep cv descriptorMatch s (.outer i) = some (enter s i) := by
  simp [matchStep, h]

theorem matchStep_commit {s : ctx.State} {i : Fin ctx.oldSegments.length}
    {j : Fin ctx.newSegments.length} (h : s.task i j = .passed) :
    matchStep cv descriptorMatch s (.commit i j) = some (commit cv s i j) := by
  simp [matchStep, h]

/-- A whole body is a run of at most two steps. -/
theorem run_of_bodyStep {s s' : ctx.State}
    (b : Body ctx.oldSegments.length ctx.newSegments.length)
    (h : bodyStep cv descriptorMatch s b = some s') :
    ∃ as, Transition.run (matchStep cv descriptorMatch) s as = some s' := by
  cases b with
  | outer i =>
      have h' : matchStep cv descriptorMatch s (.outer i) = some s' := h
      exact ⟨[.outer i], by rw [Transition.run_cons_of_step h', Transition.run_nil]⟩
  | pair i j =>
      obtain ⟨t, ht, h⟩ := Option.bind_eq_some_iff.mp h
      split at h
      · exact ⟨[.guard i j, .commit i j], by
          rw [Transition.run_cons_of_step ht, Transition.run_cons_of_step h, Transition.run_nil]⟩
      · cases h
        exact ⟨[.guard i j], by rw [Transition.run_cons_of_step ht, Transition.run_nil]⟩

section Fields

variable {m n : Nat} (s : MatchState m n) (i i' : Fin m) (j j' : Fin n) (t : Task)

@[simp] theorem setTask_task :
    (s.setTask i j t).task i' j' = if i' = i ∧ j' = j then t else s.task i' j' := rfl

@[simp] theorem setTask_entered : (s.setTask i j t).entered = s.entered := rfl

@[simp] theorem setTask_oldMatched : (s.setTask i j t).oldMatched = s.oldMatched := rfl

@[simp] theorem setTask_newMatched : (s.setTask i j t).newMatched = s.newMatched := rfl

@[simp] theorem setTask_result : (s.setTask i j t).result = s.result := rfl

end Fields

section Fields

variable (cv) (s : ctx.State) (i i' : Fin ctx.oldSegments.length)
  (j j' : Fin ctx.newSegments.length)

@[simp] theorem commit_task :
    (commit cv s i j).task i' j' = if i' = i ∧ j' = j then .committed else s.task i' j' := rfl

@[simp] theorem commit_entered : (commit cv s i j).entered = s.entered := rfl

@[simp] theorem commit_oldMatched :
    (commit cv s i j).oldMatched i' = if i' = i then true else s.oldMatched i' := by
  simp [commit, Function.update_apply]

@[simp] theorem commit_newMatched :
    (commit cv s i j).newMatched j' = if j' = j then true else s.newMatched j' := by
  simp [commit, Function.update_apply]

@[simp] theorem enter_entered :
    (enter s i).entered i' = if i' = i then true else s.entered i' := by
  rw [enter]
  split <;> simp [Function.update_apply]

@[simp] theorem enter_oldMatched : (enter s i).oldMatched = s.oldMatched := by
  rw [enter]
  split <;> rfl

@[simp] theorem enter_newMatched : (enter s i).newMatched = s.newMatched := by
  rw [enter]
  split <;> rfl

@[simp] theorem enter_result : (enter s i).result = s.result := by
  rw [enter]
  split <;> rfl

theorem enter_task :
    (enter s i).task i' j =
      if i' = i ∧ outerReturns s i = false then .ready else s.task i' j := by
  cases h : outerReturns s i with
  | true => simp [enter, h]
  | false => simp [enter, h]

end Fields

end

/-! ## A sample

A black old image and a red new image of one pixel, with segments that cover the
pixel and have the descriptors given. -/

def sampleSegment (value : UInt8) (descriptor : List Nat) : ImageSegment Nat where
  area := ⟨0, 0, 1, 1⟩
  descriptor := descriptor
  roi := ⟨1, 1, fun _ _ => value⟩

def sampleContext (olds news : List (List Nat)) : Context Nat where
  arg := { newFile := "new.ppm", oldFile := "old.ppm", outputName := "out" }
  newFile := some ⟨"new.ppm", pixelFile red⟩
  oldFile := some ⟨"old.ppm", pixelFile ⟨0, 0, 0⟩⟩
  newColorMat := sampleCV.imdecode (pixelFile red)
  oldColorMat := sampleCV.imdecode (pixelFile ⟨0, 0, 0⟩)
  newGrayMat := ⟨1, 1, fun _ _ => 76⟩
  oldGrayMat := ⟨1, 1, fun _ _ => 0⟩
  newSegments := news.map (sampleSegment 76)
  oldSegments := olds.map (sampleSegment 0)

theorem sampleContext_fresh (olds news : List (List Nat)) : (sampleContext olds news).Fresh := by
  refine ⟨?_, ?_⟩
  · intro seg hseg
    obtain ⟨d, -, rfl⟩ := List.mem_map.mp hseg
    rfl
  · intro seg hseg
    obtain ⟨d, -, rfl⟩ := List.mem_map.mp hseg
    rfl

end Gazosan
