import Gazosan.Diff.Bodies

/-!
# Which old segment claims a new one

A task reads the flag of its new segment in its guard and sets it in its commit.
Between the two another task of the same new segment may pass its guard as well,
so one new segment may be committed twice (`commits_unique_iff`).

If the pair bodies run without interruption, a new segment goes to the first
compatible old segment in the order of the bodies.  The old segments that end
matched then depend on that order, unless every compatible old segment has a new
segment of its own (`oldMatched_order_independent_iff`).
-/

namespace Gazosan

section

variable {ρ : Type} {cv : OpenCV ρ} {descriptorMatch : List ρ → List ρ → Bool}
  {ctx : Context ρ}

/-! ## Interrupted bodies -/

/-- The outer body of an unmatched old segment with a descriptor releases its
tasks. -/
theorem enter_ready {s : ctx.State} {i : Fin ctx.oldSegments.length}
    {j : Fin ctx.newSegments.length} (hm : s.oldMatched i = false)
    (hc : Compat descriptorMatch i j) : (enter s i).task i j = .ready := by
  have hret : outerReturns s i = false := by simp [outerReturns, hm, hc.1]
  rw [enter_task, if_pos ⟨rfl, hret⟩]

theorem matchStep_guard {s : ctx.State} {i : Fin ctx.oldSegments.length}
    {j : Fin ctx.newSegments.length} (h : s.task i j = .ready)
    (hc : Compat descriptorMatch i j) (hm : s.newMatched j = false) :
    matchStep cv descriptorMatch s (.guard i j) = some (s.setTask i j .passed) := by
  simp [matchStep, h, pairReturns_eq_true hc, hm]

/-- A guard is evaluated only while no other task of the same new segment is
between its guard and its commit. -/
def Exclusive (s : ctx.State) : ctx.Step → Prop
  | .guard _ j => ∀ i, s.task i j ≠ .passed
  | _ => True

/-- The task has passed its guard. -/
def Task.Claims (t : Task) : Prop := t = .passed ∨ t = .committed

/-- At most one task of each new segment has passed its guard. -/
def ClaimsUnique (s : ctx.State) : Prop :=
  ∀ i i' j, (s.task i j).Claims → (s.task i' j).Claims → i = i'

/-- A task of a new segment without claims may claim it. -/
theorem ClaimsUnique.setTask {s : ctx.State} (hs : ClaimsUnique s)
    {j : Fin ctx.newSegments.length} (hnone : ∀ i, ¬ (s.task i j).Claims)
    (i : Fin ctx.oldSegments.length) (t : Task) : ClaimsUnique (s.setTask i j t) := by
  intro i₁ i₂ j' h1 h2
  rw [setTask_task] at h1 h2
  by_cases hj : j' = j
  · subst hj
    split at h1
    · rename_i hc1
      split at h2
      · rename_i hc2
        rw [hc1.1, hc2.1]
      · exact absurd h2 (hnone i₂)
    · exact absurd h1 (hnone i₁)
  · rw [if_neg (fun hc => hj hc.2)] at h1 h2
    exact hs i₁ i₂ j' h1 h2

theorem ClaimsUnique.step {s s' : ctx.State} {a : ctx.Step} (hf : FlagInv descriptorMatch s)
    (hs : ClaimsUnique s) (hx : Exclusive s a)
    (h : matchStep cv descriptorMatch s a = some s') : ClaimsUnique s' := by
  -- only a guard that passes makes a new claim
  have hof : (∀ i j, (s'.task i j).Claims → (s.task i j).Claims) → ClaimsUnique s' :=
    fun hsub i i' j h1 h2 => hs i i' j (hsub i j h1) (hsub i' j h2)
  rcases matchStep_cases h with ⟨i, -, he, rfl⟩ | ⟨i, j, -, ht, -, rfl⟩ |
    ⟨i, j, rfl, ht, hr, rfl⟩ | ⟨i, j, -, ht, rfl⟩
  · refine hof (fun i' j' hc => ?_)
    rcases hc with hc | hc
    · exact Or.inl ((hf.enter_task_iff he (by simp) (by simp)).mp hc)
    · exact Or.inr ((hf.enter_task_iff he (by simp) (by simp)).mp hc)
  · refine hof (fun i' j' hc => ?_)
    rw [setTask_task] at hc
    split at hc
    · rcases hc with hc | hc <;> cases hc
    · exact hc
  · rw [pairReturns_eq_true (hf.compat_of_pass ht hr)] at hr
    refine hs.setTask ?_ i .passed
    rintro i' (hc | hc)
    · exact hx i' hc
    · rw [(hf.newMatched_iff j).mpr ⟨i', hc⟩] at hr
      cases hr
  · refine hof (fun i' j' hc => ?_)
    rw [commit_task] at hc
    split at hc
    · rename_i hc'
      obtain ⟨rfl, rfl⟩ := hc'
      exact Or.inl ht
    · exact hc

/-- Two tasks of one new segment that both pass their guard before either
commits. -/
theorem exists_run_two_commits (cv : OpenCV ρ) (hfresh : ctx.Fresh)
    {i i' : Fin ctx.oldSegments.length}
    {j : Fin ctx.newSegments.length} (hne : i ≠ i') (hi : Compat descriptorMatch i j)
    (hi' : Compat descriptorMatch i' j) :
    ∃ as s, Transition.run (matchStep cv descriptorMatch) (initState cv ctx) as = some s ∧
      s.task i j = .committed ∧ s.task i' j = .committed := by
  have hold := initState_oldMatched cv hfresh
  have hnew := initState_newMatched cv hfresh j
  have hne' : i' ≠ i := fun h => hne h.symm
  let s₁ := enter (initState cv ctx) i
  let s₂ := enter s₁ i'
  have h₁ : matchStep cv descriptorMatch (initState cv ctx) (.outer i) = some s₁ :=
    matchStep_outer rfl
  have h₂ : matchStep cv descriptorMatch s₁ (.outer i') = some s₂ :=
    matchStep_outer (by simp [s₁, hne', initState])
  have ht : s₂.task i j = .ready := by
    have hready : s₁.task i j = .ready := enter_ready (hold i) hi
    simp [s₂, enter_task, hne, hready]
  have ht' : s₂.task i' j = .ready := enter_ready (by simp [s₁, hold]) hi'
  have hm : s₂.newMatched j = false := by simp [s₂, s₁, hnew]
  let s₃ := s₂.setTask i j .passed
  let s₄ := s₃.setTask i' j .passed
  have h₃ : matchStep cv descriptorMatch s₂ (.guard i j) = some s₃ := matchStep_guard ht hi hm
  have h₄ : matchStep cv descriptorMatch s₃ (.guard i' j) = some s₄ :=
    matchStep_guard (by simp [s₃, hne', ht']) hi' (by simp [s₃, hm])
  have h₅ : matchStep cv descriptorMatch s₄ (.commit i j) = some (commit cv s₄ i j) :=
    matchStep_commit (by simp [s₄, s₃, hne])
  have h₆ : matchStep cv descriptorMatch (commit cv s₄ i j) (.commit i' j) =
      some (commit cv (commit cv s₄ i j) i' j) :=
    matchStep_commit (by simp [s₄, hne'])
  refine ⟨[.outer i, .outer i', .guard i j, .guard i' j, .commit i j, .commit i' j],
    commit cv (commit cv s₄ i j) i' j, ?_, ?_, ?_⟩
  · rw [Transition.run_cons_of_step h₁, Transition.run_cons_of_step h₂,
      Transition.run_cons_of_step h₃, Transition.run_cons_of_step h₄,
      Transition.run_cons_of_step h₅, Transition.run_cons_of_step h₆, Transition.run_nil]
  · simp [hne]
  · simp

/-- When a new segment is committed by at most one task.  In a run in which no
guard is evaluated while another task of the same new segment is between its
guard and its commit it always is.  Over all runs it is if no new segment is
compatible with two old ones, and only then. -/
theorem commits_unique_iff (hfresh : ctx.Fresh) :
    (∀ as s, Transition.Meets Exclusive (matchStep cv descriptorMatch) (initState cv ctx) as →
      Transition.run (matchStep cv descriptorMatch) (initState cv ctx) as = some s →
      ∀ i i' j, s.task i j = .committed → s.task i' j = .committed → i = i') ∧
    ((∀ s, Transition.Reachable (matchStep cv descriptorMatch) (initState cv ctx) s →
      ∀ i i' j, s.task i j = .committed → s.task i' j = .committed → i = i') ↔
      ∀ (i i' : Fin ctx.oldSegments.length) (j : Fin ctx.newSegments.length),
        Compat descriptorMatch i j → Compat descriptorMatch i' j → i = i') := by
  refine ⟨?_, ?_, ?_⟩
  · intro as s hm h i i' j hi hi'
    have hinv := Transition.run_invariant_of_meets
      (fun s => FlagInv descriptorMatch s ∧ ClaimsUnique s)
      (fun _ a _ hs hx h => ⟨hs.1.step a h, hs.2.step hs.1 hx h⟩)
      ⟨flagInv_initState cv hfresh, by rintro i i' j (h | h) <;> cases h⟩ hm h
    exact hinv.2 i i' j (Or.inr hi) (Or.inr hi')
  · intro hall i i' j hi hi'
    by_contra hne
    obtain ⟨as, s, h, hc, hc'⟩ := exists_run_two_commits cv hfresh hne hi hi'
    exact hne (hall s ⟨as, h⟩ i i' j hc hc')
  · rintro huniq s ⟨as, h⟩ i i' j hi hi'
    have hf := flagInv_of_run hfresh h
    exact huniq i i' j (hf.committed i j hi) (hf.committed i' j hi')

/-! ## Whole bodies -/

theorem oldMatched_of_bodyStep {s s' : ctx.State} {i : Fin ctx.oldSegments.length}
    {b : Body ctx.oldSegments.length ctx.newSegments.length} (hs : s.oldMatched i = true)
    (h : bodyStep cv descriptorMatch s b = some s') : s'.oldMatched i = true := by
  rcases bodyStep_cases h with ⟨i', -, -, rfl⟩ | ⟨_, _, -, -, -, rfl⟩ | ⟨i', _, -, -, -, rfl⟩
  · rw [enter_oldMatched]
    exact hs
  · exact hs
  · rw [commit_oldMatched]
    split
    · rfl
    · exact hs

/-- The body of a compatible pair commits if its new segment is not matched. -/
theorem bodyStep_pair_commit {s : ctx.State} {i : Fin ctx.oldSegments.length}
    {j : Fin ctx.newSegments.length} (hr : s.task i j = .ready)
    (hc : Compat descriptorMatch i j) (hm : s.newMatched j = false) :
    bodyStep cv descriptorMatch s (.pair i j) =
      some (commit cv (s.setTask i j .passed) i j) := by
  rw [bodyStep, matchStep_guard hr hc hm, Option.bind_some, if_pos (by simp),
    matchStep_commit (by simp)]

/-- A compatible pair whose bodies run first is committed. -/
theorem oldMatched_of_first (cv : OpenCV ρ) (hfresh : ctx.Fresh)
    {i : Fin ctx.oldSegments.length} {j : Fin ctx.newSegments.length}
    (hc : Compat descriptorMatch i j) :
    (runBodies cv descriptorMatch (initState cv ctx) [.outer i, .pair i j]).oldMatched i =
      true := by
  have hold := initState_oldMatched cv hfresh i
  have hnew := initState_newMatched cv hfresh j
  let s₁ := enter (initState cv ctx) i
  have h₁ : bodyStep cv descriptorMatch (initState cv ctx) (.outer i) = some s₁ := by
    rw [bodyStep]
    exact matchStep_outer rfl
  have hr : s₁.task i j = .ready := enter_ready hold hc
  have hm : s₁.newMatched j = false := by simp [s₁, hnew]
  have h₂ : bodyStep cv descriptorMatch s₁ (.pair i j) =
      some (commit cv (s₁.setTask i j .passed) i j) := bodyStep_pair_commit hr hc hm
  simp only [runBodies, List.foldl_cons, List.foldl_nil, Transition.attempt_of_some h₁,
    Transition.attempt_of_some h₂]
  simp

/-- An old segment whose compatible new segments are all taken claims none. -/
theorem not_oldMatched_of_bodyStep {s s' : ctx.State} {i : Fin ctx.oldSegments.length}
    {b : Body ctx.oldSegments.length ctx.newSegments.length}
    (hs : FlagInv descriptorMatch s ∧ s.oldMatched i = false ∧
      ∀ j, Compat descriptorMatch i j → s.newMatched j = true)
    (h : bodyStep cv descriptorMatch s b = some s') :
    FlagInv descriptorMatch s' ∧ s'.oldMatched i = false ∧
      ∀ j, Compat descriptorMatch i j → s'.newMatched j = true := by
  obtain ⟨hf, hi, htaken⟩ := hs
  refine ⟨hf.body h, ?_⟩
  rcases bodyStep_cases h with ⟨i', -, -, rfl⟩ | ⟨_, _, -, -, -, rfl⟩ | ⟨i', j, -, ht, hr, rfl⟩
  · rw [enter_oldMatched, enter_newMatched]
    exact ⟨hi, htaken⟩
  · exact ⟨hi, htaken⟩
  · have hcompat := hf.compat_of_pass ht hr
    rw [pairReturns_eq_true hcompat] at hr
    constructor
    · rw [commit_oldMatched]
      split
      · rename_i he
        subst he
        rw [htaken j hcompat] at hr
        cases hr
      · exact hi
    · intro j' hj'
      rw [commit_newMatched]
      split
      · rfl
      · exact htaken j' hj'

/-- The bodies of all old segments but `i`. -/
def othersOrder (m n : Nat) (i : Fin m) : List (Body m n) :=
  ((List.finRange m).filter (· ≠ i)).flatMap (settle m n)

/-- The bodies of other old segments do not enter `i`. -/
theorem not_entered_of_others {i : Fin ctx.oldSegments.length} {s : ctx.State}
    (hs : s.entered i = false) :
    (runBodies cv descriptorMatch s (othersOrder _ _ i)).entered i = false := by
  refine Transition.foldl_attempt_invariant (fun s : ctx.State => s.entered i = false) ?_ hs
  intro b hb s s' hs h
  rcases bodyStep_cases h with ⟨i', rfl, -, rfl⟩ | ⟨_, _, -, -, -, rfl⟩ | ⟨_, _, -, -, -, rfl⟩
  · rw [enter_entered]
    split
    · rename_i he
      subst he
      simp [othersOrder, settle] at hb
    · exact hs
  · exact hs
  · exact hs

/-- An old segment whose bodies run after all others is not matched, if each of
its compatible new segments has another compatible old segment. -/
theorem not_oldMatched_of_last (cv : OpenCV ρ) (hfresh : ctx.Fresh)
    {i : Fin ctx.oldSegments.length}
    (hother : ∀ j, Compat descriptorMatch i j → ∃ i', i' ≠ i ∧ Compat descriptorMatch i' j)
    (bs : List (Body ctx.oldSegments.length ctx.newSegments.length)) :
    (runBodies cv descriptorMatch
      (runBodies cv descriptorMatch (initState cv ctx) (othersOrder _ _ i)) bs).oldMatched i =
      false := by
  let s₁ := runBodies cv descriptorMatch (initState cv ctx) (othersOrder _ _ i)
  have hinv : BodyInv descriptorMatch s₁ :=
    runBodies_invariant (BodyInv descriptorMatch) (fun _ _ _ hs h => hs.step h) _
      (BodyInv.init cv hfresh)
  have hold : s₁.oldMatched i = false :=
    hinv.flags.oldMatched_of_not_entered (not_entered_of_others rfl)
  have htaken : ∀ j, Compat descriptorMatch i j → s₁.newMatched j = true := by
    intro j hj
    obtain ⟨i', hne, hc⟩ := hother j hj
    have hset : Settled s₁ i' := settled_of_mem (by simp [hne])
    exact hinv.flags.newMatched_of_ended hset.1 (hset.2 j) (hinv.not_passed i' j) hc
  exact (runBodies_invariant _ (fun _ _ _ => not_oldMatched_of_bodyStep) _
    ⟨hinv.flags, hold, htaken⟩).2.1

/-- If every compatible old segment has a new segment of its own, it is matched
in every complete state. -/
theorem FlagInv.oldMatched_of_own {s : ctx.State} (hs : FlagInv descriptorMatch s)
    (hc : s.Complete)
    (hown : ∀ (i : Fin ctx.oldSegments.length) (j : Fin ctx.newSegments.length),
      Compat descriptorMatch i j → ∃ j', Compat descriptorMatch i j' ∧
        ∀ i', Compat descriptorMatch i' j' → i' = i) (i : Fin ctx.oldSegments.length) :
    s.oldMatched i = true ↔ ∃ j, Compat descriptorMatch i j := by
  constructor
  · intro h
    obtain ⟨j, hj⟩ := (hs.oldMatched_iff i).mp h
    exact ⟨j, hs.committed i j hj⟩
  · rintro ⟨j, hj⟩
    obtain ⟨j', hj', huniq⟩ := hown i j hj
    -- the own segment is matched, and only `i` can have committed it
    obtain ⟨i', hi'⟩ := (hs.newMatched_iff j').mp ((hs.newMatched_of_complete hc j').mpr ⟨i, hj'⟩)
    obtain rfl := huniq i' (hs.committed i' j' hi')
    exact (hs.oldMatched_iff i').mpr ⟨j', hi'⟩

/-- When the old segments that end matched do not depend on the order in which
the pair bodies run: if every old segment that is compatible with some new one
is the only compatible one of some new segment, and only then. -/
theorem oldMatched_order_independent_iff (hfresh : ctx.Fresh) :
    (∀ bs s bs' s',
      Transition.run (bodyStep cv descriptorMatch) (initState cv ctx) bs = some s → s.Complete →
      Transition.run (bodyStep cv descriptorMatch) (initState cv ctx) bs' = some s' →
      s'.Complete → s'.oldMatched = s.oldMatched) ↔
    ∀ (i : Fin ctx.oldSegments.length) (j : Fin ctx.newSegments.length),
      Compat descriptorMatch i j → ∃ j', Compat descriptorMatch i j' ∧
        ∀ i', Compat descriptorMatch i' j' → i' = i := by
  constructor
  · intro hind i j hij
    by_contra hnone
    have hother : ∀ j', Compat descriptorMatch i j' →
        ∃ i', i' ≠ i ∧ Compat descriptorMatch i' j' := by
      intro j' hj'
      by_contra hno
      refine hnone ⟨j', hj', fun i' hi' => ?_⟩
      by_contra hne
      exact hno ⟨i', hne, hi'⟩
    obtain ⟨bs, s, h, hc, hs⟩ :=
      exists_complete_run cv descriptorMatch hfresh [.outer i, .pair i j]
    obtain ⟨bs', s', h', hc', hs'⟩ :=
      exists_complete_run cv descriptorMatch hfresh (othersOrder _ _ i)
    have hfirst : s.oldMatched i = true := by
      rw [hs]
      exact runBodies_invariant (fun s => s.oldMatched i = true)
        (fun _ _ _ => oldMatched_of_bodyStep) _ (oldMatched_of_first cv hfresh hij)
    have hlast : s'.oldMatched i = false := by
      rw [hs']
      exact not_oldMatched_of_last cv hfresh hother _
    rw [hind bs s bs' s' h hc h' hc', hfirst] at hlast
    cases hlast
  · intro hown bs s bs' s' h hc h' hc'
    funext i
    have hi := (flagInv_of_bodies hfresh h).oldMatched_of_own hc hown i
    have hi' := (flagInv_of_bodies hfresh h').oldMatched_of_own hc' hown i
    exact Bool.eq_iff_iff.mpr (hi'.trans hi.symm)

end

/-! ## Two old segments and one new segment -/

/-- Two old segments and one new segment, all with the same descriptor. -/
def rivals : Context Nat := sampleContext [[1], [1]] [[1]]

/-- The first and the second old segment, and the new one. -/
def rivals.first : Fin rivals.oldSegments.length := ⟨0, by decide⟩
def rivals.second : Fin rivals.oldSegments.length := ⟨1, by decide⟩
def rivals.new : Fin rivals.newSegments.length := ⟨0, by decide⟩

open rivals in
/-- Both tasks pass their guard before either commits. -/
def rivalsRun : Option rivals.State :=
  Transition.run (matchStep sampleCV fun d e => d == e) (initState sampleCV rivals)
    [.outer first, .outer second, .guard first new, .guard second new,
      .commit first new, .commit second new]

/-- One new segment is committed by two tasks. -/
theorem rivals_two_commits :
    ∃ s, rivalsRun = some s ∧ s.task rivals.first rivals.new = .committed ∧
      s.task rivals.second rivals.new = .committed ∧ rivals.first ≠ rivals.second :=
  ⟨rivalsRun.get (by decide), (Option.some_get _).symm, by decide, by decide, by decide⟩

open rivals in
/-- The whole bodies in container order, and with the second old segment first. -/
def rivalsBodies (swap : Bool) : Option rivals.State :=
  Transition.run (bodyStep sampleCV fun d e => d == e) (initState sampleCV rivals)
    ([.outer first, .outer second] ++
      if swap then [.pair second new, .pair first new] else [.pair first new, .pair second new])

/-- The order of the bodies decides which old segment ends matched. -/
theorem rivals_order_matters :
    ∃ s s', rivalsBodies false = some s ∧ s.Complete ∧ rivalsBodies true = some s' ∧
      s'.Complete ∧ s'.oldMatched ≠ s.oldMatched :=
  ⟨(rivalsBodies false).get (by decide), (rivalsBodies true).get (by decide),
    (Option.some_get _).symm, by decide, (Option.some_get _).symm, by decide,
    fun h => absurd (congrFun h rivals.first) (by decide)⟩

/-- The descriptors share a row. -/
def sharesRow (d e : List Nat) : Bool := d.any fun row => e.contains row

/-- Two old segments compete for the first new one, and each has another one to itself: no
order of the bodies makes a difference. -/
theorem own_order_independent :
    (sampleContext [[1, 2], [1, 3]] [[1], [2], [3]]).Fresh ∧
      ∀ bs s bs' s', Transition.run (bodyStep sampleCV sharesRow)
          (initState sampleCV (sampleContext [[1, 2], [1, 3]] [[1], [2], [3]])) bs = some s →
        s.Complete → Transition.run (bodyStep sampleCV sharesRow)
          (initState sampleCV (sampleContext [[1, 2], [1, 3]] [[1], [2], [3]])) bs' = some s' →
        s'.Complete → s'.oldMatched = s.oldMatched := by
  have hfresh := sampleContext_fresh [[1, 2], [1, 3]] [[1], [2], [3]]
  refine ⟨hfresh, (oldMatched_order_independent_iff hfresh).mpr ?_⟩
  unfold Compat
  decide

/-- Two old segments, of which one is compatible with two new ones: no run commits a new
segment twice. -/
theorem apart_commits_unique :
    (sampleContext [[1], [2]] [[1], [2], [1]]).Fresh ∧
      ∀ s, Transition.Reachable (matchStep sampleCV fun d e => d == e)
          (initState sampleCV (sampleContext [[1], [2]] [[1], [2], [1]])) s →
        ∀ i i' j, s.task i j = .committed → s.task i' j = .committed → i = i' := by
  have hfresh := sampleContext_fresh [[1], [2]] [[1], [2], [1]]
  refine ⟨hfresh, (commits_unique_iff hfresh).2.mpr ?_⟩
  unfold Compat
  decide

end Gazosan
