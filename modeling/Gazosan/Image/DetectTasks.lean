import Gazosan.Image.Parts
import Gazosan.Library.Transition

/-!
# The tasks of `detect_segments`

With `ENABLE_PARALLEL` each image has a task of its own.  It finds the areas, appends a
segment without a descriptor for each of them, and then releases one task for each
segment, which computes the descriptor and stores it in the segment.  All of these run in
any order, also across the two images.

`detectSegments` handles one image after the other and one segment after the other.
`detect_tasks` says that every interleaving ends with what `detectSegments` returns, after
the same number of steps.
-/

namespace Gazosan

/-- The tasks of `detect_segments`. -/
inductive DetectTask where
  | old
  | new
deriving DecidableEq, Repr

/-- How far a task has come. -/
inductive DetectPhase where
  | pending
  /-- In the loop over the areas, with those that are left. -/
  | emplacing (todo : List Rect)
  /-- In `parallel_for_each`, with the segments whose body has not run. -/
  | describing (todo : Finset Nat)
deriving DecidableEq

/-- The segments and the phases of the tasks.  The rest of the context is only read. -/
structure DetectState (ρ : Type) where
  segments : DetectTask → List (ImageSegment ρ) := fun _ => []
  phase : DetectTask → DetectPhase := fun _ => .pending

/-- The steps of the tasks. -/
inductive DetectAct where
  /-- The call of `split_segments`. -/
  | split (t : DetectTask)
  /-- One iteration of the loop over the areas. -/
  | emplace (t : DetectTask)
  /-- The end of the loop. -/
  | release (t : DetectTask)
  /-- The body of `parallel_for_each` for one segment. -/
  | describe (t : DetectTask) (k : Nat)

section

variable {ρ : Type} (cv : OpenCV ρ) (ctx : Context ρ)

def DetectTask.gray : DetectTask → Mat UInt8
  | .old => ctx.oldGrayMat
  | .new => ctx.newGrayMat

def DetectTask.color : DetectTask → Mat Vec3b
  | .old => ctx.oldColorMat
  | .new => ctx.newColorMat

def DetectTask.split (t : DetectTask) : Option (List Rect) :=
  splitSegments cv (t.gray ctx) (t.color ctx) ctx.arg.binThreshold

/-- The segment as it is appended, without a descriptor. -/
def emplaceSegment (gray : Mat UInt8) (area : Rect) : Option (ImageSegment ρ) :=
  (gray.roi? area).map fun roi => { area, roi }

/-- The body of the loop over the segments. -/
def describe (seg : ImageSegment ρ) : ImageSegment ρ :=
  match computeDescriptor cv seg.roi with
  | some desc => { seg with descriptor := desc }
  | none => seg

def DetectState.set (s : DetectState ρ) (t : DetectTask) (segs : List (ImageSegment ρ))
    (phase : DetectPhase) : DetectState ρ :=
  ⟨Function.update s.segments t segs, Function.update s.phase t phase⟩

/-- One step.  A call that raises has none. -/
def detectStep (s : DetectState ρ) : DetectAct → Option (DetectState ρ)
  | .split t =>
      if s.phase t = .pending then
        (t.split cv ctx).map fun areas => s.set t (s.segments t) (.emplacing areas)
      else none
  | .emplace t =>
      match s.phase t with
      | .emplacing (area :: todo) =>
          (emplaceSegment (t.gray ctx) area).map fun seg =>
            s.set t (s.segments t ++ [seg]) (.emplacing todo)
      | _ => none
  | .release t =>
      match s.phase t with
      | .emplacing [] =>
          some (s.set t (s.segments t) (.describing (Finset.range (s.segments t).length)))
      | _ => none
  | .describe t k =>
      match s.phase t with
      | .describing todo =>
          if k ∈ todo then
            some (s.set t ((s.segments t).modify k (describe cv)) (.describing (todo.erase k)))
          else none
      | _ => none

/-- The task group has been waited for. -/
def DetectState.Done (s : DetectState ρ) : Prop := ∀ t, s.phase t = .describing ∅

/-- The context with the segments of the tasks. -/
def DetectState.context (s : DetectState ρ) : Context ρ :=
  { ctx with oldSegments := s.segments .old, newSegments := s.segments .new }

/-! ## What one task has done -/

/-- The segments of a task in each phase. -/
def DetectInv (t : DetectTask) (segs : List (ImageSegment ρ)) : DetectPhase → Prop
  | .pending => segs = []
  | .emplacing todo => ∃ made, t.split cv ctx = some (made ++ todo) ∧
      made.mapM (emplaceSegment (t.gray ctx)) = some segs
  | .describing todo => ∃ areas bare, t.split cv ctx = some areas ∧
      areas.mapM (emplaceSegment (t.gray ctx)) = some bare ∧ (∀ k ∈ todo, k < bare.length) ∧
      segs = bare.mapIdx fun k seg => if k ∈ todo then seg else describe cv seg

/-- The steps that a task has still to take. -/
def DetectTask.left (t : DetectTask) : DetectPhase → Nat
  | .pending => 2 + 2 * ((t.split cv ctx).getD []).length
  | .emplacing todo => todo.length + 1 + ((t.split cv ctx).getD []).length
  | .describing todo => todo.card

variable {cv ctx}

theorem makeSegment_eq (gray : Mat UInt8) (area : Rect) :
    makeSegment cv gray area = (emplaceSegment gray area).map (describe cv) := by
  rw [makeSegment, emplaceSegment, Option.map_map]
  refine congrArg (Option.map · _) (funext fun roi => ?_)
  simp only [Function.comp_apply, describe]
  cases computeDescriptor cv roi with
  | none => rfl
  | some desc => rfl

theorem mapM_map {α β γ : Type} {f : α → Option β} {g : β → γ} {as : List α} {bs : List β}
    (h : as.mapM f = some bs) : as.mapM (fun a => (f a).map g) = some (bs.map g) := by
  induction as generalizing bs with
  | nil =>
      cases h
      rfl
  | cons a as ih =>
      simp only [List.mapM_cons, Option.bind_eq_bind, Option.bind_eq_some_iff] at h
      obtain ⟨b, hb, bs', hbs', h⟩ := h
      cases h
      simp [List.mapM_cons, hb, ih hbs']

/-- When a task has nothing left to do, its segments are those of `do_detect`. -/
theorem doDetect_of_inv {t : DetectTask} {segs : List (ImageSegment ρ)}
    (h : DetectInv cv ctx t segs (.describing ∅)) :
    doDetect cv (t.gray ctx) (t.color ctx) ctx.arg.binThreshold = .ok segs := by
  obtain ⟨areas, bare, hsplit, hbare, -, rfl⟩ := h
  have hsegs : areas.mapM (makeSegment cv (t.gray ctx)) = some (bare.map (describe cv)) := by
    rw [← mapM_map hbare]
    exact congrArg (List.mapM · areas) (funext (makeSegment_eq _))
  rw [DetectTask.split] at hsplit
  rw [doDetect, hsplit]
  simp only [hsegs, Finset.notMem_empty, if_false, Except.ok.injEq]
  refine List.ext_getElem? fun i => ?_
  simp

/-- Describing one more segment. -/
theorem modify_mapIdx {α : Type} (f : α → α) (xs : List α) {todo : Finset Nat} {k : Nat}
    (hk : k ∈ todo) :
    (xs.mapIdx fun i x => if i ∈ todo then x else f x).modify k f =
      xs.mapIdx fun i x => if i ∈ todo.erase k then x else f x := by
  refine List.ext_getElem? fun i => ?_
  rw [List.getElem?_modify, List.getElem?_mapIdx, List.getElem?_mapIdx]
  cases xs[i]? with
  | none => simp
  | some x =>
      by_cases hik : k = i
      · subst hik
        simp [hk]
      · simp [hik, Ne.symm hik]

theorem mapM_append_singleton {α β : Type} {f : α → Option β} {as : List α} {bs : List β} {a : α}
    {b : β} (h : as.mapM f = some bs) (hb : f a = some b) :
    (as ++ [a]).mapM f = some (bs ++ [b]) := by
  rw [List.mapM_append, h, List.mapM_cons, hb]
  rfl

theorem length_of_mapM {α β : Type} {f : α → Option β} {as : List α} {bs : List β}
    (h : as.mapM f = some bs) : bs.length = as.length := by
  induction as generalizing bs with
  | nil =>
      cases h
      rfl
  | cons a as ih =>
      simp only [List.mapM_cons, Option.bind_eq_bind, Option.bind_eq_some_iff] at h
      obtain ⟨b, -, bs', hbs', h⟩ := h
      cases h
      rw [List.length_cons, List.length_cons, ih hbs']

/-- A step is a step of one task: it keeps what holds of the task, and it is one of those
that the task has still to take. -/
theorem detectStep_cases {s s' : DetectState ρ} {a : DetectAct}
    (h : detectStep cv ctx s a = some s') :
    ∃ t segs phase, s' = s.set t segs phase ∧
      (DetectInv cv ctx t (s.segments t) (s.phase t) →
        DetectInv cv ctx t segs phase ∧ t.left cv ctx phase + 1 = t.left cv ctx (s.phase t)) := by
  cases a with
  | split t =>
      rw [detectStep] at h
      split at h
      · rename_i hphase
        obtain ⟨areas, hareas, rfl⟩ := Option.map_eq_some_iff.mp h
        refine ⟨t, _, _, rfl, fun hinv => ?_⟩
        rw [hphase] at hinv ⊢
        refine ⟨⟨[], hareas, ?_⟩, ?_⟩
        · rw [show s.segments t = [] from hinv]
          rfl
        · simp only [DetectTask.left, hareas, Option.getD_some]
          omega
      · cases h
  | emplace t =>
      rw [detectStep] at h
      split at h
      · rename_i area todo hphase
        obtain ⟨seg, hseg, rfl⟩ := Option.map_eq_some_iff.mp h
        refine ⟨t, _, _, rfl, fun hinv => ?_⟩
        rw [hphase] at hinv ⊢
        obtain ⟨made, hsplit, hmade⟩ := hinv
        refine ⟨⟨made ++ [area], ?_, mapM_append_singleton hmade hseg⟩, ?_⟩
        · rw [hsplit, List.append_assoc]
          rfl
        · simp only [DetectTask.left, List.length_cons]
          omega
      · cases h
  | release t =>
      rw [detectStep] at h
      split at h
      · rename_i hphase
        cases h
        refine ⟨t, _, _, rfl, fun hinv => ?_⟩
        rw [hphase] at hinv ⊢
        obtain ⟨made, hsplit, hmade⟩ := hinv
        rw [List.append_nil] at hsplit
        refine ⟨⟨made, s.segments t, hsplit, hmade, fun k hk => List.mem_range.mp hk, ?_⟩, ?_⟩
        · refine List.ext_getElem? fun i => ?_
          rw [List.getElem?_mapIdx]
          by_cases hi : i < (s.segments t).length
          · simp [hi]
          · simp [hi]
        · simp only [DetectTask.left, hsplit, Option.getD_some, List.length_nil,
            Finset.card_range, length_of_mapM hmade]
          omega
      · cases h
  | describe t k =>
      rw [detectStep] at h
      split at h
      · rename_i todo hphase
        split at h
        · rename_i hk
          cases h
          refine ⟨t, _, _, rfl, fun hinv => ?_⟩
          rw [hphase] at hinv ⊢
          obtain ⟨areas, bare, hsplit, hbare, hlt, hsegs⟩ := hinv
          refine ⟨⟨areas, bare, hsplit, hbare, fun i hi => hlt i (Finset.mem_of_mem_erase hi), ?_⟩,
            Finset.card_erase_add_one hk⟩
          rw [hsegs, modify_mapIdx _ _ hk]
        · cases h
      · cases h

/-! ## Both tasks -/

/-- What holds between two steps. -/
def DetectsInv (cv : OpenCV ρ) (ctx : Context ρ) (s : DetectState ρ) : Prop :=
  ∀ t, DetectInv cv ctx t (s.segments t) (s.phase t)

/-- The steps that are left. -/
def DetectState.left (cv : OpenCV ρ) (ctx : Context ρ) (s : DetectState ρ) : Nat :=
  DetectTask.old.left cv ctx (s.phase .old) + DetectTask.new.left cv ctx (s.phase .new)

theorem detectsInv_init : DetectsInv cv ctx {} := fun _ => rfl

/-- The tasks do not disturb each other. -/
theorem detectsInv_step {s s' : DetectState ρ} {a : DetectAct} (h : DetectsInv cv ctx s)
    (hstep : detectStep cv ctx s a = some s') :
    DetectsInv cv ctx s' ∧ s'.left cv ctx + 1 = s.left cv ctx := by
  obtain ⟨t, segs, phase, rfl, hcase⟩ := detectStep_cases hstep
  obtain ⟨hinv, hleft⟩ := hcase (h t)
  constructor
  · intro u
    by_cases hu : u = t
    · subst hu
      simpa [DetectState.set] using hinv
    · simpa [DetectState.set, hu] using h u
  · cases t with
    | old =>
        simp only [DetectState.left, DetectState.set, Function.update_self, ne_eq,
          reduceCtorEq, not_false_eq_true, Function.update_of_ne]
        omega
    | new =>
        simp only [DetectState.left, DetectState.set, Function.update_self, ne_eq,
          reduceCtorEq, not_false_eq_true, Function.update_of_ne]
        omega

theorem detectTask_left_eq_zero {t : DetectTask} {phase : DetectPhase} :
    t.left cv ctx phase = 0 ↔ phase = .describing ∅ := by
  cases phase with
  | pending => simp [DetectTask.left]
  | emplacing todo => simp [DetectTask.left]
  | describing todo => simp [DetectTask.left]

/-- A task takes two steps, and two for each of its segments. -/
theorem left_pending {t : DetectTask} {segs : List (ImageSegment ρ)}
    (h : doDetect cv (t.gray ctx) (t.color ctx) ctx.arg.binThreshold = .ok segs) :
    t.left cv ctx .pending = 2 + 2 * segs.length := by
  rw [doDetect] at h
  split at h
  · cases h
  · rename_i areas hsplit
    split at h
    · cases h
    · rename_i hsegs
      cases h
      rw [DetectTask.left, DetectTask.split, hsplit, Option.getD_some, length_of_mapM hsegs]

theorem DetectState.done_iff (cv : OpenCV ρ) (ctx : Context ρ) {s : DetectState ρ} :
    s.Done ↔ s.left cv ctx = 0 := by
  rw [DetectState.left, Nat.add_eq_zero_iff, detectTask_left_eq_zero, detectTask_left_eq_zero]
  refine ⟨fun h => ⟨h .old, h .new⟩, fun h t => ?_⟩
  cases t with
  | old => exact h.1
  | new => exact h.2

/-- The areas that a task has still to cut out lie inside its image. -/
theorem DetectsInv.exists_roi (hcv : cv.Lawful) (hfind : cv.FindsWellFormed)
    {s : DetectState ρ} (h : DetectsInv cv ctx s) {t : DetectTask} {area : Rect}
    {todo : List Rect} (hphase : s.phase t = .emplacing (area :: todo)) :
    ∃ roi, (t.gray ctx).roi? area = some roi := by
  obtain ⟨areas, hsplit, hfits⟩ := splitSegments_returns hcv hfind (t.gray ctx) (t.color ctx)
    ctx.arg.binThreshold
  have hinv := h t
  rw [hphase] at hinv
  obtain ⟨made, hmade, -⟩ := hinv
  rw [DetectTask.split, hsplit] at hmade
  cases hmade
  exact Mat.exists_roi? (hfits area (List.mem_append_right _ List.mem_cons_self))

/-- A task that is not at its end can take a step. -/
theorem detectStep_progress (hcv : cv.Lawful) (hfind : cv.FindsWellFormed) {s : DetectState ρ}
    (h : DetectsInv cv ctx s) (hdone : ¬ s.Done) :
    ∃ a s', detectStep cv ctx s a = some s' := by
  obtain ⟨t, ht⟩ := not_forall.mp hdone
  cases hphase : s.phase t with
  | pending =>
      obtain ⟨areas, hsplit, -⟩ := splitSegments_returns hcv hfind (t.gray ctx) (t.color ctx)
        ctx.arg.binThreshold
      exact ⟨.split t, _, by rw [detectStep, if_pos hphase, DetectTask.split, hsplit]; rfl⟩
  | emplacing todo =>
      cases todo with
      | nil => exact ⟨.release t, _, by rw [detectStep, hphase]⟩
      | cons area todo =>
          obtain ⟨roi, hroi⟩ := h.exists_roi hcv hfind hphase
          refine ⟨.emplace t, s.set t (s.segments t ++ [{ area := area, roi := roi }])
            (.emplacing todo), ?_⟩
          simp only [detectStep, hphase, emplaceSegment, hroi, Option.map_some]
  | describing todo =>
      obtain ⟨k, hk⟩ : todo.Nonempty :=
        Finset.nonempty_iff_ne_empty.mpr fun hempty => ht (hempty ▸ hphase)
      exact ⟨.describe t k, _, by rw [detectStep, hphase]; exact if_pos hk⟩

/-- When both tasks have ended, the context is what `detectSegments` returns. -/
theorem detectSegments_of_done (hempty : ctx.oldSegments = [] ∧ ctx.newSegments = [])
    {s : DetectState ρ} (h : DetectsInv cv ctx s) (hdone : s.Done) :
    detectSegments cv ctx = .ok (s.context ctx) := by
  have hsegs : ∀ t, doDetect cv (t.gray ctx) (t.color ctx) ctx.arg.binThreshold =
      .ok (s.segments t) := fun t => doDetect_of_inv (hdone t ▸ h t)
  have hold : doDetect cv ctx.oldGrayMat ctx.oldColorMat ctx.arg.binThreshold =
      .ok (s.segments .old) := hsegs .old
  have hnew : doDetect cv ctx.newGrayMat ctx.newColorMat ctx.arg.binThreshold =
      .ok (s.segments .new) := hsegs .new
  rw [detectSegments, hold, hnew, hempty.1, hempty.2]
  rfl

/-- Every interleaving of the tasks of `detect_segments` can be continued until they have
ended.  It ends after two steps for each image and two for each segment, with the context
that `detectSegments` returns. -/
theorem detect_tasks (hcv : cv.Lawful) (hfind : cv.FindsWellFormed)
    (hempty : ctx.oldSegments = [] ∧ ctx.newSegments = []) :
    ∃ ctx', detectSegments cv ctx = .ok ctx' ∧
      ∀ acts s, Transition.run (detectStep cv ctx) {} acts = some s →
        (s.Done ∨ ∃ a s', detectStep cv ctx s a = some s') ∧
        (s.Done ↔ acts.length = 4 + 2 * (ctx'.oldSegments.length + ctx'.newSegments.length)) ∧
        (s.Done → s.context ctx = ctx') := by
  obtain ⟨ctx', hdetect⟩ := detectSegments_returns hcv hfind ctx
  refine ⟨ctx', hdetect, fun acts s hrun => ?_⟩
  have hinv := Transition.run_invariant (DetectsInv cv ctx)
    (fun _ _ _ h hstep => (detectsInv_step h hstep).1) detectsInv_init hrun
  have hcount := Transition.run_length_add (DetectsInv cv ctx) (DetectState.left cv ctx)
    (fun _ _ _ h hstep => detectsInv_step h hstep) detectsInv_init hrun
  refine ⟨?_, ?_, fun hdone => ?_⟩
  · by_cases hdone : s.Done
    · exact .inl hdone
    · exact .inr (detectStep_progress hcv hfind hinv hdone)
  · obtain ⟨old, hold, hrest⟩ := bind_eq_ok.mp hdetect
    obtain ⟨new, hnew, hrest⟩ := bind_eq_ok.mp hrest
    cases hrest
    rw [DetectState.left, DetectState.left, left_pending (t := .old) hold,
      left_pending (t := .new) hnew, ← DetectState.left] at hcount
    rw [DetectState.done_iff cv ctx, hempty.1, hempty.2]
    show _ ↔ acts.length = 4 + 2 * (old.length + new.length)
    omega
  · exact Except.ok.inj ((detectSegments_of_done hempty hinv hdone).symm.trans hdetect)

end

/-! ## A sample run -/

/-- The tasks of `squareContext` in turn. -/
def squareActs : List DetectAct :=
  [.split .new, .split .old, .emplace .new, .emplace .old, .release .old, .release .new,
    .describe .old 0, .describe .new 0]

theorem detect_tasks_square :
    ∃ s, Transition.run (detectStep sampleCV squareContext) {} squareActs = some s ∧ s.Done ∧
      (s.context squareContext).oldSegments.map ImageSegment.area = [⟨1, 1, 1, 1⟩] ∧
      (s.context squareContext).newSegments.map ImageSegment.area = [⟨1, 1, 2, 1⟩] ∧
      detectSegments sampleCV squareContext = .ok (s.context squareContext) := by
  obtain ⟨s, hrun⟩ : ∃ s, Transition.run (detectStep sampleCV squareContext) {} squareActs =
      some s := Option.isSome_iff_exists.mp (by decide)
  obtain ⟨ctx', hdetect, h⟩ :=
    detect_tasks (ρ := Nat) sampleCV_lawful sampleCV_findsWellFormed
      (show squareContext.oldSegments = [] ∧ squareContext.newSegments = [] from ⟨rfl, rfl⟩)
  obtain ⟨-, hcount, hcontext⟩ := h squareActs s hrun
  have hareas : (detectSegments sampleCV squareContext).toOption.map (fun ctx =>
      (ctx.oldSegments.map ImageSegment.area, ctx.newSegments.map ImageSegment.area)) =
      some ([⟨1, 1, 1, 1⟩], [⟨1, 1, 2, 1⟩]) := by
    decide
  rw [hdetect] at hareas
  obtain ⟨hold, hnew⟩ := Prod.mk.inj (Option.some.inj hareas)
  have hdone : s.Done := by
    rw [hcount, ← List.length_map ImageSegment.area, hold, ← List.length_map ImageSegment.area,
      hnew]
    rfl
  refine ⟨s, hrun, hdone, ?_, ?_, ?_⟩
  · rw [hcontext hdone, hold]
  · rw [hcontext hdone, hnew]
  · rw [hcontext hdone, hdetect]

end Gazosan
