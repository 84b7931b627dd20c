import Gazosan.Image.Load
import Gazosan.Library.Locked

/-!
# The tasks of `load_image`

With `ENABLE_PARALLEL` the two images are loaded by two tasks of a task group.  A task
that cannot open or map its file ends in `Fatal`.  Its destructor prints one line under the
lock of `SyncOut`, in two pieces, and then ends the process with `_exit`, whatever the
other task is doing.  A task that raises cancels the other one if that has not been
started, and `wait` raises the exception again.

`loadImage` runs one task after the other in an order it is given.  `load_tasks` says
that every interleaving ends as `loadImage` does in one of the two orders.  It also says
what is then on `stderr`: whole lines of tasks that failed, that of the task that ended
the process among them, and at most a piece of one more line.
-/

namespace Gazosan

/-- The tasks of `load_image`. -/
inductive LoadTask where
  | new
  | old
deriving DecidableEq, Repr

/-- How far a task has come. -/
inductive LoadPhase where
  | pending
  /-- The image is in the context. -/
  | loaded
  | raised (stop : Stop)
  /-- Another task has raised before this one was started. -/
  | cancelled
  /-- In the destructor of `Fatal`. -/
  | failing
deriving DecidableEq

/-- The context, the tasks, what the destructors of `SyncOut` do with `stderr`, and the
task that has called `_exit`. -/
structure LoadState (ρ : Type) where
  ctx : Context ρ
  phase : LoadTask → LoadPhase := fun _ => .pending
  out : Locked.State LoadTask String := {}
  exited : Option LoadTask := none

/-- The steps of the tasks. -/
inductive LoadAct where
  /-- The body of the task, up to its end or to the destructor of `Fatal`. -/
  | start (t : LoadTask)
  | cancel (t : LoadTask)
  /-- A step of the destructor of `SyncOut`. -/
  | out (a : Locked.Act LoadTask)
  /-- `_exit(1)`. -/
  | exit (t : LoadTask)

def LoadPhase.isRaised : LoadPhase → Bool
  | .raised _ => true
  | _ => false

/-- The path of the file of a task. -/
def LoadTask.path (arg : Arg) : LoadTask → String
  | .new => arg.newFile
  | .old => arg.oldFile

section

variable {ρ : Type} (cv : OpenCV ρ) (fs : FileSystem) (arg : Arg)

/-- What the body of a task loads.  Without a path that is nothing. -/
def LoadTask.body (t : LoadTask) : Except Stop (Option (MappedFile × Mat Vec3b × Mat UInt8)) :=
  if (t.path arg).isEmpty then .ok none else (loadOne cv arg fs (t.path arg)).map some

/-- What the task leaves in the context. -/
def LoadTask.store (ctx : Context ρ) :
    LoadTask → Option (MappedFile × Mat Vec3b × Mat UInt8) → Context ρ
  | _, none => ctx
  | .new, some loaded => ctx.setNew loaded
  | .old, some loaded => ctx.setOld loaded

/-- What `Fatal` prints if the file cannot be opened and mapped: the text, and the end of
the line. -/
def LoadTask.chunks (t : LoadTask) : List String :=
  match fs (t.path arg) with
  | .error failure => [addColor arg "fatal" ++ failure.message (t.path arg), "\n"]
  | .ok _ => []

/-- The body of a task has run. -/
def LoadState.start (s : LoadState ρ) (t : LoadTask) : LoadState ρ :=
  match t.body cv fs arg with
  | .ok image =>
      { s with ctx := t.store s.ctx image, phase := Function.update s.phase t .loaded }
  | .error (.fatal _) => { s with phase := Function.update s.phase t .failing }
  | .error stop => { s with phase := Function.update s.phase t (.raised stop) }

/-- One step.  After `_exit` there is none. -/
def loadStep (s : LoadState ρ) (a : LoadAct) : Option (LoadState ρ) :=
  if s.exited.isSome then none
  else
    match a with
    | .start t => if s.phase t = .pending then some (s.start cv fs arg t) else none
    | .cancel t =>
        if s.phase t = .pending ∧ ((s.phase .new).isRaised || (s.phase .old).isRaised) then
          some { s with phase := Function.update s.phase t .cancelled }
        else none
    | .out a =>
        if s.phase a.actor = .failing then
          (Locked.step (LoadTask.chunks fs arg) s.out a).map fun out => { s with out }
        else none
    | .exit t => if s.out.stage t = .done then some { s with exited := some t } else none

/-- How `load_image` ends: in the `_exit` of a task, in the exception of one, or with both
images loaded. -/
inductive LoadEnds (s : LoadState ρ) : Except Stop (Context ρ) → Prop
  | exited {t} (h : s.exited = some t) :
      LoadEnds s (.error (.fatal (String.join (t.chunks fs arg))))
  | raised {t stop} (h : s.exited = none) (hall : ∀ u, s.phase u ≠ .pending ∧ s.phase u ≠ .failing)
      (ht : s.phase t = .raised stop) : LoadEnds s (.error stop)
  | loaded (h : s.exited = none) (hall : ∀ u, s.phase u = .loaded) : LoadEnds s (.ok s.ctx)

/-- What is on `stderr`: the lines of tasks that could not open their file, each once and
whole, with that of the task that has ended the process, and then at most a piece of one
more line. -/
def PrintsLines (s : LoadState ρ) : Prop :=
  ∃ (order : List LoadTask) (rest : List String), order.Nodup ∧
    s.out.stream = order.flatMap (LoadTask.chunks fs arg) ++ rest ∧
    (∀ t ∈ order, t.body cv fs arg = .error (.fatal (String.join (t.chunks fs arg)))) ∧
    (∀ t, s.exited = some t → t ∈ order) ∧
    (rest = [] ∨ ∃ t written, t ∉ order ∧ rest = (t.chunks fs arg).take written)

/-! ## What holds between two steps -/

/-- The tasks have done what their bodies do. -/
structure LoadInv (ctx : Context ρ) (s : LoadState ρ) : Prop where
  context : ∃ images : LoadTask → Option (MappedFile × Mat Vec3b × Mat UInt8),
    (∀ t, s.phase t = .loaded → t.body cv fs arg = .ok (images t)) ∧
    (∀ t, s.phase t ≠ .loaded → images t = none) ∧
    s.ctx = LoadTask.old.store (LoadTask.new.store ctx (images .new)) (images .old)
  raised : ∀ t stop, s.phase t = .raised stop → t.body cv fs arg = .error stop
  failing : ∀ t, s.phase t = .failing →
    t.body cv fs arg = .error (.fatal (String.join (t.chunks fs arg)))
  stage : ∀ t, s.out.stage t ≠ .waiting → s.phase t = .failing
  exited : ∀ t, s.exited = some t → s.out.stage t = .done
  serial : ∃ order, Locked.Serial (LoadTask.chunks fs arg) s.out order
  /-- A task is cancelled because the other one has raised. -/
  cancelled : ∀ t, s.phase t = .cancelled →
    (s.phase .new).isRaised = true ∨ (s.phase .old).isRaised = true

variable {cv fs arg}

/-- A body that ends in `Fatal` could not open its file. -/
theorem body_fatal {t : LoadTask} {line : String}
    (h : t.body cv fs arg = .error (.fatal line)) :
    line = String.join (t.chunks fs arg) := by
  rw [LoadTask.body] at h
  split at h
  · cases h
  · rw [map_eq_error] at h
    cases hfile : fs (t.path arg) with
    | error failure =>
        rw [loadOne, hfile] at h
        cases h
        rw [LoadTask.chunks, hfile, fatalLine]
        simp [String.join]
    | ok data =>
        rw [loadOne_readable hfile] at h
        cases convertDecoded_error h

theorem loadInv_init (ctx : Context ρ) : LoadInv cv fs arg ctx { ctx } where
  context := ⟨fun _ => none, nofun, fun _ _ => rfl, rfl⟩
  raised := nofun
  failing := nofun
  stage := fun _ h => absurd rfl h
  exited := nofun
  serial := ⟨[], Locked.serial_init⟩
  cancelled := nofun

section

variable {ctx : Context ρ} {s s' : LoadState ρ}

/-- The tasks write to different parts of the context. -/
theorem store_comm (ctx : Context ρ) (new old : Option (MappedFile × Mat Vec3b × Mat UInt8)) :
    LoadTask.new.store (LoadTask.old.store ctx old) new =
      LoadTask.old.store (LoadTask.new.store ctx new) old := by
  cases new with
  | none => rfl
  | some _ =>
      cases old with
      | none => rfl
      | some _ => rfl

/-- What a task stores joins what the other one has stored. -/
theorem store_update (ctx : Context ρ) (t : LoadTask)
    (images : LoadTask → Option (MappedFile × Mat Vec3b × Mat UInt8)) (hnone : images t = none)
    (image : Option (MappedFile × Mat Vec3b × Mat UInt8)) :
    t.store (LoadTask.old.store (LoadTask.new.store ctx (images .new)) (images .old)) image =
      LoadTask.old.store (LoadTask.new.store ctx (Function.update images t image .new))
        (Function.update images t image .old) := by
  cases t with
  | new =>
      rw [hnone, Function.update_self, Function.update_of_ne (by decide)]
      exact store_comm ctx image (images .old)
  | old =>
      rw [hnone, Function.update_self, Function.update_of_ne (by decide)]
      rfl

/-- A pending task that moves on stores its image, or nothing. -/
theorem LoadInv.context_move (h : LoadInv cv fs arg ctx s) {t : LoadTask}
    (ht : s.phase t = .pending) {phase : LoadPhase} {ctx' : Context ρ}
    (hctx : phase = .loaded ∧ (∃ image, t.body cv fs arg = .ok image ∧
        ctx' = t.store s.ctx image) ∨ phase ≠ .loaded ∧ ctx' = s.ctx) :
    ∃ images : LoadTask → Option (MappedFile × Mat Vec3b × Mat UInt8),
      (∀ u, Function.update s.phase t phase u = .loaded → u.body cv fs arg = .ok (images u)) ∧
      (∀ u, Function.update s.phase t phase u ≠ .loaded → images u = none) ∧
      ctx' = LoadTask.old.store (LoadTask.new.store ctx (images .new)) (images .old) := by
  obtain ⟨images, hloaded, hnot, heq⟩ := h.context
  have hnone : images t = none := hnot t (by rw [ht]; nofun)
  rcases hctx with ⟨rfl, image, hbody, rfl⟩ | ⟨hphase, rfl⟩
  · refine ⟨Function.update images t image, fun u hu => ?_, fun u hu => ?_, ?_⟩
    · by_cases hut : u = t
      · rw [hut, Function.update_self, hbody]
      · simp only [Function.update_of_ne hut] at hu ⊢
        exact hloaded u hu
    · by_cases hut : u = t
      · simp only [hut, Function.update_self] at hu
        exact absurd rfl hu
      · simp only [Function.update_of_ne hut] at hu ⊢
        exact hnot u hu
    · rw [heq]
      exact store_update ctx t images hnone image
  · refine ⟨images, fun u hu => ?_, fun u hu => ?_, heq⟩
    · by_cases hut : u = t
      · simp only [hut, Function.update_self] at hu
        exact absurd hu hphase
      · simp only [Function.update_of_ne hut] at hu
        exact hloaded u hu
    · by_cases hut : u = t
      · rw [hut, hnone]
      · simp only [Function.update_of_ne hut] at hu
        exact hnot u hu

/-- A pending task moves on. -/
theorem LoadInv.move (h : LoadInv cv fs arg ctx s) {t : LoadTask} (ht : s.phase t = .pending)
    {phase : LoadPhase} {ctx' : Context ρ}
    (hctx : phase = .loaded ∧ (∃ image, t.body cv fs arg = .ok image ∧
        ctx' = t.store s.ctx image) ∨ phase ≠ .loaded ∧ ctx' = s.ctx)
    (hraised : ∀ stop, phase = .raised stop → t.body cv fs arg = .error stop)
    (hfailing : phase = .failing →
      t.body cv fs arg = .error (.fatal (String.join (t.chunks fs arg))))
    (hcancelled : phase = .cancelled → (s.phase .new).isRaised = true ∨
      (s.phase .old).isRaised = true) :
    LoadInv cv fs arg ctx { s with ctx := ctx', phase := Function.update s.phase t phase } := by
  have hother : ∀ {u : LoadTask}, (s.phase u).isRaised = true →
      (Function.update s.phase t phase u).isRaised = true := by
    intro u hu
    rw [Function.update_of_ne]
    · exact hu
    · rintro rfl
      rw [ht] at hu
      cases hu
  refine ⟨?_, ?_, ?_, ?_, h.exited, h.serial, ?_⟩
  · exact h.context_move ht hctx
  · intro u stop hu
    by_cases hut : u = t
    · simp only [hut, Function.update_self] at hu ⊢
      exact hraised stop hu
    · simp only [Function.update_of_ne hut] at hu
      exact h.raised u stop hu
  · intro u hu
    by_cases hut : u = t
    · simp only [hut, Function.update_self] at hu ⊢
      exact hfailing hu
    · simp only [Function.update_of_ne hut] at hu
      exact h.failing u hu
  · intro u hu
    have hfail := h.stage u hu
    have hut : u ≠ t := by
      rintro rfl
      rw [ht] at hfail
      cases hfail
    simp only [Function.update_of_ne hut]
    exact hfail
  · intro u hu
    by_cases hut : u = t
    · simp only [hut, Function.update_self] at hu
      exact (hcancelled hu).imp hother hother
    · simp only [Function.update_of_ne hut] at hu
      exact (h.cancelled u hu).imp hother hother

theorem LoadInv.start (h : LoadInv cv fs arg ctx s) {t : LoadTask} (ht : s.phase t = .pending) :
    LoadInv cv fs arg ctx (s.start cv fs arg t) := by
  have hraise : ∀ {stop : Stop}, t.body cv fs arg = .error stop →
      LoadInv cv fs arg ctx { s with phase := Function.update s.phase t (.raised stop) } := by
    intro stop hbody
    refine h.move ht (.inr ⟨nofun, rfl⟩) ?_ nofun nofun
    rintro _ ⟨⟩
    exact hbody
  rw [LoadState.start]
  cases hbody : t.body cv fs arg with
  | ok image => exact h.move ht (.inl ⟨rfl, image, hbody, rfl⟩) nofun nofun nofun
  | error stop =>
      cases stop with
      | fatal line =>
          refine h.move ht (.inr ⟨nofun, rfl⟩) nofun (fun _ => ?_) nofun
          rw [hbody, body_fatal hbody]
      | exit out => exact hraise hbody
      | exception e => exact hraise hbody
      | undefined => exact hraise hbody

/-- Every step keeps the invariant. -/
theorem LoadInv.step (h : LoadInv cv fs arg ctx s) {a : LoadAct}
    (ha : loadStep cv fs arg s a = some s') : LoadInv cv fs arg ctx s' := by
  unfold loadStep at ha
  split at ha
  · cases ha
  · rename_i hexited
    cases a with
    | start t =>
        simp only at ha
        split at ha
        · cases ha
          exact h.start ‹_›
        · cases ha
    | cancel t =>
        simp only at ha
        split at ha
        · rename_i hguard
          cases ha
          refine h.move hguard.1 (.inr ⟨nofun, rfl⟩) nofun nofun fun _ => ?_
          simpa using hguard.2
        · cases ha
    | out a =>
        simp only at ha
        split at ha
        · rename_i hactor
          obtain ⟨out, hout, rfl⟩ := Option.map_eq_some_iff.mp ha
          obtain ⟨order, hserial⟩ := h.serial
          refine ⟨h.context, h.raised, h.failing, ?_, ?_, hserial.step hout, h.cancelled⟩
          · intro u hu
            by_cases hua : u = a.actor
            · rw [hua]
              exact hactor
            · exact h.stage u (by rwa [← Locked.stage_of_step hout hua])
          · intro u hu
            exact absurd (Option.isSome_iff_exists.mpr ⟨u, hu⟩) hexited
        · cases ha
    | exit t =>
        simp only at ha
        split at ha
        · rename_i hdone
          cases ha
          refine ⟨h.context, h.raised, h.failing, h.stage, ?_, h.serial, h.cancelled⟩
          rintro u ⟨⟩
          exact hdone
        · cases ha

/-! ## How `load_image` ends -/

theorem loadNew_eq (ctx : Context ρ) :
    loadNew cv fs ctx = (LoadTask.new.body cv fs ctx.arg).map (LoadTask.new.store ctx) := by
  rw [loadNew, LoadTask.body, LoadTask.path]
  split
  · rfl
  · cases loadOne cv ctx.arg fs ctx.arg.newFile with
    | error stop => rfl
    | ok loaded => rfl

theorem loadOld_eq (ctx : Context ρ) :
    loadOld cv fs ctx = (LoadTask.old.body cv fs ctx.arg).map (LoadTask.old.store ctx) := by
  rw [loadOld, LoadTask.body, LoadTask.path]
  split
  · rfl
  · cases loadOne cv ctx.arg fs ctx.arg.oldFile with
    | error stop => rfl
    | ok loaded => rfl

@[simp] theorem store_arg (ctx : Context ρ) (t : LoadTask)
    (image : Option (MappedFile × Mat Vec3b × Mat UInt8)) : (t.store ctx image).arg = ctx.arg := by
  cases image with
  | none => rfl
  | some loaded =>
      cases t with
      | new => rfl
      | old => rfl

/-- A task that stops the process stops it if it comes first. -/
theorem loadImage_of_error {t : LoadTask} {stop : Stop}
    (h : t.body cv fs ctx.arg = .error stop) :
    loadImage cv fs (decide (t = .old)) ctx = .error stop := by
  cases t with
  | new =>
      rw [loadImage, if_neg (by decide), loadNew_eq, h]
      rfl
  | old =>
      rw [loadImage, if_pos (by decide), loadOld_eq, h]
      rfl

/-- If neither does, both images are loaded. -/
theorem loadImage_of_ok {new old : Option (MappedFile × Mat Vec3b × Mat UInt8)}
    (hnew : LoadTask.new.body cv fs ctx.arg = .ok new)
    (hold : LoadTask.old.body cv fs ctx.arg = .ok old) :
    loadImage cv fs false ctx =
      .ok (LoadTask.old.store (LoadTask.new.store ctx new) old) := by
  rw [loadImage, if_neg Bool.false_ne_true, loadNew_eq, hnew]
  show loadOld cv fs (LoadTask.new.store ctx new) = _
  rw [loadOld_eq, store_arg, hold]
  rfl

/-- Every end is one of `loadImage`. -/
theorem LoadInv.ends (h : LoadInv cv fs ctx.arg ctx s) {o : Except Stop (Context ρ)}
    (ho : LoadEnds fs ctx.arg s o) : ∃ oldFirst, loadImage cv fs oldFirst ctx = o := by
  cases ho with
  | @exited t hexited =>
      have hfail := h.failing t (h.stage t (by rw [h.exited t hexited]; nofun))
      exact ⟨_, loadImage_of_error hfail⟩
  | raised _ _ ht => exact ⟨_, loadImage_of_error (h.raised _ _ ht)⟩
  | loaded _ hall =>
      obtain ⟨images, hloaded, -, heq⟩ := h.context
      rw [heq]
      exact ⟨false, loadImage_of_ok (hloaded .new (hall .new)) (hloaded .old (hall .old))⟩

theorem LoadInv.printsLines (h : LoadInv cv fs arg ctx s) : PrintsLines cv fs arg s := by
  obtain ⟨order, hserial⟩ := h.serial
  refine ⟨order, s.out.part _, hserial.nodup, hserial.stream, ?_, ?_, ?_⟩
  · intro t ht
    have hdone := (hserial.mem_iff t).mp ht
    have hstage : s.out.stage t ≠ .waiting := by simp [hdone]
    exact h.failing t (h.stage t hstage)
  · intro t ht
    exact (hserial.mem_iff t).mpr (h.exited t ht)
  · rw [Locked.State.part]
    cases hholder : s.out.holder with
    | none => exact .inl rfl
    | some t =>
        obtain ⟨written, hwriting, -⟩ := hserial.holding t hholder
        refine .inr ⟨t, (s.out.stage t).written, ?_, rfl⟩
        simp [hserial.mem_iff, hwriting]

/-- Nothing waits forever. -/
theorem LoadInv.progress (h : LoadInv cv fs arg ctx s) :
    (∃ o, LoadEnds fs arg s o) ∨ ∃ a s', loadStep cv fs arg s a = some s' := by
  cases hexited : s.exited with
  | some t => exact .inl ⟨_, .exited hexited⟩
  | none =>
      have hstep : ∀ a,
          loadStep cv fs arg s a = loadStep cv fs arg { s with exited := none } a := by
        intro a
        rw [← hexited]
      by_cases hpending : ∃ t, s.phase t = .pending
      · obtain ⟨t, ht⟩ := hpending
        exact .inr ⟨.start t, _, by rw [hstep]; exact if_pos ht⟩
      · by_cases hfailing : ∃ t, s.phase t = .failing
        · obtain ⟨t, ht⟩ := hfailing
          obtain ⟨order, hserial⟩ := h.serial
          by_cases hdone : s.out.stage t = .done
          · exact .inr ⟨.exit t, _, by rw [hstep]; exact if_pos hdone⟩
          · obtain ⟨a, out, hactor, hout⟩ := hserial.progress hdone
            have hphase : s.phase a.actor = .failing := by
              rcases hactor with rfl | hholder
              · exact ht
              · obtain ⟨written, hwriting, -⟩ := hserial.holding _ hholder
                exact h.stage _ (by rw [hwriting]; nofun)
            refine .inr ⟨.out a, { s with out, exited := none }, ?_⟩
            rw [hstep]
            simp only [loadStep, Option.isSome_none, Bool.false_eq_true, if_false, hphase, if_true,
              hout, Option.map_some]
        · push Not at hpending hfailing
          by_cases hraised : ∃ t, (s.phase t).isRaised = true
          · obtain ⟨t, ht⟩ := hraised
            cases hphase : s.phase t with
            | raised stop =>
                exact .inl ⟨_, .raised hexited (fun u => ⟨hpending u, hfailing u⟩) hphase⟩
            | pending => rw [hphase] at ht; cases ht
            | loaded => rw [hphase] at ht; cases ht
            | cancelled => rw [hphase] at ht; cases ht
            | failing => rw [hphase] at ht; cases ht
          · refine .inl ⟨_, .loaded hexited fun u => ?_⟩
            cases hphase : s.phase u with
            | loaded => rfl
            | pending => exact absurd hphase (hpending u)
            | failing => exact absurd hphase (hfailing u)
            | raised stop => exact absurd ⟨u, by rw [hphase]; rfl⟩ hraised
            | cancelled =>
                rcases h.cancelled u hphase with hr | hr
                · exact absurd ⟨_, hr⟩ hraised
                · exact absurd ⟨_, hr⟩ hraised

end

/-! ## `load_image` ends -/

/-- The steps a task has before it. -/
def LoadState.left (s : LoadState ρ) (t : LoadTask) : Nat :=
  match s.phase t with
  | .pending => 5
  | .failing =>
      match s.out.stage t with
      | .waiting => 4
      | .writing written => 3 - written
      | .done => 0
  | _ => 0

/-- The steps of both tasks and the `_exit`. -/
def LoadState.work (s : LoadState ρ) : Nat :=
  (if s.exited.isSome then 0 else 1) + (s.left .new + s.left .old)

variable (fs arg) in
theorem length_chunks_le (t : LoadTask) : (t.chunks fs arg).length ≤ 2 := by
  rw [LoadTask.chunks]
  cases fs (t.path arg) with
  | error failure => exact Nat.le_refl 2
  | ok data => exact Nat.zero_le 2

theorem work_lt {s s' : LoadState ρ} {t : LoadTask} (hexited : s'.exited = s.exited)
    (ht : s'.left t < s.left t) (hother : ∀ u, u ≠ t → s'.left u = s.left u) :
    s'.work < s.work := by
  rw [LoadState.work, LoadState.work, hexited]
  cases t with
  | new =>
      have := hother .old (by decide)
      omega
  | old =>
      have := hother .new (by decide)
      omega

theorem left_of_phase {s s' : LoadState ρ} {u : LoadTask} (hphase : s'.phase u = s.phase u)
    (hstage : s'.out.stage u = s.out.stage u) : s'.left u = s.left u := by
  rw [LoadState.left, LoadState.left, hphase, hstage]

variable (cv fs arg) in
/-- The body of a task moves that task. -/
theorem start_phase (s : LoadState ρ) (t : LoadTask) :
    ∃ phase, phase ≠ .pending ∧ (s.start cv fs arg t).phase = Function.update s.phase t phase ∧
      (s.start cv fs arg t).out = s.out ∧ (s.start cv fs arg t).exited = s.exited := by
  rw [LoadState.start]
  cases t.body cv fs arg with
  | ok image => exact ⟨.loaded, by decide, rfl, rfl, rfl⟩
  | error stop =>
      cases stop with
      | fatal line => exact ⟨.failing, by decide, rfl, rfl, rfl⟩
      | exit out => exact ⟨.raised (.exit out), nofun, rfl, rfl, rfl⟩
      | exception e => exact ⟨.raised (.exception e), nofun, rfl, rfl, rfl⟩
      | undefined => exact ⟨.raised .undefined, nofun, rfl, rfl, rfl⟩

/-- A pending task that moves on has one step less before it. -/
theorem work_move {s s' : LoadState ρ} {t : LoadTask} (hpending : s.phase t = .pending)
    (hwaiting : s.out.stage t = .waiting) {phase : LoadPhase} (hphase : phase ≠ .pending)
    (hexited : s'.exited = s.exited) (hout : s'.out = s.out)
    (hs' : s'.phase = Function.update s.phase t phase) : s'.work < s.work := by
  refine work_lt (t := t) hexited ?_ fun u hu => ?_
  · rw [LoadState.left, LoadState.left, hs', Function.update_self, hpending, hout, hwaiting]
    cases phase with
    | pending => exact absurd rfl hphase
    | failing => exact Nat.lt_succ_self 4
    | loaded => exact Nat.zero_lt_succ 4
    | raised stop => exact Nat.zero_lt_succ 4
    | cancelled => exact Nat.zero_lt_succ 4
  · refine left_of_phase ?_ (by rw [hout])
    rw [hs', Function.update_of_ne hu]

/-- A step of the destructor of `SyncOut` is one step less. -/
theorem work_out {s : LoadState ρ} {a : Locked.Act LoadTask} {out : Locked.State LoadTask String}
    (hactor : s.phase a.actor = .failing)
    (hout : Locked.step (LoadTask.chunks fs arg) s.out a = some out) :
    LoadState.work { s with out } < s.work := by
  refine work_lt (t := a.actor) rfl ?_ fun u hu =>
    left_of_phase rfl (Locked.stage_of_step hout hu)
  simp only [LoadState.left, hactor]
  cases a with
  | acquire t =>
      simp only [Locked.step] at hout
      split at hout
      · rename_i hguard
        cases hout
        simp [Locked.Act.actor, hguard.2]
      · cases hout
  | write t =>
      simp only [Locked.step] at hout
      split at hout
      · rename_i written hstage
        obtain ⟨chunk, hchunk, rfl⟩ := Option.map_eq_some_iff.mp hout
        have hlt := (List.getElem?_eq_some_iff.mp hchunk).1
        have hle := length_chunks_le fs arg t
        simp only [Locked.Act.actor, Locked.setStage_stage, if_true, hstage]
        omega
      · cases hout
  | release t =>
      simp only [Locked.step] at hout
      split at hout
      · rename_i hstage
        cases hout
        have hle := length_chunks_le fs arg t
        simp only [Locked.Act.actor, Locked.setStage_stage, if_true, hstage]
        omega
      · cases hout

theorem LoadInv.work_lt {ctx : Context ρ} {s s' : LoadState ρ} (h : LoadInv cv fs arg ctx s)
    {a : LoadAct} (ha : loadStep cv fs arg s a = some s') : s'.work < s.work := by
  have hwaiting : ∀ {t : LoadTask}, s.phase t = .pending → s.out.stage t = .waiting := by
    intro t ht
    by_contra hne
    have := h.stage t hne
    rw [ht] at this
    cases this
  unfold loadStep at ha
  split at ha
  · cases ha
  · rename_i hexited
    cases a with
    | start t =>
        simp only at ha
        split at ha
        · rename_i ht
          cases ha
          obtain ⟨phase, hphase, hs', hout, hsame⟩ := start_phase cv fs arg s t
          exact work_move ht (hwaiting ht) hphase hsame hout hs'
        · cases ha
    | cancel t =>
        simp only at ha
        split at ha
        · rename_i hguard
          cases ha
          exact work_move hguard.1 (hwaiting hguard.1) (by decide) rfl rfl rfl
        · cases ha
    | out a =>
        simp only at ha
        split at ha
        · obtain ⟨out, hout, rfl⟩ := Option.map_eq_some_iff.mp ha
          exact work_out ‹_› hout
        · cases ha
    | exit t =>
        simp only at ha
        split at ha
        · cases ha
          have hnone : s.exited.isSome = false := by simpa using hexited
          simp only [LoadState.work, Option.isSome_some, if_true, hnone, Bool.false_eq_true,
            if_false]
          show 0 + (s.left .new + s.left .old) < _
          omega
        · cases ha

/-- However the tasks of `load_image` interleave, it ends as if they had run one after the
other, in one of the two orders.  It does end: no state is stuck, and a run has at most
eleven steps.  What a `Fatal` prints is not torn by the other task. -/
theorem load_tasks (ctx : Context ρ) {acts : List LoadAct} {s : LoadState ρ}
    (hrun : Transition.run (loadStep cv fs ctx.arg) { ctx } acts = some s) :
    (∀ o, LoadEnds fs ctx.arg s o → ∃ oldFirst, loadImage cv fs oldFirst ctx = o) ∧
    ((∃ o, LoadEnds fs ctx.arg s o) ∨ ∃ a s', loadStep cv fs ctx.arg s a = some s') ∧
    acts.length ≤ 11 ∧ PrintsLines cv fs ctx.arg s := by
  have h : LoadInv cv fs ctx.arg ctx s := Transition.run_invariant (LoadInv cv fs ctx.arg ctx)
    (fun _ _ _ h ha => h.step ha) (loadInv_init ctx) hrun
  have hlength := Transition.run_length_le (LoadInv cv fs ctx.arg ctx) LoadState.work
    (fun _ _ _ h ha => ⟨h.step ha, h.work_lt ha⟩) (loadInv_init ctx) hrun
  exact ⟨fun o ho => h.ends ho, h.progress, (Nat.le_add_right _ _).trans hlength, h.printsLines⟩

end

/-- Two paths that cannot be loaded. -/
def missingContext : Context Nat where
  arg := { newFile := "new.ppm", oldFile := "old" }
  newColorMat := Mat.none
  oldColorMat := Mat.none
  newGrayMat := Mat.none
  oldGrayMat := Mat.none

/-- A file system with a directory, which can be opened and not be mapped.  The text of
`errno_string` is empty with a `strerror_r` that does not use the buffer. -/
def directoryOnly (path : String) : Except OpenFailure (List UInt8) :=
  if path = "old" then .error (.mmapFailed "") else .error (.cannotOpen "")

/-- Both tasks fail, and the process ends in the middle of the second line. -/
def missingRun : Option (LoadState Nat) :=
  Transition.run (loadStep sampleCV directoryOnly missingContext.arg) { ctx := missingContext }
    [.start .new, .start .old, .out (.acquire .old), .out (.write .old), .out (.write .old),
      .out (.release .old), .out (.acquire .new), .out (.write .new), .exit .old]

theorem load_tasks_missing :
    ∃ s, missingRun = some s ∧
      s.out.stream = ["gazo-san: fatal: old: mmap failed: ", "\n",
        "gazo-san: fatal: cannot open new.ppm: "] ∧
      (∃ oldFirst, loadImage sampleCV directoryOnly oldFirst missingContext =
        .error (.fatal "gazo-san: fatal: old: mmap failed: \n")) ∧
      PrintsLines sampleCV directoryOnly missingContext.arg s := by
  obtain ⟨s, hs, hexited, hstream⟩ : ∃ s, missingRun = some s ∧ s.exited = some .old ∧
      s.out.stream = ["gazo-san: fatal: old: mmap failed: ", "\n",
        "gazo-san: fatal: cannot open new.ppm: "] :=
    ⟨_, rfl, rfl, by decide⟩
  obtain ⟨hends, -, -, hlines⟩ := load_tasks missingContext hs
  exact ⟨s, hs, hstream, hends _ (.exited hexited), hlines⟩

end Gazosan
