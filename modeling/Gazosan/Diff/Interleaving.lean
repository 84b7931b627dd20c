import Gazosan.Diff.ResultImage
import Mathlib.Algebra.Order.BigOperators.Group.Finset

/-!
# Commits that are not atomic

In `Diff.Matching` a commit is one step.  In the program it is many: two flags are
set one after the other, and then pixels are written into an image that other bodies
write into at the same time.  Here each of these is a step of its own.
`cv::rectangle` writes the pixels of an outline in an order that the library chooses,
so that order is a parameter.

`interleaving_refines` says that nothing is lost by the coarser view: however the
single accesses interleave, there is a run with atomic commits that ends with the same
flags and the same image.  The step that counts is the one that sets the flag of the
new segment, since that flag is what other bodies read.  The flag of the old segment
is read only before its tasks are released, and all paint is red.  An access that ends the
process belongs to a commit whose drawing does (`fine_stops`).
-/

namespace Gazosan

/-! ## The accesses of a drawing -/

/-- One access of a drawing to the image. -/
inductive PixelOp where
  /-- `matchTemplate` raises. -/
  | raise
  /-- `cv::rectangle` writes one pixel. -/
  | paint (p : Point)
  /-- The body of the pixel loops. -/
  | compare (area rect : Rect) (i j : Nat)

section

variable {ρ : Type} (cv : OpenCV ρ) (ctx : Context ρ) (outline : Rect → List Point)

/-- What an access does to the image. -/
def PixelOp.perform (m : Mat Vec3b) : PixelOp → Option (Mat Vec3b)
  | .raise => none
  | .paint p => m.set? p red
  | .compare area rect i j => comparePixel ctx area rect i m j

/-- The accesses of the drawing of a segment, in the order of the program. -/
def drawProgram (seg : ImageSegment ρ) : List PixelOp :=
  match cv.minLoc ctx.oldGrayMat seg.roi with
  | none => [.raise]
  | some minPoint =>
      let rect := seg.rectFrom minPoint
      (outline rect).map .paint ++ (List.range rect.height.toNat).flatMap fun i =>
        (List.range rect.width.toNat).map fun j => .compare seg.area rect i j

/-- `cv::rectangle` writes the pixels of the border that are inside the image. -/
def Outlines : Prop :=
  ∀ rect p, p ∈ outline rect ↔ ctx.oldGrayMat.InBounds p ∧ rect.OnBorder p

/-- The positions that an access paints. -/
def PixelOp.Paints (p : Point) : PixelOp → Prop
  | .raise => False
  | .paint q => p = q
  | .compare area rect i j => p = ⟨j + rect.x, i + rect.y⟩ ∧ Differs ctx area rect p

/-- The access has a result. -/
def PixelOp.Ok : PixelOp → Prop
  | .raise => False
  | .paint p => ctx.oldGrayMat.InBounds p
  | .compare area rect i j => AccessOk ctx area rect ⟨j + rect.x, i + rect.y⟩

/-- How the process ends in an access without a result. -/
inductive PixelOp.Stops : PixelOp → Stop → Prop
  | raise : Stops .raise (.exception .opencv)
  | stray {op} (hop : op ≠ .raise) (hout : ¬ op.Ok ctx) : Stops op .undefined

variable {cv ctx outline}

theorem PixelOp.perform_painted {op : PixelOp} {m m' : Mat Vec3b}
    (h : op.perform ctx m = some m') : Mat.PaintedBy (op.Paints ctx) red m m' := by
  cases op with
  | raise => cases h
  | paint p => exact Mat.PaintedBy.of_set? h
  | compare area rect i j => exact comparePixel_painted h

theorem PixelOp.perform_isSome {op : PixelOp} {m : Mat Vec3b} (hm : OldSize ctx m) :
    (op.perform ctx m).isSome ↔ op.Ok ctx := by
  cases op with
  | raise => exact iff_of_false nofun id
  | paint p => exact (Mat.set?_isSome m p red).trans (hm.inBounds_iff p)
  | compare area rect i j => exact comparePixel_isSome hm

theorem mem_compares {area rect : Rect} {op : PixelOp} :
    (op ∈ (List.range rect.height.toNat).flatMap fun i =>
      (List.range rect.width.toNat).map fun j => PixelOp.compare area rect i j) ↔
      ∃ i ∈ List.range rect.height.toNat, ∃ j ∈ List.range rect.width.toNat,
        op = .compare area rect i j := by
  simp only [List.mem_flatMap, List.mem_map, eq_comm]

/-- All accesses together paint what the drawing paints. -/
theorem exists_paints_iff (houtline : Outlines ctx outline) (seg : ImageSegment ρ) {p : Point}
    (hp : ctx.oldGrayMat.InBounds p) :
    (∃ op ∈ drawProgram cv ctx outline seg, op.Paints ctx p) ↔ Draws cv ctx seg p := by
  rw [drawProgram, Draws]
  cases cv.minLoc ctx.oldGrayMat seg.roi with
  | none => simp [PixelOp.Paints]
  | some loc =>
      simp only [List.mem_append, List.mem_map, mem_compares, Option.some.injEq]
      constructor
      · rintro ⟨op, ⟨q, hq, rfl⟩ | ⟨i, hi, j, hj, rfl⟩, hpaints⟩
        · obtain rfl : p = q := hpaints
          exact ⟨loc, rfl, .inl ((houtline _ p).mp hq).2⟩
        · obtain ⟨rfl, hd⟩ := hpaints
          exact ⟨loc, rfl, .inr ⟨(contains_iff_visited _ _).mpr ⟨i, hi, j, hj, rfl⟩, hd⟩⟩
      · rintro ⟨_, rfl, hborder | ⟨hin, hd⟩⟩
        · exact ⟨.paint p, .inl ⟨p, (houtline _ p).mpr ⟨hp, hborder⟩, rfl⟩, rfl⟩
        · obtain ⟨i, hi, j, hj, rfl⟩ := (contains_iff_visited _ _).mp hin
          exact ⟨.compare seg.area (seg.rectFrom loc) i j, .inr ⟨i, hi, j, hj, rfl⟩, rfl, hd⟩

/-- All accesses have a result if the drawing has one. -/
theorem forall_ok_iff (houtline : Outlines ctx outline) (seg : ImageSegment ρ) :
    (∀ op ∈ drawProgram cv ctx outline seg, op.Ok ctx) ↔ Drawable cv ctx seg := by
  rw [drawProgram, Drawable]
  cases cv.minLoc ctx.oldGrayMat seg.roi with
  | none => simp [PixelOp.Ok]
  | some loc =>
      simp only [List.mem_append, List.mem_map, mem_compares, Option.some.injEq]
      constructor
      · intro h
        refine ⟨loc, rfl, fun p hp => ?_⟩
        obtain ⟨i, hi, j, hj, rfl⟩ := (contains_iff_visited _ _).mp hp
        exact h (.compare _ _ i j) (.inr ⟨i, hi, j, hj, rfl⟩)
      · rintro ⟨_, rfl, h⟩ op (⟨q, hq, rfl⟩ | ⟨i, hi, j, hj, rfl⟩)
        · exact ((houtline _ q).mp hq).1
        · exact h _ ((contains_iff_visited _ _).mpr ⟨i, hi, j, hj, rfl⟩)

end

/-! ## States and steps -/

/-- Where the task of one pair stands. -/
inductive Pc where
  | idle
  | ready
  | skipped
  /-- The guard has passed. -/
  | passed
  /-- The flag of the old segment is set. -/
  | marked
  /-- Both flags are set, and so many accesses of the drawing are made. -/
  | drawing (made : Nat)
deriving DecidableEq

/-- Where the task stands if commits are atomic. -/
def Pc.task : Pc → Task
  | .idle => .idle
  | .ready => .ready
  | .skipped => .skipped
  | .passed => .passed
  | .marked => .passed
  | .drawing _ => .committed

/-- The flag of the old segment is set. -/
def Pc.claims : Pc → Bool
  | .marked => true
  | .drawing _ => true
  | _ => false

/-- The state of the matching phase, with the image shared by all tasks. -/
structure FineState (m n : Nat) where
  oldMatched : Fin m → Bool
  newMatched : Fin n → Bool
  entered : Fin m → Bool
  pc : Fin m → Fin n → Pc
  image : Option (Mat Vec3b)

/-- The steps of the matching phase, one access each. -/
inductive FineAct (m n : Nat) where
  | outer (i : Fin m)
  | guard (i : Fin m) (j : Fin n)
  | markOld (i : Fin m) (j : Fin n)
  | markNew (i : Fin m) (j : Fin n)
  | pixel (i : Fin m) (j : Fin n)

/-- The state as the guards see it. -/
def FineState.view {m n : Nat} (s : FineState m n) : MatchState m n :=
  ⟨s.oldMatched, s.newMatched, s.entered, fun i j => (s.pc i j).task, s.image⟩

def FineState.setPc {m n : Nat} (s : FineState m n) (i : Fin m) (j : Fin n) (pc : Pc) :
    FineState m n :=
  { s with pc := fun i' j' => if i' = i ∧ j' = j then pc else s.pc i' j' }

section

variable {ρ : Type} (cv : OpenCV ρ) (descriptorMatch : List ρ → List ρ → Bool)
  (ctx : Context ρ) (outline : Rect → List Point)

/-- The states of a context. -/
abbrev Context.FineState : Type :=
  Gazosan.FineState ctx.oldSegments.length ctx.newSegments.length

/-- The steps of a context. -/
abbrev Context.FineAct : Type := Gazosan.FineAct ctx.oldSegments.length ctx.newSegments.length

/-- The state before the matching phase. -/
def fineInit : ctx.FineState where
  oldMatched i := (ctx.oldSegment i).matched
  newMatched j := (ctx.newSegment j).matched
  entered _ := false
  pc _ _ := .idle
  image := some (baseImage cv ctx)

variable {ctx}

/-- The accesses of the task for the new segment `j`. -/
def accesses (j : Fin ctx.newSegments.length) : List PixelOp :=
  drawProgram cv ctx outline (ctx.newSegment j)

/-- The outer body. -/
def fineEnter (s : ctx.FineState) (i : Fin ctx.oldSegments.length) : ctx.FineState :=
  if outerReturns s.view i then
    { s with entered := Function.update s.entered i true }
  else
    { s with
      entered := Function.update s.entered i true
      pc := fun i' j => if i' = i then .ready else s.pc i' j }

/-- One access of one body. -/
def fineStep (s : ctx.FineState) : ctx.FineAct → Option ctx.FineState
  | .outer i => if s.entered i then none else some (fineEnter s i)
  | .guard i j =>
      if s.pc i j = .ready then
        some (s.setPc i j (if pairReturns descriptorMatch s.view i j then .skipped else .passed))
      else none
  | .markOld i j =>
      if s.pc i j = .passed then
        some { s.setPc i j .marked with oldMatched := Function.update s.oldMatched i true }
      else none
  | .markNew i j =>
      if s.pc i j = .marked then
        some { s.setPc i j (.drawing 0) with newMatched := Function.update s.newMatched j true }
      else none
  | .pixel i j =>
      match s.pc i j with
      | .drawing made =>
          (accesses cv outline j)[made]?.map fun op =>
            { s.setPc i j (.drawing (made + 1)) with
              image := s.image.bind (op.perform ctx) }
      | _ => none

/-- Every outer body has run and every released task has ended. -/
def FineComplete (s : ctx.FineState) : Prop :=
  ∀ i, s.entered i = true ∧ ∀ j, s.pc i j = .idle ∨ s.pc i j = .skipped ∨
    s.pc i j = .drawing (accesses cv outline j).length

variable {cv descriptorMatch outline}

/-- What a step can do. -/
theorem fineStep_cases {s s' : ctx.FineState} {a : ctx.FineAct}
    (h : fineStep cv descriptorMatch outline s a = some s') :
    (∃ i, a = .outer i ∧ s.entered i = false ∧ s' = fineEnter s i) ∨
    (∃ i j, a = .guard i j ∧ s.pc i j = .ready ∧ s' = s.setPc i j
      (if pairReturns descriptorMatch s.view i j then .skipped else .passed)) ∨
    (∃ i j, a = .markOld i j ∧ s.pc i j = .passed ∧ s' =
      { s.setPc i j .marked with oldMatched := Function.update s.oldMatched i true }) ∨
    (∃ i j, a = .markNew i j ∧ s.pc i j = .marked ∧ s' =
      { s.setPc i j (.drawing 0) with newMatched := Function.update s.newMatched j true }) ∨
    (∃ i j made op, a = .pixel i j ∧ s.pc i j = .drawing made ∧
      (accesses cv outline j)[made]? = some op ∧ s' =
      { s.setPc i j (.drawing (made + 1)) with image := s.image.bind (op.perform ctx) }) := by
  cases a with
  | outer i =>
      simp only [fineStep] at h
      split at h
      · cases h
      · rename_i he
        exact .inl ⟨i, rfl, by simpa using he, (Option.some.inj h).symm⟩
  | guard i j =>
      simp only [fineStep] at h
      split at h
      · exact .inr (.inl ⟨i, j, rfl, ‹_›, (Option.some.inj h).symm⟩)
      · cases h
  | markOld i j =>
      simp only [fineStep] at h
      split at h
      · exact .inr (.inr (.inl ⟨i, j, rfl, ‹_›, (Option.some.inj h).symm⟩))
      · cases h
  | markNew i j =>
      simp only [fineStep] at h
      split at h
      · exact .inr (.inr (.inr (.inl ⟨i, j, rfl, ‹_›, (Option.some.inj h).symm⟩)))
      · cases h
  | pixel i j =>
      simp only [fineStep] at h
      split at h
      · rename_i made hpc
        obtain ⟨op, hop, rfl⟩ := Option.map_eq_some_iff.mp h
        exact .inr (.inr (.inr (.inr ⟨i, j, made, op, rfl, hpc, hop, rfl⟩)))
      · cases h

@[simp] theorem setPc_pc {m n : Nat} (s : FineState m n) (i i' : Fin m) (j j' : Fin n) (pc : Pc) :
    (s.setPc i j pc).pc i' j' = if i' = i ∧ j' = j then pc else s.pc i' j' := rfl

/-! ## The image -/

variable (cv outline) in
/-- An access has been made. -/
def Performed (s : ctx.FineState) (op : PixelOp) : Prop :=
  ∃ i j made, s.pc i j = .drawing made ∧ op ∈ (accesses cv outline j).take made

variable (cv outline) in
/-- The image is the base image with what was painted, and it exists if every access
made has a result. -/
structure FineDrawInv (s : ctx.FineState) : Prop where
  painted : ∀ img, s.image = some img →
    Mat.PaintedBy (fun p => ∃ op, Performed cv outline s op ∧ op.Paints ctx p) red
      (baseImage cv ctx) img
  defined : s.image.isSome ↔ ∀ op, Performed cv outline s op → op.Ok ctx

theorem fineDrawInv_init : FineDrawInv cv outline (fineInit cv ctx) where
  painted img h := by
    cases h
    refine (Mat.PaintedBy.refl red _).congr fun p => ⟨False.elim, ?_⟩
    rintro ⟨op, ⟨i, j, made, hpc, -⟩, -⟩
    cases hpc
  defined := by
    refine iff_of_true rfl ?_
    rintro op ⟨i, j, made, hpc, -⟩
    cases hpc

/-- A step that makes no access to the image. -/
theorem FineDrawInv.of_same {s s' : ctx.FineState} (hs : FineDrawInv cv outline s)
    (himage : s'.image = s.image)
    (hperformed : ∀ op, Performed cv outline s' op ↔ Performed cv outline s op) :
    FineDrawInv cv outline s' where
  painted img h := (hs.painted img (himage ▸ h)).congr fun p => by simp only [hperformed]
  defined := by
    rw [himage, hs.defined]
    simp only [hperformed]

/-- One more access. -/
theorem FineDrawInv.pixel (hcv : cv.Lawful) {s s' : ctx.FineState}
    (hs : FineDrawInv cv outline s) {op : PixelOp}
    (himage : s'.image = s.image.bind (op.perform ctx))
    (hperformed : ∀ op', Performed cv outline s' op' ↔ Performed cv outline s op' ∨ op' = op) :
    FineDrawInv cv outline s' where
  painted img h := by
    rw [himage] at h
    obtain ⟨img₀, h₀, h⟩ := Option.bind_eq_some_iff.mp h
    refine ((hs.painted img₀ h₀).trans (PixelOp.perform_painted h)).congr fun p => ?_
    simp only [hperformed]
    constructor
    · rintro (⟨op', hop', hp⟩ | hp)
      · exact ⟨op', .inl hop', hp⟩
      · exact ⟨op, .inr rfl, hp⟩
    · rintro ⟨op', hop' | rfl, hp⟩
      · exact .inl ⟨op', hop', hp⟩
      · exact .inr hp
  defined := by
    simp only [himage, hperformed]
    cases h₀ : s.image with
    | none =>
        have hnot := hs.defined.not.mp (by simp [h₀])
        refine iff_of_false nofun fun h => hnot fun op' hop' => h op' (.inl hop')
    | some img₀ =>
        have hall := hs.defined.mp (by simp [h₀])
        have hsize := (oldSize_baseImage hcv).of_painted (hs.painted img₀ h₀)
        rw [Option.bind_some, PixelOp.perform_isSome hsize]
        constructor
        · rintro hok op' (hop' | rfl)
          · exact hall op' hop'
          · exact hok
        · intro h
          exact h op (.inr rfl)

/-- A task that has made no access makes none by moving on. -/
theorem performed_of_none {s s' : ctx.FineState} {i : Fin ctx.oldSegments.length}
    {j : Fin ctx.newSegments.length} {pc : Pc}
    (hpc : ∀ i' j', s'.pc i' j' = if i' = i ∧ j' = j then pc else s.pc i' j')
    (hold : ∀ made, s.pc i j = .drawing made → made = 0)
    (hnew : ∀ made, pc = .drawing made → made = 0) (op : PixelOp) :
    Performed cv outline s' op ↔ Performed cv outline s op := by
  constructor
  · rintro ⟨i', j', made, h, hop⟩
    rw [hpc] at h
    split at h
    · rw [hnew made h, List.take_zero] at hop
      cases hop
    · exact ⟨i', j', made, h, hop⟩
  · rintro ⟨i', j', made, h, hop⟩
    by_cases hij : i' = i ∧ j' = j
    · obtain ⟨rfl, rfl⟩ := hij
      rw [hold made h, List.take_zero] at hop
      cases hop
    · exact ⟨i', j', made, by rw [hpc, if_neg hij, h], hop⟩

/-- A drawing task makes its next access. -/
theorem performed_pixel {s s' : ctx.FineState} {i : Fin ctx.oldSegments.length}
    {j : Fin ctx.newSegments.length} {made : Nat} {op : PixelOp}
    (hpc : ∀ i' j', s'.pc i' j' = if i' = i ∧ j' = j then .drawing (made + 1) else s.pc i' j')
    (hmade : s.pc i j = .drawing made) (hop : (accesses cv outline j)[made]? = some op)
    (op' : PixelOp) : Performed cv outline s' op' ↔ Performed cv outline s op' ∨ op' = op := by
  have htake : (accesses cv outline j).take (made + 1) =
      (accesses cv outline j).take made ++ [op] := by
    rw [List.take_add_one, hop]
    rfl
  constructor
  · rintro ⟨i', j', made', h, hmem⟩
    rw [hpc] at h
    split at h
    · rename_i hij
      obtain ⟨rfl, rfl⟩ := hij
      cases h
      rw [htake, List.mem_append, List.mem_singleton] at hmem
      exact hmem.imp_left fun hmem => ⟨_, _, made, hmade, hmem⟩
    · exact .inl ⟨i', j', made', h, hmem⟩
  · have hself : s'.pc i j = .drawing (made + 1) := by rw [hpc, if_pos ⟨rfl, rfl⟩]
    rintro (⟨i', j', made', h, hmem⟩ | rfl)
    · by_cases hij : i' = i ∧ j' = j
      · obtain ⟨rfl, rfl⟩ := hij
        rw [hmade] at h
        cases h
        exact ⟨_, _, made + 1, hself, by rw [htake]; exact List.mem_append_left _ hmem⟩
      · exact ⟨i', j', made', by rw [hpc, if_neg hij, h], hmem⟩
    · exact ⟨i, j, made + 1, hself, by rw [htake]; exact List.mem_append_right _ List.mem_cons_self⟩

/-! ## Runs with atomic commits -/

/-- A state with single accesses and the state with atomic commits that it stands for.
The flag of an old segment is ahead of the commits. -/
structure Stands (s : ctx.FineState) (t : ctx.State) : Prop where
  newMatched : t.newMatched = s.newMatched
  entered : t.entered = s.entered
  task : ∀ i j, t.task i j = (s.pc i j).task
  oldMatched : ∀ i, s.oldMatched i = true ↔ ∃ j, (s.pc i j).claims = true

/-- Before its outer body, the tasks of an old segment are idle and its flag is not set. -/
theorem Stands.idle {s : ctx.FineState} {t : ctx.State} (h : Stands s t)
    (hf : FlagInv descriptorMatch t) {i : Fin ctx.oldSegments.length}
    (he : s.entered i = false) : (∀ j, s.pc i j = .idle) ∧ s.oldMatched i = false := by
  have hidle : ∀ j, s.pc i j = .idle := by
    intro j
    have htask : t.task i j = .idle := by
      by_contra hne
      have := (hf.released i j hne).1
      rw [h.entered, he] at this
      cases this
    rw [h.task] at htask
    cases hpc : s.pc i j with
    | idle => rfl
    | ready => rw [hpc] at htask; cases htask
    | skipped => rw [hpc] at htask; cases htask
    | passed => rw [hpc] at htask; cases htask
    | marked => rw [hpc] at htask; cases htask
    | drawing made => rw [hpc] at htask; cases htask
  refine ⟨hidle, ?_⟩
  cases hm : s.oldMatched i with
  | false => rfl
  | true =>
      obtain ⟨j, hj⟩ := (h.oldMatched i).mp hm
      rw [hidle j] at hj
      cases hj

section Fields

variable (s : ctx.FineState) (i i' : Fin ctx.oldSegments.length)
  (j : Fin ctx.newSegments.length)

@[simp] theorem fineEnter_oldMatched : (fineEnter s i).oldMatched = s.oldMatched := by
  rw [fineEnter]
  split
  · rfl
  · rfl

@[simp] theorem fineEnter_newMatched : (fineEnter s i).newMatched = s.newMatched := by
  rw [fineEnter]
  split
  · rfl
  · rfl

@[simp] theorem fineEnter_image : (fineEnter s i).image = s.image := by
  rw [fineEnter]
  split
  · rfl
  · rfl

@[simp] theorem fineEnter_entered :
    (fineEnter s i).entered i' = if i' = i then true else s.entered i' := by
  rw [fineEnter]
  split
  · simp [Function.update_apply]
  · simp [Function.update_apply]

theorem fineEnter_pc : (fineEnter s i).pc i' j =
    if i' = i ∧ outerReturns s.view i = false then .ready else s.pc i' j := by
  cases h : outerReturns s.view i with
  | true => simp [fineEnter, h]
  | false => simp [fineEnter, h]

end Fields

section

variable {s s' : ctx.FineState} {t : ctx.State} {i : Fin ctx.oldSegments.length}
  {j : Fin ctx.newSegments.length}

/-- The outer bodies decide alike. -/
theorem Stands.enter (h : Stands s t) (hf : FlagInv descriptorMatch t)
    (he : s.entered i = false) : Stands (fineEnter s i) (enter t i) := by
  obtain ⟨hidle, hflag⟩ := h.idle hf he
  have het : t.entered i = false := by rw [h.entered, he]
  have hguard : outerReturns t i = outerReturns s.view i := by
    rw [outerReturns, outerReturns, hf.oldMatched_of_not_entered het]
    show _ = (_ || s.oldMatched i)
    rw [hflag]
  refine ⟨?_, ?_, ?_, ?_⟩
  · rw [enter_newMatched, fineEnter_newMatched, h.newMatched]
  · funext i'
    rw [enter_entered, fineEnter_entered, h.entered]
  · intro i' j
    rw [enter_task, fineEnter_pc, hguard]
    split
    · rfl
    · exact h.task i' j
  · intro i'
    rw [fineEnter_oldMatched, h.oldMatched]
    refine exists_congr fun j => ?_
    rw [fineEnter_pc]
    split
    · rename_i hi
      rw [hi.1, hidle j]
      exact Iff.rfl
    · exact Iff.rfl

/-- A task moves on in both systems. -/
theorem Stands.move (h : Stands s t) (pc : Pc) {t' : ctx.State}
    (hnew : t'.newMatched = s'.newMatched) (hentered : t'.entered = s'.entered)
    (hpc : ∀ i' j', s'.pc i' j' = if i' = i ∧ j' = j then pc else s.pc i' j')
    (htask : ∀ i' j', t'.task i' j' = if i' = i ∧ j' = j then pc.task else t.task i' j')
    (hold : ∀ i', s'.oldMatched i' = true ↔ s.oldMatched i' = true ∨ i' = i ∧ pc.claims = true)
    (hclaims : (s.pc i j).claims = true → pc.claims = true) : Stands s' t' := by
  refine ⟨hnew, hentered, ?_, ?_⟩
  · intro i' j'
    rw [hpc, htask]
    split
    · rfl
    · exact h.task i' j'
  · intro i'
    rw [hold, h.oldMatched]
    constructor
    · rintro (⟨j', hj'⟩ | ⟨rfl, hclaim⟩)
      · refine ⟨j', ?_⟩
        rw [hpc]
        split
        · rename_i hij
          obtain ⟨rfl, rfl⟩ := hij
          exact hclaims hj'
        · exact hj'
      · exact ⟨j, by rwa [hpc, if_pos ⟨rfl, rfl⟩]⟩
    · rintro ⟨j', hj'⟩
      rw [hpc] at hj'
      split at hj'
      · rename_i hij
        exact .inr ⟨hij.1, hj'⟩
      · exact .inl ⟨j', hj'⟩

/-- In the system with atomic commits the task does not move. -/
theorem task_eq_ite {i : Fin ctx.oldSegments.length} {j : Fin ctx.newSegments.length}
    {task : Task} (htask : t.task i j = task) (i' : Fin ctx.oldSegments.length)
    (j' : Fin ctx.newSegments.length) :
    t.task i' j' = if i' = i ∧ j' = j then task else t.task i' j' := by
  split
  · rename_i hij
    rw [hij.1, hij.2, htask]
  · rfl

/-- A claim that is made again changes no flag. -/
theorem Stands.claims_again (h : Stands s t) (hclaims : (s.pc i j).claims = true)
    (i' : Fin ctx.oldSegments.length) :
    s.oldMatched i' = true ↔ s.oldMatched i' = true ∨ i' = i ∧ true = true := by
  have hclaim : s.oldMatched i = true := (h.oldMatched i).mpr ⟨j, hclaims⟩
  constructor
  · exact Or.inl
  · rintro (hold | ⟨rfl, -⟩)
    · exact hold
    · exact hclaim

/-- Every access is a step with atomic commits, or none. -/
theorem Stands.step (h : Stands s t) (hf : FlagInv descriptorMatch t) {a : ctx.FineAct}
    (hstep : fineStep cv descriptorMatch outline s a = some s') :
    ∃ acts t', Transition.run (matchStep cv descriptorMatch) t acts = some t' ∧ Stands s' t' := by
  have hone : ∀ {act : ctx.Step} {t' : ctx.State}, matchStep cv descriptorMatch t act = some t' →
      Transition.run (matchStep cv descriptorMatch) t [act] = some t' := by
    intro act t' hact
    rw [Transition.run_cons_of_step hact, Transition.run_nil]
  rcases fineStep_cases hstep with ⟨i, -, he, rfl⟩ | ⟨i, j, -, hpc, rfl⟩ | ⟨i, j, -, hpc, rfl⟩ |
    ⟨i, j, -, hpc, rfl⟩ | ⟨i, j, made, op, -, hpc, hop, rfl⟩
  · exact ⟨_, _, hone (matchStep_outer (by rw [h.entered, he])), h.enter hf he⟩
  · have htask : t.task i j = .ready := by rw [h.task, hpc]; rfl
    have hguard : pairReturns descriptorMatch t i j = pairReturns descriptorMatch s.view i j := by
      rw [pairReturns, pairReturns, h.newMatched]
      rfl
    refine ⟨_, _, hone (show matchStep cv descriptorMatch t (.guard i j) = some _ from
      if_pos htask), ?_⟩
    refine h.move (if pairReturns descriptorMatch s.view i j then .skipped else .passed)
      h.newMatched h.entered (fun _ _ => rfl) ?_ ?_ ?_
    · intro i' j'
      rw [setTask_task, hguard]
      cases pairReturns descriptorMatch s.view i j with
      | true => rfl
      | false => rfl
    · intro i'
      cases pairReturns descriptorMatch s.view i j with
      | true => simp [Pc.claims, FineState.setPc]
      | false => simp [Pc.claims, FineState.setPc]
    · rw [hpc]
      intro hclaims
      cases hclaims
  · -- the flag of the old segment alone is no commit
    refine ⟨[], t, rfl, ?_⟩
    have htask : t.task i j = .passed := by rw [h.task, hpc]; rfl
    refine h.move .marked h.newMatched h.entered (fun _ _ => rfl) (task_eq_ite htask) ?_
      (fun _ => rfl)
    intro i'
    simp [Function.update_apply, Pc.claims, or_comm]
  · have htask : t.task i j = .passed := by rw [h.task, hpc]; rfl
    refine ⟨_, _, hone (matchStep_commit htask), ?_⟩
    refine h.move (.drawing 0) ?_ h.entered (fun _ _ => rfl) (fun i' j' => commit_task ..)
      (h.claims_again (by rw [hpc]; rfl)) (fun _ => rfl)
    show Function.update t.newMatched j true = Function.update s.newMatched j true
    rw [h.newMatched]
  · refine ⟨[], t, rfl, ?_⟩
    have htask : t.task i j = .committed := by rw [h.task, hpc]; rfl
    exact h.move (.drawing (made + 1)) h.newMatched h.entered (fun _ _ => rfl) (task_eq_ite htask)
      (h.claims_again (by rw [hpc]; rfl)) (fun _ => rfl)

/-- Every access keeps what the image is. -/
theorem FineDrawInv.step (hcv : cv.Lawful) (h : Stands s t) (hf : FlagInv descriptorMatch t)
    (hs : FineDrawInv cv outline s) {a : ctx.FineAct}
    (hstep : fineStep cv descriptorMatch outline s a = some s') : FineDrawInv cv outline s' := by
  rcases fineStep_cases hstep with ⟨i, -, he, rfl⟩ | ⟨i, j, -, hpc, rfl⟩ | ⟨i, j, -, hpc, rfl⟩ |
    ⟨i, j, -, hpc, rfl⟩ | ⟨i, j, made, op, -, hpc, hop, rfl⟩
  · obtain ⟨hidle, -⟩ := h.idle hf he
    refine hs.of_same (fineEnter_image s i) fun op => ?_
    refine exists_congr fun i' => exists_congr fun j' => exists_congr fun made => ?_
    rw [fineEnter_pc]
    split
    · rename_i hi
      rw [hi.1, hidle j']
      exact ⟨fun h => (nomatch h.1), fun h => (nomatch h.1)⟩
    · exact Iff.rfl
  · refine hs.of_same rfl (performed_of_none (fun _ _ => rfl) ?_ ?_)
    · rw [hpc]
      nofun
    · intro made
      split
      · nofun
      · nofun
  · refine hs.of_same rfl (performed_of_none (fun _ _ => rfl) ?_ nofun)
    rw [hpc]
    nofun
  · refine hs.of_same rfl (performed_of_none (fun _ _ => rfl) ?_ ?_)
    · rw [hpc]
      nofun
    · rintro made ⟨⟩
      rfl
  · exact hs.pixel hcv rfl (performed_pixel (fun _ _ => rfl) hpc hop)

/-- In a complete state the accesses made are those of the committed tasks. -/
theorem performed_of_complete (h : Stands s t) (hc : FineComplete cv outline s) (op : PixelOp) :
    Performed cv outline s op ↔ ∃ i j, t.task i j = .committed ∧ op ∈ accesses cv outline j := by
  refine exists_congr fun i => exists_congr fun j => ?_
  rw [h.task]
  rcases (hc i).2 j with hpc | hpc | hpc
  · simp [hpc, Pc.task]
  · simp [hpc, Pc.task]
  · simp only [hpc, Pc.task, Pc.drawing.injEq, exists_eq_left', List.take_length, true_and]

theorem paints_of_complete (houtline : Outlines ctx outline) (h : Stands s t)
    (hc : FineComplete cv outline s) {p : Point} (hp : ctx.oldGrayMat.InBounds p) :
    (∃ op, Performed cv outline s op ∧ op.Paints ctx p) ↔
      ∃ i j, t.task i j = .committed ∧ Draws cv ctx (ctx.newSegment j) p := by
  simp only [performed_of_complete h hc]
  constructor
  · rintro ⟨op, ⟨i, j, hij, hop⟩, hpaints⟩
    exact ⟨i, j, hij, (exists_paints_iff houtline _ hp).mp ⟨op, hop, hpaints⟩⟩
  · rintro ⟨i, j, hij, hdraws⟩
    obtain ⟨op, hop, hpaints⟩ := (exists_paints_iff houtline _ hp).mpr hdraws
    exact ⟨op, ⟨i, j, hij, hop⟩, hpaints⟩

theorem Stands.complete (h : Stands s t) (hc : FineComplete cv outline s) : t.Complete := by
  intro i
  refine ⟨by rw [h.entered]; exact (hc i).1, fun j => ?_⟩
  rw [h.task]
  rcases (hc i).2 j with hpc | hpc | hpc
  · simp [hpc, Pc.task]
  · simp [hpc, Pc.task]
  · simp [hpc, Pc.task]

theorem Stands.oldMatched_eq (h : Stands s t) (hf : FlagInv descriptorMatch t)
    (hc : FineComplete cv outline s) : t.oldMatched = s.oldMatched := by
  funext i
  rw [Bool.eq_iff_iff, hf.oldMatched_iff, h.oldMatched]
  refine exists_congr fun j => ?_
  rw [h.task]
  rcases (hc i).2 j with hpc | hpc | hpc
  · simp [hpc, Pc.task, Pc.claims]
  · simp [hpc, Pc.task, Pc.claims]
  · simp [hpc, Pc.task, Pc.claims]

/-- Both systems end with the same image, or both with none. -/
theorem Stands.result_eq (hcv : cv.Lawful) (houtline : Outlines ctx outline) (h : Stands s t)
    (hs : FineDrawInv cv outline s) (ht : DrawInv cv t) (hc : FineComplete cv outline s) :
    t.result = s.image := by
  have hperformed := performed_of_complete h hc
  have hdefined : t.result.isSome ↔ s.image.isSome := by
    rw [ht.defined, hs.defined]
    simp only [hperformed]
    constructor
    · rintro hall op ⟨i, j, hij, hop⟩
      exact (forall_ok_iff houtline _).mpr (hall i j hij) op hop
    · intro hall i j hij
      exact (forall_ok_iff houtline _).mp fun op hop => hall op ⟨i, j, hij, hop⟩
  cases ht' : t.result with
  | none =>
      cases hs' : s.image with
      | none => rfl
      | some img => rw [ht', hs'] at hdefined; simp at hdefined
  | some img =>
      cases hs' : s.image with
      | none => rw [ht', hs'] at hdefined; simp at hdefined
      | some img' =>
          have hpainted := (hs.painted img' hs').congr_inBounds fun p hp =>
            paints_of_complete houtline h hc (((oldSize_baseImage hcv).inBounds_iff p).mp hp)
          rw [(ht.painted img ht').unique hpainted]

end

theorem stands_init (hfresh : ctx.Fresh) : Stands (fineInit cv ctx) (initState cv ctx) := by
  refine ⟨rfl, rfl, fun _ _ => rfl, fun i => ?_⟩
  have hflag : (fineInit cv ctx).oldMatched i = false := initState_oldMatched cv hfresh i
  rw [hflag]
  exact ⟨nofun, fun ⟨j, hj⟩ => nomatch hj⟩

/-- Every run with single accesses stands for a run with atomic commits. -/
theorem fine_stands (hcv : cv.Lawful) (hfresh : ctx.Fresh) {acts : List ctx.FineAct}
    {s : ctx.FineState}
    (hrun : Transition.run (fineStep cv descriptorMatch outline) (fineInit cv ctx) acts = some s) :
    ∃ acts' t, Transition.run (matchStep cv descriptorMatch) (initState cv ctx) acts' = some t ∧
      Stands s t ∧ FlagInv descriptorMatch t ∧ FineDrawInv cv outline s :=
  Transition.run_refinement
    (fun s t => Stands s t ∧ FlagInv descriptorMatch t ∧ FineDrawInv cv outline s)
    (fun s t a s' ⟨hstands, hf, hs⟩ hstep => by
      obtain ⟨bs, t', hbs, hstands'⟩ := hstands.step hf hstep
      have hf' := Transition.run_invariant (FlagInv descriptorMatch)
        (fun _ b _ hf hb => hf.step b hb) hf hbs
      exact ⟨bs, t', hbs, hstands', hf', hs.step hcv hstands hf hstep⟩)
    ⟨stands_init hfresh, flagInv_initState cv hfresh, fineDrawInv_init⟩ hrun

/-- A run with single accesses that is complete has a run with atomic commits that ends
with the same flags and the same image. -/
theorem fine_refines (hcv : cv.Lawful) (hfresh : ctx.Fresh)
    (houtline : Outlines ctx outline) {acts : List ctx.FineAct} {s : ctx.FineState}
    (hrun : Transition.run (fineStep cv descriptorMatch outline) (fineInit cv ctx) acts = some s)
    (hc : FineComplete cv outline s) :
    ∃ acts' t, Transition.run (matchStep cv descriptorMatch) (initState cv ctx) acts' = some t ∧
      t.Complete ∧ t.oldMatched = s.oldMatched ∧ t.newMatched = s.newMatched ∧
      t.result = s.image := by
  obtain ⟨acts', t, hrun', hstands, hf, hs⟩ := fine_stands hcv hfresh hrun
  exact ⟨acts', t, hrun', hstands.complete hc, hstands.oldMatched_eq hf hc, hstands.newMatched,
    hstands.result_eq hcv houtline hs (drawInv_of_run hcv hfresh hrun') hc⟩

/-- The steps that a released task has still to take, with `n` accesses in its drawing. -/
def Pc.left (n : Nat) : Pc → Nat
  | .idle => 0
  | .ready => 3 + n
  | .skipped => 0
  | .passed => 2 + n
  | .marked => 1 + n
  | .drawing made => n - made

variable (cv outline) in
/-- The most steps of an outer body and its tasks. -/
def rowSteps (ctx : Context ρ) : Nat := 1 + ∑ j : Fin ctx.newSegments.length,
  (3 + (accesses cv outline j).length)

variable (cv outline) in
/-- The most steps of an outer body and its tasks that are left. -/
def rowLeft (s : ctx.FineState) (i : Fin ctx.oldSegments.length) : Nat :=
  if s.entered i then ∑ j, (s.pc i j).left (accesses cv outline j).length
  else rowSteps cv outline ctx

variable (cv outline) in
/-- Tasks that are not released stand still, and no task makes more accesses than its
drawing has. -/
structure FineInv (s : ctx.FineState) : Prop where
  idle : ∀ i j, s.entered i = false → s.pc i j = .idle
  made_le : ∀ i j made, s.pc i j = .drawing made → made ≤ (accesses cv outline j).length

theorem fineInv_init : FineInv cv outline (fineInit cv ctx) := ⟨fun _ _ _ => rfl, nofun⟩

/-- A task that moves on. -/
theorem FineInv.move {s s' : ctx.FineState} (h : FineInv cv outline s)
    {i : Fin ctx.oldSegments.length} {j : Fin ctx.newSegments.length} {pc : Pc}
    (hentered : s'.entered = s.entered)
    (hpc : ∀ i' j', s'.pc i' j' = if i' = i ∧ j' = j then pc else s.pc i' j')
    (hreleased : s.pc i j ≠ .idle) (hmade : ∀ made, pc = .drawing made →
      made ≤ (accesses cv outline j).length)
    (hleft : pc.left (accesses cv outline j).length <
      (s.pc i j).left (accesses cv outline j).length) :
    FineInv cv outline s' ∧ ∑ i, rowLeft cv outline s' i < ∑ i, rowLeft cv outline s i := by
  have hi : s.entered i = true := by
    by_contra hnot
    exact hreleased (h.idle i j (Bool.not_eq_true _ ▸ hnot))
  refine ⟨⟨fun i' j' hi' => ?_, fun i' j' made hdrawing => ?_⟩, ?_⟩
  · rw [hentered] at hi'
    rw [hpc, if_neg (fun hij => by rw [hij.1, hi] at hi'; cases hi'), h.idle i' j' hi']
  · rw [hpc] at hdrawing
    split at hdrawing
    · rename_i hij
      rw [hij.2]
      exact hmade made hdrawing
    · exact h.made_le i' j' made hdrawing
  · have hself : s'.pc i j = pc := by rw [hpc, if_pos ⟨rfl, rfl⟩]
    have hle : ∀ i' j', (s'.pc i' j').left (accesses cv outline j').length ≤
        (s.pc i' j').left (accesses cv outline j').length := by
      intro i' j'
      by_cases hij : i' = i ∧ j' = j
      · rw [hij.1, hij.2, hself]
        exact hleft.le
      · rw [hpc, if_neg hij]
    refine Finset.sum_lt_sum (fun i' _ => ?_) ⟨i, Finset.mem_univ i, ?_⟩
    · rw [rowLeft, rowLeft, hentered]
      split
      · exact Finset.sum_le_sum fun j' _ => hle i' j'
      · exact le_rfl
    · rw [rowLeft, rowLeft, hentered, if_pos hi, if_pos hi]
      exact Finset.sum_lt_sum (fun j' _ => hle i j') ⟨j, Finset.mem_univ j, hself ▸ hleft⟩

/-- An outer body releases its tasks or returns. -/
theorem FineInv.enter {s : ctx.FineState} (h : FineInv cv outline s)
    {i : Fin ctx.oldSegments.length} (hi : s.entered i = false) :
    FineInv cv outline (fineEnter s i) ∧
      ∑ i', rowLeft cv outline (fineEnter s i) i' < ∑ i', rowLeft cv outline s i' := by
  have hpc : ∀ i' j, i' ≠ i → (fineEnter s i).pc i' j = s.pc i' j := by
    intro i' j hne
    rw [fineEnter_pc, if_neg fun hij => hne hij.1]
  have hpc' : ∀ j, (fineEnter s i).pc i j = .idle ∨ (fineEnter s i).pc i j = .ready := by
    intro j
    rw [fineEnter_pc]
    split
    · exact .inr rfl
    · exact .inl (h.idle i j hi)
  refine ⟨⟨fun i' j hi' => ?_, fun i' j made hdrawing => ?_⟩, ?_⟩
  · rw [fineEnter_entered] at hi'
    split at hi'
    · cases hi'
    · rename_i hne
      rw [hpc i' j hne, h.idle i' j hi']
  · by_cases hne : i' = i
    · rw [hne] at hdrawing
      rcases hpc' j with hj | hj
      · rw [hj] at hdrawing
        cases hdrawing
      · rw [hj] at hdrawing
        cases hdrawing
    · exact h.made_le i' j made (hpc i' j hne ▸ hdrawing)
  · have hrow : rowLeft cv outline (fineEnter s i) i < rowLeft cv outline s i := by
      rw [rowLeft, rowLeft, fineEnter_entered, if_pos rfl, if_pos rfl, hi, if_neg nofun, rowSteps]
      refine Nat.lt_one_add_iff.mpr (Finset.sum_le_sum fun j _ => ?_)
      rcases hpc' j with hj | hj
      · rw [hj]
        exact Nat.zero_le _
      · rw [hj]
        exact le_rfl
    refine Finset.sum_lt_sum (fun i' _ => ?_) ⟨i, Finset.mem_univ i, hrow⟩
    by_cases hne : i' = i
    · rw [hne]
      exact hrow.le
    · simp only [rowLeft, fineEnter_entered, if_neg hne, hpc i' _ hne]
      exact le_rfl

/-- Every step is one of those that are left. -/
theorem FineInv.step {s s' : ctx.FineState} (h : FineInv cv outline s) {a : ctx.FineAct}
    (hstep : fineStep cv descriptorMatch outline s a = some s') :
    FineInv cv outline s' ∧ ∑ i, rowLeft cv outline s' i < ∑ i, rowLeft cv outline s i := by
  rcases fineStep_cases hstep with ⟨i, -, hi, rfl⟩ | ⟨i, j, -, hpc, rfl⟩ | ⟨i, j, -, hpc, rfl⟩ |
    ⟨i, j, -, hpc, rfl⟩ | ⟨i, j, made, op, -, hpc, hop, rfl⟩
  · exact h.enter hi
  · refine h.move rfl (setPc_pc s i · j · _) (by rw [hpc]; nofun) ?_ ?_
    · intro made hmade
      split at hmade
      · cases hmade
      · cases hmade
    · rw [hpc]
      split
      · simp only [Pc.left]
        omega
      · simp only [Pc.left]
        omega
  · refine h.move rfl (setPc_pc s i · j · _) (by rw [hpc]; nofun) nofun ?_
    rw [hpc]
    simp only [Pc.left]
    omega
  · refine h.move rfl (setPc_pc s i · j · _) (by rw [hpc]; nofun) ?_ ?_
    · rintro made ⟨⟩
      exact Nat.zero_le _
    · rw [hpc]
      simp only [Pc.left]
      omega
  · have hlt : made < (accesses cv outline j).length := (List.getElem?_eq_some_iff.mp hop).1
    refine h.move rfl (setPc_pc s i · j · _) (by rw [hpc]; nofun) ?_ ?_
    · rintro made' ⟨⟩
      exact hlt
    · rw [hpc]
      simp only [Pc.left]
      omega

/-- There is a step unless all tasks have ended. -/
theorem FineInv.progress {s : ctx.FineState} (h : FineInv cv outline s) :
    FineComplete cv outline s ∨ ∃ a s', fineStep cv descriptorMatch outline s a = some s' := by
  by_cases hentered : ∀ i, s.entered i = true
  · by_cases hended : ∀ i j, s.pc i j = .idle ∨ s.pc i j = .skipped ∨
        s.pc i j = .drawing (accesses cv outline j).length
    · exact .inl fun i => ⟨hentered i, hended i⟩
    · right
      obtain ⟨i, hended⟩ := not_forall.mp hended
      obtain ⟨j, hended⟩ := not_forall.mp hended
      cases hpc : s.pc i j with
      | idle => exact absurd (.inl hpc) hended
      | ready => exact ⟨.guard i j, _, if_pos hpc⟩
      | skipped => exact absurd (.inr (.inl hpc)) hended
      | passed => exact ⟨.markOld i j, _, if_pos hpc⟩
      | marked => exact ⟨.markNew i j, _, if_pos hpc⟩
      | drawing made =>
          have hne : made ≠ (accesses cv outline j).length := by
            rintro rfl
            exact hended (.inr (.inr hpc))
          have hlt := Nat.lt_of_le_of_ne (h.made_le i j made hpc) hne
          refine ⟨.pixel i j, Option.isSome_iff_exists.mp ?_⟩
          simp only [fineStep, hpc, List.getElem?_eq_getElem hlt, Option.map_some,
            Option.isSome_some]
  · obtain ⟨i, hi⟩ := not_forall.mp hentered
    exact .inr ⟨.outer i, _, if_neg hi⟩

/-- The single accesses of the matching phase may interleave in any way.  There are only
so many of them, and none of them waits for another for ever.  When all are made, there
is a run with atomic commits that ends with the same flags and the same image. -/
theorem interleaving_refines (hcv : cv.Lawful) (hfresh : ctx.Fresh)
    (houtline : Outlines ctx outline) {acts : List ctx.FineAct} {s : ctx.FineState}
    (hrun : Transition.run (fineStep cv descriptorMatch outline) (fineInit cv ctx) acts =
      some s) :
    acts.length ≤ ctx.oldSegments.length * (1 + ∑ j : Fin ctx.newSegments.length,
      (3 + (accesses cv outline j).length)) ∧
    (FineComplete cv outline s ∨ ∃ a s', fineStep cv descriptorMatch outline s a = some s') ∧
    (FineComplete cv outline s →
      ∃ acts' t, Transition.run (matchStep cv descriptorMatch) (initState cv ctx) acts' = some t ∧
        t.Complete ∧ t.oldMatched = s.oldMatched ∧ t.newMatched = s.newMatched ∧
        t.result = s.image) := by
  have hinv := Transition.run_invariant (FineInv cv outline)
    (fun _ _ _ h hstep => (h.step hstep).1) fineInv_init hrun
  have hbound := Transition.run_length_le (FineInv cv outline)
    (fun s => ∑ i, rowLeft cv outline s i) (fun _ _ _ h hstep => h.step hstep) fineInv_init hrun
  have hinit : ∑ i, rowLeft cv outline (fineInit cv ctx) i =
      ctx.oldSegments.length * rowSteps cv outline ctx := by
    simp [rowLeft, fineInit]
  refine ⟨?_, hinv.progress, fine_refines hcv hfresh houtline hrun⟩
  rw [hinit] at hbound
  exact (Nat.le_add_right _ _).trans hbound

end

/-- The border pixels inside an image, row by row. -/
def outlineOf {α : Type} (m : Mat α) (rect : Rect) : List Point :=
  ((List.finRange m.rows).flatMap fun i : Fin m.rows =>
    (List.finRange m.cols).map fun j : Fin m.cols => (⟨j.val, i.val⟩ : Point)).filter fun p =>
      rect.OnBorder p

theorem outlines_outlineOf {ρ : Type} (ctx : Context ρ) :
    Outlines ctx (outlineOf ctx.oldGrayMat) := by
  intro rect p
  simp only [outlineOf, List.mem_filter, List.mem_flatMap, List.mem_finRange, true_and,
    List.mem_map, decide_eq_true_eq]
  refine and_congr_left fun _ => ⟨?_, ?_⟩
  · rintro ⟨i, j, rfl⟩
    exact Mat.inBounds_of_at? (Mat.at?_mk _ i j)
  · rintro ⟨⟨hy, hy'⟩, hx, hx'⟩
    refine ⟨⟨p.y.toNat, by omega⟩, ⟨p.x.toNat, by omega⟩, ?_⟩
    rw [Int.toNat_of_nonneg hx, Int.toNat_of_nonneg hy]

instance {ρ : Type} (cv : OpenCV ρ) (outline : Rect → List Point) {ctx : Context ρ}
    (s : ctx.FineState) : Decidable (FineComplete cv outline s) :=
  inferInstanceAs (Decidable (∀ _, _ ∧ ∀ _, _))

/-- Two old segments and one new one.  Both tasks pass their guards, and their accesses
alternate. -/
def alternatingRun : Option (sampleContext [[1], [1]] [[1]]).FineState :=
  let each (act : Fin 2 → Fin 1 → FineAct 2 1) : List (FineAct 2 1) :=
    (List.finRange 2).flatMap fun i => (List.finRange 1).map (act i)
  Transition.run (fineStep sampleCV (fun d e => d == e) (outlineOf ⟨1, 1, fun _ _ => (0 : UInt8)⟩))
    (fineInit sampleCV _)
    ((List.finRange 2).map .outer ++ each .guard ++ each .markOld ++ (each .markNew).reverse ++
      each .pixel ++ each .pixel)

def alternatingState : (sampleContext [[1], [1]] [[1]]).FineState :=
  alternatingRun.get (by decide)

theorem interleaving_refines_alternating :
    alternatingRun = some alternatingState ∧
      ∃ acts t, Transition.run (matchStep sampleCV fun d e => d == e)
          (initState sampleCV (sampleContext [[1], [1]] [[1]])) acts = some t ∧
        t.Complete ∧ t.oldMatched = alternatingState.oldMatched ∧
        t.newMatched = alternatingState.newMatched ∧ t.result = alternatingState.image := by
  have hrun : alternatingRun = some alternatingState := (Option.some_get _).symm
  exact ⟨hrun, (interleaving_refines sampleCV_lawful (sampleContext_fresh _ _)
    (outlines_outlineOf (sampleContext [[1], [1]] [[1]])) hrun).2.2 (by decide)⟩

end Gazosan
