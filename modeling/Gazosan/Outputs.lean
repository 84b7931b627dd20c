import Gazosan.Main

/-!
# The files that a run writes

What is in the files of a run of `main`, in either build.

With `ENABLE_PARALLEL` the diff image and the image of added parts depend on the input
alone, not on the schedule of the tasks, nor on which image was loaded first
(`parallel_outputs`).  Without it a run writes its files only if every old segment
matches every new one.  Its diff image is then that of the other build
(`diff_image_agrees`), but the flags are lost with the copies that carry them, so the
images of deleted and added parts outline all segments (`serial_outputs`).

The images of changes are drawn into the input files, which are decoded once more for them.
By then the diff image has been written, and nothing prevents its path from being that of
an input file.  So these results are about runs that keep their inputs (`KeepsInputs`).
-/

namespace Gazosan

section

variable {ρ : Type} {cv : OpenCV ρ} {frame : Rect → Point → Prop}

/-! ## Outlines -/

/-- Without a flag all segments are outlined. -/
theorem drawNotMatchedSerial_painted (hframe : cv.PaintsFrames frame)
    {segs : List (ImageSegment ρ)} (hfresh : ∀ seg ∈ segs, seg.matched = false)
    (ret : Mat Vec3b) :
    Mat.PaintedBy (fun p => ∃ seg ∈ segs, frame seg.area p) green ret
      (drawNotMatchedSerial cv ret segs) := by
  rw [drawNotMatched_eq cv segs ret hfresh]
  refine (drawNotMatchedParallel_painted hframe segs ret).congr fun p => ?_
  constructor
  · rintro ⟨seg, hseg, -, hp⟩
    exact ⟨seg, hseg, hp⟩
  · rintro ⟨seg, hseg, hp⟩
    exact ⟨seg, hseg, hfresh seg hseg, hp⟩

/-! ## The loops of the build without `ENABLE_PARALLEL` -/

variable {descriptorMatch : List ρ → List ρ → Bool} {ctx : Context ρ}

theorem serialInner_painted (hcv : cv.Lawful) {seg1 : ImageSegment ρ} {result result' : Mat Vec3b}
    {segs : List (ImageSegment ρ)}
    (h : serialInner cv descriptorMatch ctx seg1 result segs = some (.next result')) :
    Mat.PaintedBy (fun p => ∃ seg ∈ segs, Draws cv ctx seg p) red result result' := by
  induction segs generalizing seg1 result with
  | nil =>
      cases h
      exact (Mat.PaintedBy.refl red _).congr (by simp)
  | cons seg2 rest ih =>
      rw [serialInner] at h
      split at h
      · cases h
      · obtain ⟨next, hnext, h⟩ := Option.bind_eq_some_iff.mp h
        exact ((drawMatched_painted hcv hnext).trans (ih h)).congr (by simp)

/-- If the loops run to their end, they draw every new segment once for each old one. -/
theorem serialOuter_painted (hcv : cv.Lawful) {result result' : Mat Vec3b}
    {segs : List (ImageSegment ρ)}
    (h : serialOuter cv descriptorMatch ctx result segs = some (.next result')) :
    Mat.PaintedBy (fun p => segs ≠ [] ∧ ∃ seg ∈ ctx.newSegments, Draws cv ctx seg p) red result
      result' := by
  induction segs generalizing result with
  | nil =>
      cases h
      exact (Mat.PaintedBy.refl red _).congr (by simp)
  | cons seg1 rest ih =>
      rw [serialOuter] at h
      split at h
      · cases h
      · obtain ⟨flow, hflow, h⟩ := Option.bind_eq_some_iff.mp h
        cases flow with
        | ret => cases h
        | next r =>
            refine ((serialInner_painted hcv hflow).trans (ih h)).congr fun p => ?_
            constructor
            · rintro (hp | ⟨-, hp⟩)
              · exact ⟨List.cons_ne_nil _ _, hp⟩
              · exact ⟨List.cons_ne_nil _ _, hp⟩
            · rintro ⟨-, hp⟩
              exact .inl hp

/-! ## Files that are decoded again -/

/-- What a context shows when its files are decoded again.  A mapping is private, but it
may show what is written into the file behind it.  It keeps its bytes as long as no output
path leads to that file. -/
inductive Rereads (sameFile : String → String → Prop) (ctx : Context ρ) : Context ρ → Prop
  | intro {oldFile newFile}
      (old : (∀ path ∈ outputPaths ctx, ¬ sameFile path ctx.arg.oldFile) → oldFile = ctx.oldFile)
      (new : (∀ path ∈ outputPaths ctx, ¬ sameFile path ctx.arg.newFile) → newFile = ctx.newFile) :
      Rereads sameFile ctx { ctx with oldFile, newFile }

/-- No output path leads to an input file. -/
def KeepsInputs (sameFile : String → String → Prop) (ctx : Context ρ) : Prop :=
  ∀ path ∈ outputPaths ctx, ¬ sameFile path ctx.arg.oldFile ∧ ¬ sameFile path ctx.arg.newFile

variable {sameFile : String → String → Prop} {shown : Context ρ}

theorem Rereads.refl (sameFile : String → String → Prop) (ctx : Context ρ) :
    Rereads sameFile ctx ctx := .intro (fun _ => rfl) fun _ => rfl

theorem Rereads.eq (h : Rereads sameFile ctx shown) (hkeep : KeepsInputs sameFile ctx) :
    shown = ctx := by
  cases h with
  | intro old new =>
      rw [old fun path hpath => (hkeep path hpath).1, new fun path hpath => (hkeep path hpath).2]

theorem Rereads.arg (h : Rereads sameFile ctx shown) : shown.arg = ctx.arg := by
  cases h with
  | intro old new => rfl

theorem Rereads.fresh (h : Rereads sameFile ctx shown) (hfresh : ctx.Fresh) : shown.Fresh := by
  cases h with
  | intro old new => exact hfresh

theorem Rereads.allMatch (h : Rereads sameFile ctx shown) (hall : AllMatch descriptorMatch shown) :
    AllMatch descriptorMatch ctx := by
  cases h with
  | intro old new => exact hall

/-! ## Reading the files back -/

/-- The files of a run, as a function of the path. -/
def outputFiles (ctx : Context ρ) (result : Mat Vec3b) (changes : Option (Mat Vec3b × Mat Vec3b))
    (path : String) : Option (Mat Vec3b) :=
  if path = diffPath ctx then some result
  else if path = deletePath ctx then changes.map Prod.fst
  else if path = addPath ctx then changes.map Prod.snd
  else none

/-- In whichever order they are written. -/
theorem lookup_writes (ctx : Context ρ) (result deleted added : Mat Vec3b) (addFirst : Bool)
    (path : String) :
    ((diffPath ctx, result) :: if addFirst then [(addPath ctx, added), (deletePath ctx, deleted)]
      else [(deletePath ctx, deleted), (addPath ctx, added)]).lookup path =
      outputFiles ctx result (some (deleted, added)) path := by
  have hdd := diffPath_ne_deletePath ctx
  have hda := diffPath_ne_addPath ctx
  have hea := deletePath_ne_addPath ctx
  rw [outputFiles, List.lookup_cons]
  by_cases hdiff : path = diffPath ctx
  · simp [hdiff]
  · rw [if_neg hdiff, beq_false_of_ne hdiff]
    by_cases hdel : path = deletePath ctx
    · cases addFirst with
      | true => simp [hdel, List.lookup_cons, beq_false_of_ne hea]
      | false => simp [hdel]
    · by_cases hadd : path = addPath ctx
      · cases addFirst with
        | true => simp [hadd, hea.symm]
        | false => simp [hadd, List.lookup_cons, beq_false_of_ne hea.symm, hea.symm]
      · cases addFirst with
        | true =>
            simp [List.lookup_cons, beq_false_of_ne hdel, beq_false_of_ne hadd, hdel, hadd]
        | false =>
            simp [List.lookup_cons, beq_false_of_ne hdel, beq_false_of_ne hadd, hdel, hadd]

theorem lookup_diff_only (ctx : Context ρ) (result : Mat Vec3b) (path : String) :
    [(diffPath ctx, result)].lookup path = outputFiles ctx result none path := by
  rw [outputFiles, List.lookup_cons]
  by_cases hdiff : path = diffPath ctx
  · simp [hdiff]
  · rw [if_neg hdiff, beq_false_of_ne hdiff]
    simp

/-- What `create_diff_image` leaves behind the matching phase. -/
theorem finishParallel_files (hd : Detected cv ctx) {s : ctx.State}
    {oldOrder : List (Fin ctx.oldSegments.length)} {newOrder : List (Fin ctx.newSegments.length)}
    {addFirst : Bool} {b : DiffOutcome ρ}
    (h : finishParallel cv s oldOrder newOrder addFirst = some b) :
    ∃ result, s.result = some result ∧ b.oldSegments = (List.finRange _).map (flaggedOld s) ∧
      ∀ path, b.writes.lookup path = outputFiles ctx result
        (if ctx.arg.createChangeImage then
          some (drawNotMatchedParallel cv ctx.oldColorMat (oldOrder.map (flaggedOld s)),
            drawNotMatchedParallel cv ctx.newColorMat (newOrder.map (flaggedNew s)))
        else none) path := by
  rw [finishParallel] at h
  obtain ⟨result, hresult, h⟩ := Option.bind_eq_some_iff.mp h
  refine ⟨result, hresult, ?_⟩
  rw [hd.oldDecoded, hd.newDecoded] at h
  cases hc : ctx.arg.createChangeImage with
  | true =>
      rw [hc, if_pos rfl, Option.bind_some, Option.bind_some] at h
      cases h
      exact ⟨rfl, fun path => lookup_writes ctx result _ _ addFirst path⟩
  | false =>
      rw [hc, if_neg Bool.false_ne_true] at h
      cases h
      exact ⟨rfl, fun path => lookup_diff_only ctx result path⟩

/-- The same without `ENABLE_PARALLEL`, if the loops run to their end. -/
theorem createDiffImageSerial_files (hd : Detected cv ctx) {a : DiffOutcome ρ}
    (h : createDiffImageSerial cv descriptorMatch ctx = some a) (hwrites : a.writes ≠ []) :
    ∃ result, serialOuter cv descriptorMatch ctx (baseImage cv ctx) ctx.oldSegments =
        some (.next result) ∧
      ∀ path, a.writes.lookup path = outputFiles ctx result
        (if ctx.arg.createChangeImage then
          some (drawNotMatchedSerial cv ctx.oldColorMat ctx.oldSegments,
            drawNotMatchedSerial cv ctx.newColorMat ctx.newSegments)
        else none) path := by
  rw [createDiffImageSerial] at h
  obtain ⟨flow, hflow, h⟩ := Option.bind_eq_some_iff.mp h
  cases flow with
  | ret =>
      cases h
      exact absurd rfl hwrites
  | next result =>
      refine ⟨result, hflow, ?_⟩
      simp only [hd.oldDecoded, hd.newDecoded, Option.bind_some] at h
      cases hc : ctx.arg.createChangeImage with
      | true =>
          rw [hc, if_pos rfl] at h
          cases h
          exact fun path => lookup_writes ctx result _ _ false path
      | false =>
          rw [hc, if_neg Bool.false_ne_true] at h
          cases h
          exact fun path => lookup_diff_only ctx result path

/-- The diff image is the result of the loops, whatever the files are by then. -/
theorem createDiffImageSerial_diff {a : DiffOutcome ρ}
    (h : createDiffImageSerial cv descriptorMatch ctx = some a) (hwrites : a.writes ≠ []) :
    ∃ result, serialOuter cv descriptorMatch ctx (baseImage cv ctx) ctx.oldSegments =
        some (.next result) ∧ a.writes.lookup (diffPath ctx) = some result := by
  rw [createDiffImageSerial] at h
  obtain ⟨flow, hflow, h⟩ := Option.bind_eq_some_iff.mp h
  cases flow with
  | ret =>
      cases h
      exact absurd rfl hwrites
  | next result =>
      refine ⟨result, hflow, ?_⟩
      simp only at h
      split at h
      · obtain ⟨deleted, -, h⟩ := Option.bind_eq_some_iff.mp h
        obtain ⟨added, -, h⟩ := Option.bind_eq_some_iff.mp h
        cases h
        exact List.lookup_cons_self
      · cases h
        exact List.lookup_cons_self

theorem finishParallel_diff {s : ctx.State} {oldOrder : List (Fin ctx.oldSegments.length)}
    {newOrder : List (Fin ctx.newSegments.length)} {addFirst : Bool} {b : DiffOutcome ρ}
    (h : finishParallel cv s oldOrder newOrder addFirst = some b) :
    ∃ result, s.result = some result ∧ b.writes.lookup (diffPath ctx) = some result := by
  rw [finishParallel] at h
  obtain ⟨result, hresult, h⟩ := Option.bind_eq_some_iff.mp h
  refine ⟨result, hresult, ?_⟩
  split at h
  · obtain ⟨deleted, -, h⟩ := Option.bind_eq_some_iff.mp h
    obtain ⟨added, -, h⟩ := Option.bind_eq_some_iff.mp h
    cases h
    exact List.lookup_cons_self
  · cases h
    exact List.lookup_cons_self

/-! ## With `ENABLE_PARALLEL` -/

/-- The diff image: the matched new segments drawn into the old image. -/
def DiffImage (cv : OpenCV ρ) (descriptorMatch : List ρ → List ρ → Bool) (ctx : Context ρ)
    (img : Mat Vec3b) : Prop :=
  Mat.PaintedBy (fun p => ∃ i j, Compat descriptorMatch i j ∧ Draws cv ctx (ctx.newSegment j) p)
    red (baseImage cv ctx) img

/-- The image of added parts: the new image with the new segments outlined that match no
old one. -/
def AddImage (descriptorMatch : List ρ → List ρ → Bool) (ctx : Context ρ)
    (frame : Rect → Point → Prop) (img : Mat Vec3b) : Prop :=
  Mat.PaintedBy (fun p => ∃ j, (∀ i, ¬ Compat descriptorMatch i j) ∧
    frame (ctx.newSegment j).area p) green ctx.newColorMat img

/-- The image of deleted parts: the old image with the segments outlined that have no
flag at the end. -/
def DeleteImage (ctx : Context ρ) (frame : Rect → Point → Prop)
    (segs : List (ImageSegment ρ)) (img : Mat Vec3b) : Prop :=
  Mat.PaintedBy (fun p => ∃ seg ∈ segs, seg.matched = false ∧ frame seg.area p) green
    ctx.oldColorMat img

/-- The files have no part in the diff image. -/
theorem Rereads.diffImage (h : Rereads sameFile ctx shown) {img : Mat Vec3b}
    (himg : DiffImage cv descriptorMatch shown img) : DiffImage cv descriptorMatch ctx img := by
  cases h with
  | intro old new => exact himg

section

variable {s : ctx.State}

theorem diffImage_of_complete (hf : FlagInv descriptorMatch s) (hs : DrawInv cv s)
    (hc : s.Complete) {img : Mat Vec3b} (himg : s.result = some img) :
    DiffImage cv descriptorMatch ctx img := by
  refine (hs.painted_matched hf himg).congr fun p => ?_
  simp only [hf.newMatched_of_complete hc]
  constructor
  · rintro ⟨j, ⟨i, hij⟩, hp⟩
    exact ⟨i, j, hij, hp⟩
  · rintro ⟨i, j, hij, hp⟩
    exact ⟨j, ⟨i, hij⟩, hp⟩

theorem addImage_of_complete (hframe : cv.PaintsFrames frame) (hf : FlagInv descriptorMatch s)
    (hc : s.Complete) {newOrder : List (Fin ctx.newSegments.length)}
    (hperm : newOrder.Perm (List.finRange _)) :
    AddImage descriptorMatch ctx frame
      (drawNotMatchedParallel cv ctx.newColorMat (newOrder.map (flaggedNew s))) := by
  refine (drawNotMatchedParallel_painted hframe _ _).congr fun p => ?_
  have hmatched : ∀ j, s.newMatched j = false ↔ ∀ i, ¬ Compat descriptorMatch i j := by
    intro j
    rw [← not_exists, ← hf.newMatched_of_complete hc j, Bool.not_eq_true]
  simp only [List.mem_map, hperm.mem_iff, List.mem_finRange, true_and]
  constructor
  · rintro ⟨_, ⟨j, rfl⟩, hj, hp⟩
    exact ⟨j, (hmatched j).mp hj, hp⟩
  · rintro ⟨j, hj, hp⟩
    exact ⟨_, ⟨j, rfl⟩, (hmatched j).mpr hj, hp⟩

theorem deleteImage_of_perm (hframe : cv.PaintsFrames frame)
    {oldOrder : List (Fin ctx.oldSegments.length)} (hperm : oldOrder.Perm (List.finRange _)) :
    DeleteImage ctx frame ((List.finRange _).map (flaggedOld s))
      (drawNotMatchedParallel cv ctx.oldColorMat (oldOrder.map (flaggedOld s))) := by
  refine (drawNotMatchedParallel_painted hframe _ _).congr fun p => ?_
  simp only [List.mem_map, hperm.mem_iff]

end

end

section

variable {ρ : Type} {cv : OpenCV ρ} {descriptorMatch : Bool → List ρ → List ρ → Bool}
  {fs : FileSystem} {frame : Rect → Point → Prop}

/-- The files of one schedule. -/
theorem createDiffImageParallel_files (hcv : cv.Lawful) (hframe : cv.PaintsFrames frame)
    {ctx : Context ρ} (hd : Detected cv ctx) {schedule : Schedule cv descriptorMatch ctx}
    {b : DiffOutcome ρ} (h : createDiffImageParallel cv descriptorMatch schedule = some b) :
    ∃ result deleted added, DiffImage cv (descriptorMatch ctx.arg.crossCheck) ctx result ∧
      DeleteImage ctx frame b.oldSegments deleted ∧
      AddImage (descriptorMatch ctx.arg.crossCheck) ctx frame added ∧
      ∀ path, b.writes.lookup path = outputFiles ctx result
        (if ctx.arg.createChangeImage then some (deleted, added) else none) path := by
  have hf := flagInv_of_run hd.fresh schedule.run
  have hdraw := drawInv_of_run hcv hd.fresh schedule.run
  obtain ⟨result, hresult, hold, hfiles⟩ := finishParallel_files hd h
  refine ⟨result, _, _, diffImage_of_complete hf hdraw schedule.complete hresult, ?_,
    addImage_of_complete hframe hf schedule.complete schedule.newPerm, hfiles⟩
  rw [hold]
  exact deleteImage_of_perm hframe schedule.oldPerm

/-- Which image is loaded first makes no difference to what `create_diff_image` is called
with. -/
theorem mainBeforeDiff_oldFirst {n : Nat} {oldFirst oldFirst' : Bool} {args : List String}
    {ctx ctx' : Context ρ} (h : mainBeforeDiff cv fs (.parallel n oldFirst) args = .ok ctx)
    (h' : mainBeforeDiff cv fs (.parallel n oldFirst') args = .ok ctx') : ctx' = ctx := by
  obtain ⟨arg, loaded, harg, hload, -, hdetect⟩ := mainBeforeDiff_stages h
  obtain ⟨arg', loaded', harg', hload', -, hdetect'⟩ := mainBeforeDiff_stages h'
  obtain rfl : arg = arg' := Except.ok.inj (harg.symm.trans harg')
  obtain ⟨hnew, hold⟩ := parseArgs_files harg
  obtain ⟨new, old, hn, ho, rfl⟩ := loadImage_spec hnew hold hload
  obtain ⟨new', old', hn', ho', rfl⟩ := loadImage_spec hnew hold hload'
  obtain rfl : new = new' := Except.ok.inj (hn.symm.trans hn')
  obtain rfl : old = old' := Except.ok.inj (ho.symm.trans ho')
  exact Except.ok.inj (hdetect'.symm.trans hdetect)

/-- A run of `main` that returns 0, with what its files show when they are decoded again. -/
structure DiskRun (cv : OpenCV ρ) (descriptorMatch : Bool → List ρ → List ρ → Bool)
    (fs : FileSystem) (sameFile : String → String → Prop) (build : Build)
    (args : List String) where
  ctx : Context ρ
  before : mainBeforeDiff cv fs build args = .ok ctx
  shown : Context ρ
  rereads : Rereads sameFile ctx shown
  outcome : DiffOutcome ρ
  diff : CreatesDiffImage cv descriptorMatch build shown outcome

variable {sameFile : String → String → Prop}

/-- If it keeps its inputs, it is a run as `Main` has it. -/
def DiskRun.mainRun {build : Build} {args : List String}
    (run : DiskRun cv descriptorMatch fs sameFile build args)
    (hkeep : KeepsInputs sameFile run.ctx) : MainRun cv descriptorMatch fs build args :=
  ⟨run.ctx, run.before, run.outcome, run.rereads.eq hkeep ▸ run.diff⟩

/-- And the other way round. -/
def MainRun.diskRun {build : Build} {args : List String}
    (run : MainRun cv descriptorMatch fs build args) (sameFile : String → String → Prop) :
    DiskRun cv descriptorMatch fs sameFile build args :=
  ⟨run.ctx, run.before, run.ctx, .refl sameFile run.ctx, run.outcome, run.diff⟩

/-- Two runs of `main` with `ENABLE_PARALLEL` on the same input write the same images,
except for the image of deleted parts. -/
theorem MainRun.lookup_eq (hcv : cv.Lawful) (hframe : cv.PaintsFrames frame) {n : Nat}
    {oldFirst oldFirst' : Bool} {args : List String}
    (run : MainRun cv descriptorMatch fs (.parallel n oldFirst) args)
    (run' : MainRun cv descriptorMatch fs (.parallel n oldFirst') args) :
    run'.ctx = run.ctx ∧ ∀ path, path ≠ deletePath run.ctx →
      run'.outcome.writes.lookup path = run.outcome.writes.lookup path := by
  obtain ⟨ctx, hbefore, b, schedule, hschedule⟩ := run
  obtain ⟨ctx', hbefore', b', schedule', hschedule'⟩ := run'
  obtain rfl : ctx' = ctx := mainBeforeDiff_oldFirst hbefore hbefore'
  have hd := mainBeforeDiff_detected hcv hbefore
  refine ⟨rfl, fun path hpath => ?_⟩
  obtain ⟨result, deleted, added, hresult, -, hadded, hlookup⟩ :=
    createDiffImageParallel_files hcv hframe hd hschedule
  obtain ⟨result', deleted', added', hresult', -, hadded', hlookup'⟩ :=
    createDiffImageParallel_files hcv hframe hd hschedule'
  obtain rfl : result = result' := Mat.PaintedBy.unique hresult hresult'
  obtain rfl : added = added' := Mat.PaintedBy.unique hadded hadded'
  show b'.writes.lookup path = b.writes.lookup path
  rw [hlookup, hlookup', outputFiles, outputFiles, if_neg (show path ≠ deletePath ctx' from hpath),
    if_neg (show path ≠ deletePath ctx' from hpath)]
  cases ctx'.arg.createChangeImage with
  | true => rfl
  | false => rfl

/-- The files of a run of `main` with `ENABLE_PARALLEL` that keeps its inputs.  The diff
image shows what the matched new segments draw, and the image of added parts outlines the
new segments that match no old one.  Another run on the same input, whatever its schedule,
writes the same images, except for the image of deleted parts. -/
theorem parallel_outputs (hcv : cv.Lawful) (hframe : cv.PaintsFrames frame) {n : Nat}
    {oldFirst : Bool} {args : List String}
    (run : DiskRun cv descriptorMatch fs sameFile (.parallel n oldFirst) args)
    (hkeep : KeepsInputs sameFile run.ctx) :
    (∃ result deleted added,
      DiffImage cv (descriptorMatch run.ctx.arg.crossCheck) run.ctx result ∧
      DeleteImage run.ctx frame run.outcome.oldSegments deleted ∧
      AddImage (descriptorMatch run.ctx.arg.crossCheck) run.ctx frame added ∧
      ∀ path, run.outcome.writes.lookup path = outputFiles run.ctx result
        (if run.ctx.arg.createChangeImage then some (deleted, added) else none) path) ∧
    ∀ (oldFirst' : Bool)
      (run' : DiskRun cv descriptorMatch fs sameFile (.parallel n oldFirst') args),
      run'.ctx = run.ctx ∧ ∀ path, path ≠ deletePath run.ctx →
        run'.outcome.writes.lookup path = run.outcome.writes.lookup path := by
  constructor
  · obtain ⟨schedule, hschedule⟩ := (run.mainRun hkeep).diff
    exact createDiffImageParallel_files hcv hframe (mainBeforeDiff_detected hcv run.before)
      hschedule
  · intro oldFirst' run'
    have hctx : run'.ctx = run.ctx := mainBeforeDiff_oldFirst run.before run'.before
    have hkeep' : KeepsInputs sameFile run'.ctx := by
      rw [hctx]
      exact hkeep
    exact (run.mainRun hkeep).lookup_eq hcv hframe (run'.mainRun hkeep')

/-! ## Without `ENABLE_PARALLEL` -/

/-- If every pair matches, a new segment has a partner as soon as there is an old one. -/
theorem AllMatch.exists_compat {dm : List ρ → List ρ → Bool} {ctx : Context ρ}
    (hall : AllMatch dm ctx) (hne : ctx.oldSegments ≠ []) (j : Fin ctx.newSegments.length) :
    ∃ i, Compat dm i j := by
  have hpos : 0 < ctx.oldSegments.length := List.length_pos_iff.mpr hne
  obtain ⟨hi, hpairs⟩ := hall _ (List.get_mem ctx.oldSegments ⟨0, hpos⟩)
  obtain ⟨hj, hij⟩ := hpairs _ (List.get_mem ctx.newSegments j)
  exact ⟨⟨0, hpos⟩, hi, hj, hij⟩

/-- Then all new segments are drawn. -/
theorem AllMatch.draws_iff {dm : List ρ → List ρ → Bool} {ctx : Context ρ}
    (hall : AllMatch dm ctx) (p : Point) :
    (∃ i j, Compat dm i j ∧ Draws cv ctx (ctx.newSegment j) p) ↔
      ctx.oldSegments ≠ [] ∧ ∃ seg ∈ ctx.newSegments, Draws cv ctx seg p := by
  constructor
  · rintro ⟨i, j, -, hp⟩
    exact ⟨List.ne_nil_of_mem (List.get_mem _ i), _, List.get_mem _ j, hp⟩
  · rintro ⟨hne, seg, hseg, hp⟩
    obtain ⟨j, rfl⟩ := List.get_of_mem hseg
    obtain ⟨i, hij⟩ := hall.exists_compat hne j
    exact ⟨i, j, hij, hp⟩

/-- The diff image of the loops is the one of the other build. -/
theorem diffImage_of_serialOuter (hcv : cv.Lawful) {dm : List ρ → List ρ → Bool}
    {ctx : Context ρ} {result : Mat Vec3b}
    (h : serialOuter cv dm ctx (baseImage cv ctx) ctx.oldSegments = some (.next result)) :
    DiffImage cv dm ctx result :=
  (serialOuter_painted hcv h).congr fun p => (AllMatch.draws_iff (serialOuter_next h) p).symm

/-- The files of a run of `main` without `ENABLE_PARALLEL` that keeps its inputs.  If it
writes any, every old segment matches every new one, and still the images of deleted and
added parts outline all of them. -/
theorem serial_outputs (hcv : cv.Lawful) (hframe : cv.PaintsFrames frame) {args : List String}
    (run : DiskRun cv descriptorMatch fs sameFile .serial args)
    (hkeep : KeepsInputs sameFile run.ctx) (hwrites : run.outcome.writes ≠ []) :
    AllMatch (descriptorMatch run.ctx.arg.crossCheck) run.ctx ∧
    ∃ result deleted added,
      DiffImage cv (descriptorMatch run.ctx.arg.crossCheck) run.ctx result ∧
      Mat.PaintedBy (fun p => ∃ seg ∈ run.ctx.oldSegments, frame seg.area p) green
        run.ctx.oldColorMat deleted ∧
      Mat.PaintedBy (fun p => ∃ seg ∈ run.ctx.newSegments, frame seg.area p) green
        run.ctx.newColorMat added ∧
      ∀ path, run.outcome.writes.lookup path = outputFiles run.ctx result
        (if run.ctx.arg.createChangeImage then some (deleted, added) else none) path := by
  have hd := mainBeforeDiff_detected hcv run.before
  obtain ⟨result, hnext, hfiles⟩ :=
    createDiffImageSerial_files hd (run.mainRun hkeep).diff hwrites
  exact ⟨serialOuter_next hnext, result, _, _, diffImage_of_serialOuter hcv hnext,
    drawNotMatchedSerial_painted hframe hd.fresh.1 _,
    drawNotMatchedSerial_painted hframe hd.fresh.2 _, hfiles⟩

/-- The diff image of a schedule, whatever the files are by the end. -/
theorem diffImage_of_schedule (hcv : cv.Lawful) {ctx : Context ρ} (hfresh : ctx.Fresh)
    {schedule : Schedule cv descriptorMatch ctx} {b : DiffOutcome ρ}
    (hb : createDiffImageParallel cv descriptorMatch schedule = some b) :
    ∃ result, DiffImage cv (descriptorMatch ctx.arg.crossCheck) ctx result ∧
      b.writes.lookup (diffPath ctx) = some result := by
  obtain ⟨result, hresult, hlookup⟩ := finishParallel_diff hb
  exact ⟨result, diffImage_of_complete (flagInv_of_run hfresh schedule.run)
    (drawInv_of_run hcv hfresh schedule.run) schedule.complete hresult, hlookup⟩

/-- Where the build without `ENABLE_PARALLEL` writes its files, its diff image is that of
the other build under every schedule.  If the inputs are kept, the image of added parts is
not: in the other build it is the new image itself, since every new segment is matched as
soon as there is an old one. -/
theorem diff_image_agrees (hcv : cv.Lawful) (hframe : cv.PaintsFrames frame)
    {ctx shown shown' : Context ρ} (hd : Detected cv ctx) (hshown : Rereads sameFile ctx shown)
    (hshown' : Rereads sameFile ctx shown') {a b : DiffOutcome ρ}
    (ha : createDiffImageSerial cv (descriptorMatch ctx.arg.crossCheck) shown = some a)
    (hwrites : a.writes ≠ []) {schedule : Schedule cv descriptorMatch shown'}
    (hb : createDiffImageParallel cv descriptorMatch schedule = some b) :
    a.writes.lookup (diffPath ctx) = b.writes.lookup (diffPath ctx) ∧
      (KeepsInputs sameFile ctx → ctx.arg.createChangeImage = true → ctx.oldSegments ≠ [] →
        b.writes.lookup (addPath ctx) = some ctx.newColorMat) := by
  obtain ⟨result, hnext, hlookup⟩ := createDiffImageSerial_diff ha hwrites
  have hall : AllMatch (descriptorMatch ctx.arg.crossCheck) ctx :=
    hshown.allMatch (serialOuter_next hnext)
  constructor
  · obtain ⟨result', hresult', hlookup'⟩ := diffImage_of_schedule hcv (hshown'.fresh hd.fresh) hb
    rw [diffPath, hshown.arg] at hlookup
    rw [diffPath, hshown'.arg] at hlookup'
    rw [hshown'.arg] at hresult'
    have hserial := hshown.diffImage (diffImage_of_serialOuter hcv hnext)
    obtain rfl : result = result' := Mat.PaintedBy.unique hserial (hshown'.diffImage hresult')
    exact hlookup.trans hlookup'.symm
  · intro hkeep hchange hne
    obtain rfl := hshown'.eq hkeep
    obtain ⟨_, deleted, added, -, -, hadded, hfiles⟩ :=
      createDiffImageParallel_files hcv hframe hd hb
    have hbare : Mat.PaintedBy (fun _ => False) green shown'.newColorMat added := by
      refine hadded.congr fun p => ⟨?_, False.elim⟩
      rintro ⟨j, hnot, -⟩
      obtain ⟨i, hij⟩ := hall.exists_compat hne j
      exact hnot i hij
    rw [hfiles, hchange, outputFiles, if_neg (diffPath_ne_addPath shown').symm,
      if_neg (deletePath_ne_addPath shown').symm, if_pos rfl,
      hbare.unique (Mat.PaintedBy.refl green shown'.newColorMat)]
    rfl

end

/-! ## Sample runs -/

theorem keyCV_paintsFrames : keyCV.PaintsFrames Rect.OnBorder := sampleCV_paintsFrames

theorem PairContext.changes {ctx : Context Int} (h : PairContext ctx) :
    ctx.arg.createChangeImage = true := by
  rw [h.arg]
  rfl

theorem keepsInputs_change {ctx : Context Int} (h : ctx.arg = changeArg) : KeepsInputs Eq ctx := by
  rw [KeepsInputs, outputPaths, diffPath, deletePath, addPath, h]
  decide

theorem PairContext.keepsInputs {ctx : Context Int} (h : PairContext ctx) : KeepsInputs Eq ctx :=
  keepsInputs_change h.arg

/-- A pair of segments that match, and the three images. -/
theorem parallel_outputs_pair :
    ∃ run : DiskRun keyCV lineMatch pairFiles Eq (.parallel 16 false) changeArgs,
      KeepsInputs Eq run.ctx ∧ run.ctx.oldSegments.length = 1 ∧
      (∃ result deleted added, ∀ path, run.outcome.writes.lookup path =
        outputFiles run.ctx result (some (deleted, added)) path) ∧
      ∀ run' : DiskRun keyCV lineMatch pairFiles Eq (.parallel 16 true) changeArgs,
        run'.outcome.writes.lookup (addPath run.ctx) =
          run.outcome.writes.lookup (addPath run.ctx) := by
  obtain ⟨ctx, hbefore, hpair⟩ := exists_pairContext
  -- with 16 threads the arguments are parsed as in the other build
  have hbefore' : mainBeforeDiff keyCV pairFiles (.parallel 16 false) changeArgs = .ok ctx :=
    hbefore
  obtain ⟨run, rfl⟩ : ∃ run : DiskRun keyCV lineMatch pairFiles Eq (.parallel 16 false)
      changeArgs, run.ctx = ctx := by
    obtain ⟨run, hrun⟩ := exists_mainRun keyCV_lawful hbefore' hpair.fitsOld
    exact ⟨run.diskRun Eq, hrun⟩
  obtain ⟨⟨result, deleted, added, -, -, -, hfiles⟩, hsame⟩ :=
    parallel_outputs keyCV_lawful keyCV_paintsFrames run hpair.keepsInputs
  rw [hpair.changes, if_pos rfl] at hfiles
  exact ⟨run, hpair.keepsInputs, hpair.oldSegments, ⟨result, deleted, added, hfiles⟩,
    fun run' => (hsame true run').2 _ (deletePath_ne_addPath run.ctx).symm⟩

/-- The same without `ENABLE_PARALLEL`. -/
theorem serial_outputs_pair :
    ∃ run : DiskRun keyCV lineMatch pairFiles Eq .serial changeArgs,
      KeepsInputs Eq run.ctx ∧ run.outcome.writes ≠ [] ∧ run.ctx.oldSegments.length = 1 ∧
      AllMatch (lineMatch run.ctx.arg.crossCheck) run.ctx ∧
      ∃ result deleted added, ∀ path, run.outcome.writes.lookup path =
        outputFiles run.ctx result (some (deleted, added)) path := by
  obtain ⟨ctx, hbefore, hpair⟩ := exists_pairContext
  obtain ⟨run, rfl, hwrites⟩ : ∃ run : DiskRun keyCV lineMatch pairFiles Eq .serial changeArgs,
      run.ctx = ctx ∧ run.outcome.writes ≠ [] := by
    obtain ⟨run, rfl⟩ : ∃ run : MainRun keyCV lineMatch pairFiles .serial changeArgs,
        run.ctx = ctx := exists_mainRun keyCV_lawful hbefore hpair.fitsOld
    refine ⟨run.diskRun Eq, rfl, fun hnil => ?_⟩
    have honce :=
      (writesOnce_serial_iff (mainBeforeDiff_fresh run.before) run.diff).mpr hpair.allMatch
    rw [show run.outcome.writes = [] from hnil] at honce
    exact not_writesOnce_nil _ honce
  obtain ⟨hall, result, deleted, added, -, -, -, hfiles⟩ :=
    serial_outputs keyCV_lawful keyCV_paintsFrames run hpair.keepsInputs hwrites
  rw [hpair.changes, if_pos rfl] at hfiles
  exact ⟨run, hpair.keepsInputs, hwrites, hpair.oldSegments, hall, result, deleted, added, hfiles⟩

/-- One old and one new segment that match, with the images of changes asked for. -/
def changeContext : Context Nat :=
  { sampleContext [[1]] [[1]] with
    arg := { (sampleContext [[1]] [[1]]).arg with createChangeImage := true } }

theorem changeContext_detected : Detected sampleCV changeContext :=
  let hd := sampleContext_detected [[1]] [[1]]
  ⟨hd.fresh, hd.oldDecoded, hd.newDecoded, hd.oldGray, hd.newGray, hd.area_inside, hd.roi_size,
    hd.roi_empty⟩

theorem diff_image_agrees_change :
    ∃ a b, createDiffImageSerial sampleCV (fun d e => d == e) changeContext = some a ∧
      a.writes ≠ [] ∧ KeepsInputs Eq changeContext ∧
      (∃ schedule : Schedule sampleCV (fun _ d e => d == e) changeContext,
        createDiffImageParallel sampleCV (fun _ d e => d == e) schedule = some b) ∧
      a.writes.lookup (diffPath changeContext) = b.writes.lookup (diffPath changeContext) ∧
      b.writes.lookup (addPath changeContext) = some changeContext.newColorMat := by
  have hd := changeContext_detected
  have hfit : FitsOld changeContext := sampleContext_fitsOld [[1]] [[1]]
  have hkeep : KeepsInputs Eq changeContext := by
    unfold KeepsInputs
    decide
  obtain ⟨a, ha, hwrites⟩ : ∃ a, createDiffImageSerial sampleCV (fun d e => d == e)
      changeContext = some a ∧ a.writes ≠ [] := ⟨_, rfl, List.cons_ne_nil _ _⟩
  obtain ⟨schedule⟩ := exists_schedule sampleCV (fun _ d e => d == e) hd.fresh
  obtain ⟨b, hb⟩ := Option.isSome_iff_exists.mp
    ((createDiffImage_returns (fun _ d e => d == e) sampleCV_lawful hd hfit).2 schedule)
  obtain ⟨hdiff, hadd⟩ := diff_image_agrees sampleCV_lawful sampleCV_paintsFrames hd
    (.refl Eq changeContext) (.refl Eq changeContext) ha hwrites hb
  exact ⟨a, b, ha, hwrites, hkeep, ⟨schedule, hb⟩, hdiff,
    hadd hkeep rfl (List.cons_ne_nil _ _)⟩

end Gazosan
