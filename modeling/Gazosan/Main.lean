import Gazosan.Cmdline.Grammar
import Gazosan.Diff.Builds
import Gazosan.Diff.DescriptorMatch
import Gazosan.Image.Histogram
import Gazosan.Image.Labels

/-!
# `main`

`main` parses its arguments, loads the images, stops if their histograms agree,
finds the segments and calls `create_diff_image`.  Timers have no effect on any
of it.

`mainBeforeDiff_ok_iff` says that `create_diff_image` is called whenever the images
can be loaded and differ.  `mainBeforeDiff_detected` says that what it is called with
is a context as the results about it assume, and `createDiffImage_returns` that the
call returns if the new segments fit inside the old image.  Whether a run that
returns 0 has written its files is then a matter of the build
(`main_writes_once_iff`).
-/

namespace Gazosan

/-- The two builds.  With `ENABLE_PARALLEL` the library provides the number of
threads it allows, and its scheduler the order in which the images are loaded. -/
inductive Build where
  | serial
  | parallel (maxAllowedParallelism : Nat) (oldFirst : Bool)

/-- The number behind the default of `-thread_count`. -/
def Build.threads : Build → Nat
  | .serial => 16
  | .parallel maxAllowedParallelism _ => maxAllowedParallelism

/-- Whether the old image is loaded first. -/
def Build.oldFirst : Build → Bool
  | .serial => false
  | .parallel _ oldFirst => oldFirst

section

variable {ρ : Type} (cv : OpenCV ρ) (descriptorMatch : Bool → List ρ → List ρ → Bool)
  (fs : FileSystem) (build : Build)

/-- `main` behind the histogram check. -/
def stopIfSame (arg : Arg) : Except String Bool → Except Stop Unit
  | .error err => .error (.fatal (fatalLine arg err))
  | .ok true => .error (.fatal (fatalLine arg "two images are same"))
  | .ok false => .ok ()

/-- The context of `main` behind `parse_args`. -/
def emptyContext (arg : Arg) : Context ρ where
  arg := arg
  newColorMat := Mat.none
  oldColorMat := Mat.none
  newGrayMat := Mat.none
  oldGrayMat := Mat.none

/-- `main` up to the call of `create_diff_image`. -/
def mainBeforeDiff (args : List String) : Except Stop (Context ρ) := do
  let arg ← parseArgs build.threads args
  let ctx ← loadImage cv fs build.oldFirst (emptyContext arg)
  stopIfSame ctx.arg (checkHistogramDifferential cv ctx)
  detectSegments cv ctx

/-- An execution of the parallel loops and tasks of `create_diff_image`. -/
structure Schedule (ctx : Context ρ) where
  acts : List ctx.Step
  final : ctx.State
  run : Transition.run (matchStep cv (descriptorMatch ctx.arg.crossCheck)) (initState cv ctx)
    acts = some final
  complete : final.Complete
  oldOrder : List (Fin ctx.oldSegments.length)
  oldPerm : oldOrder.Perm (List.finRange _)
  newOrder : List (Fin ctx.newSegments.length)
  newPerm : newOrder.Perm (List.finRange _)
  addFirst : Bool

/-- `create_diff_image` with `ENABLE_PARALLEL`. -/
def createDiffImageParallel {ctx : Context ρ} (schedule : Schedule cv descriptorMatch ctx) :
    Option (DiffOutcome ρ) :=
  finishParallel cv schedule.final schedule.oldOrder schedule.newOrder schedule.addFirst

/-- `create_diff_image` returns with an outcome. -/
def CreatesDiffImage (ctx : Context ρ) (outcome : DiffOutcome ρ) : Prop :=
  match build with
  | .serial =>
      createDiffImageSerial cv (descriptorMatch ctx.arg.crossCheck) ctx = some outcome
  | .parallel _ _ =>
      ∃ schedule : Schedule cv descriptorMatch ctx,
        createDiffImageParallel cv descriptorMatch schedule = some outcome

/-- A run of `main` that returns 0. -/
structure MainRun (args : List String) where
  ctx : Context ρ
  before : mainBeforeDiff cv fs build args = .ok ctx
  outcome : DiffOutcome ρ
  diff : CreatesDiffImage cv descriptorMatch build ctx outcome

/-! ## Up to `create_diff_image` -/

variable {cv descriptorMatch fs build}

theorem parseArgs_files {m : Nat} {args : List String} {arg : Arg}
    (h : parseArgs m args = .ok arg) : arg.newFile ≠ "" ∧ arg.oldFile ≠ "" := by
  obtain ⟨raw, -, h⟩ := bind_eq_ok.mp h
  rw [finishArgs_eq] at h
  split at h
  · cases h
  · rename_i hnew
    split at h
    · cases h
    · rename_i hold
      cases h
      exact ⟨hnew, hold⟩

/-- Each stage of `main` has ended, and the images are not the same. -/
theorem mainBeforeDiff_stages {args : List String} {ctx : Context ρ}
    (h : mainBeforeDiff cv fs build args = .ok ctx) :
    ∃ arg loaded, parseArgs build.threads args = .ok arg ∧
      loadImage cv fs build.oldFirst (emptyContext arg) = .ok loaded ∧
      checkHistogramDifferential cv loaded = .ok false ∧
      detectSegments cv loaded = .ok ctx := by
  obtain ⟨arg, harg, h⟩ := bind_eq_ok.mp h
  obtain ⟨loaded, hload, h⟩ := bind_eq_ok.mp h
  obtain ⟨_, hstop, hdetect⟩ := bind_eq_ok.mp h
  refine ⟨arg, loaded, harg, hload, ?_, hdetect⟩
  cases hcheck : checkHistogramDifferential cv loaded with
  | error err =>
      rw [hcheck] at hstop
      cases hstop
  | ok same =>
      cases same with
      | true =>
          rw [hcheck] at hstop
          cases hstop
      | false => rfl

theorem mainBeforeDiff_of_stages {args : List String} {arg : Arg} {loaded ctx : Context ρ}
    (harg : parseArgs build.threads args = .ok arg)
    (hload : loadImage cv fs build.oldFirst (emptyContext arg) = .ok loaded)
    (hcheck : checkHistogramDifferential cv loaded = .ok false)
    (hdetect : detectSegments cv loaded = .ok ctx) :
    mainBeforeDiff cv fs build args = .ok ctx := by
  simp only [mainBeforeDiff, harg, bind, Except.bind, hload, hcheck, stopIfSame, hdetect]

theorem mainBeforeDiff_segments {args : List String} {ctx : Context ρ}
    (h : mainBeforeDiff cv fs build args = .ok ctx) :
    (∀ seg ∈ ctx.oldSegments, FreshSegment ctx.oldGrayMat seg) ∧
      ∀ seg ∈ ctx.newSegments, FreshSegment ctx.newGrayMat seg := by
  obtain ⟨arg, loaded, harg, hload, -, hdetect⟩ := mainBeforeDiff_stages h
  obtain ⟨hnew, hold⟩ := parseArgs_files harg
  obtain ⟨new, old, -, -, rfl⟩ := loadImage_spec hnew hold hload
  obtain ⟨oldSegs, newSegs, rfl, hsegs⟩ := detectSegments_spec hdetect
  exact hsegs

theorem mainBeforeDiff_fresh {args : List String} {ctx : Context ρ}
    (h : mainBeforeDiff cv fs build args = .ok ctx) : ctx.Fresh := by
  obtain ⟨hold, hnew⟩ := mainBeforeDiff_segments h
  exact ⟨fun seg hseg => (hold seg hseg).unmatched, fun seg hseg => (hnew seg hseg).unmatched⟩

/-- What `create_diff_image` is called with. -/
theorem mainBeforeDiff_detected (hcv : cv.Lawful) {args : List String} {ctx : Context ρ}
    (h : mainBeforeDiff cv fs build args = .ok ctx) : Detected cv ctx := by
  obtain ⟨arg, loaded, harg, hload, -, hdetect⟩ := mainBeforeDiff_stages h
  obtain ⟨hnew, hold⟩ := parseArgs_files harg
  have hloaded := loadImage_loaded hcv hnew hold hload
  have hfresh := mainBeforeDiff_fresh h
  obtain ⟨-, hsegs⟩ := mainBeforeDiff_segments h
  obtain ⟨oldSegs, newSegs, rfl, -⟩ := detectSegments_spec hdetect
  obtain ⟨oldFile, hof, hod⟩ := hloaded.oldDecoded
  obtain ⟨newFile, hnf, hnd⟩ := hloaded.newDecoded
  exact
    { fresh := hfresh
      oldDecoded := by
        rw [decodePointer, hof, Option.bind_some]
        exact hod
      newDecoded := by
        rw [decodePointer, hnf, Option.bind_some]
        exact hnd
      oldGray := hloaded.oldGray
      newGray := hloaded.newGray
      area_inside := fun seg hseg => (hsegs seg hseg).fits
      roi_size := fun seg hseg => (hsegs seg hseg).roi_size
      roi_empty := fun seg hseg => (hsegs seg hseg).roi_empty }

/-! ## Files without an image -/

/-- `main` ends in the diagnostic of the check for empty images. -/
def ReportsUndecodable (cv : OpenCV ρ) (fs : FileSystem) (build : Build)
    (args : List String) (arg : Arg) : Prop :=
  mainBeforeDiff cv fs build args =
    .error (.fatal (fatalLine arg "failed to decode image file"))

/-- A readable file without an image is never reported: `load_image` converts the
empty image first, and the exception of OpenCV ends the process. -/
theorem undecodable_never_reported (hcv : cv.RaisesOnEmpty) {args : List String} {arg : Arg}
    (harg : parseArgs build.threads args = .ok arg) {newData oldData : List UInt8}
    (hnew : fs arg.newFile = .ok newData) (hold : fs arg.oldFile = .ok oldData)
    (h : Undecodable cv ⟨arg.newFile, newData⟩ ∨ Undecodable cv ⟨arg.oldFile, oldData⟩) :
    mainBeforeDiff cv fs build args = .error (.exception .opencv) ∧
      ¬ ReportsUndecodable cv fs build args arg := by
  obtain ⟨hnewFile, holdFile⟩ := parseArgs_files harg
  have hload : loadImage cv fs build.oldFirst (emptyContext arg) = .error (.exception .opencv) :=
    loadImage_undecodable hcv hnewFile holdFile hnew hold h
  have hmain : mainBeforeDiff cv fs build args = .error (.exception .opencv) :=
    bind_eq_error.mpr (Or.inr ⟨arg, harg, bind_eq_error.mpr (Or.inl hload)⟩)
  refine ⟨hmain, ?_⟩
  rw [ReportsUndecodable, hmain]
  intro heq
  cases heq

/-! ## `create_diff_image` returns -/

/-- Both builds return, in the parallel one under every schedule. -/
theorem createDiffImage_returns (descriptorMatch : Bool → List ρ → List ρ → Bool)
    (hcv : cv.Lawful) {ctx : Context ρ} (hd : Detected cv ctx) (hfit : FitsOld ctx) :
    (createDiffImageSerial cv (descriptorMatch ctx.arg.crossCheck) ctx).isSome ∧
      ∀ schedule : Schedule cv descriptorMatch ctx,
        (createDiffImageParallel cv descriptorMatch schedule).isSome := by
  refine ⟨createDiffImageSerial_isSome _ hcv hd hfit, fun schedule => ?_⟩
  obtain ⟨img, himg⟩ := hd.result_of_complete hcv hfit (flagInv_of_run hd.fresh schedule.run)
    (drawInv_of_run hcv hd.fresh schedule.run) schedule.complete
  exact hd.finishParallel_isSome himg _ _ _

theorem exists_schedule (cv : OpenCV ρ) (descriptorMatch : Bool → List ρ → List ρ → Bool)
    {ctx : Context ρ} (hfresh : ctx.Fresh) : Nonempty (Schedule cv descriptorMatch ctx) := by
  obtain ⟨acts, hacts⟩ := inOrderState_run cv (descriptorMatch ctx.arg.crossCheck) ctx
  exact ⟨{
    acts := acts
    final := _
    run := hacts
    complete := inOrderState_complete hfresh
    oldOrder := List.finRange _
    oldPerm := List.Perm.refl _
    newOrder := List.finRange _
    newPerm := List.Perm.refl _
    addFirst := false }⟩

/-- Behind the histogram check, `main` returns 0. -/
theorem exists_mainRun (hcv : cv.Lawful) {args : List String} {ctx : Context ρ}
    (h : mainBeforeDiff cv fs build args = .ok ctx) (hfit : FitsOld ctx) :
    ∃ run : MainRun cv descriptorMatch fs build args, run.ctx = ctx := by
  have hd := mainBeforeDiff_detected hcv h
  obtain ⟨hserial, hparallel⟩ := createDiffImage_returns descriptorMatch hcv hd hfit
  cases build with
  | serial =>
      obtain ⟨outcome, houtcome⟩ := Option.isSome_iff_exists.mp hserial
      exact ⟨⟨ctx, h, outcome, houtcome⟩, rfl⟩
  | parallel maxAllowedParallelism oldFirst =>
      obtain ⟨schedule⟩ := exists_schedule cv descriptorMatch hd.fresh
      obtain ⟨outcome, houtcome⟩ := Option.isSome_iff_exists.mp (hparallel schedule)
      exact ⟨⟨ctx, h, outcome, schedule, houtcome⟩, rfl⟩

/-! ## The files of a run -/

/-- The diff image is written once, and so are the images of deleted and added
parts if they were asked for. -/
def WritesOnce (ctx : Context ρ) (writes : List (String × Mat Vec3b)) : Prop :=
  (writes.map Prod.fst).count (diffPath ctx) = 1 ∧
    (ctx.arg.createChangeImage = true →
      (writes.map Prod.fst).count (deletePath ctx) = 1 ∧
        (writes.map Prod.fst).count (addPath ctx) = 1)

/-- The paths a run is to write, in the order of the program text. -/
def outputPaths (ctx : Context ρ) : List String :=
  diffPath ctx :: if ctx.arg.createChangeImage then [deletePath ctx, addPath ctx] else []

theorem diffPath_ne_deletePath (ctx : Context ρ) : diffPath ctx ≠ deletePath ctx :=
  fun h => absurd ((String.append_right_inj _).mp h) (by decide)

theorem diffPath_ne_addPath (ctx : Context ρ) : diffPath ctx ≠ addPath ctx :=
  fun h => absurd ((String.append_right_inj _).mp h) (by decide)

theorem deletePath_ne_addPath (ctx : Context ρ) : deletePath ctx ≠ addPath ctx :=
  fun h => absurd ((String.append_right_inj _).mp h) (by decide)

theorem outputPaths_nodup (ctx : Context ρ) : (outputPaths ctx).Nodup := by
  rw [outputPaths]
  split
  · simp [diffPath_ne_deletePath, diffPath_ne_addPath, deletePath_ne_addPath]
  · simp

theorem writesOnce_of_perm {ctx : Context ρ} {writes : List (String × Mat Vec3b)}
    (h : (writes.map Prod.fst).Perm (outputPaths ctx)) : WritesOnce ctx writes := by
  have hcount : ∀ path ∈ outputPaths ctx, (writes.map Prod.fst).count path = 1 := by
    intro path hpath
    rw [h.count_eq]
    exact List.count_eq_one_of_mem (outputPaths_nodup ctx) hpath
  refine ⟨hcount _ List.mem_cons_self, fun hc => ?_⟩
  have hpaths : outputPaths ctx = [diffPath ctx, deletePath ctx, addPath ctx] := by
    rw [outputPaths, if_pos hc]
  exact ⟨hcount _ (by simp [hpaths]), hcount _ (by simp [hpaths])⟩

theorem not_writesOnce_nil (ctx : Context ρ) : ¬ WritesOnce ctx [] := by
  intro h
  cases h.1

theorem writesOnce_serial_iff {dm : List ρ → List ρ → Bool} {ctx : Context ρ}
    {outcome : DiffOutcome ρ} (hfresh : ctx.Fresh)
    (h : createDiffImageSerial cv dm ctx = some outcome) :
    WritesOnce ctx outcome.writes ↔ AllMatch dm ctx := by
  obtain ⟨-, -, ⟨hret, hwrites⟩ | ⟨⟨result, hnext⟩, hwrites⟩⟩ := createDiffImageSerial_cases h
  · have hnot : ¬ AllMatch dm ctx := serialOuter_ret hfresh.1 hfresh.2 hret
    rw [hwrites]
    exact ⟨fun hw => absurd hw (not_writesOnce_nil ctx), fun hall => absurd hall hnot⟩
  · have hall : AllMatch dm ctx := serialOuter_next hnext
    refine ⟨fun _ => hall, fun _ => writesOnce_of_perm ?_⟩
    rw [hwrites]
    exact List.Perm.refl _

theorem writesOnce_parallel {ctx : Context ρ} {outcome : DiffOutcome ρ}
    {schedule : Schedule cv descriptorMatch ctx}
    (h : createDiffImageParallel cv descriptorMatch schedule = some outcome) :
    WritesOnce ctx outcome.writes := by
  obtain ⟨-, -, hwrites⟩ := finishParallel_cases h
  refine writesOnce_of_perm ?_
  rw [hwrites, outputPaths]
  refine List.Perm.cons _ ?_
  split
  · split
    · exact List.Perm.swap ..
    · exact List.Perm.refl _
  · exact List.Perm.refl _

/-- A run of `main` that returns 0 has written its files once each, unless it is
a run of the build without `ENABLE_PARALLEL` in which some pair of segments does
not match or some segment has no descriptor. -/
theorem main_writes_once_iff {args : List String}
    (run : MainRun cv descriptorMatch fs build args) :
    WritesOnce run.ctx run.outcome.writes ↔
      build ≠ .serial ∨ AllMatch (descriptorMatch run.ctx.arg.crossCheck) run.ctx := by
  have hdiff := run.diff
  cases build with
  | serial =>
      rw [writesOnce_serial_iff (mainBeforeDiff_fresh run.before) hdiff]
      simp
  | parallel maxAllowedParallelism oldFirst =>
      obtain ⟨schedule, hschedule⟩ := hdiff
      exact ⟨fun _ => Or.inl (by simp), fun _ => writesOnce_parallel hschedule⟩

end

/-! ## Sample runs -/

/-- The file of an image of two colours side by side, each `width` pixels wide. -/
def twoColorsFile (width height : Nat) (left right : Vec3b) : List UInt8 :=
  let pixels (c : Vec3b) : List UInt8 := (List.replicate width [c.r, c.g, c.b]).flatten
  [80, 54, 10, UInt8.ofNat (48 + 2 * width), 32, UInt8.ofNat (48 + height), 10, 50, 53, 53, 10] ++
    (List.replicate height (pixels left ++ pixels right)).flatten

/-- Four rows of two black and two white pixels. -/
def halvesFile : List UInt8 := twoColorsFile 2 4 (.gray 0) (.gray 255)

/-- `CV_RGB(255, 255, 0)`. -/
def yellow : Vec3b := ⟨0, 255, 255⟩

/-- Half as bright as `yellow`. -/
def darkYellow : Vec3b := ⟨0, 128, 128⟩

/-- A file system with two files. -/
def sampleFiles (old new : List UInt8) (path : String) : Except OpenFailure (List UInt8) :=
  if path = "old.ppm" then .ok old
  else if path = "new.ppm" then .ok new
  else .error (.cannotOpen "")

def sampleArgs : List String := ["gazosan", "-new", "new.ppm", "-old", "old.ppm"]

/-- What the arguments are parsed to. -/
def sampleArg : Arg where
  newFile := "new.ppm"
  oldFile := "old.ppm"
  outputName := "image_difference"
  threadCount := 16

theorem parseArgs_sample : parseArgs Build.serial.threads sampleArgs = .ok sampleArg := by
  have cut : Cut sampleArgs.tail [.valued .new "new.ppm", .valued .old "old.ppm"] .done :=
    .valued (by decide) (fun h => by cases h) (.valued (by decide) (fun h => by cases h) .done)
  rw [parseArgs_of_cut cut]
  rfl

/-- Images that occupy one bin each, and not the same one, are different. -/
theorem check_of_inBin {ρ : Type} {cv : OpenCV ρ} {loaded : Context ρ} {bin bin' : Bin}
    (hold : InBin cv loaded.oldColorMat bin) (hnew : InBin cv loaded.newColorMat bin')
    (hne : bin ≠ bin') (holdE : loaded.oldColorMat.empty = false)
    (hnewE : loaded.newColorMat.empty = false) :
    checkHistogramDifferential cv loaded = .ok false := by
  rw [checkHistogramDifferential_eq _ holdE hnewE, preprocessImage_inBin hold holdE,
    preprocessImage_inBin hnew hnewE, Histogram.chiSquare_single_of_ne hne]
  rw [decide_eq_false (by norm_num [tolerance])]

/-- The black and white image has one segment, without a descriptor, and the red
pixel has none. -/
theorem halves_before :
    ∃ ctx, mainBeforeDiff sampleCV (sampleFiles halvesFile (pixelFile red)) .serial sampleArgs =
        .ok ctx ∧
      ctx.oldSegments.map ImageSegment.descriptor = [[]] ∧ ctx.newSegments.length = 0 := by
  obtain ⟨loaded, hload, hold, hnew, holdE, hnewE, ctx, hdetect, hsegs⟩ :
      ∃ loaded, loadImage sampleCV (sampleFiles halvesFile (pixelFile red)) false
          (emptyContext sampleArg) = .ok loaded ∧
        InBin sampleCV loaded.oldColorMat (0, 0) ∧ InBin sampleCV loaded.newColorMat (0, 255) ∧
        loaded.oldColorMat.empty = false ∧ loaded.newColorMat.empty = false ∧
        ∃ ctx, detectSegments sampleCV loaded = .ok ctx ∧
          ctx.oldSegments.map ImageSegment.descriptor = [[]] ∧ ctx.newSegments.length = 0 := by
    refine ⟨_, rfl, ?_, ?_, by decide, by decide, _, rfl, by decide, by decide⟩
    · unfold InBin
      decide
    · unfold InBin
      decide
  exact ⟨ctx, mainBeforeDiff_of_stages parseArgs_sample hload
    (check_of_inBin hold hnew (by decide) holdE hnewE) hdetect, hsegs⟩

theorem halves_not_written :
    ∃ run : MainRun sampleCV (fun _ d e => d == e) (sampleFiles halvesFile (pixelFile red))
        .serial sampleArgs,
      FitsOld run.ctx ∧ run.outcome.writes = [] ∧ ¬ WritesOnce run.ctx run.outcome.writes := by
  obtain ⟨ctx, hbefore, hold, hnew⟩ := halves_before
  have hnil : ctx.newSegments = [] := List.length_eq_zero_iff.mp hnew
  obtain ⟨seg, rest, hsegs, hdesc, -⟩ := List.map_eq_cons_iff.mp hold
  have hret : serialOuter sampleCV (fun d e => d == e) ctx (baseImage sampleCV ctx)
      ctx.oldSegments = some .ret := by
    rw [hsegs, serialOuter, hdesc]
    rfl
  refine ⟨⟨ctx, hbefore, ⟨[], ctx.oldSegments, ctx.newSegments⟩, ?_⟩, ?_, rfl,
    not_writesOnce_nil ctx⟩
  · rw [CreatesDiffImage, createDiffImageSerial, hret]
    rfl
  · intro seg hseg
    rw [hnil] at hseg
    cases hseg

/-- The arguments with the images of changes asked for. -/
def changeArgs : List String := sampleArgs ++ ["-create_change_image"]

def changeArg : Arg := { sampleArg with createChangeImage := true }

theorem parseArgs_change : parseArgs Build.serial.threads changeArgs = .ok changeArg := by
  have cut : Cut changeArgs.tail
      [.valued .new "new.ppm", .valued .old "old.ppm", .flag .createChangeImage] .done :=
    .valued (by decide) (fun h => by cases h)
      (.valued (by decide) (fun h => by cases h) (.flag (by decide) .done))
  rw [parseArgs_of_cut cut]
  rfl

/-- A black and white image, and the same in yellow. -/
def pairFiles : FileSystem := sampleFiles halvesFile (twoColorsFile 2 4 darkYellow yellow)

/-- The old image has four rows and columns, each image has one segment, and their
descriptors are the same.  `area` is that of the new one. -/
structure OnePair (arg : Arg) (area : Rect) (ctx : Context Int) : Prop where
  arg : ctx.arg = arg
  oldSize : (ctx.oldGrayMat.rows, ctx.oldGrayMat.cols) = (4, 4)
  old : ctx.oldSegments.map (fun seg => (seg.area, seg.descriptor)) = [(⟨1, 1, 1, 1⟩, [0])]
  new : ctx.newSegments.map (fun seg => (seg.area, seg.descriptor)) = [(area, [0])]

theorem OnePair.segments {arg : Arg} {area : Rect} {ctx : Context Int} (h : OnePair arg area ctx) :
    ∃ seg1 seg2, ctx.oldSegments = [seg1] ∧ ctx.newSegments = [seg2] ∧ seg1.descriptor = [0] ∧
      seg2.descriptor = [0] ∧ seg2.area = area := by
  obtain ⟨seg1, hold, hseg1⟩ := List.map_eq_singleton_iff.mp h.old
  obtain ⟨seg2, hnew, hseg2⟩ := List.map_eq_singleton_iff.mp h.new
  exact ⟨seg1, seg2, hold, hnew, (Prod.mk.inj hseg1).2, (Prod.mk.inj hseg2).2,
    (Prod.mk.inj hseg2).1⟩

theorem pair_before :
    ∃ ctx, mainBeforeDiff keyCV pairFiles .serial changeArgs = .ok ctx ∧
      OnePair changeArg ⟨1, 1, 1, 1⟩ ctx := by
  obtain ⟨loaded, hload, hold, hnew, holdE, hnewE, ctx, hdetect, hpair⟩ :
      ∃ loaded, loadImage keyCV pairFiles false (emptyContext changeArg) = .ok loaded ∧
        InBin keyCV loaded.oldColorMat (0, 0) ∧ InBin keyCV loaded.newColorMat (42, 255) ∧
        loaded.oldColorMat.empty = false ∧ loaded.newColorMat.empty = false ∧
        ∃ ctx, detectSegments keyCV loaded = .ok ctx ∧
          OnePair changeArg ⟨1, 1, 1, 1⟩ ctx := by
    refine ⟨_, rfl, ?_, ?_, by decide, by decide, _, rfl, rfl, rfl, by decide, by decide⟩
    · unfold InBin
      decide
    · unfold InBin
      decide
  exact ⟨ctx, mainBeforeDiff_of_stages parseArgs_change hload
    (check_of_inBin hold hnew (by decide) holdE hnewE) hdetect, hpair⟩

/-- A context with one segment in each image, which match. -/
structure PairContext (ctx : Context Int) : Prop where
  arg : ctx.arg = changeArg
  oldSegments : ctx.oldSegments.length = 1
  newSegments : ctx.newSegments.length = 1
  fitsOld : FitsOld ctx
  allMatch : AllMatch (lineMatch ctx.arg.crossCheck) ctx

theorem exists_pairContext :
    ∃ ctx, mainBeforeDiff keyCV pairFiles .serial changeArgs = .ok ctx ∧ PairContext ctx := by
  obtain ⟨ctx, hbefore, hpair⟩ := pair_before
  obtain ⟨seg1, seg2, hold, hnew, hdesc1, hdesc2, harea⟩ := hpair.segments
  obtain ⟨hrows, hcols⟩ := Prod.mk.inj hpair.oldSize
  refine ⟨ctx, hbefore, hpair.arg, by rw [hold]; rfl, by rw [hnew]; rfl, ?_, ?_⟩
  · rw [FitsOld, hnew, List.forall_mem_singleton, harea, hrows, hcols]
    decide
  · rw [AllMatch, hold, hnew, List.forall_mem_singleton, List.forall_mem_singleton, hdesc1, hdesc2,
      hpair.arg]
    exact ⟨List.cons_ne_nil _ _, List.cons_ne_nil _ _, lineMatch_self⟩

/-- A pair of segments that match, and the three images. -/
theorem pair_written :
    ∃ run : MainRun keyCV lineMatch pairFiles .serial changeArgs,
      run.ctx.oldSegments.length = 1 ∧ run.ctx.newSegments.length = 1 ∧
      run.ctx.arg.createChangeImage = true ∧ WritesOnce run.ctx run.outcome.writes := by
  obtain ⟨ctx, hbefore, hpair⟩ := exists_pairContext
  obtain ⟨run, hrun⟩ := exists_mainRun keyCV_lawful hbefore hpair.fitsOld
  refine ⟨run, ?_, ?_, ?_, (main_writes_once_iff run).mpr (.inr (hrun ▸ hpair.allMatch))⟩
  · rw [hrun, hpair.oldSegments]
  · rw [hrun, hpair.newSegments]
  · rw [hrun, hpair.arg]
    rfl

theorem raisesOnEmpty_sampleCV : sampleCV.RaisesOnEmpty := fun _ hm => if_pos hm

theorem undecodable_empty_file : Undecodable sampleCV ⟨"old.ppm", []⟩ := by
  rw [Undecodable, decodeFromMappedFile_of_lt sampleCV (by decide)]
  rintro color ⟨rfl⟩
  decide

/-- An empty old file beside a readable image. -/
theorem empty_file_raises :
    Undecodable sampleCV ⟨"old.ppm", []⟩ ∧
      mainBeforeDiff sampleCV (sampleFiles [] (pixelFile red)) .serial sampleArgs =
        .error (.exception .opencv) ∧
      ¬ ReportsUndecodable sampleCV (sampleFiles [] (pixelFile red)) .serial sampleArgs
        sampleArg := by
  have hload : loadImage sampleCV (sampleFiles [] (pixelFile red)) false
      (emptyContext sampleArg) = .error (.exception .opencv) := rfl
  have hmain : mainBeforeDiff sampleCV (sampleFiles [] (pixelFile red)) .serial sampleArgs =
      .error (.exception .opencv) :=
    bind_eq_error.mpr (Or.inr ⟨sampleArg, parseArgs_sample, bind_eq_error.mpr (Or.inl hload)⟩)
  refine ⟨undecodable_empty_file, hmain, ?_⟩
  rw [ReportsUndecodable, hmain]
  intro heq
  cases heq

theorem undecodable_never_reported_empty_file :
    mainBeforeDiff sampleCV (sampleFiles [] (pixelFile red)) .serial sampleArgs =
      .error (.exception .opencv) :=
  (undecodable_never_reported raisesOnEmpty_sampleCV parseArgs_sample
    (show sampleFiles [] (pixelFile red) sampleArg.newFile = .ok (pixelFile red) by rfl)
    (show sampleFiles [] (pixelFile red) sampleArg.oldFile = .ok [] by rfl)
    (Or.inr undecodable_empty_file)).1

end Gazosan
