import Gazosan.Main
import Gazosan.Perf.Scopes

/-!
# The timers of the program

Where the program has its timers.  Each definition lists the timers of the function it
is named after, in the build without `ENABLE_PARALLEL`, where everything runs on one
thread.  Which of them a run constructs depends on the images: `split_segments` returns
early if it finds no contour, and `create_diff_image` may return before its first write.

`main_report` is the report of a run of `main` that returns 0.
-/

namespace Gazosan

open Blocks

/-- A timer without a parent, the timers inside its block, and those after it. -/
def timer (name : String) (inner rest : Block Scope) : Block Scope := .block { name } inner rest

/-- A timer with the timer around it as its parent. -/
def linkedTimer (name : String) (inner rest : Block Scope) : Block Scope :=
  .block { name, linked := true } inner rest

section

variable {ρ : Type} (cv : OpenCV ρ) (descriptorMatch : Bool → List ρ → List ρ → Bool)

/-- The contours that `split_segments` finds. -/
def findsContours (gray : Mat UInt8) (threshold : Int) : Bool :=
  !(cv.findContours (cv.morphologyGradient (cv.threshold gray threshold))).1.isEmpty

/-- `split_segments`.  Without a contour it returns before `t_image` is stopped by hand. -/
def splitSegmentsTimers (gray : Mat UInt8) (threshold : Int) (rest : Block Scope) : Block Scope :=
  timer "split segments"
    (if findsContours cv gray threshold then
      .block { name := "image processing", linked := true, early := true } .nil
        (linkedTimer "grouping" .nil .nil)
    else linkedTimer "image processing" .nil .nil) rest

/-- `do_detect`. -/
def doDetectTimers (gray : Mat UInt8) (threshold : Int) (rest : Block Scope) : Block Scope :=
  linkedTimer "do detect"
    (splitSegmentsTimers cv gray threshold (linkedTimer "compute descriptors" .nil .nil)) rest

/-- `detect_segments`. -/
def detectSegmentsTimers (ctx : Context ρ) (rest : Block Scope) : Block Scope :=
  timer "detect segments"
    (doDetectTimers cv ctx.oldGrayMat ctx.arg.binThreshold
      (doDetectTimers cv ctx.newGrayMat ctx.arg.binThreshold .nil)) rest

/-- `check_histogram_differential`, if both images are there. -/
def checkHistogramDifferentialTimers (rest : Block Scope) : Block Scope :=
  timer "check histogram differential"
    (timer "preprocess image" .nil (timer "preprocess image" .nil .nil)) rest

/-- `create_diff_image`. -/
def createDiffImageTimers (ctx : Context ρ) : Block Scope :=
  timer "create diff image"
    (match serialOuter cv (descriptorMatch ctx.arg.crossCheck) ctx (baseImage cv ctx)
        ctx.oldSegments with
    | some (.next _) =>
        timer "write"
          (if ctx.arg.createChangeImage then timer "create added and deleted image" .nil .nil
          else .nil) .nil
    | _ => .nil) .nil

/-- `main`, up to the report. -/
def mainTimers (ctx : Context ρ) : Block Scope :=
  timer "all"
    (timer "parse args" .nil
      (timer "load image" .nil
        (checkHistogramDifferentialTimers
          (detectSegmentsTimers cv ctx (createDiffImageTimers cv descriptorMatch ctx))))) .nil

/-- The end of `main`: the report is printed if it was asked for. -/
def mainReport (s : UnstableSort) (readings : Nat → Reading) (arg : Arg)
    (records : List TimerRecord) : Option (List Row) :=
  if arg.perf then (printTimerRecords s readings records).map fun printed => printed.2.rows
  else some []

/-! ## The report of a run -/

/-- The rows of `do_detect` for one image. -/
def doDetectRows (gray : Mat UInt8) (threshold : Int) : List (String × Nat) :=
  [("do detect", 2), ("split segments", 3), ("image processing", 4)] ++
    (if findsContours cv gray threshold then [("grouping", 4)] else []) ++
    [("compute descriptors", 3)]

/-- The rows of the writes of a run. -/
def writeRows (writes : List (String × Mat Vec3b)) : List (String × Nat) :=
  match writes with
  | [] => []
  | [_] => [("write", 2)]
  | _ => [("write", 2), ("create added and deleted image", 3)]

variable {cv descriptorMatch}

theorem outline_doDetectTimers (gray : Mat UInt8) (threshold : Int) (rest : Block Scope) :
    ((doDetectTimers cv gray threshold rest).outline 2).map (fun e => (e.1.name, e.2)) =
      doDetectRows cv gray threshold ++ (rest.outline 2).map fun e => (e.1.name, e.2) := by
  rw [doDetectTimers, splitSegmentsTimers, doDetectRows]
  split
  · simp [linkedTimer, timer, Block.outline]
  · simp [linkedTimer, timer, Block.outline]

/-- The timers behind the loops show what was written. -/
theorem outline_createDiffImageTimers {ctx : Context ρ} {outcome : DiffOutcome ρ}
    (h : createDiffImageSerial cv (descriptorMatch ctx.arg.crossCheck) ctx = some outcome) :
    ((createDiffImageTimers cv descriptorMatch ctx).outline 1).map (fun e => (e.1.name, e.2)) =
      ("create diff image", 1) :: writeRows outcome.writes := by
  obtain ⟨-, -, ⟨hret, hwrites⟩ | ⟨⟨result, hnext⟩, hwrites⟩⟩ := createDiffImageSerial_cases h
  · rw [createDiffImageTimers, hret, hwrites]
    rfl
  · rw [createDiffImageTimers, hnext]
    have hlength := congrArg List.length hwrites
    rw [List.length_map] at hlength
    cases hc : ctx.arg.createChangeImage with
    | true =>
        rw [hc] at hlength
        obtain ⟨a, b, c, habc⟩ := List.length_eq_three.mp hlength
        rw [habc]
        rfl
    | false =>
        rw [hc] at hlength
        obtain ⟨a, ha⟩ := List.length_eq_one_iff.mp hlength
        rw [ha]
        rfl

/-- The report of a run of `main` that returns 0, in the build without
`ENABLE_PARALLEL`.  There is one row for each timer the run has constructed, in that
order and indented as the blocks of the program are nested.  It shows for each image
whether a contour was found, and whether anything was written. -/
theorem main_report (s : UnstableSort) {fs : FileSystem}
    {args : List String} (run : MainRun cv descriptorMatch fs .serial args) {ops : List TimerOp}
    (hops : ops.map TimerOp.event = events none 0 (mainTimers cv descriptorMatch run.ctx))
    (hclock : Rising ops) (readings : Nat → Reading) :
    ∃ records rows, Transition.run timerStep [] ops = some records ∧
      mainReport s readings run.ctx.arg records = some rows ∧
      rows.map (fun row => (row.name, row.indent)) =
        if run.ctx.arg.perf then
          [("all", 0), ("parse args", 1), ("load image", 1), ("check histogram differential", 1),
            ("preprocess image", 2), ("preprocess image", 2), ("detect segments", 1)] ++
          doDetectRows cv run.ctx.oldGrayMat run.ctx.arg.binThreshold ++
          doDetectRows cv run.ctx.newGrayMat run.ctx.arg.binThreshold ++
          ("create diff image", 1) :: writeRows run.outcome.writes
        else [] := by
  obtain ⟨records, printed, report, hrun, hprint, -, hrows⟩ := exists_rows s hops hclock readings
  cases hperf : run.ctx.arg.perf with
  | false => exact ⟨records, [], hrun, by rw [mainReport, hperf]; rfl, rfl⟩
  | true =>
      refine ⟨records, report.rows, hrun, ?_, ?_⟩
      · rw [mainReport, hperf, if_pos rfl, hprint]
        rfl
      · have hcreate := outline_createDiffImageTimers run.diff
        rw [hrows, if_pos rfl, mainTimers, checkHistogramDifferentialTimers, detectSegmentsTimers]
        simp only [timer, Block.outline, List.map_cons, List.map_append, List.map_nil,
          List.append_nil, List.nil_append, hcreate]
        rw [outline_doDetectTimers, outline_doDetectTimers]
        simp [Block.outline]

end

/-- Two pixels without a contour, with a report. -/
def perfArgs : List String := sampleArgs ++ ["-perf"]

theorem parseArgs_perf :
    parseArgs Build.serial.threads perfArgs = .ok { sampleArg with perf := true } := by
  have cut : Cut perfArgs.tail
      [.valued .new "new.ppm", .valued .old "old.ppm", .flag .perf] .done :=
    .valued (by decide) (fun h => by cases h)
      (.valued (by decide) (fun h => by cases h) (.flag (by decide) .done))
  rw [parseArgs_of_cut cut]
  rfl

theorem pixels_perf :
    ∃ run : MainRun sampleCV (fun _ d e => d == e)
        (sampleFiles (pixelFile red) (pixelFile blue)) .serial perfArgs,
      run.ctx.arg.perf = true ∧ run.ctx.arg.binThreshold = 200 ∧
      findsContours sampleCV run.ctx.oldGrayMat 200 = false ∧
      findsContours sampleCV run.ctx.newGrayMat 200 = false ∧
      writeRows run.outcome.writes = [("write", 2)] := by
  obtain ⟨loaded, hload, hold, hnew, holdE, hnewE, ctx, hdetect, outcome, houtcome, hrest⟩ :
      ∃ loaded, loadImage sampleCV (sampleFiles (pixelFile red) (pixelFile blue)) false
          (emptyContext { sampleArg with perf := true }) = .ok loaded ∧
        InBin sampleCV loaded.oldColorMat (0, 255) ∧
        InBin sampleCV loaded.newColorMat (170, 255) ∧
        loaded.oldColorMat.empty = false ∧ loaded.newColorMat.empty = false ∧
        ∃ ctx, detectSegments sampleCV loaded = .ok ctx ∧
        ∃ outcome, createDiffImageSerial sampleCV (fun d e => d == e) ctx = some outcome ∧
          ctx.arg.perf = true ∧ ctx.arg.binThreshold = 200 ∧
          findsContours sampleCV ctx.oldGrayMat 200 = false ∧
          findsContours sampleCV ctx.newGrayMat 200 = false ∧
          writeRows outcome.writes = [("write", 2)] := by
    refine ⟨_, rfl, ?_, ?_, by decide, by decide, _, rfl, _, rfl, rfl, rfl, by decide,
      by decide, rfl⟩
    · unfold InBin
      decide
    · unfold InBin
      decide
  have hbefore := mainBeforeDiff_of_stages parseArgs_perf hload
    (check_of_inBin hold hnew (by decide) holdE hnewE) hdetect
  exact ⟨⟨ctx, hbefore, outcome, houtcome⟩, hrest⟩

theorem main_report_pixels :
    ∃ (run : MainRun sampleCV (fun _ d e => d == e)
        (sampleFiles (pixelFile red) (pixelFile blue)) .serial perfArgs) (ops : List TimerOp)
      (records : List TimerRecord) (rows : List Row),
      Transition.run timerStep [] ops = some records ∧
      mainReport stableSort (fun _ => ⟨100, 0, 0⟩) run.ctx.arg records = some rows ∧
      rows.map (fun row => (row.name, row.indent)) =
        [("all", 0), ("parse args", 1), ("load image", 1), ("check histogram differential", 1),
          ("preprocess image", 2), ("preprocess image", 2), ("detect segments", 1),
          ("do detect", 2), ("split segments", 3), ("image processing", 4),
          ("compute descriptors", 3), ("do detect", 2), ("split segments", 3),
          ("image processing", 4), ("compute descriptors", 3), ("create diff image", 1),
          ("write", 2)] := by
  obtain ⟨run, hperf, hthreshold, hold, hnew, hwrites⟩ := pixels_perf
  obtain ⟨records, rows, hrun, hreport, hrows⟩ := main_report stableSort run
    (map_event_clocked _) (rising_clocked _) fun _ => ⟨100, 0, 0⟩
  refine ⟨run, _, records, rows, hrun, hreport, ?_⟩
  rw [hrows, hperf, hwrites, hthreshold, doDetectRows, doDetectRows, hold, hnew]
  rfl

end Gazosan
