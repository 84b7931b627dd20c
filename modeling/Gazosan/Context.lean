import Gazosan.Image.Mat

/-!
# The context of a run

The data of `gazosan.h` that the program passes from one stage to the next:
the command line configuration, the mapped files, the two images in colour and
in gray, and the segments found in each.  The timer records of the context have
their own module, and `cmdline_args` is an argument of the parser.

A descriptor is a matrix with one row per key point.  Only its rows are ever
used, so it is a list of rows of an arbitrary type `ρ`, and `descriptor.empty()`
is emptiness of that list.
-/

namespace Gazosan

/-- A pixel of a colour image, in the channel order of `cv::Vec3b`. -/
structure Vec3b where
  b : UInt8
  g : UInt8
  r : UInt8
deriving DecidableEq, Repr

/-- `cv::Vec3b(0, 0, 255)`, also `CV_RGB(255, 0, 0)`. -/
def red : Vec3b := ⟨0, 0, 255⟩

/-- `CV_RGB(0, 255, 0)`. -/
def green : Vec3b := ⟨0, 255, 0⟩

/-- The pixel with one value in all three channels. -/
def Vec3b.gray (v : UInt8) : Vec3b := ⟨v, v, v⟩

theorem Vec3b.gray_ne_red (v : UInt8) : Vec3b.gray v ≠ red := by
  intro h
  have hb : v = 0 := congrArg Vec3b.b h
  have hr : v = 255 := congrArg Vec3b.r h
  rw [hb] at hr
  exact absurd hr (by decide)

/-- `Context::arg`. -/
structure Arg where
  colorDiagnostics : Bool := false
  newFile : String := ""
  oldFile : String := ""
  outputName : String := ""
  createChangeImage : Bool := false
  binThreshold : Int := 200
  crossCheck : Bool := false
  threadCount : Int := 0
  perf : Bool := false
deriving DecidableEq, Repr

/-- `add_color`. -/
def addColor (arg : Arg) (msg : String) : String :=
  if arg.colorDiagnostics then "gazo-san: \x1b[0;1;31m" ++ msg ++ ":\x1b[0m "
  else "gazo-san: " ++ msg ++ ": "

/-- The line that `Fatal(ctx) << msg` prints before it ends the process. -/
def fatalLine (arg : Arg) (msg : String) : String := addColor arg "fatal" ++ msg ++ "\n"

/-- The exceptions that the program lets escape from `main`. -/
inductive Exception where
  /-- `std::invalid_argument`. -/
  | invalidArgument
  /-- `std::out_of_range`. -/
  | outOfRange
  /-- `cv::Exception`. -/
  | opencv
deriving DecidableEq, Repr

/-- The ways the process ends before `main` returns. -/
inductive Stop where
  /-- `exit(0)`, with what was printed. -/
  | exit (out : String)
  /-- `Fatal`, with the line it prints. -/
  | fatal (line : String)
  /-- An exception that nothing catches. -/
  | exception (e : Exception)
  /-- No defined result: an access outside a matrix, a call outside its domain or
  a loop without an end. -/
  | undefined
deriving DecidableEq, Repr

/-! ### Stages that may end the process -/

theorem bind_eq_ok {ε α β : Type} {x : Except ε α} {f : α → Except ε β} {b : β} :
    x.bind f = .ok b ↔ ∃ a, x = .ok a ∧ f a = .ok b := by
  cases x with
  | error e => simp [Except.bind]
  | ok a => simp [Except.bind]

theorem map_eq_ok {ε α β : Type} {x : Except ε α} {f : α → β} {b : β} :
    x.map f = .ok b ↔ ∃ a, x = .ok a ∧ f a = b := by
  cases x with
  | error e => simp [Except.map]
  | ok a => simp [Except.map]

theorem bind_eq_error {ε α β : Type} {x : Except ε α} {f : α → Except ε β} {e : ε} :
    x.bind f = .error e ↔ x = .error e ∨ ∃ a, x = .ok a ∧ f a = .error e := by
  cases x with
  | error e' => simp [Except.bind]
  | ok a => simp [Except.bind]

theorem map_eq_error {ε α β : Type} {x : Except ε α} {f : α → β} {e : ε} :
    x.map f = .error e ↔ x = .error e := by
  cases x with
  | error e' => simp [Except.map]
  | ok a => simp [Except.map]

/-! ### The context -/

/-- `MappedFile`: the path and the bytes.  `size` is their number. -/
structure MappedFile where
  name : String
  data : List UInt8

/-- `ImageSegment`. -/
structure ImageSegment (ρ : Type) where
  area : Rect
  descriptor : List ρ := []
  roi : Mat UInt8
  matched : Bool := false

/-- `ImageSegment::rect_from`: a rectangle of the size of the area. -/
def ImageSegment.rectFrom {ρ : Type} (seg : ImageSegment ρ) (upperLeft : Point) : Rect :=
  Rect.ofPoints upperLeft ⟨upperLeft.x + seg.area.width, upperLeft.y + seg.area.height⟩

theorem ImageSegment.rectFrom_eq {ρ : Type} (seg : ImageSegment ρ) (p : Point)
    (hw : 0 ≤ seg.area.width) (hh : 0 ≤ seg.area.height) :
    seg.rectFrom p = ⟨p.x, p.y, seg.area.width, seg.area.height⟩ := by
  simp only [ImageSegment.rectFrom, Rect.ofPoints, Rect.mk.injEq]
  omega

/-- `Context`, from `load_image` on.  The files are null before. -/
structure Context (ρ : Type) where
  arg : Arg
  newFile : Option MappedFile := none
  oldFile : Option MappedFile := none
  newColorMat : Mat Vec3b
  oldColorMat : Mat Vec3b
  newGrayMat : Mat UInt8
  oldGrayMat : Mat UInt8
  newSegments : List (ImageSegment ρ) := []
  oldSegments : List (ImageSegment ρ) := []

/-- The context with the images called the other way round. -/
def Context.swap {ρ : Type} (ctx : Context ρ) : Context ρ :=
  { ctx with
    newFile := ctx.oldFile
    oldFile := ctx.newFile
    newColorMat := ctx.oldColorMat
    oldColorMat := ctx.newColorMat
    newGrayMat := ctx.oldGrayMat
    oldGrayMat := ctx.newGrayMat
    newSegments := ctx.oldSegments
    oldSegments := ctx.newSegments }

@[simp] theorem Context.swap_oldColorMat {ρ : Type} (ctx : Context ρ) :
    ctx.swap.oldColorMat = ctx.newColorMat := rfl

@[simp] theorem Context.swap_newColorMat {ρ : Type} (ctx : Context ρ) :
    ctx.swap.newColorMat = ctx.oldColorMat := rfl

/-- Every matched flag is false, as `detect_segments` leaves them. -/
def Context.Fresh {ρ : Type} (ctx : Context ρ) : Prop :=
  (∀ seg ∈ ctx.oldSegments, seg.matched = false) ∧ ∀ seg ∈ ctx.newSegments, seg.matched = false

end Gazosan
