import Gazosan.Image.OpenCV
import Mathlib.Tactic.NormNum

/-!
# Loading and decoding the images

`load_image` opens, decodes and converts the two files.  The byte count of a
file is narrowed from 64 to 32 bits on its way to the decoder.

A file system is a function from paths to the bytes of the file, or to the call of
`MappedFile::open` that fails.
-/

namespace Gazosan

/-- The system call of `MappedFile::open` that fails, with the text of `errno_string`. -/
inductive OpenFailure where
  | cannotOpen (errno : String)
  | fstatFailed (errno : String)
  | mmapFailed (errno : String)
deriving DecidableEq, Repr

/-- What `must_open`, or `open` itself, passes to `Fatal`. -/
def OpenFailure.message (path : String) : OpenFailure → String
  | .cannotOpen errno => "cannot open " ++ path ++ ": " ++ errno
  | .fstatFailed errno => path ++ ": fstat failed: " ++ errno
  | .mmapFailed errno => path ++ ": mmap failed: " ++ errno

/-- What `MappedFile::open` finds under a path. -/
abbrev FileSystem : Type := String → Except OpenFailure (List UInt8)

/-- `static_cast<int>`. -/
def toInt32 (n : Int) : Int := n.bmod (2 ^ 32)

theorem toInt32_eq_self {n : Int} (h0 : 0 ≤ n) (h : n < 2 ^ 31) : toInt32 n = n := by
  rw [toInt32]
  exact Int.bmod_eq_of_le (by norm_num at *; omega) (by norm_num at *; omega)

section

variable {ρ : Type} (cv : OpenCV ρ)

/-- `decode_from_mapped_file(file, IMREAD_COLOR)`.  A `Mat` header with a negative
number of columns raises. -/
def decodeFromMappedFile (file : MappedFile) : Option (Mat Vec3b) :=
  let size := toInt32 file.data.length
  if size < 0 then none else some (cv.imdecode (file.data.take size.toNat))

/-- `cv::cvtColor(color, gray, cv::COLOR_BGR2GRAY)` on a decoded file. -/
def convertDecoded (file : MappedFile) :
    Option (Mat Vec3b) → Except Stop (MappedFile × Mat Vec3b × Mat UInt8)
  | none => .error (.exception .opencv)
  | some color =>
      match cv.bgr2gray color with
      | none => .error (.exception .opencv)
      | some gray => .ok (file, color, gray)

/-- The body of one task of `load_image`: `must_open`, decode, convert. -/
def loadOne (arg : Arg) (fs : FileSystem) (path : String) :
    Except Stop (MappedFile × Mat Vec3b × Mat UInt8) :=
  match fs path with
  | .error failure => .error (.fatal (fatalLine arg (failure.message path)))
  | .ok data => convertDecoded cv ⟨path, data⟩ (decodeFromMappedFile cv ⟨path, data⟩)

/-- The context with what was loaded for the new image. -/
def Context.setNew (ctx : Context ρ) (loaded : MappedFile × Mat Vec3b × Mat UInt8) : Context ρ :=
  { ctx with newFile := some loaded.1, newColorMat := loaded.2.1, newGrayMat := loaded.2.2 }

/-- The context with what was loaded for the old image. -/
def Context.setOld (ctx : Context ρ) (loaded : MappedFile × Mat Vec3b × Mat UInt8) : Context ρ :=
  { ctx with oldFile := some loaded.1, oldColorMat := loaded.2.1, oldGrayMat := loaded.2.2 }

/-- The first task of `load_image`. -/
def loadNew (fs : FileSystem) (ctx : Context ρ) :
    Except Stop (Context ρ) :=
  if ctx.arg.newFile.isEmpty then .ok ctx
  else (loadOne cv ctx.arg fs ctx.arg.newFile).map ctx.setNew

/-- The second task of `load_image`. -/
def loadOld (fs : FileSystem) (ctx : Context ρ) :
    Except Stop (Context ρ) :=
  if ctx.arg.oldFile.isEmpty then .ok ctx
  else (loadOne cv ctx.arg fs ctx.arg.oldFile).map ctx.setOld

/-- `load_image`.  Without `ENABLE_PARALLEL` the new image comes first; the task
group of the parallel build may end the tasks in either order. -/
def loadImage (fs : FileSystem) (oldFirst : Bool) (ctx : Context ρ) :
    Except Stop (Context ρ) :=
  if oldFirst then (loadOld cv fs ctx).bind (loadNew cv fs)
  else (loadNew cv fs ctx).bind (loadOld cv fs)

/-! ## What is loaded -/

/-- A file of less than 2 GiB is decoded as a whole. -/
theorem decodeFromMappedFile_of_lt {file : MappedFile} (h : file.data.length < 2 ^ 31) :
    decodeFromMappedFile cv file = some (cv.imdecode file.data) := by
  have hsize : toInt32 file.data.length = file.data.length :=
    toInt32_eq_self (by omega) (by exact_mod_cast h)
  rw [decodeFromMappedFile, hsize]
  rw [if_neg (by omega), Int.toNat_natCast, List.take_length]

/-- Both files are mapped, and the images are those that were decoded from them. -/
structure Loaded (ctx : Context ρ) : Prop where
  oldDecoded : ∃ file, ctx.oldFile = some file ∧
    decodeFromMappedFile cv file = some ctx.oldColorMat
  newDecoded : ∃ file, ctx.newFile = some file ∧
    decodeFromMappedFile cv file = some ctx.newColorMat
  oldGray : ctx.oldGrayMat.rows = ctx.oldColorMat.rows ∧
    ctx.oldGrayMat.cols = ctx.oldColorMat.cols
  newGray : ctx.newGrayMat.rows = ctx.newColorMat.rows ∧
    ctx.newGrayMat.cols = ctx.newColorMat.cols

variable {cv}

theorem convertDecoded_spec (hcv : cv.Lawful) {file : MappedFile} {decoded : Option (Mat Vec3b)}
    {loaded : MappedFile × Mat Vec3b × Mat UInt8}
    (h : convertDecoded cv file decoded = .ok loaded) :
    loaded.1 = file ∧ decoded = some loaded.2.1 ∧
      loaded.2.2.rows = loaded.2.1.rows ∧ loaded.2.2.cols = loaded.2.1.cols := by
  cases decoded with
  | none => cases h
  | some color =>
      cases hgray : cv.bgr2gray color with
      | none =>
          simp only [convertDecoded, hgray] at h
          cases h
      | some gray =>
          simp only [convertDecoded, hgray] at h
          obtain rfl := Except.ok.inj h
          exact ⟨rfl, rfl, hcv.bgr2gray_size _ _ hgray⟩

theorem loadOne_spec (hcv : cv.Lawful) {arg : Arg} {fs : FileSystem}
    {path : String} {loaded : MappedFile × Mat Vec3b × Mat UInt8}
    (h : loadOne cv arg fs path = .ok loaded) :
    decodeFromMappedFile cv loaded.1 = some loaded.2.1 ∧
      loaded.2.2.rows = loaded.2.1.rows ∧ loaded.2.2.cols = loaded.2.1.cols := by
  cases hdata : fs path with
  | error failure =>
      rw [loadOne, hdata] at h
      cases h
  | ok data =>
      rw [loadOne, hdata] at h
      obtain ⟨hfile, hdecode, hsize⟩ := convertDecoded_spec hcv h
      rw [hfile]
      exact ⟨hdecode, hsize⟩

theorem loadNew_spec {fs : FileSystem} {ctx ctx' : Context ρ}
    (hpath : ctx.arg.newFile ≠ "") (h : loadNew cv fs ctx = .ok ctx') :
    ∃ loaded, loadOne cv ctx.arg fs ctx.arg.newFile = .ok loaded ∧ ctx' = ctx.setNew loaded := by
  rw [loadNew, if_neg (by simpa using hpath)] at h
  obtain ⟨loaded, hload, rfl⟩ := map_eq_ok.mp h
  exact ⟨loaded, hload, rfl⟩

theorem loadOld_spec {fs : FileSystem} {ctx ctx' : Context ρ}
    (hpath : ctx.arg.oldFile ≠ "") (h : loadOld cv fs ctx = .ok ctx') :
    ∃ loaded, loadOne cv ctx.arg fs ctx.arg.oldFile = .ok loaded ∧ ctx' = ctx.setOld loaded := by
  rw [loadOld, if_neg (by simpa using hpath)] at h
  obtain ⟨loaded, hload, rfl⟩ := map_eq_ok.mp h
  exact ⟨loaded, hload, rfl⟩

/-- In either order of the tasks, both images are loaded and nothing else changes. -/
theorem loadImage_spec {fs : FileSystem} {oldFirst : Bool}
    {ctx ctx' : Context ρ} (hnew : ctx.arg.newFile ≠ "") (hold : ctx.arg.oldFile ≠ "")
    (h : loadImage cv fs oldFirst ctx = .ok ctx') :
    ∃ new old, loadOne cv ctx.arg fs ctx.arg.newFile = .ok new ∧
      loadOne cv ctx.arg fs ctx.arg.oldFile = .ok old ∧ ctx' = (ctx.setNew new).setOld old := by
  cases oldFirst with
  | true =>
      rw [loadImage, if_pos rfl] at h
      obtain ⟨ctx₁, ho, hn⟩ := bind_eq_ok.mp h
      obtain ⟨old, ho', rfl⟩ := loadOld_spec hold ho
      obtain ⟨new, hn', rfl⟩ := loadNew_spec (show (ctx.setOld old).arg.newFile ≠ "" from hnew) hn
      exact ⟨new, old, hn', ho', rfl⟩
  | false =>
      rw [loadImage, if_neg (by simp)] at h
      obtain ⟨ctx₁, hn, ho⟩ := bind_eq_ok.mp h
      obtain ⟨new, hn', rfl⟩ := loadNew_spec hnew hn
      obtain ⟨old, ho', rfl⟩ := loadOld_spec (show (ctx.setNew new).arg.oldFile ≠ "" from hold) ho
      exact ⟨new, old, hn', ho', rfl⟩

theorem loadImage_loaded (hcv : cv.Lawful) {fs : FileSystem}
    {oldFirst : Bool} {ctx ctx' : Context ρ} (hnew : ctx.arg.newFile ≠ "")
    (hold : ctx.arg.oldFile ≠ "") (h : loadImage cv fs oldFirst ctx = .ok ctx') :
    Loaded cv ctx' := by
  obtain ⟨new, old, hn, ho, rfl⟩ := loadImage_spec hnew hold h
  obtain ⟨hnd, hng⟩ := loadOne_spec hcv hn
  obtain ⟨hod, hog⟩ := loadOne_spec hcv ho
  exact
    { oldDecoded := ⟨old.1, rfl, hod⟩
      newDecoded := ⟨new.1, rfl, hnd⟩
      oldGray := hog
      newGray := hng }

/-! ## What cannot be decoded -/

/-- A file without an image: there is no header for its bytes, or what is decoded is
empty. -/
def Undecodable (cv : OpenCV ρ) (file : MappedFile) : Prop :=
  ∀ color, decodeFromMappedFile cv file = some color → color.empty = true

/-- `cvtColor` raises if its source is empty. -/
def OpenCV.RaisesOnEmpty (cv : OpenCV ρ) : Prop :=
  ∀ m : Mat Vec3b, m.empty = true → cv.bgr2gray m = none

theorem convertDecoded_empty (hcv : cv.RaisesOnEmpty) (file : MappedFile)
    {decoded : Option (Mat Vec3b)} (h : ∀ color, decoded = some color → color.empty = true) :
    convertDecoded cv file decoded = .error (.exception .opencv) := by
  cases decoded with
  | none => rfl
  | some color => simp only [convertDecoded, hcv color (h color rfl)]

theorem convertDecoded_error {file : MappedFile} {decoded : Option (Mat Vec3b)} {stop : Stop}
    (h : convertDecoded cv file decoded = .error stop) : stop = .exception .opencv := by
  cases decoded with
  | none =>
      cases h
      rfl
  | some color =>
      cases hgray : cv.bgr2gray color with
      | none =>
          simp only [convertDecoded, hgray] at h
          cases h
          rfl
      | some gray =>
          simp only [convertDecoded, hgray] at h
          cases h

variable {fs : FileSystem} {path : String} {data : List UInt8}

theorem loadOne_readable (h : fs path = .ok data) (arg : Arg) :
    loadOne cv arg fs path =
      convertDecoded cv ⟨path, data⟩ (decodeFromMappedFile cv ⟨path, data⟩) := by
  rw [loadOne, h]

theorem loadNew_error {ctx : Context ρ} {stop : Stop} (hdata : fs ctx.arg.newFile = .ok data)
    (h : loadNew cv fs ctx = .error stop) : stop = .exception .opencv := by
  rw [loadNew] at h
  split at h
  · cases h
  · rw [map_eq_error, loadOne_readable hdata] at h
    exact convertDecoded_error h

theorem loadOld_error {ctx : Context ρ} {stop : Stop} (hdata : fs ctx.arg.oldFile = .ok data)
    (h : loadOld cv fs ctx = .error stop) : stop = .exception .opencv := by
  rw [loadOld] at h
  split at h
  · cases h
  · rw [map_eq_error, loadOne_readable hdata] at h
    exact convertDecoded_error h

/-- A load of readable files can end in an exception of OpenCV only. -/
theorem loadImage_error {oldFirst : Bool} {ctx : Context ρ} {newData oldData : List UInt8}
    {stop : Stop} (hnew : ctx.arg.newFile ≠ "") (hold : ctx.arg.oldFile ≠ "")
    (hnewData : fs ctx.arg.newFile = .ok newData) (holdData : fs ctx.arg.oldFile = .ok oldData)
    (h : loadImage cv fs oldFirst ctx = .error stop) : stop = .exception .opencv := by
  cases oldFirst with
  | true =>
      rw [loadImage, if_pos rfl, bind_eq_error] at h
      rcases h with h | ⟨ctx₁, ho, h⟩
      · exact loadOld_error holdData h
      · obtain ⟨old, -, rfl⟩ := loadOld_spec hold ho
        exact loadNew_error (show fs (ctx.setOld old).arg.newFile = .ok newData from hnewData) h
  | false =>
      rw [loadImage, if_neg (by simp), bind_eq_error] at h
      rcases h with h | ⟨ctx₁, hn, h⟩
      · exact loadNew_error hnewData h
      · obtain ⟨new, -, rfl⟩ := loadNew_spec hnew hn
        exact loadOld_error (show fs (ctx.setNew new).arg.oldFile = .ok oldData from holdData) h

/-- If both files can be read and one of them has no image, the load raises, in
whichever order the tasks end. -/
theorem loadImage_undecodable (hcv : cv.RaisesOnEmpty) {oldFirst : Bool} {ctx : Context ρ}
    {newData oldData : List UInt8} (hnew : ctx.arg.newFile ≠ "") (hold : ctx.arg.oldFile ≠ "")
    (hnewData : fs ctx.arg.newFile = .ok newData) (holdData : fs ctx.arg.oldFile = .ok oldData)
    (h : Undecodable cv ⟨ctx.arg.newFile, newData⟩ ∨ Undecodable cv ⟨ctx.arg.oldFile, oldData⟩) :
    loadImage cv fs oldFirst ctx = .error (.exception .opencv) := by
  cases hload : loadImage cv fs oldFirst ctx with
  | ok ctx' =>
      obtain ⟨new, old, hn, ho, -⟩ := loadImage_spec hnew hold hload
      rw [loadOne_readable hnewData] at hn
      rw [loadOne_readable holdData] at ho
      rcases h with h | h
      · rw [convertDecoded_empty hcv _ h] at hn
        cases hn
      · rw [convertDecoded_empty hcv _ h] at ho
        cases ho
  | error stop =>
      rw [loadImage_error hnew hold hnewData holdData hload]

end

end Gazosan
