import Underling.FftwExtents
import Underling.Plan

/-!
# Underling.FftwPlan

The creation of FFT plans: the four public creators, the three planners behind them, and inverse
plans. The loops over the `order` arrays are lists of directions; the assertions made inside such a
loop are made together before it.

`fftwPlanCreateC2cInternal`, `fftwPlanCreateC2rBackwardInternal` and
`fftwPlanCreateR2cForwardInternal` are the planners; `fftwSides` computes the extents the public
creators hand to them.
-/

namespace Underling

open Runs C Strided

def FFTW_PACKED_LONG_N2 : Flags := 1 <<< 6
def FFTW_PACKED_LONG_N0 : Flags := 1 <<< 7
def FFTW_PACKED_NONE : Flags := 1 <<< 8

inductive TransformType where
  | unspecified
  | c2cForward
  | c2cBackward
  | c2rBackward
  | r2cForward
deriving DecidableEq, Repr

/-- Offsets of the real and imaginary parts; those a transform does not use are zero here. -/
structure Offset where
  ri : Nat
  ii : Nat
  ro : Nat
  io : Nat
deriving DecidableEq, Repr

/-- `struct underling_fftw_plan_s`. -/
structure FftPlan where
  addr : Nat
  longNi : Fin 3
  type : TransformType
  input : FftwExtents
  planPreorder : Option FftwPlan
  planFftw : Option FftwPlan
  planPostorder : Option FftwPlan
  output : FftwExtents
  inPlace : Bool
  offset : Offset

/-- The transformed direction, among those of the extents. -/
def FftPlan.long (f : FftPlan) : Fin 5 := f.longNi.castAdd 2

def fftwPlanDestroy (plan : Option FftPlan) : C Unit := do
  if let some plan := plan then
    destroyPlanOf plan.planPreorder
    destroyPlanOf plan.planFftw
    destroyPlanOf plan.planPostorder
    free plan.addr

/-- A direction of the domain, if the argument is one. -/
def direction? (longNi : Int) : Option (Fin 3) :=
  if h : longNi < 0 ∨ longNi > 2 then none else some ⟨longNi.toNat, toNat_lt_three h⟩

/-- The directions a loop over the given slots of an order visits, the transformed one skipped. -/
def loopDirections (order : Fin 5 → Fin 5) (slots : List (Fin 5)) (long : Fin 5) : List (Fin 5) :=
  (slots.map order).filter (· ≠ long)

/-- Call a guru planner for `f`; a refusal destroys `f`. -/
def planFor (f : FftPlan) (g : Guru) (reason : String) : C (Option FftwPlan) := do
  let some p ← planGuru g
    | do fftwPlanDestroy (some f)
         errorNull reason .esanity
  return some p

/-- The guru arguments of a plan that only moves data. -/
def moveGuru (inp out : Ptr) (loops : List IoDim) (flags : Flags) : Guru where
  kind := .r2r
  dims := []
  howmany := loops
  pointers := [some ⟨inp, 0⟩, some ⟨out, 0⟩]
  flags := flags

/-- The loops of `underling_fftw_plan_reorder_complex`. -/
def reorderLoops (input output : FftwExtents) : List IoDim :=
  ([4, 3, 2, 1, 0] : List (Fin 5)).map fun i =>
    let io := input.order i
    ⟨input.size io, input.stride io, output.stride io⟩

def fftwPlanReorderComplex (env : Env) (dataIn dataOut : Ptr) (input output : FftwExtents)
    (flags : Flags) : C (Option FftwPlan) := do
  let r2rProvider := env.libraryPath "fftw_plan_guru_r2r"
  let some p ← planGuru (moveGuru dataIn dataOut (reorderLoops input output) flags)
    | errorNull s!"fftw_plan_guru_r2r (from {r2rProvider}) returned NULL reorder_complex plan"
        .esanity
  return some p

/-! ## Complex to complex -/

/-- The reordering an in-place plan needs before or after the FFT, and the extents between which the
FFT works. -/
def c2cReorder (env : Env) (f : FftPlan) (inp out : Ptr) (rigorFlags : Flags) :
    C (Option (FftPlan × FftwExtents × FftwExtents)) := do
  if f.inPlace then
    if f.input.order 2 = f.long then
      let some p ← fftwPlanReorderComplex env inp out f.input f.output
          (rigorFlags ||| FFTW.DESTROY_INPUT)
        | do fftwPlanDestroy (some f)
             errorNull "!f->plan_postorder" .esanity
      return some ({ f with planPostorder := some p }, f.input, f.input)
    else if f.output.order 2 = f.long then
      let some p ← fftwPlanReorderComplex env inp out f.input f.output
          (rigorFlags ||| FFTW.DESTROY_INPUT)
        | do fftwPlanDestroy (some f)
             errorNull "!f->plan_preorder" .esanity
      return some ({ f with planPreorder := some p }, f.output, f.output)
    else errorNull "!\x7binput,output\x7d_is_long" .esanity
  else return some (f, f.input, f.output)

/-- The loops of a complex transform, over the directions `dirs` and the fields. -/
def c2cLoops (dirs : List (Fin 5)) (transformIn transformOut : FftwExtents) : List IoDim :=
  (dirs.map fun io => ⟨transformIn.size io, transformIn.stride io, transformOut.stride io⟩) ++
    [⟨transformIn.size 3, transformIn.size 4, transformOut.size 4⟩]

/-- The offsets of a complex transform. A backward one is a forward one with flipped components. -/
def c2cOffset (inPlace : Bool) (fftwSign : Int) (transformIn input output : FftwExtents) : Offset :=
  let o : Offset :=
    if inPlace then { ri := 0, ii := transformIn.stride 4, ro := 0, io := transformIn.stride 4 }
    else { ri := 0, ii := input.stride 4, ro := 0, io := output.stride 4 }
  if fftwSign = FFTW.BACKWARD then { ri := o.ii, ii := o.ri, ro := o.io, io := o.ro } else o

def c2cGuru (long : Fin 5) (dirs : List (Fin 5)) (o : Offset) (inp out : Ptr)
    (transformIn transformOut : FftwExtents) (flags : Flags) : Guru where
  kind := .splitDft
  dims := [⟨transformIn.size long, transformIn.stride long, transformOut.stride long⟩]
  howmany := c2cLoops dirs transformIn transformOut
  pointers := [some ⟨inp, o.ri⟩, some ⟨inp, o.ii⟩, some ⟨out, o.ro⟩, some ⟨out, o.io⟩]
  flags := flags

def fftwPlanCreateC2cInternal (env : Env) (longNi : Int) (inp out : Option Ptr) (fftwSign : Int)
    (rigorFlags : Flags) (input output : FftwExtents) : C (Option FftPlan) := do
  let some longNi := direction? longNi | errorNull "long_ni < 0 or long_ni > 2" .einval
  let some inp := inp | errorNull "in == NULL" .einval
  let some out := out | errorNull "out == NULL" .einval
  if fftwSign ≠ FFTW.FORWARD ∧ fftwSign ≠ FFTW.BACKWARD then
    return ← errorNull "fftw_sign not one of FFTW_\x7bFORWARD,BACKWARD\x7d" .einval
  if rigorFlags.has nonRigorMask then
    return ← errorNull "FFTW non-rigor bits disallowed" .einval
  if input.order 2 ≠ longNi.castAdd 2 ∧ output.order 2 ≠ longNi.castAdd 2 then
    return ← errorNull "Neither \x7binput,output\x7d is long" .einval
  let some addr ← malloc | errorNull "failed to allocate space for plan" .enomem
  let f : FftPlan :=
    { addr := addr, longNi := longNi
      type := if fftwSign = FFTW.FORWARD then .c2cForward else .c2cBackward
      input := input, planPreorder := none, planFftw := none, planPostorder := none
      output := output, inPlace := inp == out, offset := { ri := 0, ii := 0, ro := 0, io := 0 } }
  let provider := env.libraryPath "fftw_plan_guru_split_dft"
  let some (f, transformIn, transformOut) ← c2cReorder env f inp out rigorFlags | return none
  let dirs := loopDirections transformIn.order [4, 3, 2] f.long
  assert (∀ io ∈ dirs, io < 3)
  assert (dirs.length = 2)
  let f := { f with offset := c2cOffset f.inPlace fftwSign transformIn f.input f.output }
  let some p ← planFor f (c2cGuru f.long dirs f.offset inp out transformIn transformOut
      (rigorFlags ||| FFTW.DESTROY_INPUT))
    s!"fftw_plan_guru_split_dft (from {provider}) returned NULL FFT plan" | return none
  return some { f with planFftw := some p }

/-! ## Complex to real -/

/-- Before an in-place transform: real and imaginary parts at a fixed stride, the fields
together. -/
def c2rPreorderLoops (dirs : List (Fin 5)) (input : FftwExtents) : List IoDim :=
  (dirs.map fun io => ⟨input.size io, input.stride io, input.stride io⟩) ++
    [⟨input.size 3, 2, 1⟩, ⟨2, 1, input.size 3⟩]

def c2rGuru (inPlace : Bool) (long : Fin 5) (dirs : List (Fin 5)) (o : Offset) (inp out : Ptr)
    (input output : FftwExtents) (flags : Flags) : Guru where
  kind := .splitDftC2r
  dims := [⟨output.size long, input.stride long,
    if inPlace then input.size 3 else output.stride long⟩]
  howmany :=
    (dirs.map fun oo => ⟨input.size oo, input.stride oo,
      if inPlace then input.stride oo else output.stride oo⟩) ++
    [⟨input.size 3, if inPlace then 1 else input.stride 3, if inPlace then 1 else output.stride 3⟩]
  pointers := [some ⟨inp, o.ri⟩, some ⟨inp, o.ii⟩, some ⟨out, 0⟩]
  flags := flags

/-- After an in-place transform: each real line, with its padding, to where the output has it. -/
def c2rPostorderLoops (long : Fin 5) (dirs : List (Fin 5)) (input output : FftwExtents) :
    List IoDim :=
  (dirs.map fun oo =>
    if oo = long then ⟨2 * input.size oo, input.stride oo / 2, output.stride oo⟩
    else ⟨input.size oo, input.stride oo, output.stride oo⟩) ++
    [⟨output.size 3, 1, 1⟩, ⟨1, output.size 3, output.size 3⟩]

/-- The pre-ordering plan of a complex-to-real transform; out of place none is necessary. -/
def c2rPreorder (env : Env) (f : FftPlan) (inp out : Ptr) (flags : Flags) : C (Option FftPlan) := do
  if f.inPlace then
    let provider := env.libraryPath "fftw_plan_guru_r2r"
    let dirs := ([4, 3, 2] : List (Fin 5)).map f.input.order
    assert (∀ io ∈ dirs, io < 3)
    let some p ← planFor f (moveGuru inp out (c2rPreorderLoops dirs f.input) flags)
      s!"fftw_plan_guru_r2r (from {provider}) returned NULL c2r_backward preorder plan"
      | return none
    return some { f with planPreorder := some p }
  else return some f

/-- The FFT of a complex-to-real transform. -/
def c2rFft (env : Env) (f : FftPlan) (inp out : Ptr) (flags : Flags) : C (Option FftPlan) := do
  let provider := env.libraryPath "fftw_plan_guru_split_dft_c2r"
  let dirs := loopDirections f.output.order [4, 3, 2] f.long
  assert (∀ oo ∈ dirs, oo < 3)
  assert (dirs.length = 2)
  let f := { f with offset :=
    { ri := 0, ii := if f.inPlace then f.input.size 3 else 1, ro := 0, io := 0 } }
  let some p ← planFor f (c2rGuru f.inPlace f.long dirs f.offset inp out f.input f.output flags)
    s!"fftw_plan_guru_split_dft_c2r (from {provider}) returned NULL c2r_backward FFT plan"
    | return none
  return some { f with planFftw := some p }

/-- The post-ordering plan of a complex-to-real transform; out of place none is necessary. -/
def c2rPostorder (env : Env) (f : FftPlan) (inp out : Ptr) (flags : Flags) :
    C (Option FftPlan) := do
  if f.inPlace then
    let provider := env.libraryPath "fftw_plan_guru_r2r"
    let dirs := ([4, 3, 2] : List (Fin 5)).map f.output.order
    assert (∀ oo ∈ dirs, oo < 3)
    assert (f.input.size 3 = f.output.size 3)
    let some p ← planFor f (moveGuru inp out (c2rPostorderLoops f.long dirs f.input f.output) flags)
      s!"fftw_plan_guru_r2r (from {provider}) returned NULL c2r_backward postorder plan"
      | return none
    return some { f with planPostorder := some p }
  else return some f

def fftwPlanCreateC2rBackwardInternal (env : Env) (longNi : Int) (inp out : Option Ptr)
    (rigorFlags : Flags) (input output : FftwExtents) : C (Option FftPlan) := do
  let some longNi := direction? longNi | errorNull "long_ni < 0 or long_ni > 2" .einval
  let some inp := inp | errorNull "in == NULL" .einval
  let some out := out | errorNull "out == NULL" .einval
  if rigorFlags.has nonRigorMask then
    return ← errorNull "FFTW non-rigor bits disallowed" .einval
  let some addr ← malloc | errorNull "failed to allocate space for plan" .enomem
  let f : FftPlan :=
    { addr := addr, longNi := longNi, type := .c2rBackward, input := input, planPreorder := none
      planFftw := none, planPostorder := none, output := output, inPlace := inp == out
      offset := { ri := 0, ii := 0, ro := 0, io := 0 } }
  let flags := rigorFlags ||| FFTW.DESTROY_INPUT
  let some f ← c2rPreorder env f inp out flags | return none
  let some f ← c2rFft env f inp out flags | return none
  c2rPostorder env f inp out flags

/-! ## Real to complex -/

def r2cGuru (inPlace : Bool) (long : Fin 5) (dirs : List (Fin 5)) (o : Offset) (inp out : Ptr)
    (input output : FftwExtents) (flags : Flags) : Guru where
  kind := .splitDftR2c
  dims := [⟨input.size long, input.stride long,
    if inPlace then 2 * input.stride long else output.stride long⟩]
  howmany := dirs.map fun io => ⟨input.size io, input.stride io,
    if inPlace then input.stride io else output.stride io⟩
  pointers := [some ⟨inp, 0⟩, some ⟨out, o.ro⟩, some ⟨out, o.io⟩]
  flags := flags

/-- After an in-place transform: real and imaginary parts back together. -/
def r2cPostorderLoops (long : Fin 5) (dirs : List (Fin 5)) (input output : FftwExtents) :
    List IoDim :=
  (dirs.map fun io => ⟨output.size io, if io = long then input.stride io * 2 else input.stride io,
    output.stride io⟩) ++ [⟨output.size 3, 1, 2⟩, ⟨2, output.size 3, 1⟩]

/-- The FFT of a real-to-complex transform. -/
def r2cFft (env : Env) (f : FftPlan) (inp out : Ptr) (flags : Flags) : C (Option FftPlan) := do
  let provider := env.libraryPath "fftw_plan_guru_split_dft_r2c"
  let dirs := loopDirections f.input.order [4, 3, 2, 1] f.long
  assert (dirs.length = 3)
  let f := { f with offset :=
    { ri := 0, ii := 0, ro := 0, io := if f.inPlace then f.input.stride f.long else 1 } }
  let some p ← planFor f (r2cGuru f.inPlace f.long dirs f.offset inp out f.input f.output flags)
    s!"fftw_plan_guru_split_dft_r2c (from {provider}) returned NULL r2c_forward FFT plan"
    | return none
  return some { f with planFftw := some p }

/-- The post-ordering plan of a real-to-complex transform; out of place none is necessary. -/
def r2cPostorder (env : Env) (f : FftPlan) (inp out : Ptr) (flags : Flags) :
    C (Option FftPlan) := do
  if f.inPlace then
    let provider := env.libraryPath "fftw_plan_guru_r2r"
    let dirs := ([4, 3, 2] : List (Fin 5)).map f.input.order
    let some p ← planFor f (moveGuru inp out (r2cPostorderLoops f.long dirs f.input f.output) flags)
      s!"fftw_plan_guru_r2r (from {provider}) returned NULL r2c_forward postorder plan"
      | return none
    return some { f with planPostorder := some p }
  else return some f

def fftwPlanCreateR2cForwardInternal (env : Env) (longNi : Int) (inp out : Option Ptr)
    (rigorFlags : Flags) (input output : FftwExtents) : C (Option FftPlan) := do
  let some longNi := direction? longNi | errorNull "long_ni < 0 or long_ni > 2" .einval
  let some inp := inp | errorNull "in == NULL" .einval
  let some out := out | errorNull "out == NULL" .einval
  if rigorFlags.has nonRigorMask then
    return ← errorNull "FFTW non-rigor bits disallowed" .einval
  let some addr ← malloc | errorNull "failed to allocate space for plan" .enomem
  let f : FftPlan :=
    { addr := addr, longNi := longNi, type := .r2cForward, input := input, planPreorder := none
      planFftw := none, planPostorder := none, output := output, inPlace := inp == out
      offset := { ri := 0, ii := 0, ro := 0, io := 0 } }
  let flags := rigorFlags ||| FFTW.DESTROY_INPUT
  let some f ← r2cFft env f inp out flags | return none
  r2cPostorder env f inp out flags

/-! ## The public creators -/

/-- What the creators have in common: the complex extents of the pencil as it is stored, and the
extents `create` makes of it once the long direction is adjusted, packed if that was asked for. -/
def fftwSides (create : Extents → Int → C FftwExtents) (problem : Option Problem) (longNi : Int)
    (inp out : Option Ptr) (packedFlags : Flags) : C (Option (FftwExtents × FftwExtents)) := do
  let packedFlags := if packedFlags = 0 then FFTW_PACKED_NONE else packedFlags
  let e ← localExtents problem longNi
  let stored ← createFftwExtentsForComplex e longNi
  let (e, _) ← adjustForFastStrideInLongDirection e longNi
  let adjusted ← create e longNi
  if longNi = 2 ∧ packedFlags.has FFTW_PACKED_LONG_N2 ∨
      longNi = 0 ∧ packedFlags.has FFTW_PACKED_LONG_N0 then
    if inp = out then
      errorNull "invalid packed_flags for in-place transform" .einval
    else return some (stored, packStridesAccordingToOrder adjusted)
  else return some (stored, adjusted)

def fftwPlanCreateC2cForward (env : Env) (problem : Option Problem) (longNi : Int)
    (inp out : Option Ptr) (rigorFlags packedFlags : Flags) : C (Option FftPlan) := do
  let some (input, output) ←
      fftwSides createFftwExtentsForComplex problem longNi inp out packedFlags
    | return none
  fftwPlanCreateC2cInternal env longNi inp out FFTW.FORWARD rigorFlags input output

def fftwPlanCreateC2cBackward (env : Env) (problem : Option Problem) (longNi : Int)
    (inp out : Option Ptr) (rigorFlags packedFlags : Flags) : C (Option FftPlan) := do
  let some (input, output) ←
      fftwSides createFftwExtentsForComplex problem longNi inp out packedFlags
    | return none
  fftwPlanCreateC2cInternal env longNi inp out FFTW.BACKWARD rigorFlags input output

def fftwPlanCreateC2rBackward (env : Env) (problem : Option Problem) (longNi : Int)
    (inp out : Option Ptr) (rigorFlags packedFlags : Flags) : C (Option FftPlan) := do
  let some (input, output) ← fftwSides createFftwExtentsForReal problem longNi inp out packedFlags
    | return none
  if inp = out ∧ (input.order 2 : Nat) ≠ longNi then
    return ← errorNull
      "Creation of in-place c2r_backward plans for non-stride one directions is currently unimplemented"
      .esanity
  fftwPlanCreateC2rBackwardInternal env longNi inp out rigorFlags input output

def fftwPlanCreateR2cForward (env : Env) (problem : Option Problem) (longNi : Int)
    (inp out : Option Ptr) (rigorFlags packedFlags : Flags) : C (Option FftPlan) := do
  let some (output, input) ← fftwSides createFftwExtentsForReal problem longNi inp out packedFlags
    | return none
  if inp = out ∧ (output.order 2 : Nat) ≠ longNi then
    return ← errorNull
      "Creation of in-place r2c_forward plans for non-stride one directions is currently unimplemented."
      .esanity
  fftwPlanCreateR2cForwardInternal env longNi inp out rigorFlags input output

def fftwPlanCreateInverse (env : Env) (planToInvert : Option FftPlan) (inp out : Option Ptr)
    (rigorFlags : Flags) : C (Option FftPlan) := do
  let some p := planToInvert | errorNull "plan_to_invert == NULL" .einval
  let longNi : Int := (p.longNi : Nat)
  let retval ← match p.type with
    | .c2cForward =>
      fftwPlanCreateC2cInternal env longNi inp out FFTW.BACKWARD rigorFlags p.output p.input
    | .c2cBackward =>
      fftwPlanCreateC2cInternal env longNi inp out FFTW.FORWARD rigorFlags p.output p.input
    | .c2rBackward =>
      fftwPlanCreateR2cForwardInternal env longNi inp out rigorFlags p.output p.input
    | .r2cForward =>
      fftwPlanCreateC2rBackwardInternal env longNi inp out rigorFlags p.output p.input
    | .unspecified => return ← errorNull "Unrecognized plan_to_invert->type" .esanity
  -- the extents are compared through a pointer that may be NULL
  let some retval := retval | throw .nullRead
  if fftwExtentsCmp p.input retval.output ≠ 0 then
    report "plan_to_invert->input != retval->output" .esanity
    fftwPlanDestroy (some retval)
    return none
  if fftwExtentsCmp p.output retval.input ≠ 0 then
    report "plan_to_invert->output != retval->input" .esanity
    fftwPlanDestroy (some retval)
    return none
  return some retval

/-! ## Accessors -/

def fftwLocalExtentsInput (plan : Option FftPlan) : C FftwExtents := do
  let some plan := plan | errorVal "plan == NULL" .einval .invalid
  return plan.input

def fftwLocalExtentsOutput (plan : Option FftPlan) : C FftwExtents := do
  let some plan := plan | errorVal "plan == NULL" .einval .invalid
  return plan.output

end Underling
