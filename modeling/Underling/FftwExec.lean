import Underling.FftwPlan
import Underling.Lib.Fourier
import Underling.Lib.Sweep

/-!
# Underling.FftwExec

Executing FFT plans. `FftwExec` is FFTW's new-array execution of guru plans on the buffers of a
process, of which only the documented result is used: a one-dimensional transform is applied at
every tuple of the loops, when distinct tuples touch disjoint locations; a plan without transform
dimensions moves all elements at once. Locations a plan does not write are arbitrary afterwards.

* `fftwPlanExecute`: `underling_fftw_plan_execute`.
* `FftwExec.reference`: an execution with this result, for any one-dimensional transforms.
* `Kernel.fourier_inverts`: the discrete Fourier transforms invert each other up to the length.
-/

namespace Underling

open Sweep

/-- The one-dimensional transforms; complex values are pairs. -/
structure Kernel (α : Type) where
  dft : (n : Nat) → (Fin n → α × α) → Fin n → α × α
  r2c : (n : Nat) → (Fin n → α) → Fin (n / 2 + 1) → α × α
  c2r : (n : Nat) → (Fin (n / 2 + 1) → α × α) → Fin n → α

/-- The imaginary or the real part. -/
def component {α : Type} (z : α × α) (imaginary : Bool) : α := if imaginary then z.2 else z.1

namespace Kernel

variable {α : Type} (K : Kernel α)

/-- The transforms on separate real and imaginary parts. -/
def splitDft (n : Nat) (v : Fin n × Bool → α) (o : Fin n × Bool) : α :=
  component (K.dft n (fun m => (v (m, false), v (m, true))) o.1) o.2

def splitR2c (n : Nat) (v : Fin n → α) (o : Fin (n / 2 + 1) × Bool) : α :=
  component (K.r2c n v o.1) o.2

def splitC2r (n : Nat) (v : Fin (n / 2 + 1) × Bool → α) (o : Fin n) : α :=
  K.c2r n (fun m => (v (m, false), v (m, true))) o

/-- The backward transform, as a forward one with the parts exchanged. -/
def backward (n : Nat) (v : Fin n → α × α) (m : Fin n) : α × α :=
  (K.dft n (fun k => (v k).swap) m).swap

/-- The transforms invert each other up to the length: forward and backward, and on half-spectra of
real lines also the transforms between real and complex values. -/
structure Inverts [SMul Nat α] : Prop where
  backward_dft : ∀ n v, 0 < n → K.backward n (K.dft n v) = n • v
  dft_backward : ∀ n v, 0 < n → K.dft n (K.backward n v) = n • v
  c2r_r2c : ∀ n v, 0 < n → K.c2r n (K.r2c n v) = n • v
  r2c_c2r : ∀ n v, 0 < n → K.r2c n (K.c2r n (K.r2c n v)) = n • K.r2c n v

/-- The discrete Fourier transforms. -/
noncomputable def fourier : Kernel ℝ where
  dft := Fourier.dft
  r2c := Fourier.r2c
  c2r := Fourier.c2r

theorem fourier_inverts : fourier.Inverts where
  backward_dft := fun _ v _ => Fourier.backward_dft v
  dft_backward := fun _ v _ => Fourier.dft_backward v
  c2r_r2c := fun _ v _ => Fourier.c2r_r2c v
  r2c_c2r := fun _ v _ => Fourier.r2c_c2r v

end Kernel

/-- Where element `m` of a real line is. -/
def realAt (stride : Nat) (p : Pointer) (m : Nat) : Ptr × Nat := (p.buffer, p.offset + m * stride)

/-- Where a part of element `m` of a complex line is. -/
def splitAt (stride : Nat) (re im : Pointer) (m : Nat) (imaginary : Bool) : Ptr × Nat :=
  realAt stride (if imaginary then im else re) m

/-- The passes over memory of the guru plans. -/
def dftPass (d : IoDim) (loops : List IoDim) (ri ii ro io : Pointer) :
    Pass Ptr (Fin d.n × Bool) (Fin d.n × Bool) where
  loops := loops
  read := fun s => splitAt d.is ri ii s.1 s.2
  write := fun o => splitAt d.os ro io o.1 o.2

def r2cPass (d : IoDim) (loops : List IoDim) (inp ro io : Pointer) :
    Pass Ptr (Fin d.n) (Fin (d.n / 2 + 1) × Bool) where
  loops := loops
  read := fun s => realAt d.is inp s
  write := fun o => splitAt d.os ro io o.1 o.2

def c2rPass (d : IoDim) (loops : List IoDim) (ri ii out : Pointer) :
    Pass Ptr (Fin (d.n / 2 + 1) × Bool) (Fin d.n) where
  loops := loops
  read := fun s => splitAt d.is ri ii s.1 s.2
  write := fun o => realAt d.os out o

def movePass (loops : List IoDim) (inp out : Pointer) : Pass Ptr Unit Unit where
  loops := loops
  read := fun _ => (inp.buffer, inp.offset)
  write := fun _ => (out.buffer, out.offset)

/-- The arrays passed to an execution are those planned for, in other buffers: with their offsets,
and in one buffer exactly where they were planned in one. -/
def Suits (planned : List (Option Pointer)) (passed : List Pointer) : Prop :=
  ∃ (ps : List Pointer) (f : Ptr → Ptr), planned = ps.map some ∧
    passed = ps.map (fun p => ⟨f p.buffer, p.offset⟩) ∧
    ∀ p ∈ ps, ∀ q ∈ ps, f p.buffer = f q.buffer → p.buffer = q.buffer

/-- New-array execution of serial FFTW plans. -/
structure FftwExec (α : Type) where
  kernel : Kernel α
  run : PlanDesc → List Pointer → Mem α → Mem α
  splitDft : ∀ d loops planned flags ri ii ro io m, Suits planned [ri, ii, ro, io] →
    (dftPass d loops ri ii ro io).Separate →
    (dftPass d loops ri ii ro io).Performs (kernel.splitDft d.n) m
      (run (.guru ⟨.splitDft, [d], loops, planned, flags⟩) [ri, ii, ro, io] m)
  splitDftR2c : ∀ d loops planned flags inp ro io m, Suits planned [inp, ro, io] →
    (r2cPass d loops inp ro io).Separate →
    (r2cPass d loops inp ro io).Performs (kernel.splitR2c d.n) m
      (run (.guru ⟨.splitDftR2c, [d], loops, planned, flags⟩) [inp, ro, io] m)
  splitDftC2r : ∀ d loops planned flags ri ii out m, Suits planned [ri, ii, out] →
    (c2rPass d loops ri ii out).Separate →
    (c2rPass d loops ri ii out).Performs (kernel.splitC2r d.n) m
      (run (.guru ⟨.splitDftC2r, [d], loops, planned, flags⟩) [ri, ii, out] m)
  r2r : ∀ loops planned flags inp out m, Suits planned [inp, out] →
    (movePass loops inp out).WritesOnce →
    (movePass loops inp out).Performs id m
      (run (.guru ⟨.r2r, [], loops, planned, flags⟩) [inp, out] m)

def slots (n : Nat) : List (Fin n × Bool) :=
  (List.finRange n).flatMap fun m => [(m, false), (m, true)]

theorem mem_slots {n : Nat} (o : Fin n × Bool) : o ∈ slots n := by
  obtain ⟨m, c⟩ := o
  cases c <;> simp [slots]

/-- Every plan writes its results and nothing else. -/
def FftwExec.reference {α : Type} (K : Kernel α) : FftwExec α where
  kernel := K
  run := fun desc ptrs m =>
    match desc, ptrs with
    | .guru ⟨.splitDft, [d], loops, _, _⟩, [ri, ii, ro, io] =>
      (dftPass d loops ri ii ro io).perform (slots d.n) (K.splitDft d.n) m
    | .guru ⟨.splitDftR2c, [d], loops, _, _⟩, [inp, ro, io] =>
      (r2cPass d loops inp ro io).perform (slots _) (K.splitR2c d.n) m
    | .guru ⟨.splitDftC2r, [d], loops, _, _⟩, [ri, ii, out] =>
      (c2rPass d loops ri ii out).perform (List.finRange _) (K.splitC2r d.n) m
    | .guru ⟨.r2r, [], loops, _, _⟩, [inp, out] =>
      (movePass loops inp out).perform [()] id m
    | _, _ => m
  splitDft := fun _ _ _ _ _ _ _ _ m _ h => Pass.performs_perform mem_slots _ m h.once
  splitDftR2c := fun _ _ _ _ _ _ _ m _ h => Pass.performs_perform mem_slots _ m h.once
  splitDftC2r := fun _ _ _ _ _ _ _ m _ h => Pass.performs_perform List.mem_finRange _ m h.once
  r2r := fun _ _ _ _ _ m _ h => Pass.performs_perform (fun _ => List.mem_singleton.mpr rfl) _ m h

variable {α : Type}

/-- Execute a reordering plan, unless it is `NULL`. -/
def executeReorder (fftw : FftwExec α) (plan : FftPlan) (reorder : Option FftwPlan)
    (inp out : Ptr) : StateT (Mem α) (Except Fault) Unit := do
  if let some p := reorder then
    if plan.inPlace = true ∧ inp = out then
      modify (fftw.run p.desc [⟨inp, 0⟩, ⟨out, 0⟩])
    else throw .assertion

/-- `underling_fftw_plan_execute`. The result `none` stands for `UNDERLING_SUCCESS`, any other is
the error reported and returned. -/
def fftwPlanExecute (fftw : FftwExec α) (plan : Option FftPlan) (inp out : Option Ptr) :
    StateT (Mem α) (Except Fault) (Option Report) := do
  let some plan := plan | return some ⟨"plan == NULL", .einval⟩
  let some p := plan.planFftw | return some ⟨"plan->plan_fftw == NULL", .einval⟩
  let some inp := inp | return some ⟨"in == NULL", .einval⟩
  let some out := out | return some ⟨"out == NULL", .einval⟩
  if plan.inPlace then
    if inp ≠ out then return some ⟨"in-place plan but in != out", .einval⟩
  else if inp = out then return some ⟨"out-of-place plan but in == out", .einval⟩
  executeReorder fftw plan plan.planPreorder inp out
  match plan.type with
  | .c2cForward | .c2cBackward =>
    modify (fftw.run p.desc [⟨inp, plan.offset.ri⟩, ⟨inp, plan.offset.ii⟩, ⟨out, plan.offset.ro⟩,
      ⟨out, plan.offset.io⟩])
  | .c2rBackward =>
    modify (fftw.run p.desc [⟨inp, plan.offset.ri⟩, ⟨inp, plan.offset.ii⟩, ⟨out, 0⟩])
  | .r2cForward =>
    modify (fftw.run p.desc [⟨inp, 0⟩, ⟨out, plan.offset.ro⟩, ⟨out, plan.offset.io⟩])
  | .unspecified => return some ⟨"Unknown plan->type", .esanity⟩
  executeReorder fftw plan plan.planPostorder inp out
  return none

end Underling
