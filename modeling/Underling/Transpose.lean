import Underling.World

/-!
# Underling.Transpose

`underling_transpose_create`, its inverse, and the FFTW plan made from a transpose. MPI calls
succeed, so the communicators involved are never `MPI_COMM_NULL` and those checks are left out.

* `transposeCreate_ends`, `transposeCreateInverse_ends`: the transpose returned, and the collective
  calls made for it; the inverse exchanges sizes, blocks and storage flags together.
* `transposeFftwPlan_ends`: what the plan made from a transpose does.
-/

namespace Underling

open Runs C

structure Transpose extends TransposeArgs where
  addr : Nat
  comm : Comm
  details : LocalSize

namespace TransposeArgs

/-- No data to transpose; FFTW is not asked about it. -/
def Trivial (t : TransposeArgs) : Prop := t.howmany = 0 ∨ t.d0 = 0 ∨ t.d1 = 0

instance (t : TransposeArgs) : Decidable t.Trivial :=
  inferInstanceAs (Decidable (t.howmany = 0 ∨ t.d0 = 0 ∨ t.d1 = 0))

/-- Sizes, blocks and storage flags of the way back. -/
def inverse (t : TransposeArgs) : TransposeArgs where
  d0 := t.d1
  d1 := t.d0
  howmany := t.howmany
  block0 := t.block1
  block1 := t.block0
  flags :=
    (if t.flags.has FFTW.MPI_TRANSPOSED_IN then FFTW.MPI_TRANSPOSED_OUT else 0) |||
      (if t.flags.has FFTW.MPI_TRANSPOSED_OUT then FFTW.MPI_TRANSPOSED_IN else 0)

theorem Accepted.inverse {t : TransposeArgs} {p : Nat} (h : t.Accepted p) : t.inverse.Accepted p :=
  ⟨h.d1_pos, h.d0_pos, h.howmany_pos, h.block1_pos, h.block0_pos, h.cols_fit, h.rows_fit⟩

theorem inverse_trivial_iff (t : TransposeArgs) : t.inverse.Trivial ↔ t.Trivial := by
  simp only [Trivial, inverse]
  omega

theorem inverse_shape (t : TransposeArgs) : t.inverse.shape = t.shape.flip := by
  have hflags : t.inverse.flags.has FFTW.MPI_TRANSPOSED_IN = t.flags.has FFTW.MPI_TRANSPOSED_OUT ∧
      t.inverse.flags.has FFTW.MPI_TRANSPOSED_OUT = t.flags.has FFTW.MPI_TRANSPOSED_IN := by
    simp only [inverse]
    cases t.flags.has FFTW.MPI_TRANSPOSED_IN <;> cases t.flags.has FFTW.MPI_TRANSPOSED_OUT <;>
      decide
  simp only [shape, RowTranspose.Shape.flip, hflags.1, hflags.2]
  rfl

end TransposeArgs

/-- The local sizes of a transpose: zero for a trivial one, else what FFTW computes. -/
def localDetails (env : Env) (t : TransposeArgs) (comm : Comm) : C LocalSize := do
  if t.Trivial then
    -- fftw_mpi_local_size_many_transposed divides by zero on zero size
    return { localSize := 0, localD0 := 0, localD0Start := 0, localD1 := 0, localD1Start := 0 }
  else
    call comm.dir (.localSizeTransposed t.d0 t.d1 t.howmany t.block0 t.block1)
    return env.localSizeManyTransposed t.d0 t.d1 t.howmany t.block0 t.block1 comm

def transposeCreate (env : Env) (t : TransposeArgs) (comm : Comm) : C (Option Transpose) := do
  let some addr ← malloc | errorNull "failed to allocate space for transpose" .enomem
  let comm ← commDupWithName comm
  let details ← localDetails env t comm
  return some { t with addr := addr, comm := comm, details := details }

def transposeCreateInverse (env : Env) (forward : Option Transpose) : C (Option Transpose) := do
  let some forward := forward | errorNull "forward == NULL" .einval
  if forward.flags.has (~~~FFTW.MPI_TRANSPOSED_IN &&& ~~~FFTW.MPI_TRANSPOSED_OUT) then
    return ← errorNull "Flags contains non-FFTW_MPI_TRANSPOSED_\x7bIN,OUT\x7d" .esanity
  let some addr ← malloc | errorNull "failed to allocate space for transpose" .enomem
  let backward := forward.inverse
  let comm ← commDupWithName forward.comm
  let details ← localDetails env backward comm
  return some { backward with addr := addr, comm := comm, details := details }

def transposeDestroy (t : Option Transpose) : C Unit := do
  if let some t := t then
    commFree t.comm
    free t.addr

/-- The plan without loops and without buffers. -/
def nopGuru : Guru where
  kind := .r2r
  dims := []
  howmany := []
  pointers := [none, none]
  flags := 0

def transposeFftwPlan (t : Option Transpose) (inp out : Ptr) (fftwFlags : Flags) :
    C (Option FftwPlan) := do
  let some t := t | errorNull "transpose == NULL" .einval
  if t.Trivial then
    -- fftw_mpi_plan_many_transpose returns NULL on some trivial input
    planGuru nopGuru
  else
    planManyTranspose { t.toTransposeArgs with flags := t.flags ||| fftwFlags } t.comm inp out

/-! ## Specifications -/

/-- A transpose with given arguments on a duplicate of `comm`. -/
structure TransposeFor (env : Env) (args : TransposeArgs) (comm : Comm) (t : Transpose) : Prop where
  args_eq : t.toTransposeArgs = args
  comm_dir : t.comm.dir = comm.dir
  comm_rank : t.comm.rank = comm.rank
  comm_size : t.comm.size = comm.size
  trivial : args.Trivial → t.details.localSize = 0
  details_eq : ¬ args.Trivial → t.details =
    env.localSizeManyTransposed args.d0 args.d1 args.howmany args.block0 args.block1 t.comm

/-- The collective calls made to build a transpose. -/
def transposeCalls (t : TransposeArgs) (dir : Dir) : List (Dir × Call) :=
  (dir, .dup) ::
    if t.Trivial then [] else [(dir, .localSizeTransposed t.d0 t.d1 t.howmany t.block0 t.block1)]

/-- The flags of a transpose are storage flags only. -/
def TransposeArgs.StorageFlags (t : TransposeArgs) : Prop :=
  t.flags.has (~~~FFTW.MPI_TRANSPOSED_IN &&& ~~~FFTW.MPI_TRANSPOSED_OUT) = false

section Ends

variable {env : Env} {w : World} {l : Log} {G : Prop}

theorem localDetails_ends (h : w.At l G) (t : TransposeArgs) (comm : Comm) :
    Ends (localDetails env t comm) w fun details w' =>
      (t.Trivial → details.localSize = 0) ∧
        (¬ t.Trivial → details =
          env.localSizeManyTransposed t.d0 t.d1 t.howmany t.block0 t.block1 comm) ∧
        w'.At { l with calls := l.calls ++
          if t.Trivial then []
          else [(comm.dir, .localSizeTransposed t.d0 t.d1 t.howmany t.block0 t.block1)] } G := by
  rw [localDetails]
  by_cases ht : t.Trivial
  · rw [if_pos ht, if_pos ht, List.append_nil]
    exact .pure ⟨fun _ => rfl, fun hn => absurd ht hn, h⟩
  · rw [if_neg ht, if_neg ht]
    exact .bind (call_ends h _ _) fun _ _ h' => .pure ⟨fun hp => absurd hp ht, fun _ => rfl, h'⟩

/-- What ends the creation of a transpose with arguments `args`, from `comm`. -/
structure TransposeCreated (env : Env) (args : TransposeArgs) (comm : Comm) (l : Log) (G : Prop)
    (o : Option Transpose) (w' : World) : Prop where
  sound : ∀ t, o = some t → TransposeFor env args comm t ∧
    w'.At { l with calls := l.calls ++ transposeCalls args comm.dir } G
  complete : G → o.isSome

theorem transposeFill_ends (h : w.At l G) (addr : Nat) (t : TransposeArgs) (comm : Comm) :
    Ends (do
        let comm ← commDupWithName comm
        let details ← localDetails env t comm
        return some { t with addr := addr, comm := comm, details := details }) w
      (TransposeCreated env t comm l G) := by
  refine .bind (commDupWithName_ends h comm) ?_
  rintro c w2 ⟨⟨hd, hr, hs⟩, h2⟩
  refine .bind (localDetails_ends h2 t c) ?_
  rintro details w3 ⟨htriv, hdet, h3⟩
  refine .pure ⟨?_, fun _ => rfl⟩
  rintro _ ⟨⟩
  refine ⟨⟨rfl, hd, hr, hs, htriv, hdet⟩, ?_⟩
  rw [hd] at h3
  simpa [transposeCalls] using h3

theorem transposeCreate_ends (h : w.At l G) (t : TransposeArgs) (comm : Comm) :
    Ends (transposeCreate env t comm) w (TransposeCreated env t comm l G) := by
  refine .bind (malloc_ends h) ?_
  rintro (_ | addr) w1 ⟨hG, h1⟩
  · exact errorNull_none fun _ => ⟨fun _ ht => (by cases ht), fun hg => absurd (hG hg) (by decide)⟩
  · exact transposeFill_ends h1 addr t comm

theorem transposeCreateInverse_ends (h : w.At l G) (forward : Transpose)
    (hflags : forward.StorageFlags) :
    Ends (transposeCreateInverse env (some forward)) w
      (TransposeCreated env forward.inverse forward.comm l G) := by
  simp only [transposeCreateInverse]
  rw [if_neg (by rw [hflags]; decide)]
  refine .bind (malloc_ends h) ?_
  rintro (_ | addr) w1 ⟨hG, h1⟩
  · exact errorNull_none fun _ => ⟨fun _ ht => (by cases ht), fun hg => absurd (hG hg) (by decide)⟩
  · exact transposeFill_ends h1 addr forward.inverse forward.comm

/-- What the plan made from a transpose does when executed. -/
def Transpose.planned (t : Transpose) (inp out : Ptr) (fftwFlags : Flags) : PlanDesc :=
  if t.Trivial then .guru nopGuru
  else .manyTranspose { t.toTransposeArgs with flags := t.flags ||| fftwFlags } t.comm inp out

/-- The log after planning a transpose. -/
def Transpose.planLog (t : Transpose) (fftwFlags : Flags) (l : Log) : Log :=
  if t.Trivial then { l with planned := l.planned ++ [nopGuru] }
  else { l with calls := l.calls ++
    [(t.comm.dir, .planTranspose { t.toTransposeArgs with flags := t.flags ||| fftwFlags })] }

/-- The collective calls made to plan a transpose. -/
def planCalls (t : TransposeArgs) (dir : Dir) (fftwFlags : Flags) : List (Dir × Call) :=
  if t.Trivial then [] else [(dir, .planTranspose { t with flags := t.flags ||| fftwFlags })]

theorem Transpose.planLog_calls (t : Transpose) (fftwFlags : Flags) (l : Log) :
    (t.planLog fftwFlags l).calls =
      l.calls ++ planCalls t.toTransposeArgs t.comm.dir fftwFlags := by
  rw [Transpose.planLog, planCalls]
  split
  · exact (List.append_nil _).symm
  · rfl

theorem transposeFftwPlan_ends (h : w.At l G) (t : Transpose) (inp out : Ptr) (fftwFlags : Flags) :
    Ends (transposeFftwPlan (some t) inp out fftwFlags) w fun o w' =>
      (G → o.isSome) ∧ (∀ p, o = some p → p.desc = t.planned inp out fftwFlags) ∧
        w'.At (t.planLog fftwFlags l) G := by
  simp only [transposeFftwPlan, Transpose.planned, Transpose.planLog]
  by_cases ht : t.Trivial
  · simp only [if_pos ht]
    exact planGuru_ends h nopGuru
  · simp only [if_neg ht]
    exact planManyTranspose_ends h _ _ _ _

end Ends

end Underling
