import Underling.Lib.Blocks
import Underling.Lib.RowTranspose
import Underling.Lib.Sweep

/-!
# Underling.Extern

What the library uses of MPI and FFTW: communicators, the iteration dimensions of the guru
interface, plans, flag words, and `Env`, the functions of the two libraries whose results the
code reads. Their documented behaviour is carried by the fields of `Env`.

Sizes, strides and offsets (`int` and `ptrdiff_t` in the source) are exact natural numbers;
arguments a caller may pass as a negative `int` are `Int`.
-/

namespace Underling

/-- An `unsigned` flag word. -/
abbrev Flags := BitVec 32

/-- Whether a flag word has one of the bits of `mask` set. -/
def Flags.has (f mask : Flags) : Bool := f &&& mask != 0

namespace FFTW

def MEASURE : Flags := 0
def DESTROY_INPUT : Flags := 1 <<< 0
def EXHAUSTIVE : Flags := 1 <<< 3
def PATIENT : Flags := 1 <<< 5
def ESTIMATE : Flags := 1 <<< 6
def WISDOM_ONLY : Flags := 1 <<< 21
def MPI_TRANSPOSED_IN : Flags := 1 <<< 29
def MPI_TRANSPOSED_OUT : Flags := 1 <<< 30
def MPI_DEFAULT_BLOCK : Nat := 0

/-- Signs of a transform. -/
def FORWARD : Int := -1
def BACKWARD : Int := 1

end FFTW

/-- Complement of the rigor bits a caller may pass to a planner. -/
def nonRigorMask : Flags :=
  ~~~FFTW.ESTIMATE &&& ~~~FFTW.MEASURE &&& ~~~FFTW.PATIENT &&& ~~~FFTW.EXHAUSTIVE &&&
    ~~~FFTW.WISDOM_ONLY

namespace Flags

theorem has_iff {f m : Flags} : f.has m = true ↔ f &&& m ≠ 0 := by simp [has]

theorem has_or (f g m : Flags) : (f ||| g).has m = (f.has m || g.has m) := by
  have h : (f &&& m) ||| (g &&& m) = 0 ↔ f &&& m = 0 ∧ g &&& m = 0 := BitVec.or_eq_zero_iff
  rw [Bool.eq_iff_iff, Bool.or_eq_true, has_iff, has_iff, has_iff, BitVec.and_or_distrib_right,
    ne_eq, h, not_and_or]

theorem not_has_of_and {f m m' : Flags} (h : f.has m = false) (hm : m' &&& m = m') :
    f.has m' = false := by
  have h0 : f &&& m = 0 := by simpa [has] using h
  have h1 : f &&& m' = 0 := by
    rw [← hm, BitVec.and_comm m' m, ← BitVec.and_assoc, h0]
    exact BitVec.zero_and
  simp [has, h1]

end Flags

def INT_MAX : Nat := 2 ^ 31 - 1

/-- A non-`NULL` buffer, by name; distinct names are disjoint buffers. -/
abbrev Ptr := Nat

/-- A pointer into a buffer. -/
structure Pointer where
  buffer : Ptr
  offset : Nat
deriving DecidableEq, Repr

/-- The communicators in play: the caller's, the Cartesian one, and its two directions. -/
inductive Dir where
  | world
  | grid
  | pA
  | pB
deriving DecidableEq, Repr

/-- An `MPI_Comm` as one process sees it. A duplicate keeps `dir`, `rank` and `size`. -/
structure Comm where
  id : Nat
  dir : Dir
  rank : Nat
  size : Nat
deriving DecidableEq, Repr

/-- `fftw_iodim`: one loop of the guru interface. -/
abbrev IoDim := Sweep.Loop

/-- The guru planners the library calls. -/
inductive GuruKind where
  | r2r
  | splitDft
  | splitDftR2c
  | splitDftC2r
deriving DecidableEq, Repr

/-- A guru planner call: transform dimensions, loop dimensions and the pointers passed. -/
structure Guru where
  kind : GuruKind
  dims : List IoDim
  howmany : List IoDim
  pointers : List (Option Pointer)
  flags : Flags
deriving DecidableEq, Repr

/-- The arguments of `fftw_mpi_plan_many_transpose` that describe the matrix. -/
structure TransposeArgs where
  d0 : Nat
  d1 : Nat
  howmany : Nat
  block0 : Nat
  block1 : Nat
  flags : Flags
deriving DecidableEq, Repr

namespace TransposeArgs

/-- The distributed transposition FFTW performs for these arguments. -/
def shape (t : TransposeArgs) : RowTranspose.Shape where
  rows := t.d0
  cols := t.d1
  tuple := t.howmany
  rowBlock := t.block0
  colBlock := t.block1
  transposedIn := t.flags.has FFTW.MPI_TRANSPOSED_IN
  transposedOut := t.flags.has FFTW.MPI_TRANSPOSED_OUT

/-- FFTW accepts the distribution: nothing is empty, both blocks are given, and the blocks fit on
the `p` processes. -/
structure Accepted (t : TransposeArgs) (p : Nat) : Prop where
  d0_pos : 0 < t.d0
  d1_pos : 0 < t.d1
  howmany_pos : 0 < t.howmany
  block0_pos : 0 < t.block0
  block1_pos : 0 < t.block1
  rows_fit : t.d0 ⌈/⌉ t.block0 ≤ p
  cols_fit : t.d1 ⌈/⌉ t.block1 ≤ p

theorem shape_or (t : TransposeArgs) {f : Flags} (hin : f.has FFTW.MPI_TRANSPOSED_IN = false)
    (hout : f.has FFTW.MPI_TRANSPOSED_OUT = false) :
    { t with flags := t.flags ||| f }.shape = t.shape := by
  simp only [shape, Flags.has_or, hin, hout, Bool.or_false]

theorem Accepted.or {t : TransposeArgs} {p : Nat} (h : t.Accepted p) (f : Flags) :
    { t with flags := t.flags ||| f }.Accepted p :=
  ⟨h.d0_pos, h.d1_pos, h.howmany_pos, h.block0_pos, h.block1_pos, h.rows_fit, h.cols_fit⟩

theorem Accepted.col_rank {t : TransposeArgs} {p C : Nat} (h : t.Accepted p) (hC : C < t.d1) :
    C / t.block1 < p := by
  rw [Nat.div_lt_iff_lt_mul h.block1_pos, Nat.mul_comm]
  exact Nat.lt_of_lt_of_le hC ((ceilDiv_le_iff_le_mul h.block1_pos).mp h.cols_fit)

theorem Accepted.row_rank {t : TransposeArgs} {p R : Nat} (h : t.Accepted p) (hR : R < t.d0) :
    R / t.block0 < p := by
  rw [Nat.div_lt_iff_lt_mul h.block0_pos, Nat.mul_comm]
  exact Nat.lt_of_lt_of_le hR ((ceilDiv_le_iff_le_mul h.block0_pos).mp h.rows_fit)

end TransposeArgs

/-- What an `fftw_plan` will do when executed. -/
inductive PlanDesc where
  | guru (g : Guru)
  | manyTranspose (t : TransposeArgs) (comm : Comm) (inp out : Ptr)
deriving DecidableEq, Repr

structure FftwPlan where
  id : Nat
  desc : PlanDesc
deriving DecidableEq, Repr

/-- The results of `fftw_mpi_local_size_many_transposed`. -/
structure LocalSize where
  localSize : Nat
  localD0 : Nat
  localD0Start : Nat
  localD1 : Nat
  localD1Start : Nat

/-- The block length FFTW MPI uses for `n` items over `p` processes. -/
def fftwBlock (n block p : Nat) : Nat :=
  if block = FFTW.MPI_DEFAULT_BLOCK then n ⌈/⌉ p else block

/-- The library functions whose results the code reads. -/
structure Env where
  /-- `MPI_Dims_create` on two dimensions, or the text of its error. -/
  dimsCreate : Nat → Int × Int → Except String (Int × Int)
  dims_pos : ∀ nproc req d, dimsCreate nproc req = .ok d → 0 < d.1 ∧ 0 < d.2
  /-- Nonzero requests are kept. -/
  dims_keep : ∀ nproc req d, dimsCreate nproc req = .ok d →
    (req.1 ≠ 0 → d.1 = req.1) ∧ (req.2 ≠ 0 → d.2 = req.2)
  /-- The value `fftw_mpi_local_size_many_transposed` returns for `d0`, `d1`, `howmany`, `block0`,
  `block1` on a communicator of a given size and rank. -/
  allocSize : Nat → Nat → Nat → Nat → Nat → Nat → Nat → Nat
  allocSize_ge : ∀ d0 d1 h b0 b1 p r,
    Blocks.len d0 (fftwBlock d0 b0 p) r * d1 * h ≤ allocSize d0 d1 h b0 b1 p r ∧
      Blocks.len d1 (fftwBlock d1 b1 p) r * d0 * h ≤ allocSize d0 d1 h b0 b1 p r
  /-- The path of the shared library providing a function, for error messages. -/
  libraryPath : String → String
  /-- `HAVE_FFTW33_BETA1_OR_LATER`. -/
  fftw33 : Bool

/-- `fftw_mpi_local_size_many_transposed` for a two-dimensional transform. -/
def Env.localSizeManyTransposed (env : Env) (d0 d1 howmany block0 block1 : Nat) (comm : Comm) :
    LocalSize where
  localSize := env.allocSize d0 d1 howmany block0 block1 comm.size comm.rank
  localD0 := Blocks.len d0 (fftwBlock d0 block0 comm.size) comm.rank
  localD0Start := Blocks.start d0 (fftwBlock d0 block0 comm.size) comm.rank
  localD1 := Blocks.len d1 (fftwBlock d1 block1 comm.size) comm.rank
  localD1Start := Blocks.start d1 (fftwBlock d1 block1 comm.size) comm.rank

@[simp] theorem fftwBlock_default (n p : Nat) : fftwBlock n FFTW.MPI_DEFAULT_BLOCK p = n ⌈/⌉ p := by
  simp [fftwBlock]

end Underling
