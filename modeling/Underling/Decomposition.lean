import Underling.Problem
import Underling.Stage

/-!
# Underling.Decomposition

The decomposition of a domain in closed form: the pencil of every process in every orientation,
and the two families of stages between them, as functions of the sizes all processes agree on.

* `extent_longN2`, `extent_longN1_A`, `extent_longN1_B`, `extent_longN0`: the pencils have the sizes
  of the local blocks of the stages.
* `addr_longN2`, `addr_longN1_A`, `addr_longN1_B`, `addr_longN0`: their addresses are those of the
  local blocks; not so for `addr_longN0_transposed`.
-/

namespace Underling

open Strided RowTranspose

/-- Sizes every process agrees on, as `gridCreate` and `problemCreate` admit them. -/
structure Decomposition where
  n0 : Nat
  n1 : Nat
  n2 : Nat
  pA : Nat
  pB : Nat
  howmany : Nat
  flags : Flags
  n2_pos : 0 < n2
  pA_pos : 0 < pA
  pB_pos : 0 < pB
  n0_ge : pB ≤ n0
  n1_ge_pA : pA ≤ n1
  n1_ge_pB : pB ≤ n1

namespace Decomposition

variable (d : Decomposition)

theorem n0_pos : 0 < d.n0 := Nat.lt_of_lt_of_le d.pB_pos d.n0_ge

theorem n1_pos : 0 < d.n1 := Nat.lt_of_lt_of_le d.pA_pos d.n1_ge_pA

/-- Block lengths: `n0` and `n1` over `pB` processes, `n1` and `n2` over `pA` processes. -/
def blockB0 : Nat := d.n0 ⌈/⌉ d.pB
def blockB1 : Nat := d.n1 ⌈/⌉ d.pB
def blockA1 : Nat := d.n1 ⌈/⌉ d.pA
def blockA2 : Nat := d.n2 ⌈/⌉ d.pA

def lenB0 (b : Nat) : Nat := Blocks.len d.n0 d.blockB0 b
def lenB1 (b : Nat) : Nat := Blocks.len d.n1 d.blockB1 b
def lenA1 (a : Nat) : Nat := Blocks.len d.n1 d.blockA1 a
def lenA2 (a : Nat) : Nat := Blocks.len d.n2 d.blockA2 a

def startB0 (b : Nat) : Nat := Blocks.start d.n0 d.blockB0 b
def startB1 (b : Nat) : Nat := Blocks.start d.n1 d.blockB1 b
def startA1 (a : Nat) : Nat := Blocks.start d.n1 d.blockA1 a
def startA2 (a : Nat) : Nat := Blocks.start d.n2 d.blockA2 a

@[simp] theorem startB0_zero : d.startB0 0 = 0 := Blocks.start_zero _ _
@[simp] theorem startA2_zero : d.startA2 0 = 0 := Blocks.start_zero _ _

theorem le_blockA1_iff : d.n1 ≤ d.blockA1 ↔ d.pA = 1 := Blocks.le_ceilDiv_iff d.pA_pos d.n1_ge_pA

theorem le_blockB0_iff : d.n0 ≤ d.blockB0 ↔ d.pB = 1 := Blocks.le_ceilDiv_iff d.pB_pos d.n0_ge

theorem lenB0_zero_le_one_iff : d.lenB0 0 ≤ 1 ↔ d.n0 ≤ d.pB := by
  rw [lenB0, Blocks.len_zero, blockB0, Nat.min_eq_right (Blocks.ceilDiv_le_self d.pB_pos)]
  exact Blocks.ceilDiv_le_one_iff d.pB_pos

theorem lenA2_zero_le_one_iff : d.lenA2 0 ≤ 1 ↔ d.n2 ≤ d.pA := by
  rw [lenA2, Blocks.len_zero, blockA2, Nat.min_eq_right (Blocks.ceilDiv_le_self d.pA_pos)]
  exact Blocks.ceilDiv_le_one_iff d.pA_pos

theorem lenB0_le_one (h : d.n0 ≤ d.pB) (b : Nat) : d.lenB0 b ≤ 1 :=
  Nat.le_trans (Blocks.len_le_block _ _ _) ((Blocks.ceilDiv_le_one_iff d.pB_pos).mpr h)

theorem lenA2_le_one (h : d.n2 ≤ d.pA) (a : Nat) : d.lenA2 a ≤ 1 :=
  Nat.le_trans (Blocks.len_le_block _ _ _) ((Blocks.ceilDiv_le_one_iff d.pA_pos).mpr h)

/-- The pencils of the process at `(a, b)`. -/
def longN (a b : Nat) : Fin 3 → Extents
  | 2 => .rowMajor ![d.startB0 b, d.startA1 a, 0, 0] ![d.lenB0 b, d.lenA1 a, d.n2, d.howmany]
      (storageOrder d.flags 2)
  | 1 => .rowMajor ![d.startB0 b, 0, d.startA2 a, 0] ![d.lenB0 b, d.n1, d.lenA2 a, d.howmany]
      (storageOrder d.flags 1)
  | 0 => .rowMajor ![0, d.startB1 b, d.startA2 a, 0] ![d.n0, d.lenB1 b, d.lenA2 a, d.howmany]
      (storageOrder d.flags 0)

@[simp] theorem start_longN0 (a b : Nat) :
    (d.longN a b 0).start = ![0, d.startB1 b, d.startA2 a, 0] := rfl
@[simp] theorem start_longN1 (a b : Nat) :
    (d.longN a b 1).start = ![d.startB0 b, 0, d.startA2 a, 0] := rfl
@[simp] theorem start_longN2 (a b : Nat) :
    (d.longN a b 2).start = ![d.startB0 b, d.startA1 a, 0, 0] := rfl
@[simp] theorem size_longN0 (a b : Nat) :
    (d.longN a b 0).size = ![d.n0, d.lenB1 b, d.lenA2 a, d.howmany] := rfl
@[simp] theorem size_longN1 (a b : Nat) :
    (d.longN a b 1).size = ![d.lenB0 b, d.n1, d.lenA2 a, d.howmany] := rfl
@[simp] theorem size_longN2 (a b : Nat) :
    (d.longN a b 2).size = ![d.lenB0 b, d.lenA1 a, d.n2, d.howmany] := rfl

/-- Long in `n2` to long in `n1`, on the processes that share the coordinate `b`. -/
def stageA (b : Nat) : Stage where
  m := d.lenB0 b
  n := d.n1
  c := d.n2
  p := d.pA
  howmany := d.howmany
  flags := if d.flags.has TRANSPOSED_LONG_N2 then FFTW.MPI_TRANSPOSED_IN else 0
  n_pos := d.n1_pos
  c_pos := d.n2_pos
  p_pos := d.pA_pos

/-- Long in `n1` to long in `n0`, on the processes that share the coordinate `a`. -/
def stageB (a : Nat) : Stage where
  m := d.lenA2 a
  n := d.n0
  c := d.n1
  p := d.pB
  howmany := d.howmany
  flags := if d.flags.has TRANSPOSED_LONG_N0 then FFTW.MPI_TRANSPOSED_OUT else 0
  n_pos := d.n0_pos
  c_pos := d.n1_pos
  p_pos := d.pB_pos

/-! ### Sizes -/

theorem extent_longN2 (a b : Nat) : (d.longN a b 2).extent = (d.stageA b).args.shape.inSize a :=
  ((d.stageA b).inSize a).symm

theorem extent_longN1_A (a b : Nat) :
    (d.longN a b 1).extent = (d.stageA b).args.shape.outSize a := by
  rw [Stage.outSize]
  show d.lenB0 b * d.n1 * d.lenA2 a * d.howmany = d.lenA2 a * (d.lenB0 b * d.n1) * d.howmany
  rw [Nat.mul_comm (d.lenA2 a)]

theorem extent_longN1_B (a b : Nat) :
    (d.longN a b 1).extent = (d.stageB a).args.shape.inSize b := by
  rw [Stage.inSize]
  show d.lenB0 b * d.n1 * d.lenA2 a * d.howmany = d.lenA2 a * d.lenB0 b * d.n1 * d.howmany
  ring

theorem extent_longN0 (a b : Nat) : (d.longN a b 0).extent = (d.stageB a).args.shape.outSize b := by
  rw [Stage.outSize]
  show d.n0 * d.lenB1 b * d.lenA2 a * d.howmany = d.lenB1 b * (d.lenA2 a * d.n0) * d.howmany
  ring

/-! ### Addresses -/

variable {d} {a b : Nat} {j : Fin 4 → Nat}

theorem addr_longN2 (h : (d.longN a b 2).InBox j) :
    (d.longN a b 2).addr j = (d.stageA b).args.shape.inAddr
      ((d.stageA b).row (j 0) (a * d.blockA1 + j 1)) (j 2) (j 3) := by
  have haddr : (d.longN a b 2).addr j = _ :=
    Extents.rowMajor_addr (storageOrder_injective d.flags 2) j
  refine haddr.trans (Eq.trans ?_ (Stage.inAddr_row (t := d.stageA b) (h 0) (h 1)).symm)
  by_cases hf : d.flags.has TRANSPOSED_LONG_N2 = true
  · rw [if_pos (by simp only [stageA, if_pos hf]; decide)]
    simp only [storageOrder, if_pos hf]
    show ((j 2 * d.lenB0 b + j 0) * d.lenA1 a + j 1) * d.howmany + j 3 =
      (j 2 * (d.lenB0 b * d.lenA1 a) + (j 0 * d.lenA1 a + j 1)) * d.howmany + j 3
    ring
  · rw [if_neg (by simp only [stageA, if_neg hf]; decide)]
    simp only [storageOrder, if_neg hf]
    rfl

theorem addr_longN1 : (d.longN a b 1).addr j =
    ((j 2 * d.lenB0 b + j 0) * d.n1 + j 1) * d.howmany + j 3 :=
  Extents.rowMajor_addr (storageOrder_injective d.flags 1) j

theorem addr_longN1_A (h : (d.longN a b 1).InBox j) :
    (d.longN a b 1).addr j = (d.stageA b).args.shape.outAddr
      (j 0 * d.n1 + j 1) (a * d.blockA2 + j 2) (j 3) := by
  refine Eq.trans ?_ (Stage.outAddr_col (t := d.stageA b) (h 2)).symm
  rw [addr_longN1, if_neg (by simp only [stageA]; split <;> decide)]
  show ((j 2 * d.lenB0 b + j 0) * d.n1 + j 1) * d.howmany + j 3 =
    (j 2 * (d.lenB0 b * d.n1) + (j 0 * d.n1 + j 1)) * d.howmany + j 3
  ring

theorem addr_longN1_B (h : (d.longN a b 1).InBox j) :
    (d.longN a b 1).addr j = (d.stageB a).args.shape.inAddr
      ((d.stageB a).row (j 2) (b * d.blockB0 + j 0)) (j 1) (j 3) := by
  refine Eq.trans ?_ (Stage.inAddr_row (t := d.stageB a) (h 2) (h 0)).symm
  rw [addr_longN1, if_neg (by simp only [stageB]; split <;> decide)]
  rfl

theorem addr_longN0 (hf : d.flags.has TRANSPOSED_LONG_N0 = false) (h : (d.longN a b 0).InBox j) :
    (d.longN a b 0).addr j = (d.stageB a).args.shape.outAddr
      (j 2 * d.n0 + j 0) (b * d.blockB1 + j 1) (j 3) := by
  have haddr : (d.longN a b 0).addr j = _ :=
    Extents.rowMajor_addr (storageOrder_injective d.flags 0) j
  refine haddr.trans (Eq.trans ?_ (Stage.outAddr_col (t := d.stageB a) (h 1)).symm)
  rw [if_neg (by simp only [stageB, hf]; decide)]
  simp only [storageOrder, hf]
  show ((j 1 * d.lenA2 a + j 2) * d.n0 + j 0) * d.howmany + j 3 =
    (j 1 * (d.lenA2 a * d.n0) + (j 2 * d.n0 + j 0)) * d.howmany + j 3
  ring

/-- With `TRANSPOSED_LONG_N0` the declared order is not the one in which FFTW stores the rows. -/
theorem addr_longN0_transposed (hf : d.flags.has TRANSPOSED_LONG_N0 = true) :
    (d.longN a b 0).addr j = ((j 0 * d.lenB1 b + j 1) * d.lenA2 a + j 2) * d.howmany + j 3 := by
  have haddr : (d.longN a b 0).addr j = _ :=
    Extents.rowMajor_addr (storageOrder_injective d.flags 0) j
  refine haddr.trans ?_
  simp only [storageOrder, hf]
  rfl

theorem outAddr_longN0_transposed (hf : d.flags.has TRANSPOSED_LONG_N0 = true)
    (h : (d.longN a b 0).InBox j) :
    (d.stageB a).args.shape.outAddr (j 2 * d.n0 + j 0) (b * d.blockB1 + j 1) (j 3) =
      ((j 2 * d.n0 + j 0) * d.lenB1 b + j 1) * d.howmany + j 3 := by
  refine (Stage.outAddr_col (t := d.stageB a) (h 1)).trans ?_
  rw [if_pos (by simp only [stageB, hf]; decide)]
  rfl

end Decomposition

end Underling
