import Underling.Walk

/-!
# Underling.LocalMemory

The memory a process needs. What a transpose takes in and delivers on a process is counted the way
FFTW distributes it: by the blocks of the transpose and the rank in its communicator.

* `Job.transpose_sizes`: these are the extents of the pencils the transpose goes between.
* `local_memory_suffices`: so `underling_local_memory` is never below the optimum, the largest
  extent of the three pencils.
-/

namespace Underling

open RowTranspose

def localMemory (problem : Option Problem) : C Nat := do
  let some problem := problem | C.errorVal "problem == NULL" .einval 0
  return problem.localMemory

/-- `underling_local_memory_optimum`, which does not check its argument. -/
def localMemoryOptimum (problem : Option Problem) : C Nat := do
  let some problem := problem | throw .nullRead
  let retval := (problem.longN 0).extent
  let retval := if retval < (problem.longN 1).extent then (problem.longN 1).extent else retval
  let retval := if retval < (problem.longN 2).extent then (problem.longN 2).extent else retval
  return retval

namespace Transpose

/-- The values FFTW takes in on this process: its rows, `d1` tuples each. -/
def takesIn (t : Transpose) : Nat := Blocks.len t.d0 t.block0 t.comm.rank * t.d1 * t.howmany

/-- The values FFTW delivers on this process: its columns, `d0` tuples each. -/
def delivers (t : Transpose) : Nat := Blocks.len t.d1 t.block1 t.comm.rank * t.d0 * t.howmany

theorem sizes_of_trivial {t : Transpose} (h : t.Trivial) : t.takesIn = 0 ∧ t.delivers = 0 := by
  simp only [takesIn, delivers]
  rcases h with h | h | h <;> simp [h]

theorem sizes_le {env : Env} {args : TransposeArgs} {comm : Comm} {t : Transpose}
    (h : TransposeFor env args comm t) {p : Nat} (hacc : ¬ args.Trivial → args.Accepted p) :
    t.takesIn ≤ t.details.localSize ∧ t.delivers ≤ t.details.localSize := by
  by_cases ht : args.Trivial
  · obtain ⟨hin, hout⟩ := sizes_of_trivial (t := t) (by rw [h.args_eq]; exact ht)
    omega
  have hb0 : fftwBlock args.d0 args.block0 t.comm.size = args.block0 :=
    if_neg (hacc ht).block0_pos.ne'
  have hb1 : fftwBlock args.d1 args.block1 t.comm.size = args.block1 :=
    if_neg (hacc ht).block1_pos.ne'
  have hge := env.allocSize_ge args.d0 args.d1 args.howmany args.block0 args.block1 t.comm.size
    t.comm.rank
  rw [hb0, hb1] at hge
  rw [h.details_eq ht, takesIn, delivers, h.args_eq]
  exact hge

end Transpose

theorem localMemory_some (p : Problem) (w : World) :
    localMemory (some p) w = .ok (p.localMemory, w) := rfl

theorem localMemoryOptimum_some (p : Problem) (w : World) :
    ∃ m, localMemoryOptimum (some p) w = .ok (m, w) ∧
      IsGreatest (Set.range fun i => (p.longN i).extent) m := by
  refine ⟨max (max (p.longN 0).extent (p.longN 1).extent) (p.longN 2).extent, ?_, ?_, ?_⟩
  · simp only [max_def_lt]
    rfl
  · rcases max_choice (max (p.longN 0).extent (p.longN 1).extent) (p.longN 2).extent with h | h
    · rw [h]
      rcases max_choice (p.longN 0).extent (p.longN 1).extent with h' | h'
      · exact ⟨0, h'.symm⟩
      · exact ⟨1, h'.symm⟩
    · exact ⟨2, h.symm⟩
  · rintro _ ⟨i, rfl⟩
    fin_cases i <;> simp

namespace Job

variable {env : Env} (job : Job env) {a b : Nat}

theorem transposeFor (ha : a < job.pA) (hb : b < job.pB) (move : Move) :
    ∃ comm, TransposeFor env (job.decomp.args move a b) comm
      (move.transpose (job.problem a b)) := by
  have hargs := job.args_eq ha hb move
  have hp := (job.created ha hb).problem
  rw [← hargs]
  cases move with
  | n2n1 => exact ⟨_, hp.backwardA.args_eq ▸ hp.backwardA⟩
  | n1n0 => exact ⟨_, hp.backwardB.args_eq ▸ hp.backwardB⟩
  | n0n1 => exact ⟨_, hp.forwardB.args_eq ▸ hp.forwardB⟩
  | n1n2 => exact ⟨_, hp.forwardA.args_eq ▸ hp.forwardA⟩

/-- A transpose takes in the pencil it starts from and delivers the one it ends in. -/
theorem transpose_sizes (ha : a < job.pA) (hb : b < job.pB) (move : Move) :
    (move.transpose (job.problem a b)).takesIn =
        ((job.problem a b).longN move.source).extent ∧
      (move.transpose (job.problem a b)).delivers =
        ((job.problem a b).longN move.target).extent := by
  rw [job.longN_eq ha hb, Decomposition.extent_source, Decomposition.extent_target,
    Transpose.takesIn, Transpose.delivers, job.args_eq ha hb, (job.comm_eq ha hb move).2.1]
  exact ⟨rfl, rfl⟩

theorem localSize_le (ha : a < job.pA) (hb : b < job.pB) (move : Move) :
    (move.transpose (job.problem a b)).details.localSize ≤ (job.problem a b).localMemory := by
  rw [(job.created ha hb).problem.localMemory_eq]
  cases move <;> simp [Move.transpose]

theorem extent_le (ha : a < job.pA) (hb : b < job.pB) (i : Fin 3) :
    ((job.problem a b).longN i).extent ≤ (job.problem a b).localMemory := by
  have hin : ∀ move : Move, ((job.problem a b).longN move.source).extent ≤
      (job.problem a b).localMemory := by
    intro move
    obtain ⟨comm, hfor⟩ := job.transposeFor ha hb move
    rw [← (job.transpose_sizes ha hb move).1]
    exact (Transpose.sizes_le hfor (job.decomp.accepted move a b)).1.trans
      (job.localSize_le ha hb move)
  fin_cases i
  · exact hin .n0n1
  · exact hin .n1n0
  · exact hin .n2n1

end Job

/-- On every process, what each transpose takes in and delivers are the extents of the pencils it
goes between, both zero for a trivial one, and the memory asked for is at least the optimum, the
largest extent. -/
theorem local_memory_suffices {env : Env} (job : Job env) {a b : Nat} (ha : a < job.pA)
    (hb : b < job.pB) (w : World) :
    (∀ move : Move,
      (move.transpose (job.problem a b)).takesIn =
          ((job.problem a b).longN move.source).extent ∧
        (move.transpose (job.problem a b)).delivers =
          ((job.problem a b).longN move.target).extent ∧
        ((move.transpose (job.problem a b)).Trivial →
          ((job.problem a b).longN move.source).extent = 0 ∧
            ((job.problem a b).longN move.target).extent = 0)) ∧
      ∃ m optimum, localMemory (some (job.problem a b)) w = .ok (m, w) ∧
        localMemoryOptimum (some (job.problem a b)) w = .ok (optimum, w) ∧
        IsGreatest (Set.range fun i => ((job.problem a b).longN i).extent) optimum ∧
        optimum ≤ m := by
  refine ⟨fun move => ?_, ?_⟩
  · obtain ⟨hin, hout⟩ := job.transpose_sizes ha hb move
    refine ⟨hin, hout, fun ht => ?_⟩
    rw [← hin, ← hout]
    exact Transpose.sizes_of_trivial ht
  · obtain ⟨optimum, hrun, hmax⟩ := localMemoryOptimum_some (job.problem a b) w
    refine ⟨_, optimum, localMemory_some _ w, hrun, hmax, ?_⟩
    obtain ⟨i, hi⟩ := hmax.1
    rw [← hi]
    exact job.extent_le ha hb i

/-- On `2 × 3` processes with partial blocks, the last process of each direction. -/
theorem local_memory_suffices_partial :
    ∃ job : Job .reference, (job.n0 = 4 ∧ job.n1 = 5 ∧ job.n2 = 3) ∧
      (job.pA = 2 ∧ job.pB = 3) ∧ ∀ w,
        (∀ move : Move,
          (move.transpose (job.problem 1 2)).takesIn =
              ((job.problem 1 2).longN move.source).extent ∧
            (move.transpose (job.problem 1 2)).delivers =
              ((job.problem 1 2).longN move.target).extent ∧
            ((move.transpose (job.problem 1 2)).Trivial →
              ((job.problem 1 2).longN move.source).extent = 0 ∧
                ((job.problem 1 2).longN move.target).extent = 0)) ∧
          ∃ m optimum, localMemory (some (job.problem 1 2)) w = .ok (m, w) ∧
            localMemoryOptimum (some (job.problem 1 2)) w = .ok (optimum, w) ∧
            IsGreatest (Set.range fun i => ((job.problem 1 2).longN i).extent) optimum ∧
            optimum ≤ m := by
  obtain ⟨job, hn, hp, -⟩ := exists_admitted 4 5 3 2 3 2 TRANSPOSED_LONG_N2 (by decide)
  have hpA : 1 < job.pA := by rw [hp.1]; decide
  have hpB : 2 < job.pB := by rw [hp.2]; decide
  exact ⟨job, hn, hp, fun w => local_memory_suffices job hpA hpB w⟩

end Underling
