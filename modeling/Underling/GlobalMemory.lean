import Underling.IntProducts
import Underling.LocalMemory

/-!
# Underling.GlobalMemory

The memory all processes need together, which they find with `MPI_Allreduce`.

* `global_memory_bounds`: every process gets the greatest and the least memory of a process and the
  sum, and the sum is enough for the whole domain.
-/

namespace Underling

/-- An `MPI_Op`. -/
inductive Op where
  | max
  | min
  | sum
deriving DecidableEq, Repr

namespace Op

/-- The operation on two values of type `unsigned long`. -/
def combine : Op → Nat → Nat → Nat
  | max, x, y => Max.max x y
  | min, x, y => Min.min x y
  | sum, x, y => (x + y) % 2 ^ 64

/-- What `MPI_Allreduce` computes from the values the processes send, by rank. -/
def reduce (op : Op) : List Nat → Nat
  | [] => 0
  | x :: xs => xs.foldl op.combine x

end Op

/-- `underling_local_memory_allreduce`; `allreduce` is what `MPI_Allreduce` delivers for the value
this process sends, or the text of the error it returns. -/
def localMemoryAllreduce (allreduce : Op → Nat → Except String Nat) (grid : Option Grid)
    (problem : Option Problem) (op : Op) : C Nat := do
  let some _ := grid | C.errorVal "grid == NULL" .einval 0
  let some problem := problem | C.errorVal "problem == NULL" .einval 0
  let sendbuf ← localMemory (some problem)
  match allreduce op sendbuf with
  | .ok retval => return retval
  | .error reason => C.errorVal reason .efailed 0

def localMemoryMaximum (allreduce : Op → Nat → Except String Nat) (grid : Option Grid)
    (problem : Option Problem) : C Nat :=
  localMemoryAllreduce allreduce grid problem .max

def localMemoryMinimum (allreduce : Op → Nat → Except String Nat) (grid : Option Grid)
    (problem : Option Problem) : C Nat :=
  localMemoryAllreduce allreduce grid problem .min

def globalMemory (allreduce : Op → Nat → Except String Nat) (grid : Option Grid)
    (problem : Option Problem) : C Nat :=
  localMemoryAllreduce allreduce grid problem .sum

/-! ## Reductions -/

theorem reduce_max {xs : List Nat} (h : xs ≠ []) : IsGreatest {x | x ∈ xs} (Op.max.reduce xs) := by
  cases xs with
  | nil => exact absurd rfl h
  | cons x xs =>
    have hmax : (x :: xs).max? = some (Op.max.reduce (x :: xs)) := rfl
    exact List.max?_eq_some_iff.mp hmax

theorem reduce_min {xs : List Nat} (h : xs ≠ []) : IsLeast {x | x ∈ xs} (Op.min.reduce xs) := by
  cases xs with
  | nil => exact absurd rfl h
  | cons x xs =>
    have hmin : (x :: xs).min? = some (Op.min.reduce (x :: xs)) := rfl
    exact List.min?_eq_some_iff.mp hmin

theorem foldl_sum (x : Nat) (xs : List Nat) :
    xs.foldl Op.sum.combine x % 2 ^ 64 = (x + xs.sum) % 2 ^ 64 := by
  induction xs generalizing x with
  | nil => rfl
  | cons y xs ih =>
    rw [List.foldl_cons, ih, List.sum_cons, Op.combine, Nat.mod_add_mod, Nat.add_assoc]

theorem foldl_sum_lt {x : Nat} (hx : x < 2 ^ 64) (xs : List Nat) :
    xs.foldl Op.sum.combine x < 2 ^ 64 := by
  induction xs generalizing x with
  | nil => exact hx
  | cons y xs ih => exact ih (Nat.mod_lt _ (by decide))

/-- Sums wrap. -/
theorem reduce_sum {xs : List Nat} (h : ∀ x ∈ xs, x < 2 ^ 64) :
    Op.sum.reduce xs = xs.sum % 2 ^ 64 := by
  cases xs with
  | nil => rfl
  | cons x xs =>
    have hlt := foldl_sum_lt (h x (by simp)) xs
    rw [Op.reduce, ← Nat.mod_eq_of_lt hlt, foldl_sum, List.sum_cons]

/-! ## All processes -/

namespace Job

variable {env : Env} (job : Job env)

/-- The processes in the order of their ranks. -/
def procs : List (Nat × Nat) := List.range job.pA ×ˢ List.range job.pB

theorem mem_procs {a b : Nat} : (a, b) ∈ job.procs ↔ a < job.pA ∧ b < job.pB := by
  simp [procs]

/-- What the processes send. -/
def memories : List Nat := job.procs.map fun r => (job.problem r.1 r.2).localMemory

/-- Every process gets the reduction of what all processes send. -/
def Allreduces (allreduce : Nat → Nat → Op → Nat → Except String Nat) : Prop :=
  ∀ a b op, a < job.pA → b < job.pB →
    allreduce a b op (job.problem a b).localMemory = .ok (op.reduce job.memories)

theorem memories_ne_nil : job.memories ≠ [] := by
  have h := job.mem_procs.mpr ⟨job.pA_pos, job.pB_pos⟩
  intro hnil
  rw [List.map_eq_nil_iff.mp hnil] at h
  cases h

theorem sum_memories : job.memories.sum =
    ∑ a ∈ Finset.range job.pA, ∑ b ∈ Finset.range job.pB, (job.problem a b).localMemory := by
  have hnodup : job.procs.Nodup := List.nodup_range.product List.nodup_range
  have hset : job.procs.toFinset = Finset.range job.pA ×ˢ Finset.range job.pB := by
    ext r
    rw [List.mem_toFinset, Finset.mem_product, Finset.mem_range, Finset.mem_range]
    exact job.mem_procs
  rw [memories, ← List.sum_toFinset _ hnodup, hset, Finset.sum_product]

/-- Together the processes have room for the whole domain. -/
theorem le_sum_memories :
    job.decomp.howmany * job.decomp.n0 * job.decomp.n1 * job.decomp.n2 ≤ job.memories.sum := by
  rw [job.sum_memories, ← job.sum_extent 0]
  refine Finset.sum_le_sum fun a ha => Finset.sum_le_sum fun b hb => ?_
  exact job.extent_le (Finset.mem_range.mp ha) (Finset.mem_range.mp hb) 0

end Job

theorem localMemoryAllreduce_run {env : Env} {job : Job env}
    {allreduce : Nat → Nat → Op → Nat → Except String Nat} (h : job.Allreduces allreduce)
    {a b : Nat} (ha : a < job.pA) (hb : b < job.pB) (op : Op) (w : World) :
    localMemoryAllreduce (allreduce a b) (some (job.grid a b)) (some (job.problem a b)) op w =
      .ok (op.reduce job.memories, w) := by
  have hrun := h a b op ha hb
  show (match allreduce a b op (job.problem a b).localMemory with
    | .ok retval => pure retval
    | .error reason => C.errorVal reason .efailed 0 : C Nat) w = _
  rw [hrun]
  rfl

/-- When `MPI_Allreduce` works, every process gets the greatest and the least memory of a process
and the sum of all of them, which, as long as it does not wrap, is at least the size of the domain
and lies between the number of processes times either bound. -/
theorem global_memory_bounds {env : Env} (job : Job env)
    {allreduce : Nat → Nat → Op → Nat → Except String Nat} (h : job.Allreduces allreduce) :
    ∃ greatest least total,
      IsGreatest {m | m ∈ job.memories} greatest ∧ IsLeast {m | m ∈ job.memories} least ∧
        (job.memories.sum < 2 ^ 64 → job.howmany * job.n0 * job.n1 * job.n2 ≤ (total : Nat) ∧
          job.pA * job.pB * least ≤ total ∧ total ≤ job.pA * job.pB * greatest) ∧
        ∀ a b w, a < job.pA → b < job.pB →
          localMemoryMaximum (allreduce a b) (some (job.grid a b)) (some (job.problem a b)) w =
              .ok (greatest, w) ∧
            localMemoryMinimum (allreduce a b) (some (job.grid a b)) (some (job.problem a b)) w =
              .ok (least, w) ∧
            globalMemory (allreduce a b) (some (job.grid a b)) (some (job.problem a b)) w =
              .ok (total, w) := by
  have hmax := reduce_max job.memories_ne_nil
  have hmin := reduce_min job.memories_ne_nil
  have hlen : job.memories.length = job.pA * job.pB := by
    simp [Job.memories, Job.procs, List.length_product]
  refine ⟨_, _, _, hmax, hmin, fun hsum => ?_, fun a b w ha hb =>
    ⟨localMemoryAllreduce_run h ha hb .max w, localMemoryAllreduce_run h ha hb .min w,
      localMemoryAllreduce_run h ha hb .sum w⟩⟩
  have hlt : ∀ m ∈ job.memories, m < 2 ^ 64 := fun m hm =>
    Nat.lt_of_le_of_lt (List.le_sum_of_mem hm) hsum
  rw [reduce_sum hlt, Nat.mod_eq_of_lt hsum, ← hlen, ← job.cast_values]
  refine ⟨by exact_mod_cast job.le_sum_memories, ?_, ?_⟩
  · rw [← smul_eq_mul]
    exact List.card_nsmul_le_sum _ _ hmin.2
  · rw [← smul_eq_mul]
    exact List.sum_le_card_nsmul _ _ hmax.2

/-- On `2 × 3` processes. -/
theorem global_memory_bounds_six :
    ∃ (job : Job .reference) (allreduce : Nat → Nat → Op → Nat → Except String Nat),
      (job.pA = 2 ∧ job.pB = 3) ∧ job.Allreduces allreduce ∧ ∃ greatest least total,
        IsGreatest {m | m ∈ job.memories} greatest ∧ IsLeast {m | m ∈ job.memories} least ∧
        (job.memories.sum < 2 ^ 64 → job.howmany * job.n0 * job.n1 * job.n2 ≤ (total : Nat) ∧
          job.pA * job.pB * least ≤ total ∧ total ≤ job.pA * job.pB * greatest) ∧
        ∀ a b w, a < job.pA → b < job.pB →
          localMemoryMaximum (allreduce a b) (some (job.grid a b)) (some (job.problem a b)) w =
              .ok (greatest, w) ∧
            localMemoryMinimum (allreduce a b) (some (job.grid a b)) (some (job.problem a b)) w =
              .ok (least, w) ∧
            globalMemory (allreduce a b) (some (job.grid a b)) (some (job.problem a b)) w =
              .ok (total, w) := by
  obtain ⟨job, -, hp, -⟩ := exists_admitted 4 5 3 2 3 2 TRANSPOSED_LONG_N2 (by decide)
  have h : job.Allreduces fun _ _ op _ => .ok (op.reduce job.memories) := fun _ _ _ _ _ => rfl
  exact ⟨job, _, hp, h, global_memory_bounds job h⟩

end Underling
