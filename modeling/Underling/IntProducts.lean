import Underling.Cover
import Underling.Handles

/-!
# Underling.IntProducts

The products of `int`s that `underling_problem_create` and `underling_global_memory_optimum`
evaluate, each with the check that it is an `int`.

* `int_products_exact`: laying out a problem whose pencils all fit an `int` never overflows, on any
  process.
* `global_optimum_iff`: the number of values of the whole domain is returned exactly when it fits
  an `int` too.
-/

namespace Underling

open Strided

/-- A product of `int`s, undefined where it overflows. -/
def mulInt (x y : Nat) : Option Nat := if x * y ≤ INT_MAX then some (x * y) else none

theorem mulInt_of_le {x y : Nat} (h : x * y ≤ INT_MAX) : mulInt x y = some (x * y) := if_pos h

theorem mulInt_bind {α : Type} {x y : Nat} {f : Nat → Option α} (h : x * y ≤ INT_MAX) :
    (mulInt x y >>= f) = f (x * y) := by
  rw [mulInt_of_le h]
  rfl

theorem mulInt_eq_some_iff {x y m : Nat} : mulInt x y = some m ↔ x * y ≤ INT_MAX ∧ x * y = m := by
  unfold mulInt
  split <;> simp_all

/-! ## Laying out a problem -/

/-- The strides and the extent of a pencil. -/
def intRowMajor (e : Extents) : Option Extents := do
  let stride := Function.update e.stride (e.order 0) 1
  let s ← mulInt (stride (e.order 0)) (e.size (e.order 0))
  let stride := Function.update stride (e.order 1) s
  let s ← mulInt (stride (e.order 1)) (e.size (e.order 1))
  let stride := Function.update stride (e.order 2) s
  let s ← mulInt (stride (e.order 2)) (e.size (e.order 2))
  let stride := Function.update stride (e.order 3) s
  let n ← mulInt (e.size 0) (e.size 1)
  let n ← mulInt n (e.size 2)
  let n ← mulInt n (e.size 3)
  return { e with stride := stride, extent := n }

/-- The products of one process: its pencils and the sizes of its transposes. -/
structure IntProducts where
  longN : Fin 3 → Extents
  pAD0 : Nat
  pABlock0 : Nat
  pBD0 : Nat
  pBBlock0 : Nat

/-- `underling_problem_create`, from the strides to the blocks of the transposes. -/
def intProducts (n : Fin 3 → Nat) (longN : Fin 3 → Extents) : Option IntProducts := do
  let e0 ← intRowMajor (longN 0)
  let e1 ← intRowMajor (longN 1)
  let e2 ← intRowMajor (longN 2)
  let pAD0 ← mulInt (e2.size 0) (n 1)
  let pABlock0 ← mulInt (e2.size 0) (e2.size 1)
  let pBD0 ← mulInt (e1.size 2) (n 0)
  let pBBlock0 ← mulInt (e1.size 2) (e1.size 0)
  return ⟨![e0, e1, e2], pAD0, pABlock0, pBD0, pBBlock0⟩

/-- A pencil before its strides and its extent are computed. -/
def Extents.unlaid (e : Extents) : Extents := { e with stride := fun _ => 0, extent := 0 }

/-- Every product of some of the sizes is an `int`. -/
def FitsInt (size : Fin 4 → Nat) : Prop := ∀ S : Finset (Fin 4), ∏ k ∈ S, size k ≤ INT_MAX

theorem FitsInt.of_le {size size' : Fin 4 → Nat} (hle : ∀ k, size k ≤ size' k)
    (hpos : ∀ k, 0 < size' k) (h : ∏ k, size' k ≤ INT_MAX) : FitsInt size := by
  intro S
  calc ∏ k ∈ S, size k ≤ ∏ k ∈ S, size' k := Finset.prod_le_prod' fun k _ => hle k
    _ ≤ ∏ k, size' k := Finset.prod_le_univ_prod_of_one_le' hpos
    _ ≤ INT_MAX := h

namespace FitsInt

variable {size : Fin 4 → Nat}

theorem mul (h : FitsInt size) {j k : Fin 4} (hjk : j ≠ k) : size j * size k ≤ INT_MAX := by
  have := h {j, k}
  rwa [Finset.prod_pair hjk] at this

theorem below (h : FitsInt size) {order : Fin 4 → Fin 4} (hinj : Function.Injective order)
    (k : Nat) : Layout.below size order k ≤ INT_MAX := by
  rw [Layout.below_eq_prod, ← Finset.prod_image hinj.injOn]
  exact h _

end FitsInt

theorem intRowMajor_eq {start size : Fin 4 → Nat} {order : Fin 4 → Fin 4}
    (hinj : Function.Injective order) (h : FitsInt size) :
    intRowMajor (Extents.rowMajor start size order).unlaid =
      some (Extents.rowMajor start size order) := by
  let e : Layout 4 := { start := start, size := size, stride := fun _ => 0, order := order }
  let s : Nat → Fin 4 → Nat := e.chain (Function.update e.stride (order 0) 1)
  have hstride : ∀ k (hk : k < 4), s k (order ⟨k, hk⟩) * size (order ⟨k, hk⟩) ≤ INT_MAX := by
    intro k hk
    have hs : s k (order ⟨k, hk⟩) = 1 * Layout.below size order k :=
      Layout.chain_order (e := e) hinj (fun _ => Function.update_self _ _ _) k k hk (Nat.le_refl k)
    have hbelow := h.below hinj (k + 1)
    rw [Layout.below, dif_pos hk] at hbelow
    rw [hs, Nat.one_mul]
    exact hbelow
  have hextent : ∀ k (hk : k < 4), Layout.below size id k * size ⟨k, hk⟩ ≤ INT_MAX := by
    intro k hk
    have hbelow := h.below Function.injective_id (k + 1)
    rwa [Layout.below, dif_pos hk] at hbelow
  refine (mulInt_bind (hstride 0 (by decide))).trans ?_
  refine (mulInt_bind (hstride 1 (by decide))).trans ?_
  refine (mulInt_bind (hstride 2 (by decide))).trans ?_
  refine (mulInt_bind (h.mul (by decide))).trans ?_
  refine (mulInt_bind ?_).trans ((mulInt_bind ?_).trans rfl)
  · have hsize : size 0 * size 1 * size 2 ≤ INT_MAX := by
      simpa [Layout.below] using hextent 2 (by decide)
    exact hsize
  · have hsize : size 0 * size 1 * size 2 * size 3 ≤ INT_MAX := by
      simpa [Layout.below] using hextent 3 (by decide)
    exact hsize

namespace Decomposition

variable (d : Decomposition)

/-- A process that has a share of everything, at least as large in each direction. -/
theorem exists_full (hh : 0 < d.howmany) {a b : Nat} (ha : a < d.pA) (hb : b < d.pB) (i : Fin 3) :
    ∃ a' b', a' < d.pA ∧ b' < d.pB ∧
      ∀ k, (d.longN a b i).size k ≤ (d.longN a' b' i).size k ∧ 0 < (d.longN a' b' i).size k := by
  have h0 := d.n0_pos
  have h1 := d.n1_pos
  have h2 := d.n2_pos
  obtain ⟨bB0, hbB0, hB0⟩ : ∃ b' < d.pB, d.lenB0 b ≤ d.lenB0 b' ∧ 0 < d.lenB0 b' :=
    Blocks.exists_len_pos d.n0_pos hb
  obtain ⟨bB1, hbB1, hB1⟩ : ∃ b' < d.pB, d.lenB1 b ≤ d.lenB1 b' ∧ 0 < d.lenB1 b' :=
    Blocks.exists_len_pos d.n1_pos hb
  obtain ⟨aA1, haA1, hA1⟩ : ∃ a' < d.pA, d.lenA1 a ≤ d.lenA1 a' ∧ 0 < d.lenA1 a' :=
    Blocks.exists_len_pos d.n1_pos ha
  obtain ⟨aA2, haA2, hA2⟩ : ∃ a' < d.pA, d.lenA2 a ≤ d.lenA2 a' ∧ 0 < d.lenA2 a' :=
    Blocks.exists_len_pos d.n2_pos ha
  fin_cases i
  · refine ⟨aA2, bB1, haA2, hbB1, fun k => ?_⟩
    fin_cases k
    · exact ⟨Nat.le_refl _, h0⟩
    · exact hB1
    · exact hA2
    · exact ⟨Nat.le_refl _, hh⟩
  · refine ⟨aA2, bB0, haA2, hbB0, fun k => ?_⟩
    fin_cases k
    · exact hB0
    · exact ⟨Nat.le_refl _, h1⟩
    · exact hA2
    · exact ⟨Nat.le_refl _, hh⟩
  · refine ⟨aA1, bB0, haA1, hbB0, fun k => ?_⟩
    fin_cases k
    · exact hB0
    · exact hA1
    · exact ⟨Nat.le_refl _, h2⟩
    · exact ⟨Nat.le_refl _, hh⟩

theorem fitsInt (hh : 0 < d.howmany)
    (hfit : ∀ a b i, a < d.pA → b < d.pB → ∏ k, (d.longN a b i).size k ≤ INT_MAX) {a b : Nat}
    (ha : a < d.pA) (hb : b < d.pB) (i : Fin 3) : FitsInt (d.longN a b i).size := by
  obtain ⟨a', b', ha', hb', hk⟩ := d.exists_full hh ha hb i
  exact .of_le (fun k => (hk k).1) (fun k => (hk k).2) (hfit a' b' i ha' hb')

theorem intProducts_eq {a b : Nat} (h : ∀ i, FitsInt (d.longN a b i).size) :
    intProducts ![d.n0, d.n1, d.n2] (fun i => (d.longN a b i).unlaid) =
      some ⟨d.longN a b, d.lenB0 b * d.n1, d.lenB0 b * d.lenA1 a, d.lenA2 a * d.n0,
        d.lenA2 a * d.lenB0 b⟩ := by
  have hlong : ∀ i, intRowMajor (d.longN a b i).unlaid = some (d.longN a b i) := by
    intro i
    have hi := h i
    fin_cases i
    · exact intRowMajor_eq (storageOrder_injective _ _) hi
    · exact intRowMajor_eq (storageOrder_injective _ _) hi
    · exact intRowMajor_eq (storageOrder_injective _ _) hi
  have hpencils : ![d.longN a b 0, d.longN a b 1, d.longN a b 2] = d.longN a b := by
    funext i
    fin_cases i <;> rfl
  rw [intProducts, hlong, hlong, hlong]
  refine (mulInt_bind ((h 1).mul (j := 0) (k := 1) (by decide))).trans ?_
  refine (mulInt_bind ((h 2).mul (j := 0) (k := 1) (by decide))).trans ?_
  refine (mulInt_bind ((h 0).mul (j := 2) (k := 0) (by decide))).trans ?_
  refine (mulInt_bind ((h 1).mul (j := 2) (k := 0) (by decide))).trans ?_
  rw [hpencils]
  rfl

end Decomposition

namespace Decomposition

variable {d : Decomposition}

theorem prod_size_le {m : Nat} (h0 : d.n0 * d.blockB1 * d.blockA2 * d.howmany ≤ m)
    (h1 : d.blockB0 * d.n1 * d.blockA2 * d.howmany ≤ m)
    (h2 : d.blockB0 * d.blockA1 * d.n2 * d.howmany ≤ m) (a b : Nat) (i : Fin 3) :
    ∏ k, (d.longN a b i).size k ≤ m := by
  have hB0 : d.lenB0 b ≤ d.blockB0 := Blocks.len_le_block _ _ _
  have hB1 : d.lenB1 b ≤ d.blockB1 := Blocks.len_le_block _ _ _
  have hA1 : d.lenA1 a ≤ d.blockA1 := Blocks.len_le_block _ _ _
  have hA2 : d.lenA2 a ≤ d.blockA2 := Blocks.len_le_block _ _ _
  rw [Fin.prod_univ_four]
  fin_cases i
  · calc d.n0 * d.lenB1 b * d.lenA2 a * d.howmany ≤ d.n0 * d.blockB1 * d.blockA2 * d.howmany := by
          gcongr
      _ ≤ m := h0
  · calc d.lenB0 b * d.n1 * d.lenA2 a * d.howmany ≤ d.blockB0 * d.n1 * d.blockA2 * d.howmany := by
          gcongr
      _ ≤ m := h1
  · calc d.lenB0 b * d.lenA1 a * d.n2 * d.howmany ≤ d.blockB0 * d.blockA1 * d.n2 * d.howmany := by
          gcongr
      _ ≤ m := h2

end Decomposition

/-- Where the pencils of all processes fit an `int`, so does every product on every process, and
the results are exact. -/
theorem int_products_exact {env : Env} (job : Job env) (hh : 1 ≤ job.howmany)
    (hfit : ∀ a b i, a < job.pA → b < job.pB →
      ∏ k, ((job.problem a b).longN i).size k ≤ INT_MAX) {a b : Nat} (ha : a < job.pA)
    (hb : b < job.pB) :
    intProducts (job.grid a b).n (fun i => ((job.problem a b).longN i).unlaid) =
      some
        { longN := (job.problem a b).longN
          pAD0 := (job.problem a b).backwardA.d0
          pABlock0 := (pABlock (job.problem a b).longN).1
          pBD0 := (job.problem a b).backwardB.d0
          pBBlock0 := (pBBlock (job.problem a b).longN).1 } := by
  have hpos : 0 < job.decomp.howmany := by
    have : job.decomp.howmany = job.howmany.toNat := rfl
    omega
  have hsizes : ∀ a b i, a < job.decomp.pA → b < job.decomp.pB →
      ∏ k, (job.decomp.longN a b i).size k ≤ INT_MAX := by
    intro a b i ha hb
    have := hfit a b i ha hb
    rwa [job.longN_eq ha hb] at this
  have hproducts := job.decomp.intProducts_eq fun i => job.decomp.fitsInt hpos hsizes ha hb i
  have hA : (job.problem a b).backwardA.d0 = job.decomp.lenB0 b * job.decomp.n1 :=
    congrArg TransposeArgs.d0 (job.backwardA_eq ha hb)
  have hB : (job.problem a b).backwardB.d0 = job.decomp.lenA2 a * job.decomp.n0 :=
    congrArg TransposeArgs.d0 (job.backwardB_eq ha hb)
  rw [hA, hB, (job.created ha hb).grid.n_eq, job.longN_eq ha hb]
  exact hproducts

/-- On `2 × 3` processes the last one has no share of `n2`. -/
theorem int_products_exact_empty :
    ∃ job : Job .reference, (job.n0 = 4 ∧ job.n1 = 5 ∧ job.n2 = 1) ∧
      (job.pA = 2 ∧ job.pB = 3) ∧ job.flags = TRANSPOSED_LONG_N0 ∧
      intProducts (job.grid 1 2).n (fun i => ((job.problem 1 2).longN i).unlaid) =
        some
          { longN := (job.problem 1 2).longN
            pAD0 := (job.problem 1 2).backwardA.d0
            pABlock0 := (pABlock (job.problem 1 2).longN).1
            pBD0 := (job.problem 1 2).backwardB.d0
            pBBlock0 := (pBBlock (job.problem 1 2).longN).1 } := by
  obtain ⟨job, hn, hp, hh, hf, -⟩ := exists_admitted 4 5 1 2 3 2 TRANSPOSED_LONG_N0 (by decide)
  refine ⟨job, hn, hp, hf, int_products_exact job (by omega) ?_ (by omega) (by omega)⟩
  intro a b i ha hb
  rw [job.longN_eq ha hb]
  refine Decomposition.prod_size_le ?_ ?_ ?_ a b i <;>
    simp only [Decomposition.blockA1, Decomposition.blockA2, Decomposition.blockB0,
      Decomposition.blockB1, Job.decomp, hn, hp, hh] <;> decide

/-! ## The global optimum -/

/-- `underling_global_memory_optimum`, with the product of `int`s it evaluates. -/
def globalMemoryOptimum (grid : Option Grid) (problem : Option Problem) : C (Option Nat) := do
  let some grid := grid | C.errorVal "grid == NULL" .einval (some 0)
  let some problem := problem | C.errorVal "problem == NULL" .einval (some 0)
  return do
    let m ← mulInt problem.howmany (grid.n 0)
    let m ← mulInt m (grid.n 1)
    mulInt m (grid.n 2)

/-- On every process the function returns what all processes hold together in each orientation,
which is the size of the whole domain. -/
def GlobalOptimum {env : Env} (job : Job env) : Prop :=
  ∀ a b w, a < job.pA → b < job.pB → ∃ m : Nat,
    globalMemoryOptimum (some (job.grid a b)) (some (job.problem a b)) w = .ok (some m, w) ∧
      (m : Int) = job.howmany * job.n0 * job.n1 * job.n2 ∧
      ∀ i : Fin 3, ∑ a ∈ Finset.range job.pA, ∑ b ∈ Finset.range job.pB,
        ((job.problem a b).longN i).extent = m

theorem mulInt_four_eq_some_iff (h n0 : Nat) {n1 n2 m : Nat} (h1 : 0 < n1) (h2 : 0 < n2) :
    (do let m ← mulInt h n0; let m ← mulInt m n1; mulInt m n2) = some m ↔
      h * n0 * n1 * n2 ≤ INT_MAX ∧ h * n0 * n1 * n2 = m := by
  have hle1 : h * n0 ≤ h * n0 * n1 := Nat.le_mul_of_pos_right _ h1
  have hle2 : h * n0 * n1 ≤ h * n0 * n1 * n2 := Nat.le_mul_of_pos_right _ h2
  constructor
  · intro hm
    simp only [Option.bind_eq_bind, Option.bind_eq_some_iff, mulInt_eq_some_iff] at hm
    obtain ⟨_, ⟨-, rfl⟩, _, ⟨-, rfl⟩, hlast⟩ := hm
    exact hlast
  · rintro ⟨hle, rfl⟩
    refine (mulInt_bind (by omega)).trans ((mulInt_bind (by omega)).trans ?_)
    exact mulInt_of_le hle

namespace Job

variable {env : Env} (job : Job env)

theorem globalMemoryOptimum_eq_iff {a b : Nat} (ha : a < job.pA) (hb : b < job.pB) (w : World)
    (m : Nat) :
    globalMemoryOptimum (some (job.grid a b)) (some (job.problem a b)) w = .ok (some m, w) ↔
      job.howmany * job.n0 * job.n1 * job.n2 ≤ INT_MAX ∧
        (m : Int) = job.howmany * job.n0 * job.n1 * job.n2 := by
  have hrun : globalMemoryOptimum (some (job.grid a b)) (some (job.problem a b)) w =
      .ok ((do
        let m ← mulInt (job.problem a b).howmany ((job.grid a b).n 0)
        let m ← mulInt m ((job.grid a b).n 1)
        mulInt m ((job.grid a b).n 2)), w) := rfl
  have hhow : (job.problem a b).howmany = job.decomp.howmany :=
    (job.created ha hb).problem.howmany_eq
  have hn : (job.grid a b).n = ![job.decomp.n0, job.decomp.n1, job.decomp.n2] :=
    (job.created ha hb).grid.n_eq
  have hiff := mulInt_four_eq_some_iff job.decomp.howmany job.decomp.n0 (m := m)
    job.decomp.n1_pos job.decomp.n2_pos
  rw [hrun, hhow, hn, ← job.cast_values, Except.ok.injEq, Prod.mk.injEq]
  simp only [and_true]
  refine hiff.trans ?_
  rw [Nat.cast_le, Nat.cast_inj]
  exact and_congr_right fun _ => eq_comm

end Job

/-- The global optimum is exact if and only if it is an `int`. -/
theorem global_optimum_iff {env : Env} (job : Job env) :
    GlobalOptimum job ↔ job.howmany * job.n0 * job.n1 * job.n2 ≤ INT_MAX := by
  constructor
  · intro h
    obtain ⟨m, hrun, -⟩ := h 0 0 .granting job.pA_pos job.pB_pos
    exact ((job.globalMemoryOptimum_eq_iff job.pA_pos job.pB_pos _ m).mp hrun).1
  · intro h a b w ha hb
    have hm := job.cast_values
    exact ⟨_, (job.globalMemoryOptimum_eq_iff ha hb w _).mpr ⟨h, hm⟩, hm, job.sum_extent⟩

/-- On `4 × 2` processes the pencils of a `2048 × 2048 × 2048` domain fit an `int`, its size does
not. -/
theorem global_optimum_fails :
    ∃ job : Job .reference, (job.n0 = 2048 ∧ job.n1 = 2048 ∧ job.n2 = 2048) ∧
      (job.pA = 4 ∧ job.pB = 2) ∧ job.howmany = 1 ∧
      (∀ a b i, a < job.pA → b < job.pB → ((job.problem a b).longN i).extent ≤ INT_MAX) ∧
      job.howmany * job.n0 * job.n1 * job.n2 < 2 ^ 64 ∧ ¬ GlobalOptimum job := by
  obtain ⟨job, hn, hp, hh, -⟩ := exists_admitted 2048 2048 2048 4 2 1 0 (by decide)
  refine ⟨job, hn, hp, hh, ?_, ?_, fun h => ?_⟩
  · intro a b i ha hb
    rw [(job.isProblem ha hb).extent_eq, job.longN_eq ha hb]
    refine Decomposition.prod_size_le ?_ ?_ ?_ a b i <;>
      simp only [Decomposition.blockA1, Decomposition.blockA2, Decomposition.blockB0,
        Decomposition.blockB1, Job.decomp, hn, hp, hh] <;> decide
  · rw [hn.1, hn.2.1, hn.2.2, hh]
    decide
  · obtain ⟨m, hrun, -⟩ := h 0 0 .granting job.pA_pos job.pB_pos
    have hint := ((job.globalMemoryOptimum_eq_iff job.pA_pos job.pB_pos _ m).mp hrun).1
    rw [hn.1, hn.2.1, hn.2.2, hh] at hint
    exact absurd hint (by decide)

end Underling
