import Underling.Job
import Mathlib.Algebra.BigOperators.Ring.Finset

/-!
# Underling.Cover

The boxes of all processes in one orientation, together.

* `Decomposition.holds_longN_iff`: which process holds an index, in each orientation.
* `exact_cover`: the boxes are disjoint, cover the domain and all fields, their extents add up, and
  the long direction is never split.
-/

namespace Underling

open Strided

namespace Decomposition

variable (d : Decomposition)

def Inside (g : Fin 4 → Nat) : Prop :=
  g 0 < d.n0 ∧ g 1 < d.n1 ∧ g 2 < d.n2 ∧ g 3 < d.howmany

/-- The coordinates of the process that holds an index when long in direction `i`. -/
def owner (i : Fin 3) (g : Fin 4 → Nat) : Nat × Nat :=
  match i with
  | 2 => (g 1 / d.blockA1, g 0 / d.blockB0)
  | 1 => (g 2 / d.blockA2, g 0 / d.blockB0)
  | 0 => (g 2 / d.blockA2, g 1 / d.blockB1)

theorem holds_longN_iff (i : Fin 3) (a b : Nat) (g : Fin 4 → Nat) :
    (d.longN a b i).Holds g ↔ d.Inside g ∧ d.owner i g = (a, b) := by
  have hB0 : (d.startB0 b ≤ g 0 ∧ g 0 < d.startB0 b + d.lenB0 b) ↔
      g 0 < d.n0 ∧ g 0 / d.blockB0 = b :=
    Blocks.mem_block_iff (Blocks.ceilDiv_pos d.pB_pos d.n0_pos)
  have hB1 : (d.startB1 b ≤ g 1 ∧ g 1 < d.startB1 b + d.lenB1 b) ↔
      g 1 < d.n1 ∧ g 1 / d.blockB1 = b :=
    Blocks.mem_block_iff (Blocks.ceilDiv_pos d.pB_pos d.n1_pos)
  have hA1 : (d.startA1 a ≤ g 1 ∧ g 1 < d.startA1 a + d.lenA1 a) ↔
      g 1 < d.n1 ∧ g 1 / d.blockA1 = a :=
    Blocks.mem_block_iff (Blocks.ceilDiv_pos d.pA_pos d.n1_pos)
  have hA2 : (d.startA2 a ≤ g 2 ∧ g 2 < d.startA2 a + d.lenA2 a) ↔
      g 2 < d.n2 ∧ g 2 / d.blockA2 = a :=
    Blocks.mem_block_iff (Blocks.ceilDiv_pos d.pA_pos d.n2_pos)
  rw [Layout.Holds, Fin.forall_fin_succ, Fin.forall_fin_succ, Fin.forall_fin_two]
  match i with
  | 0 =>
    simp [Inside, owner, hB1, hA2]
    exact ⟨fun ⟨h0, ⟨h1, hb⟩, ⟨h2, ha⟩, h3⟩ => ⟨⟨h0, h1, h2, h3⟩, ha, hb⟩,
      fun ⟨⟨h0, h1, h2, h3⟩, ha, hb⟩ => ⟨h0, ⟨h1, hb⟩, ⟨h2, ha⟩, h3⟩⟩
  | 1 =>
    simp [Inside, owner, hB0, hA2]
    exact ⟨fun ⟨⟨h0, hb⟩, h1, ⟨h2, ha⟩, h3⟩ => ⟨⟨h0, h1, h2, h3⟩, ha, hb⟩,
      fun ⟨⟨h0, h1, h2, h3⟩, ha, hb⟩ => ⟨⟨h0, hb⟩, h1, ⟨h2, ha⟩, h3⟩⟩
  | 2 =>
    simp [Inside, owner, hB0, hA1]
    exact ⟨fun ⟨⟨h0, hb⟩, ⟨h1, ha⟩, h2, h3⟩ => ⟨⟨h0, h1, h2, h3⟩, ha, hb⟩,
      fun ⟨⟨h0, h1, h2, h3⟩, ha, hb⟩ => ⟨⟨h0, hb⟩, ⟨h1, ha⟩, h2, h3⟩⟩

theorem owner_lt (i : Fin 3) {g : Fin 4 → Nat} (hg : d.Inside g) :
    (d.owner i g).1 < d.pA ∧ (d.owner i g).2 < d.pB := by
  obtain ⟨h0, h1, h2, -⟩ := hg
  fin_cases i
  · exact ⟨Blocks.owner_lt d.pA_pos h2, Blocks.owner_lt d.pB_pos h1⟩
  · exact ⟨Blocks.owner_lt d.pA_pos h2, Blocks.owner_lt d.pB_pos h0⟩
  · exact ⟨Blocks.owner_lt d.pA_pos h1, Blocks.owner_lt d.pB_pos h0⟩

theorem sum_extent (i : Fin 3) :
    ∑ a ∈ Finset.range d.pA, ∑ b ∈ Finset.range d.pB, (d.longN a b i).extent =
      d.howmany * d.n0 * d.n1 * d.n2 := by
  have hB0 : ∑ b ∈ Finset.range d.pB, d.lenB0 b = d.n0 := Blocks.sum_len_ceilDiv d.pB_pos
  have hB1 : ∑ b ∈ Finset.range d.pB, d.lenB1 b = d.n1 := Blocks.sum_len_ceilDiv d.pB_pos
  have hA1 : ∑ a ∈ Finset.range d.pA, d.lenA1 a = d.n1 := Blocks.sum_len_ceilDiv d.pA_pos
  have hA2 : ∑ a ∈ Finset.range d.pA, d.lenA2 a = d.n2 := Blocks.sum_len_ceilDiv d.pA_pos
  fin_cases i
  · show ∑ a ∈ Finset.range d.pA, ∑ b ∈ Finset.range d.pB,
      d.n0 * d.lenB1 b * d.lenA2 a * d.howmany = _
    simp only [← Finset.sum_mul, ← Finset.mul_sum, hB1, hA2]
    ring
  · show ∑ a ∈ Finset.range d.pA, ∑ b ∈ Finset.range d.pB,
      d.lenB0 b * d.n1 * d.lenA2 a * d.howmany = _
    simp only [← Finset.sum_mul, ← Finset.mul_sum, hB0, hA2]
    ring
  · show ∑ a ∈ Finset.range d.pA, ∑ b ∈ Finset.range d.pB,
      d.lenB0 b * d.lenA1 a * d.n2 * d.howmany = _
    simp only [← Finset.sum_mul, ← Finset.mul_sum, hB0, hA1]
    ring

end Decomposition

namespace Job

variable {env : Env} (job : Job env)

theorem sum_extent (i : Fin 3) :
    ∑ a ∈ Finset.range job.pA, ∑ b ∈ Finset.range job.pB, ((job.problem a b).longN i).extent =
      job.decomp.howmany * job.decomp.n0 * job.decomp.n1 * job.decomp.n2 := by
  rw [← job.decomp.sum_extent i]
  refine Finset.sum_congr rfl fun a ha => Finset.sum_congr rfl fun b hb => ?_
  rw [job.longN_eq (Finset.mem_range.mp ha) (Finset.mem_range.mp hb)]

theorem cast_values :
    ((job.decomp.howmany * job.decomp.n0 * job.decomp.n1 * job.decomp.n2 : Nat) : Int) =
      job.howmany * job.n0 * job.n1 * job.n2 := by
  have hd := job.documented job.pA_pos job.pB_pos
  have h0 := hd.n0_pos
  have h1 := hd.n1_pos
  have h2 := hd.n2_pos
  have hh := (job.created job.pA_pos job.pB_pos).howmany_nonneg
  simp only [Job.decomp, Nat.cast_mul]
  rw [Int.toNat_of_nonneg hh, Int.toNat_of_nonneg (by omega), Int.toNat_of_nonneg (by omega),
    Int.toNat_of_nonneg (by omega)]

end Job

def Job.n {env : Env} (job : Job env) : Fin 3 → Int := ![job.n0, job.n1, job.n2]

structure ExactCover {env : Env} (job : Job env) : Prop where
  cover : ∀ (i : Fin 3) (g : Fin 4 → Nat),
    (∃ a b, a < job.pA ∧ b < job.pB ∧ ((job.problem a b).longN i).Holds g) ↔
      (g 0 < job.n0 ∧ g 1 < job.n1 ∧ g 2 < job.n2) ∧ g 3 < job.howmany
  disjoint : ∀ (i : Fin 3) (g : Fin 4 → Nat) a b a' b',
    a < job.pA → b < job.pB → a' < job.pA → b' < job.pB →
    ((job.problem a b).longN i).Holds g → ((job.problem a' b').longN i).Holds g → a = a' ∧ b = b'
  total : ∀ i : Fin 3,
    ((∑ a ∈ Finset.range job.pA, ∑ b ∈ Finset.range job.pB,
      ((job.problem a b).longN i).extent : Nat) : Int) = job.howmany * job.n0 * job.n1 * job.n2
  unsplit : ∀ (i : Fin 3) a b, a < job.pA → b < job.pB →
    ((job.problem a b).longN i).start i.castSucc = 0 ∧
      ((job.problem a b).longN i).size i.castSucc = job.n i

/-- The boxes of a job cover the domain exactly, in every orientation. -/
theorem exact_cover {env : Env} (job : Job env) : ExactCover job := by
  have hd := job.documented job.pA_pos job.pB_pos
  have h0 := hd.n0_pos
  have h1 := hd.n1_pos
  have h2 := hd.n2_pos
  have hh := (job.created job.pA_pos job.pB_pos).howmany_nonneg
  have hinside : ∀ g, job.decomp.Inside g ↔
      (g 0 < job.n0 ∧ g 1 < job.n1 ∧ g 2 < job.n2) ∧ g 3 < job.howmany := by
    intro g
    simp only [Decomposition.Inside, Job.decomp]
    omega
  refine ⟨?_, ?_, ?_, ?_⟩
  · intro i g
    rw [← hinside]
    constructor
    · rintro ⟨a, b, ha, hb, hg⟩
      rw [job.longN_eq ha hb, Decomposition.holds_longN_iff] at hg
      exact hg.1
    · intro hg
      obtain ⟨ha, hb⟩ := job.decomp.owner_lt i hg
      refine ⟨_, _, ha, hb, ?_⟩
      rw [job.longN_eq ha hb, Decomposition.holds_longN_iff]
      exact ⟨hg, rfl⟩
  · intro i g a b a' b' ha hb ha' hb' hg hg'
    rw [job.longN_eq ha hb, Decomposition.holds_longN_iff] at hg
    rw [job.longN_eq ha' hb', Decomposition.holds_longN_iff] at hg'
    have h := hg.2.symm.trans hg'.2
    exact ⟨congrArg Prod.fst h, congrArg Prod.snd h⟩
  · intro i
    rw [job.sum_extent, job.cast_values]
  · intro i a b ha hb
    rw [job.longN_eq ha hb]
    fin_cases i
    · exact ⟨rfl, Int.toNat_of_nonneg (by omega)⟩
    · exact ⟨rfl, Int.toNat_of_nonneg (by omega)⟩
    · exact ⟨rfl, Int.toNat_of_nonneg (by omega)⟩

/-- On `2 × 3` processes with a partial and an empty block. -/
theorem exact_cover_uneven :
    ∃ job : Job .reference, (job.n0 = 4 ∧ job.n1 = 5 ∧ job.n2 = 3) ∧
      (job.pA = 2 ∧ job.pB = 3) ∧ ((job.problem 1 0).longN 2).size 1 = 2 ∧
      ((job.problem 0 2).longN 2).size 0 = 0 ∧ ExactCover job := by
  obtain ⟨job, -, hn, hp, hpartial, hempty⟩ := exists_uneven
  exact ⟨job, hn, hp, hpartial, hempty, exact_cover job⟩

end Underling
