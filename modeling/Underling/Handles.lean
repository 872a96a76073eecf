import Underling.FftwExtents
import Underling.Job

/-!
# Underling.Handles

The handles one process holds: a problem it got for a grid it got, whatever the other processes do
and whatever the broadcasts deliver.

* `IsProblem.pencil`: the pencils of such a problem are what the creators of FFT plans work on.
-/

namespace Underling

open Runs

/-- The sizes of a grid are positive, and they fit an `int` where the arguments did. -/
theorem gridCreate_int {env : Env} {coords : Nat × Nat} {comm : Comm}
    {n0 n1 n2 reqA reqB : Int} {g : Grid} {w w' : World} (h0 : n0 ≤ INT_MAX) (h1 : n1 ≤ INT_MAX)
    (h2 : n2 ≤ INT_MAX)
    (h : gridCreate env coords (some comm) n0 n1 n2 reqA reqB w = .ok (some g, w')) (i : Fin 3) :
    0 < g.n i ∧ g.n i ≤ INT_MAX := by
  have hg := (gridCreate_ends (G := False) ⟨rfl, False.elim⟩).of_run h
  obtain ⟨dims, hadm, hfor, -⟩ := hg.sound _ rfl
  have hn0 := hadm.n0_pos
  have hn1 := hadm.n1_pos
  have hn2 := hadm.n2_pos
  rw [hfor.n_eq]
  fin_cases i <;> simp <;> omega

/-- A problem returned by `problemCreate` for a grid returned by `gridCreate`. -/
inductive IsProblem (env : Env) : Problem → Prop where
  | created {coords : Nat × Nat} {comm : Comm} {n0 n1 n2 reqA reqB howmany : Int} {flags : Flags}
      {bcast : Comm → Nat × Nat → Nat × Nat} {g : Grid} {p : Problem} {w w1 w2 w3 : World} :
      n0 ≤ INT_MAX → n1 ≤ INT_MAX → n2 ≤ INT_MAX →
      gridCreate env coords (some comm) n0 n1 n2 reqA reqB w = .ok (some g, w1) →
      problemCreate env bcast (some g) howmany flags w2 = .ok (some p, w3) → IsProblem env p

namespace IsProblem

variable {env : Env} {p : Problem}

theorem longN_eq (h : IsProblem env p) : ∃ n flags dB dA, (∀ i, 0 < n i) ∧
    p.longN = pencils n p.howmany flags dB dA := by
  obtain @⟨_, _, _, _, _, _, _, _, _, _, g, _, _, _, _, _, h0, h1, h2, hgrid, hproblem⟩ := h
  have hint := gridCreate_int h0 h1 h2 hgrid
  have hp := (problemCreate_ends (G := False) ⟨rfl, False.elim⟩ fun i => (hint i).2).of_run hproblem
  obtain ⟨-, -, hfor', -⟩ := hp.sound _ rfl
  exact ⟨_, _, _, _, fun i => (hint i).1, hfor'.howmany_eq ▸ hfor'.longN_eq⟩

theorem pencil (h : IsProblem env p) (i : Fin 3) : (p.longN i).Pencil i := by
  obtain ⟨n, flags, dB, dA, -, hlong⟩ := h.longN_eq
  rw [hlong]
  fin_cases i
  · exact rowMajor_pencil (i := 0) rfl
  · exact rowMajor_pencil (i := 1) rfl
  · exact rowMajor_pencil (i := 2) rfl

theorem size_three (h : IsProblem env p) (i : Fin 3) : (p.longN i).size 3 = p.howmany := by
  obtain ⟨n, flags, dB, dA, -, hlong⟩ := h.longN_eq
  rw [hlong]
  fin_cases i <;> rfl

theorem extent_eq (h : IsProblem env p) (i : Fin 3) :
    (p.longN i).extent = ∏ k, (p.longN i).size k := by
  obtain ⟨n, flags, dB, dA, -, hlong⟩ := h.longN_eq
  rw [hlong, Fin.prod_univ_four]
  fin_cases i <;> rfl

theorem size_long_pos (h : IsProblem env p) (i : Fin 3) : 0 < (p.longN i).size (i.castAdd 1) := by
  obtain ⟨n, flags, dB, dA, hn, hlong⟩ := h.longN_eq
  rw [hlong]
  fin_cases i
  · exact hn 0
  · exact hn 1
  · exact hn 2

end IsProblem

theorem Job.isProblem {env : Env} (job : Job env) {a b : Nat} (ha : a < job.pA) (hb : b < job.pB) :
    IsProblem env (job.problem a b) :=
  .created job.int_n0 job.int_n1 job.int_n2 (job.grid_run a b ha hb) (job.problem_run a b ha hb)

theorem Job.howmany_eq {env : Env} (job : Job env) {a b : Nat} (ha : a < job.pA) (hb : b < job.pB) :
    (job.problem a b).howmany = job.howmany.toNat :=
  (job.created ha hb).problem.howmany_eq

end Underling
