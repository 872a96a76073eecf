import Underling.World
import Mathlib.Data.Nat.Find
import Mathlib.Data.Int.GCD

/-!
# Underling.Reference

A concrete environment with the documented behaviour, to run the model on. `MPI_Dims_create`
splits a free pair of dimensions as evenly as possible, the larger one first, and refuses requests
that do not divide the number of processes; FFTW asks for exactly the larger of the two local
blocks.
-/

namespace Underling

/-- The largest divisor of `nproc` whose square is at most `nproc`. -/
def balancedDim (nproc : Nat) : Nat :=
  Nat.findGreatest (fun k => k * k ≤ nproc ∧ nproc % k = 0) nproc

/-- `MPI_Dims_create` for two dimensions. -/
def referenceDims (nproc : Nat) (req : Int × Int) : Except String (Int × Int) :=
  if nproc = 0 ∨ req.1 < 0 ∨ req.2 < 0 then .error "MPI_ERR_ARG: invalid argument"
  else if req.1 = 0 ∧ req.2 = 0 then
    .ok ((nproc / balancedDim nproc : Nat), (balancedDim nproc : Nat))
  else if req.2 = 0 ∧ nproc % req.1 = 0 then .ok (req.1, nproc / req.1)
  else if req.1 = 0 ∧ nproc % req.2 = 0 then .ok (nproc / req.2, req.2)
  else if req.1 ≠ 0 ∧ req.2 ≠ 0 ∧ nproc % (req.1 * req.2) = 0 then .ok req
  else .error "MPI_ERR_DIMS: invalid topology dimension"

theorem balancedDim_pos {nproc : Nat} (h : 0 < nproc) : 0 < balancedDim nproc :=
  Nat.findGreatest_pos.mpr ⟨1, Nat.one_pos, h, h, Nat.mod_one nproc⟩

theorem balancedDim_le (nproc : Nat) : balancedDim nproc ≤ nproc := Nat.findGreatest_le nproc

theorem ediv_pos_of_emod {n : Nat} {d : Int} (hn : n ≠ 0) (hd : 0 < d) (h : (n : Int) % d = 0) :
    0 < (n : Int) / d := by
  have hn' : (0 : Int) < n := by omega
  exact Int.ediv_pos_of_pos_of_dvd hn' hd.le (Int.dvd_of_emod_eq_zero h)

theorem referenceDims_pos (nproc : Nat) (req d : Int × Int) (h : referenceDims nproc req = .ok d) :
    0 < d.1 ∧ 0 < d.2 := by
  simp only [referenceDims] at h
  split at h
  · cases h
  rename_i h0
  simp only [not_or, not_lt] at h0
  split at h
  · cases h
    have hk := balancedDim_pos (Nat.pos_of_ne_zero h0.1)
    have hq := Nat.div_pos (balancedDim_le nproc) hk
    exact ⟨Int.natCast_pos.mpr hq, Int.natCast_pos.mpr hk⟩
  split at h
  · cases h
    have : 0 < req.1 := by omega
    exact ⟨this, ediv_pos_of_emod h0.1 this (by omega)⟩
  split at h
  · cases h
    have : 0 < req.2 := by omega
    exact ⟨ediv_pos_of_emod h0.1 this (by omega), this⟩
  split at h
  · cases h
    omega
  · cases h

theorem referenceDims_keep (nproc : Nat) (req d : Int × Int) (h : referenceDims nproc req = .ok d) :
    (req.1 ≠ 0 → d.1 = req.1) ∧ (req.2 ≠ 0 → d.2 = req.2) := by
  simp only [referenceDims] at h
  split at h
  · cases h
  split at h
  · exact ⟨fun h1 => absurd ‹req.1 = 0 ∧ req.2 = 0›.1 h1,
      fun h2 => absurd ‹req.1 = 0 ∧ req.2 = 0›.2 h2⟩
  split at h
  · cases h
    exact ⟨fun _ => rfl, fun h2 => absurd ‹req.2 = 0 ∧ _›.1 h2⟩
  split at h
  · cases h
    exact ⟨fun h1 => absurd ‹req.1 = 0 ∧ _›.1 h1, fun _ => rfl⟩
  split at h
  · cases h
    exact ⟨fun _ => rfl, fun _ => rfl⟩
  · cases h

def Env.reference : Env where
  dimsCreate := referenceDims
  dims_pos := referenceDims_pos
  dims_keep := referenceDims_keep
  allocSize := fun d0 d1 h b0 b1 p r =>
    max (Blocks.len d0 (fftwBlock d0 b0 p) r * d1 * h)
      (Blocks.len d1 (fftwBlock d1 b1 p) r * d0 * h)
  allocSize_ge := fun _ _ _ _ _ _ _ => ⟨Nat.le_max_left _ _, Nat.le_max_right _ _⟩
  libraryPath := fun _ => "UNKNOWN LIBRARY"
  fftw33 := true

def Comm.world (nproc rank : Nat) : Comm := { id := 0, dir := .world, rank := rank, size := nproc }

/-- A world in which nothing is refused. -/
def World.granting : World := .init fun _ => false

theorem World.granting_granted : World.granting.Granted := fun _ => rfl

end Underling
