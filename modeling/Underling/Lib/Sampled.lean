import Mathlib.Algebra.Field.GeomSum
import Mathlib.RingTheory.RootsOfUnity.PrimitiveRoots

/-!
# Lib.Sampled

Signals sampled at `N` points and their discrete Fourier coefficients, unnormalized, over a field
with a primitive `N`th root of unity.

* `sum_turn`: the samples of a whole number of turns add up to zero, or to `N`.
* `coefficient_one`, `coefficient_turns`: the coefficients of the constant signal, and of two turns
  in opposite directions whose frequency the grid can support.
-/

namespace Sampled

variable {K : Type*} [Field K]

/-- Sample `t` of `m` turns. -/
def turn (ζ : K) (m : ℤ) (t : Nat) : K := ζ ^ (m * t)

/-- The coefficient of mode `k`. -/
def coefficient (ζ : K) (N : Nat) (v : Nat → K) (k : Nat) : K :=
  ∑ t ∈ Finset.range N, v t * turn ζ (-k) t

section Linear

variable (ζ : K) (N k : Nat)

theorem coefficient_add (v w : Nat → K) :
    coefficient ζ N (fun t => v t + w t) k = coefficient ζ N v k + coefficient ζ N w k := by
  simp only [coefficient, add_mul, Finset.sum_add_distrib]

theorem coefficient_mul (c : K) (v : Nat → K) :
    coefficient ζ N (fun t => c * v t) k = c * coefficient ζ N v k := by
  simp only [coefficient, mul_assoc, Finset.mul_sum]

theorem coefficient_sum {ι : Type*} (s : Finset ι) (v : ι → Nat → K) :
    coefficient ζ N (fun t => ∑ j ∈ s, v j t) k = ∑ j ∈ s, coefficient ζ N (v j) k := by
  simp only [coefficient, Finset.sum_mul]
  exact Finset.sum_comm

end Linear

variable {ζ : K} {N : Nat}

theorem sum_turn (hζ : IsPrimitiveRoot ζ N) (m : ℤ) :
    ∑ t ∈ Finset.range N, turn ζ m t = if (N : ℤ) ∣ m then (N : K) else 0 := by
  have hpow : ∀ t, turn ζ m t = (ζ ^ m) ^ t := fun t => by
    rw [turn, zpow_mul, zpow_natCast]
  simp only [hpow]
  split
  · next h =>
    rw [(hζ.zpow_eq_one_iff_dvd m).mpr h]
    simp
  · next h =>
    have hne : ζ ^ m ≠ 1 := fun heq => h ((hζ.zpow_eq_one_iff_dvd m).mp heq)
    have hfull : (ζ ^ m) ^ N = 1 := by
      rw [← zpow_natCast, zpow_comm, zpow_natCast, hζ.pow_eq_one, one_zpow]
    rw [geom_sum_eq hne, hfull, sub_self, zero_div]

theorem coefficient_turn (hζ : IsPrimitiveRoot ζ N) (hN : 0 < N) (m : ℤ) (k : Nat) :
    coefficient ζ N (turn ζ m) k = if (N : ℤ) ∣ m - k then (N : K) else 0 := by
  rw [← sum_turn hζ, coefficient]
  refine Finset.sum_congr rfl fun t _ => ?_
  rw [turn, turn, turn, ← zpow_add₀ (hζ.ne_zero hN.ne'), ← add_mul, sub_eq_add_neg]

theorem coefficient_one (hζ : IsPrimitiveRoot ζ N) {k : Nat} (hk : k < N) :
    coefficient ζ N (fun _ => 1) k = if k = 0 then (N : K) else 0 := by
  have hturn : (fun _ => 1) = turn ζ 0 := by
    funext t
    simp [turn]
  have hdvd : (N : ℤ) ∣ 0 - k ↔ k = 0 := by
    rw [zero_sub, dvd_neg, Int.natCast_dvd_natCast]
    exact ⟨fun h => Nat.eq_zero_of_dvd_of_lt h hk, fun h => h ▸ dvd_zero N⟩
  rw [hturn, coefficient_turn hζ (by omega)]
  simp only [hdvd]

theorem coefficient_turns (hζ : IsPrimitiveRoot ζ N) {j k : Nat} (hj : 0 < j) (hjN : 2 * j ≤ N)
    (hk : k < N) (x y : K) :
    coefficient ζ N (fun t => x * turn ζ j t + y * turn ζ (-j) t) k =
      N * ((if j = k then x else 0) + if j = N - k then y else 0) := by
  have hplus : (N : ℤ) ∣ j - k ↔ j = k := by
    constructor
    · intro h
      have := Int.eq_zero_of_abs_lt_dvd h (by rw [abs_lt]; omega)
      omega
    · rintro rfl
      simp
  -- the turn backwards is found at the mirror image of its frequency
  have hminus : (N : ℤ) ∣ -j - k ↔ j = N - k := by
    constructor
    · intro h
      have hsum : (N : ℤ) ∣ N + (-j - k) := (dvd_add_right (dvd_refl _)).mpr h
      have := Int.eq_zero_of_abs_lt_dvd hsum (by rw [abs_lt]; omega)
      omega
    · intro h
      exact ⟨-1, by omega⟩
  have hN : 0 < N := by omega
  rw [coefficient_add, coefficient_mul, coefficient_mul, coefficient_turn hζ hN,
    coefficient_turn hζ hN]
  simp only [hplus, hminus]
  split <;> split <;> ring

end Sampled
