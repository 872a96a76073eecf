import Underling.Lib.Fourier

/-!
# Lib.Axes

Fields with several indices and operations along one axis after the other.

* `Summed`: one field is made of another by sums with weights along an axis. `Summed.three`: along
  three axes after each other, it is made by sums over the box.
* `toComplex_dft`, `toComplex_r2c`: the discrete transforms sum with phases.
-/

namespace Axes

variable {κ β : Type} [DecidableEq κ]

/-- The operation on sequences applied to each line of the field along the axis `i`. -/
def onAxis (F : (Nat → β) → Nat → β) (i : κ) (z : (κ → Nat) → β) (g : κ → Nat) : β :=
  F (fun m => z (Function.update g i m)) (g i)

/-- The first `m` values of `y` on each line along `i` are sums of the first `n` of `z` with weights
`w`, read as complex numbers by `val`. -/
def Summed (val : β → ℂ) (i : κ) (n m : Nat) (w : Nat → Nat → ℂ) (z y : (κ → Nat) → β) : Prop :=
  ∀ g, g i < m → val (y g) = ∑ j : Fin n, w j (g i) * val (z (Function.update g i j))

theorem Summed.three {val : β → ℂ} {n m n' m' n'' m'' : Nat} {w w' w'' : Nat → Nat → ℂ}
    {i i' i'' : κ} {z y y' y'' : (κ → Nat) → β} (h : Summed val i n m w z y)
    (h' : Summed val i' n' m' w' y y') (h'' : Summed val i'' n'' m'' w'' y' y'') (hi : i ≠ i')
    (hi' : i' ≠ i'') (hii : i ≠ i'') {g : κ → Nat} (hg : g i < m) (hg' : g i' < m')
    (hg'' : g i'' < m'') :
    val (y'' g) = ∑ j'' : Fin n'', ∑ j' : Fin n', ∑ j : Fin n,
      w'' j'' (g i'') * w' j' (g i') * w j (g i) *
        val (z (Function.update (Function.update (Function.update g i'' j'') i' j') i j)) := by
  rw [h'' g hg'']
  refine Finset.sum_congr rfl fun j'' _ => ?_
  have hkeep : Function.update g i'' (j'' : Nat) i' = g i' := Function.update_of_ne hi' _ _
  rw [h' _ (hkeep ▸ hg'), hkeep, Finset.mul_sum]
  refine Finset.sum_congr rfl fun j' _ => ?_
  have hkeep' : Function.update (Function.update g i'' (j'' : Nat)) i' (j' : Nat) i = g i := by
    rw [Function.update_of_ne hi, Function.update_of_ne hii]
  rw [h _ (hkeep' ▸ hg), hkeep', Finset.mul_sum, Finset.mul_sum]
  refine Finset.sum_congr rfl fun j _ => ?_
  ring

end Axes

namespace Fourier

/-- `exp (-2πi j k / n)` -/
noncomputable def phase (n j k : Nat) : ℂ :=
  Complex.exp (-(((2 : Nat) : ℂ) * Real.pi * Complex.I * (j * k) / n))

theorem stdAddChar_phase (n : Nat) [NeZero n] (j k : Nat) :
    ZMod.stdAddChar (-((j : ZMod n) * (k : ZMod n))) = phase n j k := by
  have hcast : -((j : ZMod n) * (k : ZMod n)) = ((-(j * k : ℤ) : ℤ) : ZMod n) := by push_cast; rfl
  rw [hcast, ZMod.stdAddChar_coe, phase]
  congr 1
  push_cast
  ring

theorem toComplex_dft {n : Nat} (v : Fin n → ℝ × ℝ) (k : Fin n) :
    toComplex (dft n v k) = ∑ j : Fin n, phase n j k * toComplex (v j) := by
  cases n with
  | zero => exact k.elim0
  | succ n =>
    refine (ZMod.dft_apply (line v) k).trans
      (Finset.sum_congr rfl fun (j : Fin (n + 1)) _ => ?_)
    have hj : ((j : Nat) : ZMod (n + 1)) = j := Fin.cast_val_eq_self j
    have hk : ((k : Nat) : ZMod (n + 1)) = k := Fin.cast_val_eq_self k
    rw [← stdAddChar_phase, hj, hk]
    rfl

/-- Real values are complex numbers without imaginary part. -/
theorem toComplex_r2c {n : Nat} (v : Fin n → ℝ) (k : Fin (n / 2 + 1)) (hn : 0 < n) :
    toComplex (r2c n v k) = ∑ j : Fin n, phase n j k * toComplex (v j, 0) := by
  rw [r2c, dif_pos hn, toComplex_dft]

end Fourier
