import Mathlib.Analysis.Fourier.ZMod

/-!
# Lib.Fourier

The discrete Fourier transform of pairs of reals, unnormalized, and the transforms between real
values and half-spectra.

* `backward`: the transform with the parts of its input and output exchanged; it inverts `dft` up to
  the length (`backward_dft`, `dft_backward`).
* `c2r_r2c`, `r2c_c2r`: half-spectra of real values, and back.
-/

namespace Fourier

open ComplexConjugate

/-- A pair of parts, as a complex number. -/
def toComplex (z : ℝ × ℝ) : ℂ := ⟨z.1, z.2⟩

def ofComplex (c : ℂ) : ℝ × ℝ := (c.re, c.im)

theorem toComplex_injective : Function.Injective toComplex := by
  intro z z' h
  exact Prod.ext (congrArg Complex.re h) (congrArg Complex.im h)

theorem toComplex_swap (z : ℝ × ℝ) : toComplex z.swap = Complex.I * conj (toComplex z) := by
  apply Complex.ext <;> simp [toComplex]

theorem toComplex_nsmul (n : Nat) (z : ℝ × ℝ) : toComplex (n • z) = (n : ℂ) • toComplex z := by
  apply Complex.ext <;> simp [toComplex]

/-- The values of a line, on the integers modulo its length. -/
def line {n : Nat} (v : Fin (n + 1) → ℝ × ℝ) : ZMod (n + 1) → ℂ := fun k => toComplex (v k)

/-- The unnormalized forward transform. -/
noncomputable def dft : (n : Nat) → (Fin n → ℝ × ℝ) → Fin n → ℝ × ℝ
  | 0, v => v
  | _ + 1, v => fun m => ofComplex (ZMod.dft (line v) m)

/-- The unnormalized backward transform. -/
noncomputable def backward (n : Nat) (v : Fin n → ℝ × ℝ) (m : Fin n) : ℝ × ℝ :=
  (dft n (fun k => (v k).swap) m).swap

/-- The half-spectrum of real values; the other half is its mirror image. -/
noncomputable def r2c (n : Nat) (v : Fin n → ℝ) (m : Fin (n / 2 + 1)) : ℝ × ℝ :=
  if h : 0 < n then dft n (fun k => (v k, 0)) ⟨m, by omega⟩ else 0

/-- The spectrum with the given half. -/
def spectrum (n : Nat) (v : Fin (n / 2 + 1) → ℝ × ℝ) (m : Fin n) : ℝ × ℝ :=
  if h : (m : Nat) < n / 2 + 1 then v ⟨m, h⟩
  else ((v ⟨n - m, by omega⟩).1, -(v ⟨n - m, by omega⟩).2)

/-- The real values of a half-spectrum. -/
noncomputable def c2r (n : Nat) (v : Fin (n / 2 + 1) → ℝ × ℝ) (m : Fin n) : ℝ :=
  (backward n (spectrum n v) m).1

/-! ## On the integers modulo the length -/

section Modular

variable {n : Nat} [NeZero n] (Φ : ZMod n → ℂ)

theorem dft_conj (k : ZMod n) :
    ZMod.dft (fun j => conj (Φ j)) k = conj (ZMod.dft Φ (-k)) := by
  rw [ZMod.dft_apply, ZMod.dft_apply, map_sum]
  refine Finset.sum_congr rfl fun j _ => ?_
  rw [smul_eq_mul, smul_eq_mul, map_mul, ← AddChar.map_neg_eq_conj, mul_neg, neg_neg]

theorem dft_of_conj {Φ : ZMod n → ℂ} (h : (fun j => conj (Φ j)) = Φ) {a b : ZMod n} (hab : -a = b) :
    ZMod.dft Φ a = conj (ZMod.dft Φ b) := by
  rw [← hab, ← dft_conj, h]

/-- The backward transform, its parts exchanged before and after. -/
noncomputable def reflected (k : ZMod n) : ℂ :=
  Complex.I * conj (ZMod.dft (fun j => Complex.I * conj (Φ j)) k)

theorem reflected_eq : reflected Φ = fun k => ZMod.dft Φ (-k) := by
  funext k
  rw [reflected, ZMod.dft_const_mul]
  simp only [dft_conj, map_mul, Complex.conj_I, Complex.conj_conj]
  rw [← mul_assoc, mul_neg, Complex.I_mul_I, neg_neg, one_mul]

theorem reflected_dft : reflected (ZMod.dft Φ) = (n : ℂ) • Φ := by
  rw [reflected_eq, ZMod.dft_dft]
  simp only [neg_neg]
  rfl

theorem dft_reflected : ZMod.dft (reflected Φ) = (n : ℂ) • Φ := by
  rw [reflected_eq, ZMod.dft_comp_neg, ZMod.dft_dft]
  simp only [neg_neg]
  rfl

end Modular

/-! ## On lines -/

variable {n : Nat}

theorem line_dft (v : Fin (n + 1) → ℝ × ℝ) : line (dft (n + 1) v) = ZMod.dft (line v) := rfl

theorem line_backward (v : Fin (n + 1) → ℝ × ℝ) :
    line (backward (n + 1) v) = reflected (line v) := by
  have hswap : line (fun k => (v k).swap) = fun k => Complex.I * conj (line v k) :=
    funext fun k => toComplex_swap (v k)
  funext k
  refine (toComplex_swap (dft (n + 1) (fun k => (v k).swap) k)).trans ?_
  rw [reflected, ← hswap, ← line_dft]
  rfl

theorem line_nsmul (k : Nat) (v : Fin (n + 1) → ℝ × ℝ) : line (k • v) = (k : ℂ) • line v :=
  funext fun j => toComplex_nsmul k (v j)

theorem line_injective : Function.Injective (line (n := n)) := fun _ _ h =>
  funext fun m => toComplex_injective (congrFun h m)

theorem backward_dft (v : Fin n → ℝ × ℝ) : backward n (dft n v) = n • v := by
  cases n with
  | zero => exact funext fun m => m.elim0
  | succ n =>
    apply line_injective
    rw [line_backward, line_dft, reflected_dft, line_nsmul]

theorem dft_backward (v : Fin n → ℝ × ℝ) : dft n (backward n v) = n • v := by
  cases n with
  | zero => exact funext fun m => m.elim0
  | succ n =>
    apply line_injective
    rw [line_dft, line_backward, dft_reflected, line_nsmul]

theorem dft_nsmul (k : Nat) (v : Fin n → ℝ × ℝ) : dft n (k • v) = k • dft n v := by
  cases n with
  | zero => exact funext fun m => m.elim0
  | succ n =>
    apply line_injective
    rw [line_dft, line_nsmul, ZMod.dft_const_smul, line_nsmul, line_dft]

theorem neg_eq {a b : Fin (n + 1)} (h : (a : Nat) + b = n + 1) : (-a : ZMod (n + 1)) = b := by
  refine neg_eq_of_add_eq_zero_right (Fin.ext ?_)
  show ((a : Nat) + b) % (n + 1) = 0
  rw [h, Nat.mod_self]

theorem dft_mirror (v : Fin (n + 1) → ℝ) {a b : Fin (n + 1)} (h : (a : Nat) + b = n + 1) :
    dft (n + 1) (fun k => (v k, 0)) a = ((dft (n + 1) (fun k => (v k, 0)) b).1,
      -(dft (n + 1) (fun k => (v k, 0)) b).2) := by
  have hreal : (fun j => conj (line (fun k => (v k, 0)) j)) = line fun k => (v k, 0) := by
    funext j
    apply Complex.ext <;> simp [line, toComplex]
  exact toComplex_injective (dft_of_conj hreal (neg_eq h))

theorem spectrum_r2c (v : Fin n → ℝ) : spectrum n (r2c n v) = dft n fun k => (v k, 0) := by
  cases n with
  | zero => exact funext fun m => m.elim0
  | succ n =>
    funext m
    rw [spectrum]
    split
    · rw [r2c, dif_pos n.succ_pos]
    · rw [r2c, dif_pos n.succ_pos]
      exact (dft_mirror v (by show (m : Nat) + (n + 1 - m) = n + 1; omega)).symm

theorem c2r_r2c (v : Fin n → ℝ) : c2r n (r2c n v) = n • v := by
  funext m
  rw [c2r, spectrum_r2c, backward_dft]
  rfl

theorem r2c_nsmul (k : Nat) (v : Fin n → ℝ) : r2c n (k • v) = k • r2c n v := by
  have hpair : (fun j => ((k • v) j, (0 : ℝ))) = k • fun j => (v j, (0 : ℝ)) := by
    funext j
    exact Prod.ext rfl (nsmul_zero k).symm
  funext m
  rw [Pi.smul_apply, r2c, r2c, hpair, dft_nsmul]
  split
  · rfl
  · exact (nsmul_zero k).symm

theorem r2c_c2r (v : Fin n → ℝ) : r2c n (c2r n (r2c n v)) = n • r2c n v := by
  rw [c2r_r2c, r2c_nsmul]

end Fourier
