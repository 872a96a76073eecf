import Mathlib.Analysis.SpecialFunctions.Complex.Log
import Mathlib.RingTheory.RootsOfUnity.Complex
import Mathlib.Tactic.IntervalCases
import Underling.Lib.Sampled

/-!
# Underling.PeriodicFunction

`periodic_function`, the signal the tests of the FFTs are made with, over the real numbers: its
values on a grid, and the modes it claims to have.

* `coefficient_physical`, `waveZero_eq`: the modes the values have, and the claimed ones.
* `oracle_right`: they are the same for the signal itself.
* `oracle_derivative_iff`: for its derivatives they are only where the wavenumber, which `wave`
  leaves out, does not matter.
-/

namespace Underling

open Sampled

structure PeriodicFunction where
  N : Nat
  maxModeExclusive : Nat
  shift : ℝ
  length : ℝ
  constant : ℝ
  N_pos : 0 < N
  max_pos : 0 < maxModeExclusive
  max_le : maxModeExclusive ≤ N / 2 + 1

namespace PeriodicFunction

/-- The constructor, whose assertions are `hN` and `hmax`. -/
def create (N : Nat) (maxModeExclusive : Int) (shift length constant : ℝ) (hN : 0 < N)
    (hmax : maxModeExclusive ≤ N / 2 + 1) : PeriodicFunction where
  N := N
  maxModeExclusive := if maxModeExclusive > 0 then maxModeExclusive.toNat else N / 2 + 1
  shift := shift
  length := length
  constant := constant
  N_pos := hN
  max_pos := by
    split <;> omega
  max_le := by
    split <;> omega

variable (f : PeriodicFunction)

/-- One round of the loop of `physical_evaluate`. -/
noncomputable def addMode (x : ℝ) (derivative : Nat) (retval : ℝ) (j : Nat) : ℝ :=
  let amplitude := j * (j * (2 * Real.pi / f.length)) ^ derivative * f.constant
  let angle := j * (2 * Real.pi / f.length) * x + f.shift
  match derivative % 4 with
  | 0 => retval + amplitude * Real.sin angle
  | 1 => retval + amplitude * Real.cos angle
  | 2 => retval - amplitude * Real.sin angle
  | _ => retval - amplitude * Real.cos angle

noncomputable def physicalEvaluate (x : ℝ) (derivative : Nat) : ℝ :=
  (List.range' 1 (f.maxModeExclusive - 1)).foldl (f.addMode x derivative)
    (if f.maxModeExclusive > 0 ∧ derivative = 0 then f.constant else 0)

noncomputable def physical (i derivative : Nat) : ℝ :=
  f.physicalEvaluate (i * f.length / f.N) derivative

/-- `wave`, before the derivatives. -/
noncomputable def waveZero (i : Nat) : ℂ :=
  let sin := Real.sin f.shift
  let cos := Real.cos f.shift
  let retval : ℂ :=
    if i = 0 then
      if i < f.maxModeExclusive then ⟨1, 0⟩ else 0
    else if i < f.N / 2 then
      if i < f.maxModeExclusive then ⟨i * sin / 2, -i * cos / 2⟩ else 0
    else if i = f.N / 2 ∧ f.N % 2 ≠ 0 then
      if i < f.maxModeExclusive then ⟨i * sin / 2, -i * cos / 2⟩ else 0
    else if i = f.N / 2 ∧ ¬ f.N % 2 ≠ 0 then
      if i < f.maxModeExclusive then ⟨i * sin, 0⟩ else 0
    else
      if f.N - i < f.maxModeExclusive then
        ⟨(f.N - i : Nat) * sin / 2, (f.N - i : Nat) * cos / 2⟩
      else 0
  retval * f.constant

noncomputable def wave (i derivative : Nat) : ℂ :=
  (fun retval => retval * ⟨0, 2 * Real.pi / f.length⟩)^[derivative] (f.waveZero i)

/-! ## The values -/

/-- A derivative moves a sine by a quarter of its period. -/
theorem sin_add_quarters (θ : ℝ) (d : Nat) : Real.sin (θ + d * (Real.pi / 2)) =
    match d % 4 with
    | 0 => Real.sin θ
    | 1 => Real.cos θ
    | 2 => -Real.sin θ
    | _ => -Real.cos θ := by
  have hd : (d : ℝ) = (d / 4 : Nat) * 4 + (d % 4 : Nat) := by
    exact_mod_cast (Nat.div_add_mod' d 4).symm
  have hturns : θ + d * (Real.pi / 2) =
      θ + (d % 4 : Nat) * (Real.pi / 2) + (d / 4 : Nat) * (2 * Real.pi) := by
    linear_combination (Real.pi / 2) * hd
  rw [hturns, Real.sin_add_nat_mul_two_pi]
  have hlt : d % 4 < 4 := Nat.mod_lt _ (by decide)
  generalize d % 4 = r at hlt
  interval_cases r
  · simp
  · simp [Real.sin_add_pi_div_two]
  · show Real.sin (θ + (2 : Nat) * (Real.pi / 2)) = -Real.sin θ
    rw [← Real.sin_add_pi]
    congr 1
    push_cast
    ring
  · show Real.sin (θ + (3 : Nat) * (Real.pi / 2)) = -Real.cos θ
    rw [← Real.cos_add_pi, ← Real.sin_add_pi_div_two]
    congr 1
    push_cast
    ring

theorem addMode_eq (x : ℝ) (derivative : Nat) (retval : ℝ) (j : Nat) :
    f.addMode x derivative retval j =
      retval + j * (j * (2 * Real.pi / f.length)) ^ derivative * f.constant *
        Real.sin (j * (2 * Real.pi / f.length) * x + f.shift + derivative * (Real.pi / 2)) := by
  rw [sin_add_quarters, addMode]
  have hlt : derivative % 4 < 4 := Nat.mod_lt _ (by decide)
  generalize derivative % 4 = r at hlt
  interval_cases r
  · rfl
  · rfl
  · simp only [mul_neg, sub_eq_add_neg]
  · simp only [mul_neg, sub_eq_add_neg]

theorem foldl_range'_eq (g : Nat → ℝ) (a : ℝ) (n : Nat) :
    (List.range' 1 n).foldl (fun r j => r + g j) a = a + ∑ j ∈ Finset.Ico 1 (n + 1), g j := by
  induction n with
  | zero => simp
  | succ n ih =>
    have hlast : ∑ j ∈ Finset.Ico 1 (n + 1 + 1), g j =
        (∑ j ∈ Finset.Ico 1 (n + 1), g j) + g (n + 1) :=
      Finset.sum_Ico_succ_top (Nat.le_add_left 1 n) g
    rw [List.range'_1_concat, List.foldl_append, ih, hlast, ← add_assoc, Nat.add_comm 1 n]
    rfl

/-- The factor of mode `j` in a derivative. -/
noncomputable def amplitude (derivative j : Nat) : ℝ :=
  j * (j * (2 * Real.pi / f.length)) ^ derivative * f.constant

theorem physical_eq (hlength : f.length ≠ 0) (i derivative : Nat) :
    f.physical i derivative = (if derivative = 0 then f.constant else 0) +
      ∑ j ∈ Finset.Ico 1 f.maxModeExclusive, f.amplitude derivative j *
        Real.sin (2 * Real.pi * j * i / f.N + (f.shift + derivative * (Real.pi / 2))) := by
  have hstep : f.addMode (i * f.length / f.N) derivative = fun r j => r +
      f.amplitude derivative j *
        Real.sin (2 * Real.pi * j * i / f.N + (f.shift + derivative * (Real.pi / 2))) := by
    funext r j
    rw [addMode_eq, amplitude, ← add_assoc]
    congr 5
    field_simp
  rw [physical, physicalEvaluate, hstep, foldl_range'_eq, Nat.sub_add_cancel f.max_pos]
  simp only [f.max_pos, true_and]

/-! ## The modes -/

/-- The root of unity of the grid. -/
noncomputable def root (N : Nat) : ℂ := Complex.exp (2 * Real.pi * Complex.I / N)

theorem root_primitive : IsPrimitiveRoot (root f.N) f.N :=
  Complex.isPrimitiveRoot_exp f.N f.N_pos.ne'

theorem turn_root (N : Nat) (m : ℤ) (t : Nat) :
    turn (root N) m t = Complex.exp (2 * Real.pi * Complex.I * m * t / N) := by
  rw [turn, root, ← Complex.exp_int_mul]
  congr 1
  push_cast
  ring

theorem coefficient_root (N k : Nat) (v : Nat → ℂ) :
    coefficient (root N) N v k =
      ∑ i ∈ Finset.range N, v i * Complex.exp (-2 * Real.pi * Complex.I * k * i / N) := by
  unfold coefficient
  refine Finset.sum_congr rfl fun i _ => ?_
  rw [turn_root]
  congr 2
  push_cast
  ring

/-- The factor of one of the two turns a sinusoid of amplitude one is made of. -/
noncomputable def halfTurn (φ : ℝ) : ℂ := Complex.exp (φ * Complex.I) / (2 * Complex.I)

/-- A sinusoid is the difference of two turns in opposite directions. -/
theorem sin_eq_turns (N j t : Nat) (φ : ℝ) :
    ((Real.sin (2 * Real.pi * j * t / N + φ) : ℝ) : ℂ) =
      halfTurn φ * turn (root N) j t + -halfTurn (-φ) * turn (root N) (-j) t := by
  have hplus : Complex.exp (φ * Complex.I) * turn (root N) j t =
      Complex.exp ((2 * Real.pi * j * t / N + φ : ℂ) * Complex.I) := by
    rw [turn_root, ← Complex.exp_add]
    congr 1
    push_cast
    ring
  have hminus : Complex.exp ((-φ : ℝ) * Complex.I) * turn (root N) (-j) t =
      Complex.exp (-(2 * Real.pi * j * t / N + φ : ℂ) * Complex.I) := by
    rw [turn_root, ← Complex.exp_add]
    congr 1
    push_cast
    ring
  rw [halfTurn, halfTurn, neg_mul, div_mul_eq_mul_div, div_mul_eq_mul_div, hplus, hminus,
    Complex.ofReal_sin, Complex.sin]
  push_cast
  field_simp
  rw [Complex.I_sq]
  ring

/-- The phase of mode `j` moves by a quarter of a turn with each derivative. -/
theorem coefficient_physical (hlength : f.length ≠ 0) {k : Nat} (hk : k < f.N) (derivative : Nat) :
    coefficient (root f.N) f.N (fun i => (f.physical i derivative : ℂ)) k =
      f.N * ((if derivative = 0 ∧ k = 0 then (f.constant : ℂ) else 0) +
        ((if 0 < k ∧ k < f.maxModeExclusive then
            f.amplitude derivative k * halfTurn (f.shift + derivative * (Real.pi / 2)) else 0) -
          if f.N - k < f.maxModeExclusive then
            f.amplitude derivative (f.N - k) * halfTurn (-(f.shift + derivative * (Real.pi / 2)))
            else 0)) := by
  have hmax := f.max_le
  have hmean : coefficient (root f.N) f.N
      (fun _ => ((if derivative = 0 then f.constant else 0 : ℝ) : ℂ)) k =
        f.N * if derivative = 0 ∧ k = 0 then (f.constant : ℂ) else 0 := by
    have hone := coefficient_mul (root f.N) f.N k
      ((if derivative = 0 then f.constant else 0 : ℝ) : ℂ) (fun _ => 1)
    rw [coefficient_one f.root_primitive hk] at hone
    simp only [mul_one] at hone
    rw [hone]
    split_ifs <;> simp_all [mul_comm]
  have hmode (j : Nat) (hj : j ∈ Finset.Ico 1 f.maxModeExclusive) :
      coefficient (root f.N) f.N (fun i => (f.amplitude derivative j : ℂ) *
        (Real.sin (2 * Real.pi * j * i / f.N + (f.shift + derivative * (Real.pi / 2))) : ℝ)) k =
      f.N * ((if j = k then
          f.amplitude derivative j * halfTurn (f.shift + derivative * (Real.pi / 2)) else 0) -
        if j = f.N - k then
          f.amplitude derivative j * halfTurn (-(f.shift + derivative * (Real.pi / 2)))
          else 0) := by
    rw [Finset.mem_Ico] at hj
    simp only [sin_eq_turns]
    rw [coefficient_mul, coefficient_turns f.root_primitive hj.1 (by omega) hk]
    split_ifs <;> ring
  simp only [f.physical_eq hlength, Complex.ofReal_add, Complex.ofReal_sum, Complex.ofReal_mul,
    coefficient_add, coefficient_sum]
  rw [hmean, Finset.sum_congr rfl hmode, ← Finset.mul_sum, Finset.sum_sub_distrib,
    Finset.sum_ite_eq', Finset.sum_ite_eq', ← mul_add]
  have hpos : 1 ≤ f.N - k := by omega
  simp only [Finset.mem_Ico, hpos, true_and]
  rfl

theorem halfTurn_eq (φ : ℝ) : halfTurn φ = ⟨Real.sin φ / 2, -Real.cos φ / 2⟩ := by
  rw [halfTurn, Complex.mk_eq_add_mul_I, Complex.exp_mul_I, ← Complex.ofReal_cos,
    ← Complex.ofReal_sin]
  push_cast
  field_simp
  linear_combination (Complex.cos φ) * Complex.I_sq

theorem halfTurn_ne_zero (φ : ℝ) : halfTurn φ ≠ 0 := by
  unfold halfTurn
  simp [Complex.exp_ne_zero]

/-- A quarter of a turn is a factor of `I`. -/
theorem halfTurn_add_quarters (φ : ℝ) (d : Nat) :
    halfTurn (φ + d * (Real.pi / 2)) = halfTurn φ * Complex.I ^ d := by
  have hquarter : Complex.exp (d * (Real.pi / 2 * Complex.I)) = Complex.I ^ d := by
    rw [Complex.exp_nat_mul, Complex.exp_pi_div_two_mul_I]
  rw [halfTurn, halfTurn, ← hquarter, div_mul_eq_mul_div, ← Complex.exp_add]
  congr 2
  push_cast
  ring

theorem lower_eq (x φ : ℝ) :
    (⟨x * Real.sin φ / 2, -x * Real.cos φ / 2⟩ : ℂ) = x * halfTurn φ := by
  rw [halfTurn_eq]
  apply Complex.ext <;> simp <;> ring

theorem upper_eq (x φ : ℝ) :
    (⟨x * Real.sin φ / 2, x * Real.cos φ / 2⟩ : ℂ) = -(x * halfTurn (-φ)) := by
  rw [halfTurn_eq, Real.sin_neg, Real.cos_neg]
  apply Complex.ext <;> simp <;> ring

theorem nyquist_eq (x φ : ℝ) :
    (⟨x * Real.sin φ, 0⟩ : ℂ) = x * halfTurn φ - x * halfTurn (-φ) := by
  rw [halfTurn_eq, halfTurn_eq, Real.sin_neg, Real.cos_neg]
  apply Complex.ext
  · simp
    ring
  · simp

/-- The five cases of `wave` are those of one sum of two sides. -/
theorem waveZero_eq {k : Nat} (hk : k < f.N) :
    f.waveZero k = (if k = 0 then (f.constant : ℂ) else 0) +
      ((if 0 < k ∧ k < f.maxModeExclusive then k * f.constant * halfTurn f.shift else 0) -
        if f.N - k < f.maxModeExclusive then
          (f.N - k : Nat) * f.constant * halfTurn (-f.shift) else 0) := by
  have hmax := f.max_le
  have hpos := f.max_pos
  unfold waveZero
  dsimp only
  rw [lower_eq, upper_eq, nyquist_eq]
  rcases Nat.eq_zero_or_pos k with rfl | hk0
  · -- the mean: the mirror image of mode zero would be mode `N`
    have hmirror : ¬ f.N - 0 < f.maxModeExclusive := by omega
    have hmean : (⟨1, 0⟩ : ℂ) = 1 := rfl
    simp only [hmirror, hmean, if_false]
    simp [hpos]
  rw [if_neg hk0.ne', if_neg hk0.ne', zero_add]
  simp only [hk0, true_and]
  by_cases hhalf : k < f.N / 2 ∨ (k = f.N / 2 ∧ f.N % 2 ≠ 0)
  · have hmirror : ¬ f.N - k < f.maxModeExclusive := by omega
    simp only [hmirror, if_false, sub_zero]
    split_ifs
    · push_cast
      ring
    · ring
    · push_cast
      ring
    · ring
    all_goals omega
  by_cases heven : k = f.N / 2 ∧ ¬ f.N % 2 ≠ 0
  · -- the highest mode of an even grid is its own mirror image
    have hself : f.N - k = k := by omega
    rw [if_neg (by omega), if_neg (by omega), if_pos heven, hself]
    split_ifs
    · push_cast
      ring
    · ring
  · have hbeyond : ¬ k < f.maxModeExclusive := by omega
    rw [if_neg (by omega), if_neg (by omega), if_neg heven, if_neg hbeyond, zero_sub]
    split_ifs
    · push_cast
      ring
    · ring

theorem wave_eq (k derivative : Nat) :
    f.wave k derivative =
      f.waveZero k * ((2 * Real.pi / f.length : ℝ) * Complex.I) ^ derivative := by
  have hfactor : (⟨0, 2 * Real.pi / f.length⟩ : ℂ) =
      (2 * Real.pi / f.length : ℝ) * Complex.I := by
    rw [Complex.mk_eq_add_mul_I, Complex.ofReal_zero, zero_add]
  rw [wave, hfactor, mul_right_iterate]

/-- In the lower half a derivative multiplies a mode by its wavenumber. -/
theorem coefficient_derivative (hlength : f.length ≠ 0) {k derivative : Nat} (hk : 2 * k < f.N)
    (hderivative : 0 < derivative) :
    coefficient (root f.N) f.N (fun i => (f.physical i derivative : ℂ)) k =
      f.N * (f.waveZero k * (k * ((2 * Real.pi / f.length : ℝ) * Complex.I)) ^ derivative) := by
  have hmax := f.max_le
  have hmirror : ¬ f.N - k < f.maxModeExclusive := by omega
  rw [coefficient_physical f hlength (by omega), waveZero_eq f (by omega),
    halfTurn_add_quarters, amplitude]
  simp only [hmirror, hderivative.ne', false_and, if_false, sub_zero, zero_add]
  rcases Nat.eq_zero_or_pos k with rfl | hk0
  · simp [hderivative.ne']
  simp only [hk0, hk0.ne', true_and, if_false, zero_add]
  split
  · push_cast
    ring
  · simp

theorem waveZero_eq_zero_iff {k : Nat} (hk : 2 * k < f.N) :
    f.waveZero k = 0 ↔ f.constant = 0 ∨ f.maxModeExclusive ≤ k := by
  have hmax := f.max_le
  have hpos := f.max_pos
  have hmirror : ¬ f.N - k < f.maxModeExclusive := by omega
  rw [waveZero_eq f (by omega)]
  simp only [hmirror, if_false, sub_zero]
  rcases Nat.eq_zero_or_pos k with rfl | hk0
  · simp [hpos.ne']
  · simp only [hk0, hk0.ne', true_and, if_false, zero_add]
    split
    · next hlt => simp [halfTurn_ne_zero, hk0.ne', Nat.not_le.mpr hlt]
    · next hge => simp [Nat.not_lt.mp hge]

/-- The modes of the values are the claimed ones. -/
theorem oracle_right (N : Nat) (maxModeExclusive : Int) (shift length constant : ℝ) (hN : 0 < N)
    (hmax : maxModeExclusive ≤ N / 2 + 1) (hlength : length ≠ 0) (k : Nat) (hk : k < N) :
    ∑ i ∈ Finset.range N,
        ((create N maxModeExclusive shift length constant hN hmax).physical i 0 : ℂ) *
          Complex.exp (-2 * Real.pi * Complex.I * k * i / N) =
      N * (create N maxModeExclusive shift length constant hN hmax).wave k 0 := by
  generalize hf : create N maxModeExclusive shift length constant hN hmax = f
  have hfN : f.N = N := by rw [← hf]; rfl
  have hflength : f.length ≠ 0 := by rw [← hf]; exact hlength
  subst hfN
  have hmodes := coefficient_physical f hflength hk 0
  rw [coefficient_root] at hmodes
  rw [hmodes, wave_eq, waveZero_eq f hk]
  simp [amplitude]

theorem oracle_right_nyquist :
    ∑ i ∈ Finset.range 4,
        ((create 4 0 (Real.pi / 3) (2 * Real.pi) 17 (by decide) (by decide)).physical i 0 : ℂ) *
          Complex.exp (-2 * Real.pi * Complex.I * (2 : Nat) * i / (4 : Nat)) =
      (4 : Nat) *
        (create 4 0 (Real.pi / 3) (2 * Real.pi) 17 (by decide) (by decide)).wave 2 0 :=
  oracle_right 4 0 (Real.pi / 3) (2 * Real.pi) 17 (by decide) (by decide)
    (mul_ne_zero two_ne_zero Real.pi_ne_zero) 2 (by decide)

theorem mul_wavenumber_pow_eq_iff {w u : ℂ} (hu : u ≠ 0) {k d : Nat} (hd : 1 ≤ d) :
    w * (k * u) ^ d = w * u ^ d ↔ w = 0 ∨ k = 1 := by
  rw [mul_pow, mul_eq_mul_left_iff, or_comm]
  have hcancel : (k : ℂ) ^ d * u ^ d = u ^ d ↔ k ^ d = 1 := by
    rw [mul_eq_right₀ (pow_ne_zero d hu)]
    norm_cast
  rw [hcancel, Nat.pow_eq_one]
  have hd0 : d ≠ 0 := by omega
  simp only [hd0, or_false]

theorem factor_ne_zero (hlength : f.length ≠ 0) :
    ((2 * Real.pi / f.length : ℝ) : ℂ) * Complex.I ≠ 0 := by
  have hreal : 2 * Real.pi / f.length ≠ 0 :=
    div_ne_zero (mul_ne_zero two_ne_zero Real.pi_ne_zero) hlength
  exact mul_ne_zero (Complex.ofReal_ne_zero.mpr hreal) Complex.I_ne_zero

/-- `wave` takes the factor of mode one for every mode of a derivative. -/
theorem oracle_derivative_iff (N : Nat) (maxModeExclusive : Int) (shift length constant : ℝ)
    (hN : 0 < N) (hmax : maxModeExclusive ≤ N / 2 + 1) (hlength : length ≠ 0) (d : Nat)
    (hd : 1 ≤ d) (k : Nat) (hk : 2 * k < N) :
    ∑ i ∈ Finset.range N,
        ((create N maxModeExclusive shift length constant hN hmax).physical i d : ℂ) *
          Complex.exp (-2 * Real.pi * Complex.I * k * i / N) =
      N * (create N maxModeExclusive shift length constant hN hmax).wave k d ↔
    constant = 0 ∨ k = 1 ∨ (0 < maxModeExclusive ∧ maxModeExclusive ≤ k) := by
  generalize hf : create N maxModeExclusive shift length constant hN hmax = f
  have hfN : f.N = N := by rw [← hf]; rfl
  have hflength : f.length ≠ 0 := by rw [← hf]; exact hlength
  have hconstant : f.constant = constant := by rw [← hf]; rfl
  have hmaxle : f.maxModeExclusive ≤ k ↔ 0 < maxModeExclusive ∧ maxModeExclusive ≤ k := by
    rw [← hf]
    simp only [create]
    split <;> omega
  subst hfN
  have hN0 : (f.N : ℂ) ≠ 0 := Nat.cast_ne_zero.mpr hN.ne'
  have hmodes := coefficient_derivative f hflength hk hd
  rw [coefficient_root] at hmodes
  rw [hmodes, wave_eq, mul_right_inj' hN0, mul_wavenumber_pow_eq_iff (f.factor_ne_zero hflength) hd,
    waveZero_eq_zero_iff f hk, hconstant, hmaxle]
  tauto

theorem oracle_derivative_iff_one :
    ∑ i ∈ Finset.range 4,
        ((create 4 0 (Real.pi / 3) (2 * Real.pi) 17 (by decide) (by decide)).physical i 3 : ℂ) *
          Complex.exp (-2 * Real.pi * Complex.I * (1 : Nat) * i / (4 : Nat)) =
      (4 : Nat) *
        (create 4 0 (Real.pi / 3) (2 * Real.pi) 17 (by decide) (by decide)).wave 1 3 ↔
    (17 : ℝ) = 0 ∨ 1 = 1 ∨ ((0 : Int) < 0 ∧ (0 : Int) ≤ (1 : Nat)) :=
  oracle_derivative_iff 4 0 (Real.pi / 3) (2 * Real.pi) 17 (by decide) (by decide)
    (mul_ne_zero two_ne_zero Real.pi_ne_zero) 3 (by decide) 1 (by decide)

/-- Mode two of the first derivative: `wave` is half of what it should be. -/
theorem oracle_derivative_fails :
    ∑ i ∈ Finset.range 5,
        ((create 5 0 (Real.pi / 3) (2 * Real.pi) 17 (by decide) (by decide)).physical i 1 : ℂ) *
          Complex.exp (-2 * Real.pi * Complex.I * (2 : Nat) * i / (5 : Nat)) ≠
      (5 : Nat) *
        (create 5 0 (Real.pi / 3) (2 * Real.pi) 17 (by decide) (by decide)).wave 2 1 := by
  intro heq
  generalize hf : create 5 0 (Real.pi / 3) (2 * Real.pi) 17 (by decide) (by decide) = f at heq
  have hN : f.N = 5 := by rw [← hf]; rfl
  have hlength : f.length ≠ 0 := by
    rw [← hf]
    exact mul_ne_zero two_ne_zero Real.pi_ne_zero
  have hmode : f.waveZero 2 ≠ 0 := by
    have hnot : ¬ (f.constant = 0 ∨ f.maxModeExclusive ≤ 2) := by
      rw [← hf]
      simp [create]
    exact fun hzero => hnot ((waveZero_eq_zero_iff f (by omega)).mp hzero)
  have hmodes := coefficient_derivative f hlength (k := 2) (by omega) Nat.one_pos
  rw [coefficient_root, hN, heq, wave_eq, mul_right_inj' (by norm_num)] at hmodes
  have hcancel := (mul_wavenumber_pow_eq_iff (f.factor_ne_zero hlength) (by omega)).mp hmodes.symm
  rcases hcancel with hzero | hone
  · exact hmode hzero
  · omega

end PeriodicFunction

end Underling
