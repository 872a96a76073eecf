import Mathlib.Algebra.BigOperators.Group.List.Basic
import Mathlib.Algebra.CharZero.Defs
import Mathlib.Algebra.Order.Field.Basic
import Mathlib.Tactic.FieldSimp
import Mathlib.Tactic.Ring

/-!
# Lib.Moments

Mean and variance of a list, computed while its elements come in.

* `Running.collect_mean`, `Running.collect_m2`: the running mean is that of the elements so far, and
  the running sum is that of their squared distances to it.
-/

namespace Moments

variable {K : Type} [Field K]

/-- The squared distances to `a`. -/
def squares (a : K) (xs : List K) : K := (xs.map fun x => (x - a) ^ 2).sum

/-- Elements so far, their mean, and the sum of their squared distances to it. -/
structure Running (K : Type) where
  count : Nat
  mean : K
  m2 : K

namespace Running

def zero : Running K where
  count := 0
  mean := 0
  m2 := 0

def push (s : Running K) (x : K) : Running K :=
  let delta := x - s.mean
  let mean := s.mean + delta / (s.count + 1)
  { count := s.count + 1, mean := mean, m2 := s.m2 + delta * (x - mean) }

def collect (xs : List K) : Running K := xs.foldl push zero

theorem squares_shift (a b : K) (xs : List K) :
    squares a xs = squares b xs + 2 * (b - a) * (xs.sum - xs.length * b) +
      xs.length * (b - a) ^ 2 := by
  induction xs with
  | nil => simp [squares]
  | cons x xs ih =>
    unfold squares at ih ⊢
    simp only [List.map_cons, List.sum_cons, ih, List.length_cons, Nat.cast_add, Nat.cast_one]
    ring

/-- The state describes the elements. -/
structure Describes (s : Running K) (xs : List K) : Prop where
  count : s.count = xs.length
  mean : xs.length * s.mean = xs.sum
  m2 : s.m2 = squares s.mean xs

variable [CharZero K]

theorem Describes.push {s : Running K} {xs : List K} (h : s.Describes xs) (x : K) :
    (s.push x).Describes (xs ++ [x]) := by
  have hpos : (xs.length + 1 : K) ≠ 0 := Nat.cast_add_one_ne_zero _
  have hmean : (s.push x).mean = s.mean + (x - s.mean) / (xs.length + 1) := by
    rw [← h.count]
    rfl
  refine ⟨by rw [List.length_append, ← h.count]; rfl, ?_, ?_⟩
  · rw [hmean, List.sum_append, ← h.mean, List.length_append]
    simp only [List.length_singleton, Nat.cast_add, Nat.cast_one, List.sum_singleton]
    field_simp
    ring
  · have hm2 : (s.push x).m2 = s.m2 + (x - s.mean) * (x - (s.push x).mean) := rfl
    have happend : squares (s.push x).mean (xs ++ [x]) =
        squares (s.push x).mean xs + (x - (s.push x).mean) ^ 2 := by
      simp [squares]
    rw [hm2, happend, squares_shift _ s.mean xs, ← h.m2, h.mean, hmean]
    field_simp
    ring

theorem describes_foldl {s : Running K} {xs : List K} (h : s.Describes xs) (ys : List K) :
    (ys.foldl push s).Describes (xs ++ ys) := by
  induction ys generalizing s xs with
  | nil =>
    rw [List.append_nil]
    exact h
  | cons y ys ih =>
    have hstep := ih (h.push y)
    rw [List.append_assoc] at hstep
    exact hstep

theorem describes_collect (xs : List K) : (collect xs).Describes xs := by
  have hzero : zero.Describes ([] : List K) := ⟨rfl, by simp, by simp [squares, zero]⟩
  exact describes_foldl hzero xs

theorem collect_mean {xs : List K} (h : xs ≠ []) : (collect xs).mean = xs.sum / xs.length := by
  have hlen : (xs.length : K) ≠ 0 := Nat.cast_ne_zero.mpr (List.length_pos_iff.mpr h).ne'
  rw [eq_div_iff hlen, mul_comm]
  exact (describes_collect xs).mean

theorem collect_m2 (xs : List K) : (collect xs).m2 = squares (collect xs).mean xs :=
  (describes_collect xs).m2

end Running

end Moments
