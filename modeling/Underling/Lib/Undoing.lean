import Mathlib.Algebra.Group.Basic
import Underling.Lib.Schedule

/-!
# Lib.Undoing

Operations on a state that another operation takes back up to a factor, as a transform without
normalization and the one back do.

* `TakesBack.trans`: of two such operations the second is taken back first; the factors multiply.
  `TakesBack.runAll_cons`: so lists of them are taken back in reverse.
* `TakesBack.round_trip`: together they multiply what the state shows by the factor.
* `TakesBack.iterate`: normalized, any number of round trips keeps it.
-/

namespace Undoing

variable {S C C' C'' : Type} [AddMonoid C] [AddMonoid C'] [AddMonoid C'']

/-- `f` takes states that show a content as `P` says to states that show one as `Q` says, and `b`
takes each state that shows a multiple of the latter to one that shows that multiple of the former,
`n` times. -/
def TakesBack (P : C → S → Prop) (Q : C' → S → Prop) (f b : S → S) (n : Nat) : Prop :=
  ∀ c s, P c s → ∃ c', Q c' (f s) ∧ ∀ k t, Q (k • c') t → P ((k * n) • c) (b t)

namespace TakesBack

variable {P P' : C → S → Prop} {Q : C' → S → Prop} {R : C'' → S → Prop} {f b f' b' : S → S}
  {n n' : Nat}

theorem refl (P : C → S → Prop) : TakesBack P P id id 1 := by
  intro c s h
  refine ⟨c, h, fun k t ht => ?_⟩
  rw [Nat.mul_one]
  exact ht

theorem trans (h : TakesBack P Q f b n) (h' : TakesBack Q R f' b' n') :
    TakesBack P R (f' ∘ f) (b ∘ b') (n' * n) := by
  intro c s hs
  obtain ⟨c', hc', hback⟩ := h c s hs
  obtain ⟨c'', hc'', hback'⟩ := h' c' (f s) hc'
  refine ⟨c'', hc'', fun k t ht => ?_⟩
  rw [← Nat.mul_assoc]
  exact hback (k * n') (b' t) (hback' k t ht)

theorem runAll_cons {ι : Type} {step : ι → S → S} {a a' : ι} {as as' : List ι}
    (h : TakesBack P Q (step a) (step a') n)
    (h' : TakesBack Q R (Schedule.runAll step as) (Schedule.runAll step as') n') :
    TakesBack P R (Schedule.runAll step (a :: as)) (Schedule.runAll step (as' ++ [a']))
      (n' * n) := by
  have hback : Schedule.runAll step (as' ++ [a']) = step a' ∘ Schedule.runAll step as' :=
    funext fun s => Schedule.runAll_append
  rw [hback]
  exact h.trans h'

theorem congr_left (h : TakesBack P Q f b n) (hP : ∀ c s, P c s ↔ P' c s) :
    TakesBack P' Q f b n := by
  intro c s hs
  obtain ⟨c', hc', hback⟩ := h c s ((hP c s).mpr hs)
  exact ⟨c', hc', fun k t ht => (hP _ _).mp (hback k t ht)⟩

theorem round_trip (h : TakesBack P Q f b n) {c : C} {s : S} (hs : P c s) :
    P (n • c) (b (f s)) := by
  obtain ⟨c', hc', hback⟩ := h c s hs
  have hone := hback 1 (f s) (by rwa [one_nsmul])
  rwa [Nat.one_mul] at hone

theorem iterate (h : TakesBack P Q f b n) {g : S → S} {c : C}
    (hg : ∀ t, P (n • c) t → P c (g t)) (r : Nat) {s : S} (hs : P c s) :
    P c ((g ∘ b ∘ f)^[r] s) := by
  induction r generalizing s with
  | zero => exact hs
  | succ r ih =>
    rw [Function.iterate_succ_apply]
    exact ih (hg _ (h.round_trip hs))

end TakesBack

end Undoing
