import Mathlib.Data.List.Basic
import Mathlib.Logic.Function.Iterate

/-!
# Lib.Schedule

A fixed list of actions run one after the other, and what holds before each of them.

* `Throughout`: a property of every action and the state before it.
* `runAll_replicate`: a loop is an iterate.
* `throughout_append` and `Throughout.replicate` are the rules for sequences and for loops.
-/

namespace Schedule

variable {σ ι : Type} (step : ι → σ → σ)

/-- The state after the actions `as`. -/
def runAll : List ι → σ → σ
  | [], s => s
  | a :: as, s => runAll as (step a s)

/-- `P` holds of every action and the state it starts in. -/
def Throughout (P : ι → σ → Prop) : List ι → σ → Prop
  | [], _ => True
  | a :: as, s => P a s ∧ Throughout P as (step a s)

variable {step} {P : ι → σ → Prop} {as bs : List ι} {s : σ}

theorem runAll_append : runAll step (as ++ bs) s = runAll step bs (runAll step as s) := by
  induction as generalizing s with
  | nil => rfl
  | cons a as ih => exact ih

theorem runAll_replicate (body : List ι) (n : Nat) (s : σ) :
    runAll step (List.replicate n body).flatten s = (runAll step body)^[n] s := by
  induction n generalizing s with
  | zero => rfl
  | succ n ih =>
    rw [List.replicate_succ, List.flatten_cons, runAll_append, ih, Function.iterate_succ_apply]

theorem throughout_append : Throughout step P (as ++ bs) s ↔
    Throughout step P as s ∧ Throughout step P bs (runAll step as s) := by
  induction as generalizing s with
  | nil => exact (iff_of_eq (true_and _)).symm
  | cons a as ih =>
    show P a s ∧ Throughout step P (as ++ bs) (step a s) ↔ (P a s ∧ _) ∧ _
    rw [ih, and_assoc]
    rfl

theorem Throughout.before {a : ι} (h : Throughout step P (as ++ a :: bs) s) :
    P a (runAll step as s) :=
  (throughout_append.mp h).2.1

/-- A body that keeps `I` can be repeated. -/
theorem Throughout.replicate {I : σ → Prop} {body : List ι}
    (h : ∀ s, I s → Throughout step P body s ∧ I (runAll step body s)) (n : Nat) (hs : I s) :
    Throughout step P (List.replicate n body).flatten s ∧
      I (runAll step (List.replicate n body).flatten s) := by
  induction n generalizing s with
  | zero => exact ⟨trivial, hs⟩
  | succ n ih =>
    obtain ⟨hbody, hI⟩ := h s hs
    obtain ⟨hrest, hI'⟩ := ih hI
    rw [List.replicate_succ, List.flatten_cons, throughout_append, runAll_append]
    exact ⟨⟨hbody, hrest⟩, hI'⟩

end Schedule
