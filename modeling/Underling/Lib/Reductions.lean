import Mathlib.Algebra.Order.Group.Multiset

/-!
# Lib.Reductions

What processes send, combined by an operation in an order nobody fixes.

* `Reduces`: a value that comes of combining.
* `Reduces.exists_of_ne_zero`: there is one as soon as somebody sends something.
* `Reduction`: a function that combines whatever is sent.
-/

namespace Reductions

variable {P V : Type} {op : V → V → V} {send : P → V}

/-- `u` combines what the processes `s` send, each once, in some order. -/
inductive Reduces (op : V → V → V) (send : P → V) : Multiset P → V → Prop where
  | one (p : P) : Reduces op send {p} (send p)
  | join {s t : Multiset P} {u v : V} :
      Reduces op send s u → Reduces op send t v → Reduces op send (s + t) (op u v)

theorem Reduces.exists_of_ne_zero {s : Multiset P} (h : s ≠ 0) : ∃ u, Reduces op send s u := by
  induction s using Multiset.induction with
  | empty => exact absurd rfl h
  | cons p s ih =>
    by_cases hs : s = 0
    · subst hs
      exact ⟨send p, .one p⟩
    · obtain ⟨u, hu⟩ := ih hs
      rw [← Multiset.singleton_add]
      exact ⟨op (send p) u, .join (.one p) hu⟩

/-- `reduce` combines whatever the processes send. -/
def Reduction (op : V → V → V) (procs : Multiset P) (reduce : (P → V) → V) : Prop :=
  ∀ send, Reduces op send procs (reduce send)

theorem exists_reduction (op : V → V → V) {procs : Multiset P} (h : procs ≠ 0) :
    ∃ reduce, Reduction op procs reduce := by
  have hsome : ∀ send : P → V, ∃ u, Reduces op send procs u := fun _ =>
    Reduces.exists_of_ne_zero h
  choose reduce hreduce using hsome
  exact ⟨reduce, hreduce⟩

end Reductions
