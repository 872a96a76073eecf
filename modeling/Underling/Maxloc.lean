import Mathlib.Order.MinMax
import Underling.Lib.Reductions

/-!
# Underling.Maxloc

`MPI_MAXLOC`: the greatest value that is sent, with the lowest rank that sends it. In which order
the values are combined is left to MPI.

* `Maximal.of_reduces`: the result does not depend on the order.
-/

namespace Underling

open Reductions

variable {P V : Type} [LinearOrder V]

/-- The struct of `MPI_DOUBLE_INT`. -/
structure ValRank (V : Type) where
  val : V
  rank : Nat

/-- `MPI_MAXLOC` -/
def maxloc (u v : ValRank V) : ValRank V :=
  if v.val < u.val then u
  else if u.val < v.val then v
  else { val := u.val, rank := min u.rank v.rank }

/-- `u` is what one of the processes `s` sends, none sends more, and none of a lower rank sends as
much. -/
structure Maximal (send : P → ValRank V) (s : Multiset P) (u : ValRank V) : Prop where
  sent : ∃ p ∈ s, send p = u
  greatest : ∀ p ∈ s, (send p).val ≤ u.val
  first : ∀ p ∈ s, (send p).val = u.val → u.rank ≤ (send p).rank

namespace Maximal

variable {send : P → ValRank V} {s t : Multiset P} {u v : ValRank V}

theorem beats (h : Maximal send s u) (h' : Maximal send t v)
    (hle : v.val < u.val ∨ v.val = u.val ∧ u.rank ≤ v.rank) : Maximal send (s + t) u := by
  have hval : v.val ≤ u.val := hle.elim le_of_lt fun heq => heq.1.le
  refine ⟨?_, fun p hp => ?_, fun p hp heq => ?_⟩
  · obtain ⟨p, hp, hsent⟩ := h.sent
    exact ⟨p, Multiset.mem_add.mpr (.inl hp), hsent⟩
  · cases Multiset.mem_add.mp hp with
    | inl hp => exact h.greatest p hp
    | inr hp => exact (h'.greatest p hp).trans hval
  · cases Multiset.mem_add.mp hp with
    | inl hp => exact h.first p hp heq
    | inr hp =>
      have hge : u.val ≤ v.val := heq ▸ h'.greatest p hp
      obtain ⟨hv, hrank⟩ := hle.resolve_left (not_lt_of_ge hge)
      exact hrank.trans (h'.first p hp (heq.trans hv.symm))

theorem join (h : Maximal send s u) (h' : Maximal send t v) :
    Maximal send (s + t) (maxloc u v) := by
  unfold maxloc
  by_cases hlt : v.val < u.val
  · rw [if_pos hlt]
    exact h.beats h' (.inl hlt)
  rw [if_neg hlt]
  by_cases hgt : u.val < v.val
  · rw [if_pos hgt, add_comm]
    exact h'.beats h (.inl hgt)
  rw [if_neg hgt]
  have heq : v.val = u.val := le_antisymm (not_lt.mp hgt) (not_lt.mp hlt)
  cases Nat.le_total u.rank v.rank with
  | inl hrank =>
    rw [Nat.min_eq_left hrank]
    exact h.beats h' (.inr ⟨heq, hrank⟩)
  | inr hrank =>
    rw [Nat.min_eq_right hrank, ← heq, add_comm]
    exact h'.beats h (.inr ⟨heq.symm, hrank⟩)

/-- However the values are combined, the result is the maximal one. -/
theorem of_reduces (h : Reduces maxloc send s u) : Maximal send s u := by
  induction h with
  | one p =>
    refine ⟨⟨p, Multiset.mem_singleton_self p, rfl⟩, fun q hq => ?_, fun q hq _ => ?_⟩
    · rw [Multiset.mem_singleton.mp hq]
    · rw [Multiset.mem_singleton.mp hq]
  | join _ _ ih ih' => exact ih.join ih'

end Maximal

end Underling
