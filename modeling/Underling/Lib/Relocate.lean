import Mathlib.Data.List.Pairwise
import Mathlib.Data.List.Nodup
import Mathlib.Logic.Function.Basic

/-!
# Lib.Relocate

Data processed from one place into another, one datum after the other. A place written to may hold
data that is still to be processed.

* `Clear`: no move writes where a later one still reads.
* `relocate_apply`: moves in a clear order process every datum once, from its own place.
-/

namespace Relocate

variable {ι α : Type} [DecidableEq ι]

/-- Process what is at `src` into `dst`. Out of place, `src` is left with what `junk` makes of
it. -/
def move (op junk : α → α) (src dst : ι) (mem : ι → α) : ι → α :=
  if src = dst then Function.update mem dst (op (mem src))
  else Function.update (Function.update mem src (junk (mem src))) dst (op (mem src))

/-- Make the moves from the first place of each pair to the second, in order. -/
def relocate (op junk : α → α) : List (ι × ι) → (ι → α) → ι → α
  | [], mem => mem
  | (src, dst) :: moves, mem => relocate op junk moves (move op junk src dst mem)

/-- No move writes where a later one still reads. -/
def Clear (moves : List (ι × ι)) : Prop := moves.Pairwise fun a b => a.2 ≠ b.1

instance (moves : List (ι × ι)) : Decidable (Clear moves) :=
  inferInstanceAs (Decidable (moves.Pairwise _))

section Move

variable (op junk : α → α) (src dst : ι) (mem : ι → α)

@[simp] theorem move_dst : move op junk src dst mem dst = op (mem src) := by
  rw [move]
  split <;> exact Function.update_self ..

theorem move_other {p : ι} (hs : p ≠ src) (hd : p ≠ dst) : move op junk src dst mem p = mem p := by
  rw [move]
  split
  · exact Function.update_of_ne hd ..
  · rw [Function.update_of_ne hd, Function.update_of_ne hs]

end Move

variable {op junk : α → α} {moves : List (ι × ι)}

theorem relocate_other {p : ι} (h : ∀ a ∈ moves, p ≠ a.1 ∧ p ≠ a.2) (mem : ι → α) :
    relocate op junk moves mem p = mem p := by
  induction moves generalizing mem with
  | nil => rfl
  | cons a moves ih =>
    obtain ⟨hs, hd⟩ := h a List.mem_cons_self
    rw [relocate, ih fun b hb => h b (List.mem_cons_of_mem a hb)]
    exact move_other op junk a.1 a.2 mem hs hd

theorem relocate_apply (hclear : Clear moves) (hsrc : (moves.map Prod.fst).Nodup)
    (hdst : (moves.map Prod.snd).Nodup) {a : ι × ι} (ha : a ∈ moves) (mem : ι → α) :
    relocate op junk moves mem a.2 = op (mem a.1) := by
  induction moves generalizing mem with
  | nil => cases ha
  | cons b moves ih =>
    obtain ⟨hb, hclear⟩ := List.pairwise_cons.mp hclear
    rw [List.map_cons, List.nodup_cons] at hsrc hdst
    rw [relocate]
    rcases List.mem_cons.mp ha with rfl | ha
    · -- nothing that follows touches what the first move wrote
      rw [relocate_other, move_dst]
      intro c hc
      exact ⟨hb c hc, fun heq => hdst.1 (heq ▸ List.mem_map_of_mem hc)⟩
    · -- the first move leaves what the others read
      rw [ih hclear hsrc.2 hdst.2 ha, move_other op junk b.1 b.2 mem _ (hb a ha).symm]
      exact fun heq => hsrc.1 (heq ▸ List.mem_map_of_mem ha)

end Relocate
