import Underling.FftwExtents

/-!
# Underling.SplitExtents

The storages an in-place real transform passes through. Between reordering and transform, real and
imaginary parts are apart, and a real line with its padding takes the place of a complex line.

* `ComplexSide.nested`, `RealSide.nested`: the indices of a side have distinct addresses.
* `ComplexSide.split_nested`, `padded_nested`: so they have in between.
-/

namespace Underling

open Strided

theorem three_ne_long (i : Fin 3) : (3 : Fin 5) ≠ i.castAdd 2 := by
  revert i
  decide

theorem four_ne_long (i : Fin 3) : (4 : Fin 5) ≠ i.castAdd 2 := by
  revert i
  decide

theorem Layout.nested_of {e : FftwExtents} (hinj : Function.Injective e.order)
    (hfirst : 0 < e.stride (e.order 0)) (hnext : ∀ k : Fin 4, e.size (e.order k.castSucc) *
      e.stride (e.order k.castSucc) ≤ e.stride (e.order k.succ)) : e.Nested :=
  ⟨hinj, fun _ => hfirst, fun k h => hnext ⟨k, Nat.lt_of_succ_lt_succ h⟩⟩

/-- The fields of a complex side with all real parts before all imaginary parts. -/
def splitExtents (e : FftwExtents) : FftwExtents :=
  { e with
    stride := Function.update (Function.update e.stride 3 1) 4 (e.size 3)
    order := e.order ∘ ![1, 0, 2, 3, 4] }

/-- The real lines of a real side `r`, with the padding up to the place of the complex lines. -/
def paddedExtents (i : Fin 3) (c r : FftwExtents) : FftwExtents :=
  { r with
    size := Function.update r.size (i.castAdd 2) (2 * c.size (i.castAdd 2))
    stride := Function.update r.stride 4 (r.size 3)
    order := r.order ∘ ![1, 0, 2, 3, 4] }

variable {i : Fin 3} {e c r : FftwExtents}

theorem Interleaved.order_ne_four {parts : Nat} (h : Interleaved e parts) {k : Fin 5}
    (hk : k ≠ 0) : e.order k ≠ 4 := fun heq => hk (h.order_injective (heq.trans h.order_zero.symm))

theorem Interleaved.order_ne_three {parts : Nat} (h : Interleaved e parts) {k : Fin 5}
    (hk : k ≠ 1) : e.order k ≠ 3 := fun heq => hk (h.order_injective (heq.trans h.order_one.symm))

theorem RealSide.order_ne_long (h : RealSide i e) {k : Fin 5} (hk : k ≠ 2) :
    e.order k ≠ i.castAdd 2 := fun heq => hk (h.order_injective (heq.trans h.order_two.symm))

theorem ComplexSide.nested (h : ComplexSide e) : e.Nested :=
  Layout.nested_packed h.order_injective h.packed

theorem RealSide.nested (h : RealSide i e) : e.Nested := by
  refine Layout.nested_of h.order_injective ?_ h.next
  rw [h.order_zero, h.stride_four]
  exact Nat.one_pos

theorem ComplexSide.stride_three (h : ComplexSide e) : e.stride 3 = 2 := by
  have h1 : e.stride (e.order 1) = 1 * e.size (e.order 0) := h.packed 1
  rwa [h.order_one, h.order_zero, h.size_four] at h1

theorem ComplexSide.stride_two (h : ComplexSide e) : e.stride (e.order 2) = 2 * e.size 3 := by
  have h2 : e.stride (e.order 2) = 1 * e.size (e.order 0) * e.size (e.order 1) := h.packed 2
  rwa [h.order_zero, h.order_one, h.size_four] at h2

theorem splitExtents_stride {k : Fin 5} (h3 : k ≠ 3) (h4 : k ≠ 4) :
    (splitExtents e).stride k = e.stride k :=
  (Function.update_of_ne h4 _ _).trans (Function.update_of_ne h3 _ _)

theorem splitExtents_three : (splitExtents e).stride 3 = 1 := by simp [splitExtents]

theorem splitExtents_four : (splitExtents e).stride 4 = e.size 3 := by simp [splitExtents]

theorem ComplexSide.split_nested (h : ComplexSide e) : (splitExtents e).Nested := by
  have hne : ∀ {k}, k ≠ 0 → k ≠ 1 → (splitExtents e).stride (e.order k) = e.stride (e.order k) :=
    fun h0 h1 => splitExtents_stride (h.order_ne_three h1) (h.order_ne_four h0)
  have hnext := h.nested.next
  refine Layout.nested_of (h.order_injective.comp (by decide)) ?_ fun k => ?_
  · show 0 < (splitExtents e).stride (e.order 1)
    rw [h.order_one, splitExtents_three]
    exact Nat.one_pos
  fin_cases k
  · show e.size (e.order 1) * (splitExtents e).stride (e.order 1) ≤
      (splitExtents e).stride (e.order 0)
    rw [h.order_one, h.order_zero, splitExtents_three, splitExtents_four, Nat.mul_one]
  · show e.size (e.order 0) * (splitExtents e).stride (e.order 0) ≤
      (splitExtents e).stride (e.order 2)
    rw [hne (k := 2) (by decide) (by decide), h.order_zero, splitExtents_four, h.size_four,
      h.stride_two]
  · show e.size (e.order 2) * (splitExtents e).stride (e.order 2) ≤
      (splitExtents e).stride (e.order 3)
    rw [hne (by decide) (by decide), hne (by decide) (by decide)]
    exact hnext 2 (by decide)
  · show e.size (e.order 3) * (splitExtents e).stride (e.order 3) ≤
      (splitExtents e).stride (e.order 4)
    rw [hne (by decide) (by decide), hne (by decide) (by decide)]
    exact hnext 3 (by decide)

theorem paddedExtents_size {k : Fin 5} (hk : k ≠ i.castAdd 2) :
    (paddedExtents i c r).size k = r.size k := Function.update_of_ne hk _ _

theorem paddedExtents_long : (paddedExtents i c r).size (i.castAdd 2) = 2 * c.size (i.castAdd 2) :=
  Function.update_self _ _ _

theorem paddedExtents_stride {k : Fin 5} (hk : k ≠ 4) :
    (paddedExtents i c r).stride k = r.stride k := Function.update_of_ne hk _ _

theorem paddedExtents_four : (paddedExtents i c r).stride 4 = r.size 3 := by simp [paddedExtents]

theorem padded_nested (hc : ComplexSide c) (hr : RealSide i r) (hh : Halves i c r)
    (hs : SamePlace i c r) : (paddedExtents i c r).Nested := by
  refine Layout.nested_of (hr.order_injective.comp (by decide)) ?_ fun k => ?_
  · show 0 < (paddedExtents i c r).stride (r.order 1)
    rw [hr.order_one, paddedExtents_stride (by decide), hr.stride_three]
    exact Nat.one_pos
  fin_cases k
  · show (paddedExtents i c r).size (r.order 1) * (paddedExtents i c r).stride (r.order 1) ≤
      (paddedExtents i c r).stride (r.order 0)
    rw [hr.order_one, hr.order_zero, paddedExtents_size (three_ne_long i),
      paddedExtents_stride (by decide), hr.stride_three, paddedExtents_four, Nat.mul_one]
  · show (paddedExtents i c r).size (r.order 0) * (paddedExtents i c r).stride (r.order 0) ≤
      (paddedExtents i c r).stride (r.order 2)
    rw [hr.order_zero, hr.order_two, paddedExtents_size (four_ne_long i), paddedExtents_four,
      paddedExtents_stride (four_ne_long i).symm, hr.stride_long, hr.size_four, Nat.one_mul]
  · show (paddedExtents i c r).size (r.order 2) * (paddedExtents i c r).stride (r.order 2) ≤
      (paddedExtents i c r).stride (r.order 3)
    have h3 : c.stride (c.order 3) = 1 * c.size (c.order 0) * c.size (c.order 1) *
      c.size (c.order 2) := hc.packed 3
    rw [hc.order_zero, hc.order_one, hc.size_four, hs.order_eq, hr.order_two,
      ← hh.size_eq 3 (three_ne_long i) (by decide)] at h3
    rw [hr.order_two, paddedExtents_long, paddedExtents_stride (four_ne_long i).symm,
      hr.stride_long, paddedExtents_stride (hr.order_ne_four (by decide)),
      hs.stride_eq _ (hr.order_ne_long (by decide)) (hr.order_ne_three (by decide))
        (hr.order_ne_four (by decide)), h3, Nat.one_mul, Nat.mul_right_comm]
  · show (paddedExtents i c r).size (r.order 3) * (paddedExtents i c r).stride (r.order 3) ≤
      (paddedExtents i c r).stride (r.order 4)
    rw [paddedExtents_size (hr.order_ne_long (by decide)),
      paddedExtents_stride (hr.order_ne_four (by decide)),
      paddedExtents_stride (hr.order_ne_four (by decide))]
    exact hr.next 3

/-- Between reordering and transform, both storages have the same strides across the lines. -/
theorem SamePlace.split_stride (hr : RealSide i r) (hs : SamePlace i c r) {k : Fin 5}
    (hk : k ≠ i.castAdd 2) (h4 : k ≠ 4) : (splitExtents c).stride k = r.stride k := by
  by_cases h3 : k = 3
  · rw [h3, splitExtents_three, hr.stride_three]
  · rw [splitExtents_stride h3 h4, hs.stride_eq k hk h3 h4]

/-- Along the lines a complex value takes the place of two real ones. -/
theorem SamePlace.split_long (hc : ComplexSide c) (hr : RealSide i r) (hh : Halves i c r)
    (hs : SamePlace i c r) :
    (splitExtents c).stride (i.castAdd 2) = 2 * r.stride (i.castAdd 2) := by
  have htwo : c.order 2 = i.castAdd 2 := by rw [hs.order_eq, hr.order_two]
  rw [splitExtents_stride (three_ne_long i).symm (four_ne_long i).symm, ← htwo, hc.stride_two, htwo,
    hr.stride_long, hh.size_eq 3 (three_ne_long i) (by decide)]

theorem SamePlace.split_four (hr : RealSide i r) (hh : Halves i c r) :
    (splitExtents c).stride 4 = r.stride (i.castAdd 2) := by
  rw [splitExtents_four, hr.stride_long, hh.size_eq 3 (three_ne_long i) (by decide)]

end Underling
