import Underling.PencilPlans
import Underling.StorageFlags

/-!
# Underling.PencilStorage

How the pencils of a job address memory.

* `dense_addressing`: every address of the extent belongs to one local index, and the addresses go
  through the box in the documented order.
* `adjustment_undoes_transposition`: with the long direction next to the fields, a pencil is stored
  as it would be without storage flags.
-/

namespace Underling

open Strided C

/-! ## Dense addressing -/

/-- The directions of a pencil long in `i` as the documentation of the library lists them, the
slowest first. -/
def documentedOrder (flags : Flags) (i : Fin 3) : Fin 4 → Fin 4 :=
  match i with
  | 2 => if flags.has TRANSPOSED_LONG_N2 then ![2, 0, 1, 3] else ![0, 1, 2, 3]
  | 1 => ![2, 0, 1, 3]
  | 0 => if flags.has TRANSPOSED_LONG_N0 then ![0, 1, 2, 3] else ![1, 2, 0, 3]

/-- The addresses of the box are those below the extent, each of one index, in row-major order of
the directions `walk`. -/
structure Extents.Dense (e : Extents) (walk : Fin 4 → Fin 4) : Prop where
  order_bijective : Function.Bijective e.order
  addr_bijOn : Set.BijOn e.addr {j | e.InBox j} (Set.Iio e.extent)
  addr_lt_iff : ∀ j j', e.InBox j → e.InBox j' →
    (e.addr j < e.addr j' ↔ toLex (j ∘ walk) < toLex (j' ∘ walk))

theorem documentedOrder_eq (flags : Flags) (i : Fin 3) :
    documentedOrder flags i = storageOrder flags i ∘ Fin.rev := by
  funext k
  fin_cases i <;> simp only [documentedOrder, storageOrder]
  · split <;> fin_cases k <;> rfl
  · fin_cases k <;> rfl
  · split <;> fin_cases k <;> rfl

theorem Extents.Pencil.nested {e : Extents} {i : Fin 3} (he : e.Pencil i) : e.Nested :=
  Layout.nested_packed he.order_injective he.stride_order

theorem Extents.Pencil.dense {e : Extents} {i : Fin 3} (he : e.Pencil i)
    (hextent : e.extent = ∏ k, e.size k) : e.Dense (e.order ∘ Fin.rev) := by
  refine ⟨Finite.injective_iff_bijective.mp he.order_injective, ?_, fun j j' hj hj' => ?_⟩
  · rw [hextent]
    exact Layout.addr_bijOn he.nested (Layout.room_packed he.order_injective he.stride_order)
  · exact he.nested.addr_lt_iff hj hj'

theorem Decomposition.order_longN (d : Decomposition) (a b : Nat) (i : Fin 3) :
    (d.longN a b i).order = storageOrder d.flags i := by
  fin_cases i <;> rfl

/-- Each pencil fills its extent, in the documented order. -/
theorem dense_addressing {env : Env} (job : Job env) {a b : Nat} (ha : a < job.pA)
    (hb : b < job.pB) (i : Fin 3) :
    ((job.problem a b).longN i).Dense (documentedOrder job.flags i) := by
  have horder : documentedOrder job.flags i = ((job.problem a b).longN i).order ∘ Fin.rev := by
    rw [documentedOrder_eq, job.longN_eq ha hb, Decomposition.order_longN]
    rfl
  rw [horder]
  exact (job.pencil ha hb i).dense ((job.isProblem ha hb).extent_eq i)

/-- Both storage flags on `2 × 3` processes, in a direction that one of them changes. -/
theorem dense_addressing_transposed :
    ∃ job : Job .reference, (job.n0 = 4 ∧ job.n1 = 5 ∧ job.n2 = 3) ∧
      (job.pA = 2 ∧ job.pB = 3) ∧ job.flags = TRANSPOSED_LONG_N2 ||| TRANSPOSED_LONG_N0 ∧
      ((job.problem 1 0).longN 2).Dense (documentedOrder job.flags 2) := by
  obtain ⟨job, hn, hp, -, hf, -⟩ :=
    exists_admitted 4 5 3 2 3 2 (TRANSPOSED_LONG_N2 ||| TRANSPOSED_LONG_N0) (by decide)
  exact ⟨job, hn, hp, hf, dense_addressing job (by omega) (by omega) 2⟩

/-! ## Adjustment -/

theorem longOrder_storageOrder (flags : Flags) (i : Fin 3) :
    longOrder (storageOrder flags i) i = storageOrder 0 i := by
  fin_cases i <;> simp only [storageOrder]
  · split <;> decide
  · decide
  · split <;> decide

theorem Extents.ext_packed {e e' : Extents} {i : Fin 3} (he : e.Pencil i) (he' : e'.Pencil i)
    (hstart : e.start = e'.start) (hsize : e.size = e'.size) (horder : e.order = e'.order)
    (hextent : e.extent = e'.extent) : e = e' := by
  have hstride : e.stride = e'.stride := by
    funext k
    obtain ⟨m, rfl⟩ := Finite.injective_iff_surjective.mp he.order_injective k
    rw [he.stride_order, hsize, horder, ← he'.stride_order]
  obtain ⟨⟨_, _, _, _⟩, _⟩ := e
  obtain ⟨⟨_, _, _, _⟩, _⟩ := e'
  simp only at hstart hsize horder hextent hstride
  subst hstart hsize horder hextent hstride
  rfl

theorem Extents.adjusted_parts (e : Extents) (i : Fin 3) :
    (e.adjusted i).start = e.start ∧ (e.adjusted i).size = e.size ∧
      (e.adjusted i).order = longOrder e.order i ∧ (e.adjusted i).extent = e.extent := by
  rw [adjusted, longOrder]
  by_cases h : e.order 1 = i.castAdd 1
  · rw [if_pos h, if_pos h]
    exact ⟨rfl, rfl, rfl, rfl⟩
  · rw [if_neg h]
    exact ⟨rfl, rfl, rfl, rfl⟩

theorem adjust_of_long {e : Extents} {i : Fin 3} (h : e.order 1 = i.castAdd 1) :
    adjustForFastStrideInLongDirection e (i : Nat) = pure (e, 0) := by
  rw [adjustForFastStrideInLongDirection, rotateToLong_of_eq h]
  rfl

namespace Unflagged

variable {env : Env} {job job' : Job env} {a b : Nat} {i : Fin 3}

theorem longN_parts (h : Unflagged job job') (ha : a < job.pA) (hb : b < job.pB) :
    ((job'.problem a b).longN i).start = ((job.problem a b).longN i).start ∧
      ((job'.problem a b).longN i).size = ((job.problem a b).longN i).size ∧
      ((job'.problem a b).longN i).order = storageOrder 0 i ∧
      ((job'.problem a b).longN i).extent = ((job.problem a b).longN i).extent := by
  have hd : job'.decomp = job.decomp.unflagged := h.decomp_eq
  rw [job.longN_eq ha hb, job'.longN_eq (h.pA_eq ▸ ha) (h.pB_eq ▸ hb), hd]
  refine ⟨?_, ?_, Decomposition.order_longN _ a b i, ?_⟩ <;> fin_cases i <;> rfl

theorem adjusted_eq (h : Unflagged job job') (ha : a < job.pA) (hb : b < job.pB) :
    ((job.problem a b).longN i).adjusted i = (job'.problem a b).longN i := by
  obtain ⟨hstart, hsize, horder, hextent⟩ := h.longN_parts (i := i) ha hb
  obtain ⟨hstart', hsize', horder', hextent'⟩ := ((job.problem a b).longN i).adjusted_parts i
  have hflagged : ((job.problem a b).longN i).order = storageOrder job.flags i := by
    rw [job.longN_eq ha hb, Decomposition.order_longN]
    rfl
  refine Extents.ext_packed (adjusted_spec (job.pencil ha hb i)).1
    (job'.pencil (h.pA_eq ▸ ha) (h.pB_eq ▸ hb) i) (hstart'.trans hstart.symm)
    (hsize'.trans hsize.symm) ?_ (hextent'.trans hextent.symm)
  rw [horder', horder, hflagged, longOrder_storageOrder]

end Unflagged

/-- On the pencils of a job the adjustment ends with those of the job without storage flags, and
there it makes no rotation. -/
theorem adjustment_undoes_transposition {env : Env} {job job' : Job env} (h : Unflagged job job')
    {a b : Nat} (ha : a < job.pA) (hb : b < job.pB) (i : Fin 3) :
    (∃ nrotate, adjustForFastStrideInLongDirection ((job.problem a b).longN i) (i : Nat) =
        pure ((job'.problem a b).longN i, nrotate)) ∧
      adjustForFastStrideInLongDirection ((job'.problem a b).longN i) (i : Nat) =
        pure ((job'.problem a b).longN i, 0) := by
  have he := job.pencil ha hb i
  rw [← h.adjusted_eq ha hb]
  exact ⟨adjust_pencil he, adjust_of_long (adjusted_spec he).2.1⟩

/-- A flagged and an unflagged job on `2 × 3` processes. -/
theorem adjustment_undoes_transposition_longN2 :
    ∃ job job' : Job .reference, (job.n0 = 4 ∧ job.n1 = 5 ∧ job.n2 = 3) ∧
      job.flags = TRANSPOSED_LONG_N2 ∧ job'.flags = 0 ∧
      (∃ nrotate,
        adjustForFastStrideInLongDirection ((job.problem 1 2).longN 2) ((2 : Fin 3) : Nat) =
          pure ((job'.problem 1 2).longN 2, nrotate)) ∧
      adjustForFastStrideInLongDirection ((job'.problem 1 2).longN 2) ((2 : Fin 3) : Nat) =
        pure ((job'.problem 1 2).longN 2, 0) := by
  obtain ⟨job, hn, hp, hhow, hf, -⟩ := exists_admitted 4 5 3 2 3 2 TRANSPOSED_LONG_N2 (by decide)
  obtain ⟨job', hn', hp', hhow', hf', -⟩ := exists_admitted 4 5 3 2 3 2 0 (by decide)
  have h : Unflagged job job' := ⟨by omega, by omega, by omega, by omega, by omega, by omega, hf'⟩
  exact ⟨job, job', hn, hf, hf', adjustment_undoes_transposition h (by omega) (by omega) 2⟩

end Underling
