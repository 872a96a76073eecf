import Mathlib.Algebra.BigOperators.Fin
import Mathlib.Algebra.Order.BigOperators.Group.Finset
import Mathlib.Algebra.Order.Ring.Nat
import Mathlib.Data.Fintype.BigOperators
import Mathlib.Data.Fintype.EquivFin
import Mathlib.Order.PiLex

/-!
# Lib.Strided

Boxes of indices stored with strides: `d` directions, each with a start, a size, a stride and a
place in the storage order.

* `addr` is the address of a local index.
* `chain` assigns the strides of a row-major storage one direction after the other, in the storage
  order; `chain_order` gives the values it ends with, `addr_packed` the addresses of a packed
  storage.
* `Nested.addr_inj`: where every direction fits below the stride of the next one, no two indices
  share an address; `Nested.addr_lt` bounds the addresses, and `Nested.addr_lt_iff` says that they
  are in row-major order.
* `addr_bijOn`: a packed storage leaves no address out.
-/

namespace Strided

structure Layout (d : Nat) where
  start : Fin d → Nat
  size : Fin d → Nat
  stride : Fin d → Nat
  /-- The directions from the fastest to the slowest. -/
  order : Fin d → Fin d

namespace Layout

variable {d : Nat}

/-- The global indices of the box. -/
def Holds (e : Layout d) (g : Fin d → Nat) : Prop :=
  ∀ k, e.start k ≤ g k ∧ g k < e.start k + e.size k

/-- The local indices of the box. -/
def InBox (e : Layout d) (j : Fin d → Nat) : Prop := ∀ k, j k < e.size k

def addr (e : Layout d) (j : Fin d → Nat) : Nat := ∑ k, j k * e.stride k

/-- Buffer `x` holds the values of `u` on the box, each at the address of its index. -/
def LaidOut {α : Type*} (e : Layout d) (u : (Fin d → Nat) → α) (x : Nat → α) : Prop :=
  ∀ g, e.Holds g → x (e.addr fun k => g k - e.start k) = u g

theorem laidOut_iff {α : Type*} {e : Layout d} {u : (Fin d → Nat) → α} {x : Nat → α} :
    e.LaidOut u x ↔ ∀ j, e.InBox j → x (e.addr j) = u fun k => e.start k + j k := by
  constructor
  · intro h j hj
    have hg := h (fun k => e.start k + j k) fun k =>
      ⟨Nat.le_add_right _ _, Nat.add_lt_add_left (hj k) _⟩
    simp only [Nat.add_sub_cancel_left] at hg
    exact hg
  · intro h g hg
    have hj : e.InBox fun k => g k - e.start k := by
      intro k
      have := hg k
      show g k - e.start k < e.size k
      omega
    rw [h _ hj]
    congr 1
    funext k
    exact Nat.add_sub_cancel' (hg k).1

/-- The number of items in the `k` fastest directions. -/
def below (size : Fin d → Nat) (order : Fin d → Fin d) : Nat → Nat
  | 0 => 1
  | k + 1 => if h : k < d then below size order k * size (order ⟨k, h⟩) else below size order k

theorem below_eq_zero {size : Fin d → Nat} {order : Fin d → Fin d} {i : Fin d}
    (h : size (order i) = 0) {k : Nat} (hk : (i : Nat) < k) : below size order k = 0 := by
  induction k with
  | zero => exact absurd hk (Nat.not_lt_zero _)
  | succ k ih =>
    rw [below]
    rcases Nat.lt_succ_iff_lt_or_eq.mp hk with hlt | rfl
    · split <;> simp [ih hlt]
    · rw [dif_pos i.isLt, h, Nat.mul_zero]

theorem below_eq_prod (size : Fin d → Nat) (order : Fin d → Fin d) (k : Nat) :
    below size order k = ∏ i : Fin d with i.val < k, size (order i) := by
  induction k with
  | zero => simp [below]
  | succ k ih =>
    rw [below, ih]
    split
    · next h =>
      have hins : Finset.univ.filter (fun i : Fin d => i.val < k + 1) =
          insert ⟨k, h⟩ (Finset.univ.filter fun i : Fin d => i.val < k) := by
        ext i
        simp [Fin.ext_iff]
        omega
      rw [hins, Finset.prod_insert (by simp), Nat.mul_comm]
    · next h =>
      refine Finset.prod_congr (Finset.filter_congr fun i _ => ?_) fun _ _ => rfl
      omega

theorem below_all {size : Fin d → Nat} {order : Fin d → Fin d} (h : Function.Injective order) :
    below size order d = ∏ k, size k := by
  have hbij : Function.Bijective order := Finite.injective_iff_bijective.mp h
  rw [below_eq_prod, ← hbij.prod_comp size]
  exact Finset.prod_congr (Finset.filter_true_of_mem fun i _ => i.isLt) fun _ _ => rfl

/-- The strides `s` after `k` assignments, each giving the next slower direction the stride of the
direction before it times the size of that direction. -/
def chain (e : Layout d) (s : Fin d → Nat) : Nat → Fin d → Nat
  | 0 => s
  | k + 1 =>
    if h : k + 1 < d then
      let s := e.chain s k
      let last := e.order ⟨k, Nat.lt_of_succ_lt h⟩
      Function.update s (e.order ⟨k + 1, h⟩) (s last * e.size last)
    else e.chain s k

theorem chain_order {e : Layout d} (hinj : Function.Injective e.order) {s : Fin d → Nat} {s0 : Nat}
    (hs : ∀ h : 0 < d, s (e.order ⟨0, h⟩) = s0) (k : Nat) :
    ∀ i (hi : i < d), i ≤ k → e.chain s k (e.order ⟨i, hi⟩) = s0 * below e.size e.order i := by
  induction k with
  | zero =>
    intro i hi hik
    obtain rfl : i = 0 := by omega
    simp only [chain, below, Nat.mul_one]
    exact hs hi
  | succ k ih =>
    intro i hi hik
    by_cases hk : k + 1 < d
    · rw [chain, dif_pos hk]
      rcases Nat.lt_or_ge k i with hlt | hge
      · obtain rfl : i = k + 1 := by omega
        rw [Function.update_self, ih k _ (Nat.le_refl k), below,
          dif_pos (Nat.lt_of_succ_lt hk), Nat.mul_assoc]
      · have hne : e.order ⟨i, hi⟩ ≠ e.order ⟨k + 1, hk⟩ := by
          intro h
          have := Fin.mk.inj (hinj h)
          omega
        rw [Function.update_of_ne hne]
        exact ih i hi hge
    · rw [chain, dif_neg hk]
      exact ih i hi (by omega)

/-- The strides of a packed storage: stride one for the fastest direction, then the chain. -/
def packed (e : Layout d) : Fin d → Nat :=
  if h : 0 < d then e.chain (Function.update e.stride (e.order ⟨0, h⟩) 1) (d - 1) else e.stride

theorem packed_order {e : Layout d} (hinj : Function.Injective e.order) (i : Fin d) :
    e.packed (e.order i) = below e.size e.order i := by
  have hd : 0 < d := Nat.lt_of_le_of_lt (Nat.zero_le _) i.isLt
  rw [packed, dif_pos hd, ← Nat.one_mul (below e.size e.order i)]
  exact chain_order hinj (fun _ => Function.update_self _ _ _) (d - 1) i i.isLt (by omega)

/-- The address in a packed storage, direction by direction in storage order. -/
theorem addr_packed {e : Layout d} (hinj : Function.Injective e.order)
    (hs : ∀ i : Fin d, e.stride (e.order i) = below e.size e.order i) (j : Fin d → Nat) :
    e.addr j = ∑ i : Fin d, j (e.order i) * below e.size e.order i := by
  have hbij : Function.Bijective e.order := Finite.injective_iff_bijective.mp hinj
  rw [addr, ← hbij.sum_comp fun k => j k * e.stride k]
  simp only [hs]

end Layout

/-! ## Nested strides -/

/-- Digits below `n`, each place wide enough for the ones before it. -/
structure Places (n s : Nat → Nat) (d : Nat) : Prop where
  first : 0 < d → 0 < s 0
  next : ∀ i, i + 1 < d → n i * s i ≤ s (i + 1)

theorem Places.sum_lt {n s a : Nat → Nat} {d : Nat} (h : Places n s d)
    (ha : ∀ i, i < d → a i < n i) :
    ∀ k, k < d → ∑ i ∈ Finset.range (k + 1), a i * s i < n k * s k := by
  intro k
  induction k with
  | zero =>
    intro hd
    rw [Finset.sum_range_one]
    exact Nat.mul_lt_mul_of_pos_right (ha 0 hd) (h.first hd)
  | succ k ih =>
    intro hk
    have hprev := ih (by omega)
    have hroom := h.next k hk
    have hstep : (a (k + 1) + 1) * s (k + 1) ≤ n (k + 1) * s (k + 1) :=
      Nat.mul_le_mul_right _ (ha (k + 1) hk)
    rw [Finset.sum_range_succ]
    rw [Nat.succ_mul] at hstep
    omega

theorem Places.sum_lt_next {n s a : Nat → Nat} {d : Nat} (h : Places n s d)
    (ha : ∀ i, i < d → a i < n i) {k : Nat} (hk : 0 < k) (hkd : k < d) :
    ∑ i ∈ Finset.range k, a i * s i < s k := by
  have hlt := h.sum_lt ha (k - 1) (by omega)
  have hroom := h.next (k - 1) (by omega)
  rw [Nat.sub_add_cancel hk] at hlt hroom
  omega

/-- The slowest digit that differs decides. -/
theorem Places.sum_lt_sum {n s a a' : Nat → Nat} {d : Nat} (h : Places n s d)
    (ha : ∀ i, i < d → a i < n i) {k : Nat} (hk : k < d) (hlt : a k < a' k)
    (hsame : ∀ i, k < i → i < d → a i = a' i) :
    ∑ i ∈ Finset.range d, a i * s i < ∑ i ∈ Finset.range d, a' i * s i := by
  have hlow : ∑ i ∈ Finset.range (k + 1), a i * s i <
      ∑ i ∈ Finset.range (k + 1), a' i * s i := by
    rw [Finset.sum_range_succ, Finset.sum_range_succ]
    have hrest : ∑ i ∈ Finset.range k, a i * s i < s k := by
      rcases Nat.eq_zero_or_pos k with rfl | hpos
      · exact h.first hk
      · exact h.sum_lt_next ha hpos hk
    have htop : (a k + 1) * s k ≤ a' k * s k := Nat.mul_le_mul_right _ hlt
    rw [Nat.succ_mul] at htop
    omega
  -- above the place that differs both sums grow alike
  have hgrow : ∀ m, k + 1 ≤ m → m ≤ d →
      ∑ i ∈ Finset.range m, a i * s i < ∑ i ∈ Finset.range m, a' i * s i := by
    intro m hm
    induction m, hm using Nat.le_induction with
    | base => exact fun _ => hlow
    | succ m hm ih =>
      intro hmd
      rw [Finset.sum_range_succ, Finset.sum_range_succ, hsame m hm hmd]
      have := ih (Nat.le_of_succ_le hmd)
      omega
  exact hgrow d hk (Nat.le_refl d)

theorem Places.unique {n s a a' : Nat → Nat} {d : Nat} (h : Places n s d)
    (ha : ∀ i, i < d → a i < n i) (ha' : ∀ i, i < d → a' i < n i)
    (heq : ∑ i ∈ Finset.range d, a i * s i = ∑ i ∈ Finset.range d, a' i * s i) :
    ∀ i, i < d → a i = a' i := by
  induction d with
  | zero => exact fun i hi => by omega
  | succ d ih =>
    have hlow : Places n s d := ⟨fun _ => h.first (by omega), fun i hi => h.next i (by omega)⟩
    rw [Finset.sum_range_succ, Finset.sum_range_succ] at heq
    have htop : a d = a' d ∧
        ∑ i ∈ Finset.range d, a i * s i = ∑ i ∈ Finset.range d, a' i * s i := by
      rcases Nat.eq_zero_or_pos d with rfl | hd
      · simp only [Finset.range_zero, Finset.sum_empty, Nat.zero_add] at heq
        exact ⟨Nat.eq_of_mul_eq_mul_right (h.first (by omega)) heq, rfl⟩
      · have hr := h.sum_lt_next ha hd (Nat.lt_succ_self d)
        have hr' := h.sum_lt_next ha' hd (Nat.lt_succ_self d)
        have hdiv : ∀ q r, r < s d → (r + q * s d) / s d = q := fun q r hlt => by
          rw [Nat.add_mul_div_right _ _ (by omega), Nat.div_eq_of_lt hlt, Nat.zero_add]
        have hq := congrArg (· / s d) heq
        simp only [hdiv _ _ hr, hdiv _ _ hr'] at hq
        rw [hq] at heq
        exact ⟨hq, by omega⟩
    intro i hi
    rcases Nat.lt_or_ge i d with hlt | hge
    · exact ih hlow (fun i hi => ha i (by omega)) (fun i hi => ha' i (by omega)) htop.2 i hlt
    · obtain rfl : i = d := by omega
      exact htop.1

namespace Layout

variable {d : Nat}

/-- A direction at its full size fits below the stride of the next slower one. -/
structure Nested (e : Layout d) : Prop where
  order_injective : Function.Injective e.order
  first : ∀ h : 0 < d, 0 < e.stride (e.order ⟨0, h⟩)
  next : ∀ i (h : i + 1 < d), e.size (e.order ⟨i, Nat.lt_of_succ_lt h⟩) *
    e.stride (e.order ⟨i, Nat.lt_of_succ_lt h⟩) ≤ e.stride (e.order ⟨i + 1, h⟩)

/-- A value for each direction, by its place in the storage order. -/
def placed (e : Layout d) (f : Fin d → Nat) (i : Nat) : Nat :=
  if h : i < d then f (e.order ⟨i, h⟩) else 0

theorem placed_lt {e : Layout d} (f : Fin d → Nat) {i : Nat} (h : i < d) :
    e.placed f i = f (e.order ⟨i, h⟩) := dif_pos h

theorem Nested.places {e : Layout d} (h : e.Nested) :
    Places (e.placed e.size) (e.placed e.stride) d := by
  refine ⟨fun hd => ?_, fun i hi => ?_⟩
  · rw [placed_lt _ hd]
    exact h.first hd
  · rw [placed_lt _ hi, placed_lt _ (Nat.lt_of_succ_lt hi), placed_lt _ (Nat.lt_of_succ_lt hi)]
    exact h.next i hi

theorem addr_eq_places {e : Layout d} (hinj : Function.Injective e.order) (j : Fin d → Nat) :
    e.addr j = ∑ i ∈ Finset.range d, e.placed j i * e.placed e.stride i := by
  have hbij : Function.Bijective e.order := Finite.injective_iff_bijective.mp hinj
  rw [addr, ← hbij.sum_comp fun k => j k * e.stride k, Finset.sum_range]
  refine Finset.sum_congr rfl fun i _ => ?_
  rw [placed_lt _ i.isLt, placed_lt _ i.isLt]

/-- The room of the slowest direction, which is that of the whole box. -/
def room {d : Nat} (e : Layout (d + 1)) : Nat :=
  e.size (e.order (Fin.last d)) * e.stride (e.order (Fin.last d))

theorem placed_inBox {e : Layout d} {j : Fin d → Nat} (hj : e.InBox j) (i : Nat) (hi : i < d) :
    e.placed j i < e.placed e.size i := by
  rw [placed_lt _ hi, placed_lt _ hi]
  exact hj _

theorem room_packed {d : Nat} {e : Layout (d + 1)} (hinj : Function.Injective e.order)
    (hs : ∀ i, e.stride (e.order i) = below e.size e.order i) : e.room = ∏ k, e.size k := by
  rw [room, hs, ← below_all hinj, below, dif_pos (Nat.lt_succ_self d), Nat.mul_comm]
  rfl

theorem Nested.below_le {e : Layout d} (h : e.Nested) (i : Nat) (hi : i < d) :
    below e.size e.order i ≤ e.stride (e.order ⟨i, hi⟩) := by
  induction i with
  | zero => exact h.first hi
  | succ i ih =>
    rw [below, dif_pos (Nat.lt_of_succ_lt hi), Nat.mul_comm]
    exact (Nat.mul_le_mul_left _ (ih (Nat.lt_of_succ_lt hi))).trans (h.next i hi)

theorem Nested.addr_lt {d : Nat} {e : Layout (d + 1)} (h : e.Nested) {j : Fin (d + 1) → Nat}
    (hj : e.InBox j) : e.addr j < e.room := by
  rw [addr_eq_places h.order_injective]
  have hlt := h.places.sum_lt (placed_inBox hj) d (Nat.lt_succ_self d)
  rwa [placed_lt _ (Nat.lt_succ_self d), placed_lt _ (Nat.lt_succ_self d)] at hlt

theorem Nested.addr_inj {e : Layout d} (h : e.Nested) {j j' : Fin d → Nat} (hj : e.InBox j)
    (hj' : e.InBox j') (heq : e.addr j = e.addr j') : j = j' := by
  rw [addr_eq_places h.order_injective, addr_eq_places h.order_injective] at heq
  have hdigits := h.places.unique (placed_inBox hj) (placed_inBox hj') heq
  have hsurj : Function.Surjective e.order := Finite.injective_iff_surjective.mp h.order_injective
  funext k
  obtain ⟨i, rfl⟩ := hsurj k
  have := hdigits i i.isLt
  rwa [placed_lt _ i.isLt, placed_lt _ i.isLt] at this

theorem Nested.exists_laidOut {α : Type*} [Inhabited α] {e : Layout d} (h : e.Nested)
    (u : (Fin d → Nat) → α) : ∃ x, e.LaidOut u x := by
  classical
  refine ⟨fun pos => if hp : ∃ j, e.InBox j ∧ e.addr j = pos then
    u fun k => e.start k + hp.choose k else default, laidOut_iff.mpr fun j hj => ?_⟩
  have hp : ∃ j', e.InBox j' ∧ e.addr j' = e.addr j := ⟨j, hj, rfl⟩
  obtain ⟨hin, haddr⟩ := hp.choose_spec
  rw [dif_pos hp, h.addr_inj hin hj haddr]

/-- The addresses of a nested storage are in row-major order. -/
theorem Nested.addr_lt_iff {e : Layout d} (h : e.Nested) {j j' : Fin d → Nat} (hj : e.InBox j)
    (hj' : e.InBox j') : e.addr j < e.addr j' ↔
      toLex (j ∘ e.order ∘ Fin.rev) < toLex (j' ∘ e.order ∘ Fin.rev) := by
  have hmono : ∀ {j j' : Fin d → Nat}, e.InBox j →
      toLex (j ∘ e.order ∘ Fin.rev) < toLex (j' ∘ e.order ∘ Fin.rev) → e.addr j < e.addr j' := by
    rintro j j' hj ⟨i, hsame, hlt⟩
    rw [addr_eq_places h.order_injective, addr_eq_places h.order_injective]
    refine h.places.sum_lt_sum (placed_inBox hj) (Fin.rev i).isLt ?_ fun m hm hmd => ?_
    · rw [placed_lt _ (Fin.rev i).isLt, placed_lt _ (Fin.rev i).isLt]
      exact hlt
    · rw [placed_lt _ hmd, placed_lt _ hmd]
      have heq := hsame (Fin.rev ⟨m, hmd⟩) (Fin.rev_lt_iff.mpr hm)
      simp only [Pi.toLex_apply, Function.comp_apply, Fin.rev_rev] at heq
      exact heq
  refine ⟨fun hlt => ?_, hmono hj⟩
  rcases lt_trichotomy (toLex (j ∘ e.order ∘ Fin.rev)) (toLex (j' ∘ e.order ∘ Fin.rev)) with
    hl | heq | hg
  · exact hl
  · have hsurj := Finite.injective_iff_surjective.mp h.order_injective
    have hjj : j = j' := by
      have hcomp : j ∘ e.order ∘ Fin.rev = j' ∘ e.order ∘ Fin.rev := heq
      exact (hsurj.comp Fin.rev_surjective).injective_comp_right hcomp
    rw [hjj] at hlt
    exact absurd hlt (Nat.lt_irrefl _)
  · exact absurd (hmono hj' hg) (Nat.lt_asymm hlt)

/-- The number of indices of the box is the number of addresses, so none is left out. -/
theorem addr_bijOn {d : Nat} {e : Layout (d + 1)} (h : e.Nested) (hroom : e.room = ∏ k, e.size k) :
    Set.BijOn e.addr {j | e.InBox j} (Set.Iio (∏ k, e.size k)) := by
  have hbox : (Fintype.piFinset fun k => Finset.range (e.size k) : Set (Fin (d + 1) → Nat)) =
      {j | e.InBox j} := by
    ext j
    simp [InBox]
  have hmaps : Set.MapsTo e.addr {j | e.InBox j} (Finset.range (∏ k, e.size k)) := by
    intro j hj
    rw [Finset.coe_range, ← hroom]
    exact h.addr_lt hj
  have hinj : Set.InjOn e.addr {j | e.InBox j} := fun j hj j' hj' => h.addr_inj hj hj'
  rw [← Finset.coe_range]
  refine ⟨hmaps, hinj, ?_⟩
  rw [← hbox] at hmaps hinj ⊢
  refine Finset.surjOn_of_injOn_of_card_le _ hmaps hinj ?_
  simp

theorem nested_packed {e : Layout d} (hinj : Function.Injective e.order)
    (hs : ∀ i : Fin d, e.stride (e.order i) = below e.size e.order i) : e.Nested := by
  refine ⟨hinj, fun h => ?_, fun i h => ?_⟩
  · rw [hs]
    exact Nat.one_pos
  · rw [hs, hs, below, dif_pos (Nat.lt_of_succ_lt h), Nat.mul_comm]

end Layout

end Strided
