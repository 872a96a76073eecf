import Mathlib.Algebra.Order.Floor.Div
import Mathlib.Algebra.Order.Ring.Nat
import Mathlib.Algebra.BigOperators.Group.Finset.Basic
import Mathlib.Data.Finset.Range

/-!
# Lib.Blocks

Block distributions of `n` items: rank `r` owns the items `[min n (r * b), min n ((r + 1) * b))`
for a block length `b`. The last block may be partial and the blocks after it are empty.

* `mem_block_iff`: item `i` belongs to rank `i / b` and to no other rank.
* `start_mul`, `len_mul`: distributing `m * n` items by blocks of `m * b` is distributing `n`
  items by blocks of `b`, `m` at a time.
* `number`: the number of item `(s, i)` of an `m × n` array when each rank numbers its own part
  `m × len n b r` row by row, after the parts of the ranks before it; `outer` and `inner` invert it.
* `decode_rowMajor_iff`: those numbers are the row-major ones exactly when there is at most one row
  or a single block.
-/

namespace Blocks

/-- First item of rank `r`. -/
def start (n b r : Nat) : Nat := min n (r * b)

/-- Number of items of rank `r`. -/
def len (n b r : Nat) : Nat := min n ((r + 1) * b) - min n (r * b)

theorem start_add_len (n b r : Nat) : start n b r + len n b r = min n ((r + 1) * b) := by
  have h : r * b ≤ (r + 1) * b := Nat.mul_le_mul_right b (Nat.le_succ r)
  simp only [start, len]
  omega

theorem len_le_block (n b r : Nat) : len n b r ≤ b := by
  have h : (r + 1) * b = r * b + b := Nat.succ_mul r b
  simp only [len]
  omega

theorem start_add_len_le (n b r : Nat) : start n b r + len n b r ≤ n := by
  rw [start_add_len]
  exact Nat.min_le_left _ _

@[simp] theorem start_zero (n b : Nat) : start n b 0 = 0 := by simp [start]

@[simp] theorem len_zero (n b : Nat) : len n b 0 = min n b := by simp [len]

@[simp] theorem len_of_no_items (b r : Nat) : len 0 b r = 0 := by simp [len]

theorem mem_block_iff {n b r i : Nat} (hb : 0 < b) :
    (start n b r ≤ i ∧ i < start n b r + len n b r) ↔ i < n ∧ i / b = r := by
  rw [start_add_len]
  simp only [start]
  constructor
  · rintro ⟨hlo, hhi⟩
    exact ⟨by omega, Nat.div_eq_of_lt_le (by omega) (by omega)⟩
  · rintro ⟨hn, rfl⟩
    have hlo : i / b * b ≤ i := Nat.div_mul_le_self i b
    have hhi : i < (i / b + 1) * b := (Nat.div_lt_iff_lt_mul hb).mp (Nat.lt_succ_self _)
    omega

/-- The block of an item is not cut off at the left. -/
theorem start_eq_of_lt {n b r i : Nat} (hi : i < n) (hr : r * b ≤ i) : start n b r = r * b := by
  simp only [start]
  omega

theorem mod_lt_len {n b i : Nat} (hb : 0 < b) (hi : i < n) : i % b < len n b (i / b) := by
  have hm := (mem_block_iff (r := i / b) hb).mpr ⟨hi, rfl⟩
  have hs := start_eq_of_lt hi (Nat.div_mul_le_self i b)
  have hd := Nat.div_add_mod i b
  rw [Nat.mul_comm] at hd
  omega

theorem block_pos {n b r j : Nat} (hj : j < len n b r) :
    r * b + j < n ∧ (r * b + j) / b = r ∧ (r * b + j) % b = j := by
  have hjb : j < b := Nat.lt_of_lt_of_le hj (len_le_block n b r)
  have hb : 0 < b := by omega
  refine ⟨?_, ?_, ?_⟩
  · simp only [len] at hj
    omega
  · rw [Nat.mul_comm, Nat.mul_add_div hb, Nat.div_eq_of_lt hjb, Nat.add_zero]
  · rw [Nat.mul_comm, Nat.mul_add_mod, Nat.mod_eq_of_lt hjb]

theorem start_of_lt_len {n b r j : Nat} (hj : j < len n b r) : start n b r = r * b :=
  start_eq_of_lt (i := r * b + j) (block_pos hj).1 (Nat.le_add_right _ _)

theorem len_pos_iff {n b r : Nat} (hb : 0 < b) : 0 < len n b r ↔ r * b < n := by
  have hlt : r * b < (r + 1) * b := by
    rw [Nat.succ_mul]
    omega
  simp only [len]
  omega

theorem start_mul (m n b r : Nat) : start (m * n) (m * b) r = m * start n b r := by
  simp only [start]
  rw [Nat.mul_left_comm, Nat.mul_min_mul_left]

theorem len_mul (m n b r : Nat) : len (m * n) (m * b) r = m * len n b r := by
  simp only [len]
  rw [Nat.mul_left_comm (r + 1), Nat.mul_left_comm r, Nat.mul_min_mul_left, Nat.mul_min_mul_left,
    Nat.mul_sub]

/-- Telescoping: the blocks of the first `p` ranks hold `min n (p * b)` items. -/
theorem sum_len (n b p : Nat) : ∑ r ∈ Finset.range p, len n b r = min n (p * b) := by
  induction p with
  | zero => simp
  | succ p ih =>
    rw [Finset.sum_range_succ, ih]
    exact start_add_len n b p

/-! ## The default block `⌈n / p⌉` -/

theorem le_mul_ceilDiv {n p : Nat} (hp : 0 < p) : n ≤ p * (n ⌈/⌉ p) :=
  (ceilDiv_le_iff_le_mul hp).mp (Nat.le_refl _)

theorem ceilDiv_pos {n p : Nat} (hp : 0 < p) (hn : 0 < n) : 0 < n ⌈/⌉ p := by
  have h := le_mul_ceilDiv (n := n) hp
  rcases Nat.eq_zero_or_pos (n ⌈/⌉ p) with h0 | h0
  · rw [h0, Nat.mul_zero] at h
    omega
  · exact h0

theorem ceilDiv_le_self {n p : Nat} (hp : 0 < p) : n ⌈/⌉ p ≤ n :=
  (ceilDiv_le_iff_le_mul hp).mpr (Nat.le_mul_of_pos_left n hp)

/-- Some rank has a share that is not empty and at least as long as a given one. -/
theorem exists_len_pos {n p r : Nat} (hn : 0 < n) (hr : r < p) :
    ∃ r' < p, len n (n ⌈/⌉ p) r ≤ len n (n ⌈/⌉ p) r' ∧ 0 < len n (n ⌈/⌉ p) r' := by
  have hp : 0 < p := by omega
  rcases Nat.eq_zero_or_pos (len n (n ⌈/⌉ p) r) with h0 | hpos
  · refine ⟨0, hp, by omega, ?_⟩
    rw [len_pos_iff (ceilDiv_pos hp hn)]
    omega
  · exact ⟨r, hr, Nat.le_refl _, hpos⟩

theorem owner_lt {n p i : Nat} (hp : 0 < p) (hi : i < n) : i / (n ⌈/⌉ p) < p := by
  rw [Nat.div_lt_iff_lt_mul (ceilDiv_pos hp (by omega))]
  exact Nat.lt_of_lt_of_le hi (le_mul_ceilDiv hp)

theorem sum_len_ceilDiv {n p : Nat} (hp : 0 < p) :
    ∑ r ∈ Finset.range p, len n (n ⌈/⌉ p) r = n := by
  rw [sum_len]
  exact Nat.min_eq_left (le_mul_ceilDiv hp)

theorem le_ceilDiv_iff {n p : Nat} (hp : 0 < p) (hpn : p ≤ n) : n ≤ n ⌈/⌉ p ↔ p = 1 := by
  constructor
  · intro h
    by_contra hne
    have h2 : n ⌈/⌉ p ≤ n - 1 := by
      rw [ceilDiv_le_iff_le_mul hp]
      have : 2 * (n - 1) ≤ p * (n - 1) := Nat.mul_le_mul_right _ (by omega)
      omega
    omega
  · rintro rfl
    exact le_of_eq (ceilDiv_one n).symm

theorem ceilDiv_le_one_iff {n p : Nat} (hp : 0 < p) : n ⌈/⌉ p ≤ 1 ↔ n ≤ p := by
  rw [ceilDiv_le_iff_le_mul hp, Nat.mul_one]

/-! ## Numbering an `m × n` array rank by rank -/

/-- The number of item `(s, i)`: the ranks before the one of `i` hold `m * b` items each. -/
def number (m n b s i : Nat) : Nat := i / b * (m * b) + (s * len n b (i / b) + i % b)

/-- The row of the item with number `R`. -/
def outer (m n b R : Nat) : Nat := R % (m * b) / len n b (R / (m * b))

/-- The column of the item with number `R`. -/
def inner (m n b R : Nat) : Nat := R / (m * b) * b + R % (m * b) % len n b (R / (m * b))

theorem number_eq_split {m n b s i : Nat} (hb : 0 < b) (hs : s < m) (hi : i < n) :
    number m n b s i / (m * b) = i / b ∧
      number m n b s i % (m * b) = s * len n b (i / b) + i % b := by
  have hlt : s * len n b (i / b) + i % b < m * b := by
    have h1 := mod_lt_len hb hi
    have h2 := len_le_block n b (i / b)
    calc s * len n b (i / b) + i % b
        < s * len n b (i / b) + len n b (i / b) := by omega
      _ = (s + 1) * len n b (i / b) := (Nat.succ_mul _ _).symm
      _ ≤ m * b := Nat.mul_le_mul hs h2
  have hmb : 0 < m * b := by omega
  constructor
  · rw [number, Nat.mul_comm, Nat.mul_add_div hmb, Nat.div_eq_of_lt hlt, Nat.add_zero]
  · rw [number, Nat.mul_comm, Nat.mul_add_mod, Nat.mod_eq_of_lt hlt]

theorem number_lt {m n b s i : Nat} (hb : 0 < b) (hs : s < m) (hi : i < n) :
    number m n b s i < m * n := by
  have hmb : 0 < m * b := Nat.mul_pos (by omega) hb
  refine ((mem_block_iff (r := i / b) hmb).mp ?_).1
  have hsl : s * len n b (i / b) + i % b < m * len n b (i / b) := by
    have hlen := mod_lt_len hb hi
    calc s * len n b (i / b) + i % b
        < s * len n b (i / b) + len n b (i / b) := by omega
      _ = (s + 1) * len n b (i / b) := (Nat.succ_mul _ _).symm
      _ ≤ m * len n b (i / b) := Nat.mul_le_mul_right _ hs
  rw [start_mul, len_mul, start_eq_of_lt hi (Nat.div_mul_le_self i b), Nat.mul_left_comm]
  simp only [number]
  omega

theorem outer_number {m n b s i : Nat} (hb : 0 < b) (hs : s < m) (hi : i < n) :
    outer m n b (number m n b s i) = s := by
  obtain ⟨hq, hr⟩ := number_eq_split hb hs hi
  have h1 := mod_lt_len hb hi
  rw [outer, hq, hr, Nat.mul_comm, Nat.mul_add_div (by omega), Nat.div_eq_of_lt h1, Nat.add_zero]

theorem inner_number {m n b s i : Nat} (hb : 0 < b) (hs : s < m) (hi : i < n) :
    inner m n b (number m n b s i) = i := by
  obtain ⟨hq, hr⟩ := number_eq_split hb hs hi
  have h1 := mod_lt_len hb hi
  rw [inner, hq, hr, Nat.mul_comm s, Nat.mul_add_mod, Nat.mod_eq_of_lt h1, Nat.mul_comm]
  exact Nat.div_add_mod i b

theorem number_surj {m n b R : Nat} (hb : 0 < b) (hR : R < m * n) :
    outer m n b R < m ∧ inner m n b R < n ∧ number m n b (outer m n b R) (inner m n b R) = R := by
  have hm : 0 < m := Nat.pos_of_mul_pos_right (Nat.lt_of_le_of_lt (Nat.zero_le R) hR)
  have hmb : 0 < m * b := Nat.mul_pos hm hb
  have hlt : R % (m * b) < m * len n b (R / (m * b)) := by
    rw [← len_mul]
    exact mod_lt_len hmb hR
  have hl : 0 < len n b (R / (m * b)) := by
    rcases Nat.eq_zero_or_pos (len n b (R / (m * b))) with h0 | h0
    · rw [h0, Nat.mul_zero] at hlt
      omega
    · exact h0
  obtain ⟨hin, hdiv, hmod⟩ := block_pos (Nat.mod_lt (R % (m * b)) hl)
  refine ⟨(Nat.div_lt_iff_lt_mul hl).mpr hlt, hin, ?_⟩
  rw [number, show inner m n b R / b = R / (m * b) from hdiv,
    show inner m n b R % b = R % (m * b) % len n b (R / (m * b)) from hmod, outer,
    Nat.mul_comm (R % (m * b) / _), Nat.div_add_mod, Nat.mul_comm (R / (m * b))]
  exact Nat.div_add_mod R (m * b)

theorem decode_inj {m n b R R' : Nat} (hb : 0 < b) (hR : R < m * n) (hR' : R' < m * n)
    (ho : outer m n b R = outer m n b R') (hi : inner m n b R = inner m n b R') : R = R' := by
  obtain ⟨-, -, h⟩ := number_surj hb hR
  obtain ⟨-, -, h'⟩ := number_surj hb hR'
  rw [← h, ← h', ho, hi]

/-- The number of an item is its row-major number exactly when no row follows another or all
items of a row are on one rank. -/
theorem decode_rowMajor_iff {m n b : Nat} (hb : 0 < b) :
    (∀ s i, s < m → i < n → outer m n b (s * n + i) = s ∧ inner m n b (s * n + i) = i) ↔
      m ≤ 1 ∨ n ≤ b := by
  constructor
  · intro h
    by_contra hne
    have hbm : b < m * b := by
      have : 2 * b ≤ m * b := Nat.mul_le_mul_right b (by omega)
      omega
    -- the first item of the second block carries the number of the second row on rank 0
    have h0 := (h 0 b (by omega) (by omega)).1
    rw [Nat.zero_mul, Nat.zero_add, outer, Nat.div_eq_of_lt hbm, Nat.mod_eq_of_lt hbm, len_zero,
      Nat.min_eq_right (by omega), Nat.div_self hb] at h0
    omega
  · intro h s i hs hi
    have hnum : s * n + i = number m n b s i := by
      rcases h with hm | hn
      · obtain rfl : s = 0 := by omega
        obtain rfl : m = 1 := by omega
        simp only [number, Nat.zero_mul, Nat.zero_add, Nat.one_mul]
        rw [Nat.mul_comm]
        exact (Nat.div_add_mod i b).symm
      · have hib : i / b = 0 := Nat.div_eq_of_lt (by omega)
        rw [number, hib, len_zero, Nat.min_eq_left hn, Nat.mod_eq_of_lt (by omega)]
        omega
    rw [hnum]
    exact ⟨outer_number hb hs hi, inner_number hb hs hi⟩

end Blocks
