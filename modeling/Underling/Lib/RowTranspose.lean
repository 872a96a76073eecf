import Underling.Lib.Blocks

/-!
# Lib.RowTranspose

Transposing a `rows × cols` matrix of tuples that is distributed by blocks of rows before and by
blocks of columns after. Rank `r` keeps its rows one after the other (or, for a shape with
`transposedIn`, column by column), and afterwards its columns one after the other (or, with
`transposedOut`, row by row).

* `Transposed s x y`: the buffers `y` hold after transposition what the buffers `x` held before.
* `outIndex` recovers row, column and component from a rank and an address; with it every address
  of a local block is the address of exactly one entry.
* `Transposed.flip`: the flipped shape transposes back. `Transposed.unique`: the local blocks
  before determine the local blocks after.
* `transpose` computes a result.
-/

namespace RowTranspose

structure Shape where
  rows : Nat
  cols : Nat
  tuple : Nat
  rowBlock : Nat
  colBlock : Nat
  transposedIn : Bool
  transposedOut : Bool
deriving DecidableEq

namespace Shape

/-- The shape of the way back. -/
def flip (s : Shape) : Shape where
  rows := s.cols
  cols := s.rows
  tuple := s.tuple
  rowBlock := s.colBlock
  colBlock := s.rowBlock
  transposedIn := s.transposedOut
  transposedOut := s.transposedIn

theorem flip_flip (s : Shape) : s.flip.flip = s := rfl

def localRows (s : Shape) (r : Nat) : Nat := Blocks.len s.rows s.rowBlock r

def localCols (s : Shape) (r : Nat) : Nat := Blocks.len s.cols s.colBlock r

/-- Size of the local block of rank `r` before the transposition. -/
def inSize (s : Shape) (r : Nat) : Nat := s.localRows r * s.cols * s.tuple

/-- Size of the local block of rank `r` after the transposition. -/
def outSize (s : Shape) (r : Nat) : Nat := s.localCols r * s.rows * s.tuple

/-- Address of component `k` of entry `(R, C)` on rank `R / rowBlock`. -/
def inAddr (s : Shape) (R C k : Nat) : Nat :=
  if s.transposedIn then (C * s.localRows (R / s.rowBlock) + R % s.rowBlock) * s.tuple + k
  else (R % s.rowBlock * s.cols + C) * s.tuple + k

/-- Address of component `k` of entry `(R, C)` on rank `C / colBlock`. -/
def outAddr (s : Shape) (R C k : Nat) : Nat :=
  if s.transposedOut then (R * s.localCols (C / s.colBlock) + C % s.colBlock) * s.tuple + k
  else (C % s.colBlock * s.rows + R) * s.tuple + k

theorem flip_inAddr (s : Shape) (R C k : Nat) : s.flip.inAddr C R k = s.outAddr R C k := rfl

theorem flip_outAddr (s : Shape) (R C k : Nat) : s.flip.outAddr C R k = s.inAddr R C k := rfl

/-- An entry of the matrix. -/
structure Entry (s : Shape) (R C k : Nat) : Prop where
  row : R < s.rows
  col : C < s.cols
  comp : k < s.tuple

theorem Entry.flip {s : Shape} {R C k : Nat} (h : s.Entry R C k) : s.flip.Entry C R k :=
  ⟨h.col, h.row, h.comp⟩

/-- Row, column and component at address `a` of rank `r` after the transposition. -/
def outIndex (s : Shape) (r a : Nat) : Nat × Nat × Nat :=
  let q := a / s.tuple
  if s.transposedOut then
    (q / s.localCols r, r * s.colBlock + q % s.localCols r, a % s.tuple)
  else (q % s.rows, r * s.colBlock + q / s.rows, a % s.tuple)

private theorem digits {w q j : Nat} (hj : j < w) : (q * w + j) / w = q ∧ (q * w + j) % w = j := by
  constructor
  · rw [Nat.mul_comm, Nat.mul_add_div (by omega), Nat.div_eq_of_lt hj, Nat.add_zero]
  · rw [Nat.mul_comm, Nat.mul_add_mod, Nat.mod_eq_of_lt hj]

theorem outIndex_outAddr {s : Shape} (hb : 0 < s.colBlock) {R C k : Nat} (h : s.Entry R C k) :
    s.outIndex (C / s.colBlock) (s.outAddr R C k) = (R, C, k) := by
  have hC : C / s.colBlock * s.colBlock + C % s.colBlock = C := by
    rw [Nat.mul_comm]
    exact Nat.div_add_mod C s.colBlock
  by_cases ho : s.transposedOut = true
  · have hl : C % s.colBlock < s.localCols (C / s.colBlock) := Blocks.mod_lt_len hb h.col
    simp only [outIndex, outAddr, ho, if_true, (digits h.comp).1, (digits h.comp).2,
      (digits hl).1, (digits hl).2, hC]
  · simp only [outIndex, outAddr, ho, if_false, (digits h.comp).1, (digits h.comp).2,
      (digits h.row).1, (digits h.row).2, hC, Bool.false_eq_true]

theorem localCols_pos {s : Shape} {r j : Nat} (hj : j < s.localCols r) :
    r * s.colBlock + j < s.cols ∧ (r * s.colBlock + j) / s.colBlock = r ∧
      (r * s.colBlock + j) % s.colBlock = j :=
  Blocks.block_pos hj

theorem outAddr_surj {s : Shape} {r a : Nat} (ha : a < s.outSize r) :
    ∃ R C k, s.Entry R C k ∧ C / s.colBlock = r ∧ s.outAddr R C k = a := by
  have ht : 0 < s.tuple := Nat.pos_of_mul_pos_left (Nat.lt_of_le_of_lt (Nat.zero_le a) ha)
  have hq : a / s.tuple < s.localCols r * s.rows := (Nat.div_lt_iff_lt_mul ht).mpr ha
  have hl : 0 < s.localCols r := Nat.pos_of_mul_pos_right (Nat.lt_of_le_of_lt (Nat.zero_le _) hq)
  have hr : 0 < s.rows := Nat.pos_of_mul_pos_left (Nat.lt_of_le_of_lt (Nat.zero_le _) hq)
  have hk := Nat.mod_lt a ht
  by_cases ho : s.transposedOut = true
  · obtain ⟨hC, hdiv, hmod⟩ := localCols_pos (Nat.mod_lt (a / s.tuple) hl)
    refine ⟨a / s.tuple / s.localCols r, r * s.colBlock + a / s.tuple % s.localCols r, a % s.tuple,
      ⟨?_, hC, hk⟩, hdiv, ?_⟩
    · rw [Nat.div_lt_iff_lt_mul hl, Nat.mul_comm]
      exact hq
    · rw [outAddr, if_pos ho, hdiv, hmod, Nat.mul_comm (_ / _), Nat.div_add_mod, Nat.mul_comm]
      exact Nat.div_add_mod a s.tuple
  · have hj : a / s.tuple / s.rows < s.localCols r := (Nat.div_lt_iff_lt_mul hr).mpr hq
    obtain ⟨hC, hdiv, hmod⟩ := localCols_pos hj
    refine ⟨a / s.tuple % s.rows, r * s.colBlock + a / s.tuple / s.rows, a % s.tuple,
      ⟨Nat.mod_lt _ hr, hC, hk⟩, hdiv, ?_⟩
    rw [outAddr, if_neg ho, hmod, Nat.mul_comm (_ / _), Nat.div_add_mod, Nat.mul_comm]
    exact Nat.div_add_mod a s.tuple

theorem exists_outs {α : Type} {s : Shape} (hb : 0 < s.colBlock) (f : Nat → Nat → Nat → α) :
    ∃ y : Nat → Nat → α, ∀ R C k, s.Entry R C k →
      y (C / s.colBlock) (s.outAddr R C k) = f R C k := by
  refine ⟨fun r a => f (s.outIndex r a).1 (s.outIndex r a).2.1 (s.outIndex r a).2.2, ?_⟩
  intro R C k h
  simp only [outIndex_outAddr hb h]

theorem exists_ins {α : Type} {s : Shape} (hb : 0 < s.rowBlock) (f : Nat → Nat → Nat → α) :
    ∃ x : Nat → Nat → α, ∀ R C k, s.Entry R C k →
      x (R / s.rowBlock) (s.inAddr R C k) = f R C k := by
  obtain ⟨x, hx⟩ := exists_outs (s := s.flip) hb fun C R k => f R C k
  exact ⟨x, fun R C k h => hx C R k h.flip⟩

theorem inAddr_lt {s : Shape} (hb : 0 < s.rowBlock) {R C k : Nat} (h : s.Entry R C k) :
    s.inAddr R C k < s.inSize (R / s.rowBlock) := by
  have hl : R % s.rowBlock < s.localRows (R / s.rowBlock) := Blocks.mod_lt_len hb h.row
  have hq : ∀ {w n q j : Nat}, q < n → j < w → q * w + j < n * w := by
    intro w n q j hq hj
    calc q * w + j < q * w + w := by omega
      _ = (q + 1) * w := (Nat.succ_mul q w).symm
      _ ≤ n * w := Nat.mul_le_mul_right w hq
  by_cases hi : s.transposedIn = true
  · rw [inAddr, if_pos hi, inSize, Nat.mul_comm (s.localRows _)]
    exact hq (hq h.col hl) h.comp
  · rw [inAddr, if_neg hi, inSize]
    exact hq (hq hl h.col) h.comp

end Shape

variable {α : Type}

/-- `outs` holds after the transposition what `ins` held before, entry by entry. Addresses past
the local blocks are unconstrained. -/
def Transposed (s : Shape) (ins outs : Nat → Nat → α) : Prop :=
  ∀ R C k, s.Entry R C k →
    outs (C / s.colBlock) (s.outAddr R C k) = ins (R / s.rowBlock) (s.inAddr R C k)

theorem Transposed.flip {s : Shape} {x y : Nat → Nat → α} (h : Transposed s x y) :
    Transposed s.flip y x :=
  fun C R k he => (h R C k he.flip).symm

theorem Transposed.congr_ranks {s : Shape} {p : Nat} (hp : ∀ C, C < s.cols → C / s.colBlock < p)
    {x y y' : Nat → Nat → α} (h : Transposed s x y) (hy : ∀ r, r < p → y' r = y r) :
    Transposed s x y' := by
  intro R C k he
  rw [hy _ (hp C he.col)]
  exact h R C k he

/-- The local blocks before, on the ranks that own a row, determine the local blocks after. -/
theorem Transposed.unique {s : Shape} (hb : 0 < s.rowBlock) {x x' y y' : Nat → Nat → α}
    (h : Transposed s x y) (h' : Transposed s x' y')
    {p : Nat} (hp : ∀ R, R < s.rows → R / s.rowBlock < p)
    (hx : ∀ r a, r < p → a < s.inSize r → x r a = x' r a) :
    ∀ r a, a < s.outSize r → y r a = y' r a := by
  intro r a ha
  obtain ⟨R, C, k, he, rfl, rfl⟩ := Shape.outAddr_surj ha
  rw [h R C k he, h' R C k he]
  exact hx _ _ (hp R he.row) (Shape.inAddr_lt hb he)

/-- A transposition computed from the addresses; past the local blocks the result is arbitrary. -/
def transpose (s : Shape) (ins : Nat → Nat → α) : Nat → Nat → α := fun r a =>
  let e := s.outIndex r a
  ins (e.1 / s.rowBlock) (s.inAddr e.1 e.2.1 e.2.2)

theorem transposed_transpose {s : Shape} (hb : 0 < s.colBlock) (ins : Nat → Nat → α) :
    Transposed s ins (transpose s ins) := by
  intro R C k he
  simp only [transpose, Shape.outIndex_outAddr hb he]

end RowTranspose
