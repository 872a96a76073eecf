import Underling.Transpose

/-!
# Underling.Stage

One transposition of the redistribution: rows `(s, i)`, `i` distributed over the processes, and
columns distributed over the same processes. Each process numbers its own rows `(s, i)` after those
of the processes before it, so a row arrives at the place of the pair it numbers.

* `Stage.accepted`: FFTW accepts every stage that is not trivial.
* `Stage.inSize`, `Stage.outSize`, `Stage.inAddr_row`, `Stage.outAddr_col`: sizes and addresses of
  the local blocks.
* `Stage.delivered_relabel`: what row-major reading finds after the stage. `Stage.relabel_eq` and
  `Stage.rowMajor_of_delivered`: it finds the field itself exactly when there is one slow index or
  the rows are not split.
-/

namespace Underling

open RowTranspose

/-- `m` slow indices, `n` indices and `c` columns distributed over `p` processes by default
blocks, `howmany` values each. -/
structure Stage where
  m : Nat
  n : Nat
  c : Nat
  p : Nat
  howmany : Nat
  flags : Flags
  n_pos : 0 < n
  c_pos : 0 < c
  p_pos : 0 < p

namespace Stage

def rowBlock (t : Stage) : Nat := t.n ⌈/⌉ t.p

def colBlock (t : Stage) : Nat := t.c ⌈/⌉ t.p

/-- What FFTW is asked to transpose. -/
def args (t : Stage) : TransposeArgs where
  d0 := t.m * t.n
  d1 := t.c
  howmany := t.howmany
  block0 := t.m * t.rowBlock
  block1 := t.colBlock
  flags := t.flags

variable (t : Stage)

theorem rowBlock_pos : 0 < t.rowBlock := Blocks.ceilDiv_pos t.p_pos t.n_pos

theorem colBlock_pos : 0 < t.colBlock := Blocks.ceilDiv_pos t.p_pos t.c_pos

theorem trivial_iff : t.args.Trivial ↔ t.howmany = 0 ∨ t.m = 0 := by
  have hn := t.n_pos
  have hc := t.c_pos
  simp only [TransposeArgs.Trivial, args, Nat.mul_eq_zero]
  omega

theorem not_trivial_iff : ¬ t.args.Trivial ↔ 0 < t.howmany ∧ 0 < t.m := by
  rw [trivial_iff]
  omega

theorem accepted (h : ¬ t.args.Trivial) : t.args.Accepted t.p := by
  obtain ⟨hh, hm⟩ := t.not_trivial_iff.mp h
  refine ⟨Nat.mul_pos hm t.n_pos, t.c_pos, hh, Nat.mul_pos hm t.rowBlock_pos, t.colBlock_pos,
    ?_, ?_⟩
  · show t.m * t.n ⌈/⌉ (t.m * t.rowBlock) ≤ t.p
    rw [ceilDiv_le_iff_le_mul (Nat.mul_pos hm t.rowBlock_pos), Nat.mul_assoc]
    refine Nat.mul_le_mul_left _ ?_
    rw [Nat.mul_comm]
    exact Blocks.le_mul_ceilDiv t.p_pos
  · show t.c ⌈/⌉ t.colBlock ≤ t.p
    rw [ceilDiv_le_iff_le_mul t.colBlock_pos, Nat.mul_comm]
    exact Blocks.le_mul_ceilDiv t.p_pos

theorem localRows (r : Nat) : t.args.shape.localRows r = t.m * Blocks.len t.n t.rowBlock r :=
  Blocks.len_mul _ _ _ _

theorem localCols (r : Nat) : t.args.shape.localCols r = Blocks.len t.c t.colBlock r := rfl

theorem inSize (r : Nat) :
    t.args.shape.inSize r = t.m * Blocks.len t.n t.rowBlock r * t.c * t.howmany := by
  rw [Shape.inSize, localRows]
  rfl

theorem outSize (r : Nat) :
    t.args.shape.outSize r = Blocks.len t.c t.colBlock r * (t.m * t.n) * t.howmany := rfl

/-- The row that carries the pair `(s, i)`. -/
def row (s i : Nat) : Nat := Blocks.number t.m t.n t.rowBlock s i

variable {t} {s i C k : Nat}

theorem row_rank (hs : s < t.m) (hi : i < t.n) : t.row s i / (t.m * t.rowBlock) = i / t.rowBlock :=
  (Blocks.number_eq_split t.rowBlock_pos hs hi).1

theorem entry (hs : s < t.m) (hi : i < t.n) (hC : C < t.c) (hk : k < t.howmany) :
    t.args.shape.Entry (t.row s i) C k :=
  ⟨Blocks.number_lt t.rowBlock_pos hs hi, hC, hk⟩

theorem inAddr_row {r j : Nat} (hs : s < t.m) (hj : j < Blocks.len t.n t.rowBlock r) :
    t.args.shape.inAddr (t.row s (r * t.rowBlock + j)) C k =
      if t.flags.has FFTW.MPI_TRANSPOSED_IN then
        (C * (t.m * Blocks.len t.n t.rowBlock r) + (s * Blocks.len t.n t.rowBlock r + j)) *
          t.howmany + k
      else ((s * Blocks.len t.n t.rowBlock r + j) * t.c + C) * t.howmany + k := by
  obtain ⟨hi, hdiv, hmod⟩ := Blocks.block_pos hj
  obtain ⟨hq, hr⟩ := Blocks.number_eq_split (m := t.m) t.rowBlock_pos hs hi
  rw [hdiv] at hq
  rw [hdiv, hmod] at hr
  have hq' : t.row s (r * t.rowBlock + j) / t.args.shape.rowBlock = r := hq
  have hr' : t.row s (r * t.rowBlock + j) % t.args.shape.rowBlock =
      s * Blocks.len t.n t.rowBlock r + j := hr
  rw [Shape.inAddr, hq', hr', localRows]
  rfl

theorem outAddr_col {r j R : Nat} (hj : j < Blocks.len t.c t.colBlock r) :
    t.args.shape.outAddr R (r * t.colBlock + j) k =
      if t.flags.has FFTW.MPI_TRANSPOSED_OUT then
        (R * Blocks.len t.c t.colBlock r + j) * t.howmany + k
      else (j * (t.m * t.n) + R) * t.howmany + k := by
  obtain ⟨-, hdiv, hmod⟩ := Blocks.block_pos hj
  have hdiv' : (r * t.colBlock + j) / t.args.shape.colBlock = r := hdiv
  have hmod' : (r * t.colBlock + j) % t.args.shape.colBlock = j := hmod
  rw [Shape.outAddr, hdiv', hmod', localCols]
  rfl

section Values

variable {α : Type} {x y : Nat → Nat → α} {f : Nat → Nat → Nat → Nat → α}

/-- Before the transposition, the buffers hold `f`, each rank its own `(s, i)` pairs row by row. -/
def Laid (t : Stage) (x : Nat → Nat → α) (f : Nat → Nat → Nat → Nat → α) : Prop :=
  ∀ s i C k, s < t.m → i < t.n → C < t.c → k < t.howmany →
    x (i / t.rowBlock) (t.args.shape.inAddr (t.row s i) C k) = f s i C k

/-- After the transposition, the buffers hold `f` with the rows in row-major order of `(s, i)`. -/
def Delivered (t : Stage) (y : Nat → Nat → α) (f : Nat → Nat → Nat → Nat → α) : Prop :=
  ∀ s i C k, s < t.m → i < t.n → C < t.c → k < t.howmany →
    y (C / t.colBlock) (t.args.shape.outAddr (s * t.n + i) C k) = f s i C k

theorem laid_iff : t.Laid x f ↔ ∀ s r j C k, s < t.m → r < t.p → j < Blocks.len t.n t.rowBlock r →
    C < t.c → k < t.howmany →
    x r (t.args.shape.inAddr (t.row s (r * t.rowBlock + j)) C k) =
      f s (r * t.rowBlock + j) C k := by
  constructor
  · intro h s r j C k hs _ hj hC hk
    obtain ⟨hi, hdiv, -⟩ := Blocks.block_pos hj
    have hval := h s _ C k hs hi hC hk
    rw [hdiv] at hval
    exact hval
  · intro h s i C k hs hi hC hk
    have hval := h s (i / t.rowBlock) (i % t.rowBlock) C k hs (Blocks.owner_lt t.p_pos hi)
      (Blocks.mod_lt_len t.rowBlock_pos hi) hC hk
    rw [Nat.div_add_mod'] at hval
    exact hval

theorem delivered_iff : t.Delivered y f ↔ ∀ s i r j k, s < t.m → i < t.n → r < t.p →
    j < Blocks.len t.c t.colBlock r → k < t.howmany →
    y r (t.args.shape.outAddr (s * t.n + i) (r * t.colBlock + j) k) =
      f s i (r * t.colBlock + j) k := by
  constructor
  · intro h s i r j k hs hi _ hj hk
    obtain ⟨hC, hdiv, -⟩ := Blocks.block_pos hj
    have hval := h s i _ k hs hi hC hk
    rw [hdiv] at hval
    exact hval
  · intro h s i C k hs hi hC hk
    have hval := h s i (C / t.colBlock) (C % t.colBlock) k hs hi (Blocks.owner_lt t.p_pos hC)
      (Blocks.mod_lt_len t.colBlock_pos hC) hk
    rw [Nat.div_add_mod'] at hval
    exact hval

theorem deliver (hx : t.Laid x f) (h : Transposed t.args.shape x y) {R : Nat} (hR : R < t.m * t.n)
    (hC : C < t.c) (hk : k < t.howmany) :
    y (C / t.colBlock) (t.args.shape.outAddr R C k) =
      f (Blocks.outer t.m t.n t.rowBlock R) (Blocks.inner t.m t.n t.rowBlock R) C k := by
  obtain ⟨hs, hi, hnum⟩ := Blocks.number_surj t.rowBlock_pos hR
  have hrow : t.row (Blocks.outer t.m t.n t.rowBlock R) (Blocks.inner t.m t.n t.rowBlock R) = R :=
    hnum
  have hrank := row_rank hs hi
  rw [hrow] at hrank
  have hval := hx _ _ C k hs hi hC hk
  rw [hrow, ← hrank] at hval
  rw [← hval]
  exact h R C k ⟨hR, hC, hk⟩

theorem exists_laid [Nonempty α] (t : Stage) (f : Nat → Nat → Nat → Nat → α) :
    ∃ x : Nat → Nat → α, t.Laid x f := by
  rcases Nat.eq_zero_or_pos t.m with hm | hm
  · exact ⟨fun _ _ => Classical.arbitrary α, fun s i C k hs => by omega⟩
  have hb : 0 < t.args.shape.rowBlock := Nat.mul_pos hm t.rowBlock_pos
  obtain ⟨x, hx⟩ := Shape.exists_ins hb fun R C k =>
    f (Blocks.outer t.m t.n t.rowBlock R) (Blocks.inner t.m t.n t.rowBlock R) C k
  refine ⟨x, fun s i C k hs hi hC hk => ?_⟩
  have h := hx _ _ _ (entry hs hi hC hk)
  rw [row, Blocks.outer_number t.rowBlock_pos hs hi, Blocks.inner_number t.rowBlock_pos hs hi] at h
  rw [← h, ← row_rank hs hi]
  rfl

theorem rowMajor_lt {s i : Nat} (hs : s < t.m) (hi : i < t.n) : s * t.n + i < t.m * t.n := by
  calc s * t.n + i < s * t.n + t.n := by omega
    _ = (s + 1) * t.n := (Nat.succ_mul _ _).symm
    _ ≤ t.m * t.n := Nat.mul_le_mul_right _ hs

/-- What row-major reading finds after the stage: at `(s, i)` the pair numbered by that row. -/
def relabel (t : Stage) (f : Nat → Nat → Nat → Nat → α) : Nat → Nat → Nat → Nat → α :=
  fun s i => f (Blocks.outer t.m t.n t.rowBlock (s * t.n + i))
    (Blocks.inner t.m t.n t.rowBlock (s * t.n + i))

/-- The field to start from so that row-major reading finds `f`. -/
def unlabel (t : Stage) (f : Nat → Nat → Nat → Nat → α) : Nat → Nat → Nat → Nat → α :=
  fun s i => f (t.row s i / t.n) (t.row s i % t.n)

theorem relabel_unlabel (hs : s < t.m) (hi : i < t.n) : t.relabel (t.unlabel f) s i = f s i := by
  obtain ⟨-, -, hnum⟩ := Blocks.number_surj t.rowBlock_pos (rowMajor_lt hs hi)
  have hrow : t.row (Blocks.outer t.m t.n t.rowBlock (s * t.n + i))
      (Blocks.inner t.m t.n t.rowBlock (s * t.n + i)) = s * t.n + i := hnum
  have hdiv : (s * t.n + i) / t.n = s := by
    rw [Nat.mul_comm, Nat.mul_add_div t.n_pos, Nat.div_eq_of_lt hi, Nat.add_zero]
  have hmod : (s * t.n + i) % t.n = i := by
    rw [Nat.mul_comm, Nat.mul_add_mod, Nat.mod_eq_of_lt hi]
  rw [relabel, unlabel, hrow, hdiv, hmod]

theorem relabel_eq (h : t.m ≤ 1 ∨ t.n ≤ t.rowBlock) (hs : s < t.m) (hi : i < t.n) :
    t.relabel f s i = f s i := by
  obtain ⟨hout, hin⟩ := (Blocks.decode_rowMajor_iff t.rowBlock_pos).mpr h s i hs hi
  rw [relabel, hout, hin]

theorem Delivered.congr {f' : Nat → Nat → Nat → Nat → α} (h : t.Delivered y f)
    (hf : ∀ s i, s < t.m → i < t.n → f s i = f' s i) : t.Delivered y f' := by
  intro s i C k hs hi hC hk
  rw [← hf s i hs hi]
  exact h s i C k hs hi hC hk

theorem delivered_relabel (hx : t.Laid x f) (ht : Transposed t.args.shape x y) :
    t.Delivered y (t.relabel f) :=
  fun _ _ _ _ hs hi hC hk => deliver hx ht (rowMajor_lt hs hi) hC hk

/-- Rows that arrive in row-major order, whichever pair is marked, were numbered so. -/
theorem rowMajor_of_delivered {p : α} (hh : 0 < t.howmany)
    (h : ∀ s i, s < t.m → i < t.n → ∃ y f, t.Delivered y (t.relabel f) ∧ t.Delivered y f ∧
      f s i 0 0 = p ∧ ∀ s' i', s' < t.m → i' < t.n → f s' i' 0 0 = p → s' = s ∧ i' = i) :
    t.m ≤ 1 ∨ t.n ≤ t.rowBlock := by
  refine (Blocks.decode_rowMajor_iff t.rowBlock_pos).mp fun s i hs hi => ?_
  obtain ⟨y, f, hr, hy, hp, honly⟩ := h s i hs hi
  obtain ⟨hs', hi', -⟩ := Blocks.number_surj t.rowBlock_pos (rowMajor_lt hs hi)
  have hval := hr s i 0 0 hs hi t.c_pos hh
  rw [hy s i 0 0 hs hi t.c_pos hh, hp] at hval
  exact honly _ _ hs' hi' hval.symm

end Values

end Stage

end Underling
