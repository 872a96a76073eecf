import Underling.Reference
import Mathlib.Data.Fin.VecNotation

/-!
# Underling.Grid

`underling_grid_create`: choosing the `pA × pB` process grid for an `n0 × n1 × n2` domain, the
checks it makes, and the Cartesian communicators. The names given to the communicators are left
out.

* `gridCreate_ends`: which grids are returned, and when one is.
* `grid_admission_iff`: the documented admission rule holds of the code exactly where the missing
  check of `n2` against `pA` makes no difference.
-/

namespace Underling

open Runs C

structure Grid where
  addr : Nat
  n : Fin 3 → Nat
  pA : Nat
  pB : Nat
  gComm : Comm
  pAComm : Comm
  pBComm : Comm

/-- Align the processor grid so that the larger of `pA` and `pB` decomposes the larger of `n0` and
`n2`, when both were left open. -/
def alignDims (n0 n2 pA pB : Int) (dims : Int × Int) : Int × Int :=
  if pA = 0 ∧ pB = 0 then
    -- Ensure dims[0] < dims[1]
    let dims := if dims.1 > dims.2 then (dims.2, dims.1) else dims
    if n2 < n0 then dims else (dims.2, dims.1)
  else dims

/-- `underling_grid_create` on the process that `MPI_Cart_create` places at `coords`. -/
def gridCreate (env : Env) (coords : Nat × Nat) (comm : Option Comm) (n0 n1 n2 pA pB : Int) :
    C (Option Grid) := do
  let some comm := comm | errorNull "comm != MPI_COMM_NULL required" .einval
  if n0 < 1 then return ← errorNull "n0 >= 1 required" .einval
  if n1 < 1 then return ← errorNull "n1 >= 1 required" .einval
  if n2 < 1 then return ← errorNull "n2 >= 1 required" .einval
  if pA < 0 then return ← errorNull "pA >= 0 required" .einval
  if pB < 0 then return ← errorNull "pB >= 0 required" .einval
  let some addr ← malloc | errorNull "failed to allocate space for grid" .enomem
  match env.dimsCreate comm.size (pA, pB) with
  | .error reason =>
    free addr
    errorNull reason .efailed
  | .ok dims =>
    let dims := alignDims n0 n2 pA pB dims
    let pA := dims.1
    let pB := dims.2
    if pA * pB ≠ comm.size then
      free addr
      return ← errorNull
        s!"Invalid processor grid: pA \x7b{pA}\x7d * pB \x7b{pB}\x7d != nproc \x7b{comm.size}\x7d"
        .einval
    if n0 < pB then
      free addr
      return ← errorNull s!"Decomposition requires n0 \x7b{n0}\x7d >= pB \x7b{pB}\x7d" .einval
    if n1 < pA ∨ n1 < pB then
      free addr
      return ← errorNull
        s!"Decomposition requires n1 \x7b{n1}\x7d >= pA \x7b{pA}\x7d, pB \x7b{pB}\x7d" .einval
    -- the message is about n2 and pA, the test is that of n0 against pB again
    if n0 < pB then
      free addr
      return ← errorNull s!"Decomposition requires n2 \x7b{n2}\x7d >= pA \x7b{pA}\x7d" .einval
    let pA := pA.toNat
    let pB := pB.toNat
    call comm.dir (.cartCreate pA pB)
    let gComm ← newComm .grid (coords.1 * pB + coords.2) (pA * pB)
    call gComm.dir (.cartSub .pA)
    let pAComm ← newComm .pA coords.1 pA
    call gComm.dir (.cartSub .pB)
    let pBComm ← newComm .pB coords.2 pB
    return some
      { addr := addr, n := ![n0.toNat, n1.toNat, n2.toNat], pA := pA, pB := pB
        gComm := gComm, pAComm := pAComm, pBComm := pBComm }

def gridDestroy (grid : Option Grid) : C Unit := do
  if let some g := grid then
    commFree g.gComm
    commFree g.pAComm
    commFree g.pBComm
    free g.addr

/-- The checks the code makes before it builds a grid of `dims` processes. -/
structure Admits (env : Env) (nproc : Nat) (n0 n1 n2 pA pB : Int) (dims : Int × Int) : Prop where
  n0_pos : 1 ≤ n0
  n1_pos : 1 ≤ n1
  n2_pos : 1 ≤ n2
  pA_nonneg : 0 ≤ pA
  pB_nonneg : 0 ≤ pB
  chosen : ∃ d, env.dimsCreate nproc (pA, pB) = .ok d ∧ alignDims n0 n2 pA pB d = dims
  product : dims.1 * dims.2 = nproc
  n0_ge : dims.2 ≤ n0
  n1_ge_pA : dims.1 ≤ n1
  n1_ge_pB : dims.2 ≤ n1

/-- The grid built for `dims` processes on the process at `coords`. -/
structure GridFor (coords : Nat × Nat) (n0 n1 n2 : Int) (dims : Int × Int) (g : Grid) : Prop where
  n_eq : g.n = ![n0.toNat, n1.toNat, n2.toNat]
  pA_eq : g.pA = dims.1.toNat
  pB_eq : g.pB = dims.2.toNat
  pAComm_dir : g.pAComm.dir = .pA
  pAComm_rank : g.pAComm.rank = coords.1
  pAComm_size : g.pAComm.size = g.pA
  pBComm_dir : g.pBComm.dir = .pB
  pBComm_rank : g.pBComm.rank = coords.2
  pBComm_size : g.pBComm.size = g.pB

/-- The collective calls of a successful `gridCreate`. -/
def gridCalls (comm : Comm) (g : Grid) : List (Dir × Call) :=
  [(comm.dir, .cartCreate g.pA g.pB), (.grid, .cartSub .pA), (.grid, .cartSub .pB)]

/-- What holds where `gridCreate` ends: a grid is returned only if the checks pass, and then it is
returned unless a request is refused. -/
structure GridCreated (env : Env) (coords : Nat × Nat) (comm : Comm) (n0 n1 n2 pA pB : Int)
    (l : Log) (G : Prop) (o : Option Grid) (w' : World) : Prop where
  sound : ∀ g, o = some g → ∃ dims, Admits env comm.size n0 n1 n2 pA pB dims ∧
    GridFor coords n0 n1 n2 dims g ∧ w'.At { l with calls := l.calls ++ gridCalls comm g } G
  complete : G → ∀ dims, Admits env comm.size n0 n1 n2 pA pB dims → o.isSome

section Create

variable {env : Env} {coords : Nat × Nat} {comm : Comm} {n0 n1 n2 pA pB : Int} {w : World} {l : Log}
  {G : Prop}

theorem GridCreated.of_refused {w' : World}
    (h : ∀ dims, Admits env comm.size n0 n1 n2 pA pB dims → ¬ G) :
    GridCreated env coords comm n0 n1 n2 pA pB l G none w' :=
  ⟨fun g hg => (by cases hg), fun hG dims hd => absurd hG (h dims hd)⟩

theorem gridCreate_ends (h : w.At l G) :
    Ends (gridCreate env coords (some comm) n0 n1 n2 pA pB) w
      (GridCreated env coords comm n0 n1 n2 pA pB l G) := by
  simp only [gridCreate]
  by_cases h0 : n0 < 1
  · rw [if_pos h0]
    exact errorNull_none fun _ => .of_refused fun _ hd => by have := hd.n0_pos; omega
  by_cases h1 : n1 < 1
  · rw [if_neg h0, if_pos h1]
    exact errorNull_none fun _ => .of_refused fun _ hd => by have := hd.n1_pos; omega
  by_cases h2 : n2 < 1
  · rw [if_neg h0, if_neg h1, if_pos h2]
    exact errorNull_none fun _ => .of_refused fun _ hd => by have := hd.n2_pos; omega
  by_cases hA : pA < 0
  · rw [if_neg h0, if_neg h1, if_neg h2, if_pos hA]
    exact errorNull_none fun _ => .of_refused fun _ hd => by have := hd.pA_nonneg; omega
  by_cases hB : pB < 0
  · rw [if_neg h0, if_neg h1, if_neg h2, if_neg hA, if_pos hB]
    exact errorNull_none fun _ => .of_refused fun _ hd => by have := hd.pB_nonneg; omega
  rw [if_neg h0, if_neg h1, if_neg h2, if_neg hA, if_neg hB]
  refine .bind (malloc_ends h) ?_
  rintro (_ | addr) w1 ⟨hG1, h1'⟩
  · exact errorNull_none fun _ => .of_refused fun _ _ hG => by cases hG1 hG
  cases hd : env.dimsCreate comm.size (pA, pB) with
  | error reason =>
    refine release_bind fun _ => errorNull_none fun _ => .of_refused fun dims hA => ?_
    obtain ⟨d, hd', -⟩ := hA.chosen
    rw [hd] at hd'
    cases hd'
  | ok d =>
    simp only []
    -- the only sizes that can pass are those MPI chose, aligned
    have only : ∀ dims, Admits env comm.size n0 n1 n2 pA pB dims →
        dims = alignDims n0 n2 pA pB d := by
      intro dims hA
      obtain ⟨d', hd', rfl⟩ := hA.chosen
      rw [hd] at hd'
      cases hd'
      rfl
    generalize hdims : alignDims n0 n2 pA pB d = dims at only ⊢
    by_cases hp : dims.1 * dims.2 ≠ comm.size
    · rw [if_pos hp]
      refine release_bind fun _ => errorNull_none fun _ => .of_refused fun dims' hd' => ?_
      exact absurd (only dims' hd' ▸ hd'.product) hp
    by_cases hn0 : n0 < dims.2
    · rw [if_neg hp, if_pos hn0]
      refine release_bind fun _ => errorNull_none fun _ => .of_refused fun dims' hd' => ?_
      have := only dims' hd' ▸ hd'.n0_ge
      omega
    by_cases hn1 : n1 < dims.1 ∨ n1 < dims.2
    · rw [if_neg hp, if_neg hn0, if_pos hn1]
      refine release_bind fun _ => errorNull_none fun _ => .of_refused fun dims' hd' => ?_
      have := only dims' hd' ▸ hd'.n1_ge_pA
      have := only dims' hd' ▸ hd'.n1_ge_pB
      omega
    rw [if_neg hp, if_neg hn0, if_neg hn1, if_neg hn0]
    refine .bind (call_ends h1' _ _) fun _ w2 h2' => ?_
    refine .bind (newComm_ends h2' _ _ _) fun gComm w3 ⟨hg, h3⟩ => ?_
    refine .bind (call_ends h3 _ _) fun _ w4 h4 => ?_
    refine .bind (newComm_ends h4 _ _ _) fun aComm w5 ⟨ha, h5⟩ => ?_
    refine .bind (call_ends h5 _ _) fun _ w6 h6 => ?_
    refine .bind (newComm_ends h6 _ _ _) fun bComm w7 ⟨hb, h7⟩ => ?_
    refine .pure ⟨?_, fun _ _ _ => rfl⟩
    rintro g hg'
    cases hg'
    refine ⟨dims, ?_, ?_, ?_⟩
    · exact ⟨by omega, by omega, by omega, by omega, by omega, ⟨d, hd, hdims⟩, not_not.mp hp,
        by omega, by omega, by omega⟩
    · exact ⟨rfl, rfl, rfl, ha.1, ha.2.1, ha.2.2, hb.1, hb.2.1, hb.2.2⟩
    · simpa [gridCalls, hg.1] using h7

end Create

/-! ## The documented admission rule -/

/-- `dA` and `dB` are the sizes the documentation describes: positive sizes of product `nproc` that
`MPI_Dims_create` finds and that keep the nonzero requests, aligned when both requests are zero. -/
structure ChosenSizes (env : Env) (nproc : Nat) (n0 n2 pA pB dA dB : Int) : Prop where
  found : ∃ x y, env.dimsCreate nproc (pA, pB) = .ok (x, y) ∧ 0 < x ∧ 0 < y ∧ x * y = nproc ∧
    (pA ≠ 0 → x = pA) ∧ (pB ≠ 0 → y = pB) ∧
    (dA, dB) = if pA = 0 ∧ pB = 0 then
        if n2 < n0 then (min x y, max x y) else (max x y, min x y)
      else (x, y)

theorem alignDims_eq (n0 n2 pA pB x y : Int) :
    alignDims n0 n2 pA pB (x, y) =
      if pA = 0 ∧ pB = 0 then
        if n2 < n0 then (min x y, max x y) else (max x y, min x y)
      else (x, y) := by
  have hsort : (if x > y then (y, x) else (x, y)) = (min x y, max x y) := by
    split <;> simp only [Prod.mk.injEq] <;> omega
  simp only [alignDims, hsort]

theorem alignDims_mul (n0 n2 pA pB x y : Int) :
    (alignDims n0 n2 pA pB (x, y)).1 * (alignDims n0 n2 pA pB (x, y)).2 = x * y := by
  rw [alignDims_eq]
  split
  · split
    · exact min_mul_max x y
    · exact max_mul_min x y
  · rfl

theorem chosenSizes_iff {env : Env} {nproc : Nat} {n0 n2 pA pB dA dB : Int} :
    ChosenSizes env nproc n0 n2 pA pB dA dB ↔
      (∃ d, env.dimsCreate nproc (pA, pB) = .ok d ∧ alignDims n0 n2 pA pB d = (dA, dB)) ∧
        dA * dB = nproc := by
  constructor
  · rintro ⟨x, y, hd, -, -, hp, -, -, hdims⟩
    rw [← alignDims_eq] at hdims
    refine ⟨⟨(x, y), hd, hdims.symm⟩, ?_⟩
    rw [← hp, ← alignDims_mul n0 n2 pA pB x y, ← hdims]
  · rintro ⟨⟨⟨x, y⟩, hd, hdims⟩, hp⟩
    obtain ⟨hx, hy⟩ := env.dims_pos _ _ _ hd
    obtain ⟨hA, hB⟩ := env.dims_keep _ _ _ hd
    refine ⟨x, y, hd, hx, hy, ?_, hA, hB, ?_⟩
    · rw [← alignDims_mul n0 n2 pA pB x y, hdims]
      exact hp
    · rw [← alignDims_eq, hdims]

theorem ChosenSizes.unique {env : Env} {nproc : Nat} {n0 n2 pA pB dA dB dA' dB' : Int}
    (h : ChosenSizes env nproc n0 n2 pA pB dA dB) (h' : ChosenSizes env nproc n0 n2 pA pB dA' dB') :
    dA = dA' ∧ dB = dB' := by
  obtain ⟨⟨d, hd, hal⟩, -⟩ := chosenSizes_iff.mp h
  obtain ⟨⟨d', hd', hal'⟩, -⟩ := chosenSizes_iff.mp h'
  rw [hd] at hd'
  cases hd'
  rw [hal] at hal'
  exact Prod.mk.injEq .. ▸ hal'

theorem ChosenSizes.pos {env : Env} {nproc : Nat} {n0 n2 pA pB dA dB : Int}
    (h : ChosenSizes env nproc n0 n2 pA pB dA dB) : 0 < dA ∧ 0 < dB := by
  obtain ⟨x, y, -, hx, hy, -, -, -, hdims⟩ := h
  split at hdims
  · split at hdims <;> cases hdims <;> omega
  · cases hdims
    exact ⟨hx, hy⟩

/-- Both requests open: the larger size decomposes the larger of `n0` and `n2`. -/
theorem ChosenSizes.aligned {env : Env} {nproc : Nat} {n0 n2 pA pB dA dB : Int}
    (h : ChosenSizes env nproc n0 n2 pA pB dA dB) (hA : pA = 0) (hB : pB = 0) :
    (n2 < n0 → dA ≤ dB) ∧ (n0 ≤ n2 → dB ≤ dA) := by
  obtain ⟨x, y, -, -, -, -, -, -, hdims⟩ := h
  rw [if_pos ⟨hA, hB⟩] at hdims
  split at hdims <;> cases hdims <;> omega

/-- The documented admission rule, with every inequality but that of `n2` and `pA`. -/
structure Documented (env : Env) (nproc : Nat) (n0 n1 n2 pA pB dA dB : Int) : Prop where
  n0_pos : 1 ≤ n0
  n1_pos : 1 ≤ n1
  n2_pos : 1 ≤ n2
  pA_nonneg : 0 ≤ pA
  pB_nonneg : 0 ≤ pB
  chosen : ChosenSizes env nproc n0 n2 pA pB dA dB
  n0_ge : dB ≤ n0
  n1_ge_pA : dA ≤ n1
  n1_ge_pB : dB ≤ n1

theorem admits_iff {env : Env} {nproc : Nat} {n0 n1 n2 pA pB dA dB : Int} :
    Admits env nproc n0 n1 n2 pA pB (dA, dB) ↔ Documented env nproc n0 n1 n2 pA pB dA dB := by
  constructor
  · intro h
    exact ⟨h.n0_pos, h.n1_pos, h.n2_pos, h.pA_nonneg, h.pB_nonneg,
      chosenSizes_iff.mpr ⟨h.chosen, h.product⟩, h.n0_ge, h.n1_ge_pA, h.n1_ge_pB⟩
  · intro h
    obtain ⟨hc, hp⟩ := chosenSizes_iff.mp h.chosen
    exact ⟨h.n0_pos, h.n1_pos, h.n2_pos, h.pA_nonneg, h.pB_nonneg, hc, hp, h.n0_ge, h.n1_ge_pA,
      h.n1_ge_pB⟩

/-- What the documentation says of `underling_grid_create` for given arguments. -/
structure GridAdmission (env : Env) (coords : Nat × Nat) (comm : Comm) (n0 n1 n2 pA pB : Int)
    (w : World) : Prop where
  returns_iff : (∃ g w', gridCreate env coords (some comm) n0 n1 n2 pA pB w = .ok (some g, w')) ↔
    ∃ dA dB, Documented env comm.size n0 n1 n2 pA pB dA dB ∧ dA ≤ n2
  /-- The grid has the chosen sizes; when both were left open, the larger decomposes the larger of
  `n0` and `n2`. -/
  sizes : ∀ g w', gridCreate env coords (some comm) n0 n1 n2 pA pB w = .ok (some g, w') →
    ChosenSizes env comm.size n0 n2 pA pB g.pA g.pB ∧
      (pA = 0 → pB = 0 → (n2 < n0 → g.pA ≤ g.pB) ∧ (n0 < n2 → g.pB ≤ g.pA))
  /-- When both were left open, a grid is refused only if the exchanged sizes break one of the
  four inequalities too. -/
  refuses : pA = 0 → pB = 0 → 1 ≤ n0 → 1 ≤ n1 → 1 ≤ n2 →
    (∃ w', gridCreate env coords (some comm) n0 n1 n2 pA pB w = .ok (none, w')) →
    ∀ dA dB, ChosenSizes env comm.size n0 n2 pA pB dA dB →
      ¬ (dA ≤ n0 ∧ dB ≤ n1 ∧ dA ≤ n1 ∧ dB ≤ n2)

section Admission

variable {env : Env} {coords : Nat × Nat} {comm : Comm} {n0 n1 n2 pA pB : Int} {w : World}

/-- Without refusals the code returns a grid exactly when the documented rule holds up to the
inequality of `n2` and `pA`. -/
theorem gridCreate_returns_iff (hw : w.Granted) :
    (∃ g w', gridCreate env coords (some comm) n0 n1 n2 pA pB w = .ok (some g, w')) ↔
      ∃ dA dB, Documented env comm.size n0 n1 n2 pA pB dA dB := by
  have hends : Ends _ w (GridCreated env coords comm n0 n1 n2 pA pB w.log True) :=
    gridCreate_ends ⟨rfl, fun _ => hw⟩
  obtain ⟨o, w', hrun, hcreated⟩ := hends
  constructor
  · rintro ⟨g, w'', hg⟩
    rw [hrun] at hg
    cases hg
    obtain ⟨⟨dA, dB⟩, hA, -⟩ := hcreated.sound g rfl
    exact ⟨dA, dB, admits_iff.mp hA⟩
  · rintro ⟨dA, dB, hd⟩
    have ho := hcreated.complete trivial _ (admits_iff.mpr hd)
    obtain ⟨g, rfl⟩ := Option.isSome_iff_exists.mp ho
    exact ⟨g, w', hrun⟩

theorem gridCreate_sizes {g : Grid} {w' : World}
    (h : gridCreate env coords (some comm) n0 n1 n2 pA pB w = .ok (some g, w')) :
    Documented env comm.size n0 n1 n2 pA pB g.pA g.pB := by
  have hcreated := (gridCreate_ends (l := w.log) (G := False) ⟨rfl, False.elim⟩).of_run h
  obtain ⟨⟨dA, dB⟩, hA, hg, -⟩ := hcreated.sound g rfl
  have hd := admits_iff.mp hA
  obtain ⟨hA0, hB0⟩ := hd.chosen.pos
  have hgA : (g.pA : Int) = dA := by rw [hg.pA_eq]; exact Int.toNat_of_nonneg hA0.le
  have hgB : (g.pB : Int) = dB := by rw [hg.pB_eq]; exact Int.toNat_of_nonneg hB0.le
  rw [hgA, hgB]
  exact hd

/-- The documented admission rule holds of the code for exactly those arguments where the missing
check makes no difference: where the rest of the rule holds for the chosen sizes, `n2` is at least
the chosen `pA` anyway. -/
theorem grid_admission_iff (hw : w.Granted) :
    GridAdmission env coords comm n0 n1 n2 pA pB w ↔
      ∀ dA dB, Documented env comm.size n0 n1 n2 pA pB dA dB → dA ≤ n2 := by
  constructor
  · intro h dA dB hd
    obtain ⟨dA', dB', hd', hn2⟩ := h.returns_iff.mp ((gridCreate_returns_iff hw).mpr ⟨dA, dB, hd⟩)
    rw [(hd.chosen.unique hd'.chosen).1]
    exact hn2
  · intro h
    refine ⟨?_, ?_, ?_⟩
    · rw [gridCreate_returns_iff hw]
      exact ⟨fun ⟨dA, dB, hd⟩ => ⟨dA, dB, hd, h dA dB hd⟩, fun ⟨dA, dB, hd, _⟩ => ⟨dA, dB, hd⟩⟩
    · intro g w' hg
      have hd := gridCreate_sizes hg
      refine ⟨hd.chosen, fun hA hB => ?_⟩
      have := hd.chosen.aligned hA hB
      omega
    · intro hA hB h0 h1 h2 hnone dA dB hc hsw
      have hal := hc.aligned hA hB
      have hd : Documented env comm.size n0 n1 n2 pA pB dA dB :=
        ⟨h0, h1, h2, hA.ge, hB.ge, hc, by omega, by omega, by omega⟩
      obtain ⟨g, w', hg⟩ := (gridCreate_returns_iff hw).mpr ⟨dA, dB, hd⟩
      obtain ⟨w'', hn⟩ := hnone
      rw [hg] at hn
      cases hn

end Admission

/-- A `4 × 4 × 1` domain on `2 × 1` processes is admitted although `n2 < pA`. -/
theorem grid_admission_fails :
    ¬ GridAdmission .reference (0, 0) (.world 2 0) 4 4 1 2 1 .granting := by
  intro h
  obtain ⟨dA, dB, hd, hn2⟩ := h.returns_iff.mp ⟨_, _, rfl⟩
  obtain ⟨x, y, hdims, -, -, -, hx, -, hc⟩ := hd.chosen
  cases hc
  have := hx (by decide)
  omega

/-- The rule holds of a `4 × 4 × 2` domain on `2 × 1` processes. -/
theorem grid_admission_two_by_one :
    GridAdmission .reference (1, 0) (.world 2 1) 4 4 2 2 1 .granting := by
  refine (grid_admission_iff World.granting_granted).mpr ?_
  intro dA dB hd
  obtain ⟨x, y, -, -, -, -, hx, -, hc⟩ := hd.chosen
  cases hc
  exact (hx (by decide)).le

end Underling
