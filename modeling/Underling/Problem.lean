import Underling.Grid
import Underling.Transpose
import Underling.Lib.Strided
import Mathlib.Tactic.FinCases
import Mathlib.Tactic.Ring

/-!
# Underling.Problem

`underling_problem_create`: the pencils of a process in the three orientations, and the four
transposes between them. Products of `int`s are exact.

* `problemCreate_ends`: which problems are returned and when one is; `ProblemFor` gives the pencils
  and the arguments of the transposes in closed form.
-/

namespace Underling

open Runs C Strided

def TRANSPOSED_LONG_N2 : Flags := 1 <<< 4
def TRANSPOSED_LONG_N0 : Flags := 1 <<< 5

-- Directions of the domain, of its extents and of the extents FFTW sees are literals of these
-- types.
instance neZero_three : NeZero 3 := ⟨by decide⟩
instance neZero_four : NeZero 4 := ⟨by decide⟩
instance neZero_five : NeZero 5 := ⟨by decide⟩

/-- `underling_extents`. Directions 0, 1, 2 are those of the domain, 3 counts the fields. -/
structure Extents extends Layout 4 where
  extent : Nat

/-- Strides and extent computed from the sizes, for row-major storage in the given order. -/
def Extents.rowMajor (start size : Fin 4 → Nat) (order : Fin 4 → Fin 4) : Extents :=
  let e : Layout 4 := { start := start, size := size, stride := fun _ => 0, order := order }
  { e with stride := e.packed, extent := size 0 * size 1 * size 2 * size 3 }

theorem Extents.rowMajor_addr {start size : Fin 4 → Nat} {order : Fin 4 → Fin 4}
    (hinj : Function.Injective order) (j : Fin 4 → Nat) :
    (Extents.rowMajor start size order).addr j =
      ((j (order 3) * size (order 2) + j (order 2)) * size (order 1) + j (order 1)) *
        size (order 0) + j (order 0) := by
  have hs : ∀ i : Fin 4, (Extents.rowMajor start size order).stride (order i) =
      Layout.below size order i := Layout.packed_order
    (e := { start := start, size := size, stride := fun _ => 0, order := order }) hinj
  rw [Layout.addr_packed hinj hs, Fin.sum_univ_four]
  simp [Extents.rowMajor, Layout.below]
  ring

structure Problem where
  addr : Nat
  howmany : Nat
  longN : Fin 3 → Extents
  backwardA : Transpose
  backwardB : Transpose
  forwardB : Transpose
  forwardA : Transpose
  localMemory : Nat

/-- The stride orders of the pencils, fastest direction first. -/
def storageOrder (flags : Flags) (i : Fin 3) : Fin 4 → Fin 4 :=
  match i with
  | 2 => if flags.has TRANSPOSED_LONG_N2 then ![3, 1, 0, 2] else ![3, 2, 1, 0]
  | 1 => ![3, 1, 0, 2]
  | 0 => if flags.has TRANSPOSED_LONG_N0 then ![3, 2, 1, 0] else ![3, 0, 2, 1]

theorem storageOrder_injective (flags : Flags) (i : Fin 3) :
    Function.Injective (storageOrder flags i) := by
  fin_cases i <;> simp only [storageOrder]
  · split <;> decide
  · decide
  · split <;> decide

/-- Decompose `d0` and `d1` over the processes of `comm`. -/
def decompose (env : Env) (d0 d1 howmany : Nat) (comm : Comm) : C LocalSize := do
  let howmanyTmp := if howmany = 0 then 1 else howmany
  call comm.dir
    (.localSizeTransposed d0 d1 howmanyTmp FFTW.MPI_DEFAULT_BLOCK FFTW.MPI_DEFAULT_BLOCK)
  let l := env.localSizeManyTransposed d0 d1 howmanyTmp FFTW.MPI_DEFAULT_BLOCK
    FFTW.MPI_DEFAULT_BLOCK comm
  assert (l.localD0 ≤ INT_MAX)
  assert (l.localD0Start ≤ INT_MAX)
  assert (l.localD1 ≤ INT_MAX)
  assert (l.localD1Start ≤ INT_MAX)
  return l

/-- The pencils: `dB` decomposes `n0` and `n1`, `dA` decomposes `n1` and `n2`. -/
def pencils (n : Fin 3 → Nat) (howmany : Nat) (flags : Flags) (dB dA : LocalSize) :
    Fin 3 → Extents
  | 2 => .rowMajor ![dB.localD0Start, dA.localD0Start, 0, 0] ![dB.localD0, dA.localD0, n 2, howmany]
      (storageOrder flags 2)
  | 1 => .rowMajor ![dB.localD0Start, 0, dA.localD1Start, 0] ![dB.localD0, n 1, dA.localD1, howmany]
      (storageOrder flags 1)
  | 0 => .rowMajor ![0, dB.localD1Start, dA.localD1Start, 0] ![n 0, dB.localD1, dA.localD1, howmany]
      (storageOrder flags 0)

/-- The blocks a process would use for the transpose between long in `n2` and long in `n1`. -/
def pABlock (longN : Fin 3 → Extents) : Nat × Nat :=
  ((longN 2).size 0 * (longN 2).size 1, (longN 1).size 2)

/-- The blocks a process would use for the transpose between long in `n1` and long in `n0`. -/
def pBBlock (longN : Fin 3 → Extents) : Nat × Nat :=
  ((longN 1).size 2 * (longN 1).size 0, (longN 0).size 1)

/-- The transpose from long in `n2` to long in `n1`. -/
def backwardAArgs (n : Fin 3 → Nat) (howmany : Nat) (flags : Flags) (longN : Fin 3 → Extents)
    (block : Nat × Nat) : TransposeArgs where
  d0 := (longN 2).size 0 * n 1
  d1 := n 2
  howmany := howmany
  block0 := block.1
  block1 := block.2
  flags := if flags.has TRANSPOSED_LONG_N2 then FFTW.MPI_TRANSPOSED_IN else 0

/-- The transpose from long in `n1` to long in `n0`. -/
def backwardBArgs (n : Fin 3 → Nat) (howmany : Nat) (flags : Flags) (longN : Fin 3 → Extents)
    (block : Nat × Nat) : TransposeArgs where
  d0 := (longN 1).size 2 * n 0
  d1 := n 1
  howmany := howmany
  block0 := block.1
  block1 := block.2
  flags := if flags.has TRANSPOSED_LONG_N0 then FFTW.MPI_TRANSPOSED_OUT else 0

/-- Give back a problem of which the given transposes exist. -/
def problemRelease (addr : Nat) (backwardA backwardB forwardB forwardA : Option Transpose) :
    C Unit := do
  transposeDestroy backwardA
  transposeDestroy backwardB
  transposeDestroy forwardB
  transposeDestroy forwardA
  free addr

def problemDestroy (problem : Option Problem) : C Unit := do
  if let some p := problem then
    problemRelease p.addr (some p.backwardA) (some p.backwardB) (some p.forwardB) (some p.forwardA)

/-- `underling_problem_create`. `bcast comm v` is what `MPI_Bcast` from rank 0 of `comm` delivers to
a process that passes `v`. -/
def problemCreate (env : Env) (bcast : Comm → Nat × Nat → Nat × Nat) (grid : Option Grid)
    (howmany : Int) (transposedFlags : Flags) : C (Option Problem) := do
  let some grid := grid | errorNull "grid == NULL" .einval
  if howmany < 0 then return ← errorNull "howmany >= 0 required" .einval
  if transposedFlags.has (~~~TRANSPOSED_LONG_N2 &&& ~~~TRANSPOSED_LONG_N0) then
    return ←
      errorNull "transposed_flags contains non-UNDERLING_TRANSPOSED_LONG_N\x7b0,2\x7d" .einval
  let some addr ← malloc | errorNull "failed to allocate space for problem" .enomem
  let howmany := howmany.toNat
  let dB ← decompose env (grid.n 0) (grid.n 1) howmany grid.pBComm
  let dA ← decompose env (grid.n 1) (grid.n 2) howmany grid.pAComm
  let longN := pencils grid.n howmany transposedFlags dB dA
  call grid.pAComm.dir (.bcast 2 0)
  let pABlock := bcast grid.pAComm (pABlock longN)
  call grid.pBComm.dir (.bcast 2 0)
  let pBBlock := bcast grid.pBComm (pBBlock longN)
  let some backwardA ←
      transposeCreate env (backwardAArgs grid.n howmany transposedFlags longN pABlock) grid.pAComm
    | do problemRelease addr none none none none
         errorNull "failed creating p->backwardA" .efailed
  let some backwardB ←
      transposeCreate env (backwardBArgs grid.n howmany transposedFlags longN pBBlock) grid.pBComm
    | do problemRelease addr (some backwardA) none none none
         errorNull "failed creating p->backwardB" .efailed
  let some forwardB ← transposeCreateInverse env (some backwardB)
    | do problemRelease addr (some backwardA) (some backwardB) none none
         errorNull "failed creating p->forwardB" .efailed
  let some forwardA ← transposeCreateInverse env (some backwardA)
    | do problemRelease addr (some backwardA) (some backwardB) (some forwardB) none
         errorNull "failed creating p->forwardA" .efailed
  let localMemory := max (max (max backwardA.details.localSize backwardB.details.localSize)
    forwardB.details.localSize) forwardA.details.localSize
  return some
    { addr := addr, howmany := howmany, longN := longN, backwardA := backwardA
      backwardB := backwardB, forwardB := forwardB, forwardA := forwardA
      localMemory := localMemory }

/-! ## Specification -/

/-- A flag word with no other bits than the two storage flags. -/
def StorageWord (flags : Flags) : Prop :=
  flags.has (~~~TRANSPOSED_LONG_N2 &&& ~~~TRANSPOSED_LONG_N0) = false

instance (flags : Flags) : Decidable (StorageWord flags) :=
  inferInstanceAs (Decidable (flags.has (~~~TRANSPOSED_LONG_N2 &&& ~~~TRANSPOSED_LONG_N0) = false))

/-- The problem a process builds from its grid and from the blocks it receives. -/
structure ProblemFor (env : Env) (bcast : Comm → Nat × Nat → Nat × Nat) (grid : Grid)
    (howmany : Nat) (flags : Flags) (p : Problem) : Prop where
  howmany_eq : p.howmany = howmany
  longN_eq : p.longN = pencils grid.n howmany flags
    (env.localSizeManyTransposed (grid.n 0) (grid.n 1) (if howmany = 0 then 1 else howmany)
      FFTW.MPI_DEFAULT_BLOCK FFTW.MPI_DEFAULT_BLOCK grid.pBComm)
    (env.localSizeManyTransposed (grid.n 1) (grid.n 2) (if howmany = 0 then 1 else howmany)
      FFTW.MPI_DEFAULT_BLOCK FFTW.MPI_DEFAULT_BLOCK grid.pAComm)
  backwardA : TransposeFor env
    (backwardAArgs grid.n howmany flags p.longN (bcast grid.pAComm (pABlock p.longN)))
    grid.pAComm p.backwardA
  backwardB : TransposeFor env
    (backwardBArgs grid.n howmany flags p.longN (bcast grid.pBComm (pBBlock p.longN)))
    grid.pBComm p.backwardB
  forwardB : TransposeFor env p.backwardB.inverse p.backwardB.comm p.forwardB
  forwardA : TransposeFor env p.backwardA.inverse p.backwardA.comm p.forwardA
  localMemory_eq : p.localMemory =
    max (max (max p.backwardA.details.localSize p.backwardB.details.localSize)
      p.forwardB.details.localSize) p.forwardA.details.localSize

/-- The collective calls of a successful `problemCreate`. -/
def problemCalls (grid : Grid) (howmany : Nat) (p : Problem) : List (Dir × Call) :=
  let howmanyTmp := if howmany = 0 then 1 else howmany
  [(grid.pBComm.dir, .localSizeTransposed (grid.n 0) (grid.n 1) howmanyTmp 0 0),
    (grid.pAComm.dir, .localSizeTransposed (grid.n 1) (grid.n 2) howmanyTmp 0 0),
    (grid.pAComm.dir, .bcast 2 0), (grid.pBComm.dir, .bcast 2 0)] ++
    transposeCalls p.backwardA.toTransposeArgs grid.pAComm.dir ++
    transposeCalls p.backwardB.toTransposeArgs grid.pBComm.dir ++
    transposeCalls p.forwardB.toTransposeArgs grid.pBComm.dir ++
    transposeCalls p.forwardA.toTransposeArgs grid.pAComm.dir

/-- What holds where `problemCreate` ends. -/
structure ProblemCreated (env : Env) (bcast : Comm → Nat × Nat → Nat × Nat) (grid : Grid)
    (howmany : Int) (flags : Flags) (l : Log) (G : Prop) (o : Option Problem) (w' : World) :
    Prop where
  sound : ∀ p, o = some p → 0 ≤ howmany ∧ StorageWord flags ∧
    ProblemFor env bcast grid howmany.toNat flags p ∧
    w'.At { l with calls := l.calls ++ problemCalls grid howmany.toNat p } G
  complete : G → 0 ≤ howmany → StorageWord flags → o.isSome

theorem ProblemCreated.of_refused {env : Env} {bcast : Comm → Nat × Nat → Nat × Nat} {grid : Grid}
    {howmany : Int} {flags : Flags} {l : Log} {G : Prop} {w' : World}
    (h : G → 0 ≤ howmany → StorageWord flags → False) :
    ProblemCreated env bcast grid howmany flags l G none w' :=
  ⟨fun p hp => (by cases hp), fun hG h0 hf => (h hG h0 hf).elim⟩

section Create

variable {env : Env} {bcast : Comm → Nat × Nat → Nat × Nat} {grid : Grid} {w : World} {l : Log}
  {G : Prop}

theorem decompose_ends (h : w.At l G) {d0 d1 : Nat} (howmany : Nat) (comm : Comm)
    (h0 : d0 ≤ INT_MAX) (h1 : d1 ≤ INT_MAX) :
    Ends (decompose env d0 d1 howmany comm) w fun s w' =>
      s = env.localSizeManyTransposed d0 d1 (if howmany = 0 then 1 else howmany)
        FFTW.MPI_DEFAULT_BLOCK FFTW.MPI_DEFAULT_BLOCK comm ∧
      w'.At { l with calls := l.calls ++ [(comm.dir,
        .localSizeTransposed d0 d1 (if howmany = 0 then 1 else howmany) 0 0)] } G := by
  have hfit : ∀ n b r, n ≤ INT_MAX → Blocks.len n b r ≤ INT_MAX ∧ Blocks.start n b r ≤ INT_MAX := by
    intro n b r hn
    have := Blocks.start_add_len_le n b r
    omega
  refine .bind (call_ends h _ _) fun _ w1 h1' => ?_
  refine .bind (assert_ends h1' (hfit _ _ _ h0).1) fun _ w2 h2 => ?_
  refine .bind (assert_ends h2 (hfit _ _ _ h0).2) fun _ w3 h3 => ?_
  refine .bind (assert_ends h3 (hfit _ _ _ h1).1) fun _ w4 h4 => ?_
  refine .bind (assert_ends h4 (hfit _ _ _ h1).2) fun _ w5 h5 => ?_
  exact .pure ⟨rfl, h5⟩

theorem transposeDestroy_bind {α : Type} {t : Option Transpose} {f : Unit → C α}
    {Q : α → World → Prop} (hf : ∀ w', Ends (f ()) w' Q) : Ends (transposeDestroy t >>= f) w Q := by
  cases t with
  | none => exact .bind (.pure (Q := fun _ _ => True) trivial) fun _ w' _ => hf w'
  | some t =>
    refine .bind (Q := fun _ _ => True) ?_ fun _ w' _ => hf w'
    exact release_bind fun w' => .of_modify trivial

theorem problemRelease_none {addr : Nat} {a b c d : Option Transpose} {reason : String}
    {status : Status} {Q : Option Problem → World → Prop} (hQ : ∀ w', Q none w') :
    Ends (do problemRelease addr a b c d; errorNull reason status) w Q := by
  refine .bind (Q := fun _ _ => True) ?_ fun _ w' _ => errorNull_none hQ
  refine transposeDestroy_bind fun w1 => transposeDestroy_bind fun w2 => ?_
  refine transposeDestroy_bind fun w3 => transposeDestroy_bind fun w4 => ?_
  exact .of_modify trivial

theorem storageFlags_of {c : Bool} {m : Flags} {t : TransposeArgs}
    (hm : m = FFTW.MPI_TRANSPOSED_IN ∨ m = FFTW.MPI_TRANSPOSED_OUT)
    (ht : t.flags = if c then m else 0) : t.StorageFlags := by
  rw [TransposeArgs.StorageFlags, ht]
  rcases hm with rfl | rfl <;> cases c <;> decide

theorem problemCreate_ends (h : w.At l G) {howmany : Int} {flags : Flags}
    (hn : ∀ i, grid.n i ≤ INT_MAX) :
    Ends (problemCreate env bcast (some grid) howmany flags) w
      (ProblemCreated env bcast grid howmany flags l G) := by
  simp only [problemCreate]
  by_cases h0 : howmany < 0
  · rw [if_pos h0]
    exact errorNull_none fun _ => .of_refused fun _ h0' _ => by omega
  by_cases hf : flags.has (~~~TRANSPOSED_LONG_N2 &&& ~~~TRANSPOSED_LONG_N0) = true
  · rw [if_neg h0, if_pos hf]
    exact errorNull_none fun _ => .of_refused fun _ _ hf' => by rw [hf'] at hf; cases hf
  rw [if_neg h0, if_neg hf]
  refine .bind (malloc_ends h) ?_
  rintro (_ | addr) w1 ⟨hG1, h1⟩
  · exact errorNull_none fun _ => .of_refused fun hG _ _ => by cases hG1 hG
  refine .bind (decompose_ends h1 _ _ (hn 0) (hn 1)) ?_
  rintro dB w2 ⟨rfl, h2⟩
  refine .bind (decompose_ends h2 _ _ (hn 1) (hn 2)) ?_
  rintro dA w3 ⟨rfl, h3⟩
  refine .bind (call_ends h3 _ _) fun _ w4 h4 => ?_
  refine .bind (call_ends h4 _ _) fun _ w5 h5 => ?_
  refine .bind (transposeCreate_ends h5 _ _) ?_
  rintro (_ | tA) w6 hA
  · exact problemRelease_none fun _ => .of_refused fun hG _ _ => by cases hA.complete hG
  obtain ⟨hA, h6⟩ := hA.sound tA rfl
  refine .bind (transposeCreate_ends h6 _ _) ?_
  rintro (_ | tB) w7 hB
  · exact problemRelease_none fun _ => .of_refused fun hG _ _ => by cases hB.complete hG
  obtain ⟨hB, h7⟩ := hB.sound tB rfl
  have hfB : tB.StorageFlags := by
    rw [hB.args_eq]
    exact storageFlags_of (.inr rfl) rfl
  refine .bind (transposeCreateInverse_ends h7 tB hfB) ?_
  rintro (_ | tB') w8 hB'
  · exact problemRelease_none fun _ => .of_refused fun hG _ _ => by cases hB'.complete hG
  obtain ⟨hB', h8⟩ := hB'.sound tB' rfl
  have hfA : tA.StorageFlags := by
    rw [hA.args_eq]
    exact storageFlags_of (.inl rfl) rfl
  refine .bind (transposeCreateInverse_ends h8 tA hfA) ?_
  rintro (_ | tA') w9 hA'
  · exact problemRelease_none fun _ => .of_refused fun hG _ _ => by cases hA'.complete hG
  obtain ⟨hA', h9⟩ := hA'.sound tA' rfl
  refine .pure ⟨?_, fun _ _ _ => rfl⟩
  rintro _ ⟨⟩
  refine ⟨by omega, Bool.eq_false_iff.mpr hf, ⟨rfl, rfl, hA, hB, hB', hA', rfl⟩, ?_⟩
  rw [hB.comm_dir, hA.comm_dir] at h9
  simpa [problemCalls, hA.args_eq, hB.args_eq, hB'.args_eq, hA'.args_eq] using h9

end Create

end Underling
