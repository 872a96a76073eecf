import Underling.Problem
import Mathlib.Data.Fin.Tuple.Basic

/-!
# Underling.FftwExtents

The extents of an FFT: those of a pencil, read as complex or as real fields, and the ways the
library changes them.

* `adjust_pencil`, `adjusted_spec`: after the adjustment the long direction follows the fields, in
  packed storage.
* `complexSide`, `realSide`: what the extents made from a pencil look like.
* `fftwExtentsCmp_self`: equal extents compare equal.
-/

namespace Underling

open Runs C Strided

/-- `underling_fftw_extents`. Directions 0, 1, 2 are those of the domain, 3 counts the fields and 4
the real components of a field. -/
abbrev FftwExtents := Layout 5

/-- `UNDERLING_EXTENTS_INVALID`. -/
def Extents.invalid : Extents where
  start := fun _ => 0
  size := fun _ => 0
  stride := fun _ => 0
  order := fun _ => 0
  extent := 0

/-- `UNDERLING_FFTW_EXTENTS_INVALID`. -/
def FftwExtents.invalid : FftwExtents where
  start := fun _ => 0
  size := fun _ => 0
  stride := fun _ => 0
  order := fun _ => 0

/-! ## Comparison -/

/-- The arrays of extents, as the `int`s in memory. -/
structure IntArrays (n : Nat) where
  start : Fin n → BitVec 32
  size : Fin n → BitVec 32
  stride : Fin n → BitVec 32
  order : Fin n → BitVec 32

/-- The bytes of an `int`, least significant first. -/
def intBytes (x : BitVec 32) : List (BitVec 8) :=
  [x.extractLsb' 0 8, x.extractLsb' 8 8, x.extractLsb' 16 8, x.extractLsb' 24 8]

/-- `memcmp`: the first two bytes that differ decide, as unsigned values. -/
def memcmp : List (BitVec 8) → List (BitVec 8) → Int
  | a :: as, b :: bs => if a = b then memcmp as bs else (a.toNat : Int) - b.toNat
  | _, _ => 0

/-- `memcmp` on two arrays of `int`s. -/
def memcmpInts {n : Nat} (a b : Fin n → BitVec 32) : Int :=
  memcmp ((List.ofFn a).flatMap intBytes) ((List.ofFn b).flatMap intBytes)

/-- `underling_fftw_extents_cmp`, on the arrays. -/
def intArraysCmp {n : Nat} (e1 e2 : IntArrays n) : Int :=
  let startCmp := memcmpInts e1.start e2.start
  let sizeCmp := memcmpInts e1.size e2.size
  let strideCmp := memcmpInts e1.stride e2.stride
  let orderCmp := memcmpInts e1.order e2.order
  if startCmp ≠ 0 then startCmp
  else if sizeCmp ≠ 0 then sizeCmp
  else if strideCmp ≠ 0 then strideCmp
  else if orderCmp ≠ 0 then orderCmp
  else 0

def FftwExtents.ints (e : FftwExtents) : IntArrays 5 where
  start := fun k => .ofNat 32 (e.start k)
  size := fun k => .ofNat 32 (e.size k)
  stride := fun k => .ofNat 32 (e.stride k)
  order := fun k => .ofNat 32 (e.order k)

def fftwExtentsCmp (e1 e2 : FftwExtents) : Int := intArraysCmp e1.ints e2.ints

theorem memcmp_self (a : List (BitVec 8)) : memcmp a a = 0 := by
  induction a with
  | nil => rfl
  | cons b bs ih => rw [memcmp, if_pos rfl, ih]

@[simp] theorem fftwExtentsCmp_self (e : FftwExtents) : fftwExtentsCmp e e = 0 := by
  simp [fftwExtentsCmp, intArraysCmp, memcmpInts, memcmp_self]

/-! ## Changing extents -/

/-- Read an array of length `n` at an `int`. -/
def C.index (n : Nat) (i : Int) : C (Fin n) :=
  if h : 0 ≤ i ∧ i < n then pure ⟨i.toNat, by omega⟩ else throw .outOfBounds

theorem toNat_lt_three {i : Int} (h : ¬ (i < 0 ∨ i > 2)) : i.toNat < 3 := by
  omega

def localExtents (problem : Option Problem) (i : Int) : C Extents := do
  if h : i < 0 ∨ i > 2 then errorVal "i < 0 or i > 2" .einval .invalid
  else
    let some problem := problem | errorVal "problem == NULL" .einval .invalid
    return problem.longN ⟨i.toNat, toNat_lt_three h⟩

def rotateLeft {α : Type} {n : Nat} (array : Fin (n + 1) → α) : Fin (n + 1) → α :=
  Fin.snoc (α := fun _ => α) (Fin.tail array) (array ⟨0, n.succ_pos⟩)

/-- The loop of `adjust_for_fast_stride_in_long_direction` on the order, with the number of
rotations made. Three rotations are none, so with two of them left the loop has seen every order it
will. -/
def rotateToLong (longNi : Int) : Nat → (Fin 4 → Fin 4) → C ((Fin 4 → Fin 4) × Nat)
  | left, order =>
    if (order 1 : Nat) = longNi then return (order, 0)
    else match left with
      | 0 => throw .diverges
      | left + 1 => do
        let (order, nrotate) ← rotateToLong longNi left
          (Fin.cons (order 0) (rotateLeft (Fin.tail order)))
        return (order, nrotate + 1)

def adjustForFastStrideInLongDirection (e : Extents) (longNi : Int) : C (Extents × Nat) := do
  let (order, nrotate) ← rotateToLong longNi 2 e.order
  let r := { e.toLayout with order := order }
  if nrotate ≠ 0 then
    assert (e.stride (order 0) = 1)
    return ({ r with stride := r.chain r.stride 3, extent := e.extent }, nrotate)
  return (e, nrotate)

def packStridesAccordingToOrder (e : FftwExtents) : FftwExtents := { e with stride := e.packed }

/-- The first four entries are copied, the last one is new. -/
def extend {α : Type} (f : Fin 4 → α) (a : α) : Fin 5 → α := Fin.snoc (α := fun _ => α) f a

/-- Real-valued components are the fastest index. -/
def componentsFirst (order : Fin 4 → Fin 4) : Fin 5 → Fin 5 :=
  ![4, (order 0).castSucc, (order 1).castSucc, (order 2).castSucc, (order 3).castSucc]

/-- Interleaved complex fields built from the fields of a pencil: two reals make one. -/
def complexExtents (e : Extents) : FftwExtents where
  start := extend e.start 0
  size := Function.update (extend e.size 2) 3 (e.size 3 / 2)
  stride := Function.update (extend e.stride (e.stride 3)) 3 (e.stride 3 * 2)
  order := componentsFirst e.order

/-- Real fields in the place of complex ones, the long direction without the padding. -/
def realExtents (e : Extents) (long : Fin 4) : FftwExtents where
  start := extend e.start 0
  size := Function.update (Function.update (extend e.size 1) long.castSucc
    (if e.size long = 1 then 1 else 2 * (e.size long - 1))) 3 (e.size 3 / 2)
  stride := Function.update
    (Function.update (extend e.stride 1) long.castSucc (e.stride long / 2)) 3 1
  order := componentsFirst e.order

def createFftwExtentsForComplex (e : Extents) (longNi : Int) : C FftwExtents := do
  if e.size 3 % 2 ≠ 0 then
    return ← errorVal "problem must have an even number of underling_real fields" .einval .invalid
  if e.order 0 ≠ 3 then
    return ← errorVal "Unknown interleaving: e.order[0] != 3" .esanity .invalid
  let long ← index 4 longNi
  if e.start long ≠ 0 then
    return ← errorVal "field does not start at zero: e.start[long_ni] != 0" .einval .invalid
  return complexExtents e

def createFftwExtentsForReal (e : Extents) (longNi : Int) : C FftwExtents := do
  if e.size 3 % 2 ≠ 0 then
    return ← errorVal "problem must have an even number of underling_real fields" .einval .invalid
  if e.order 0 ≠ 3 then
    return ← errorVal "Unknown interleaving: e.order[0] != 3" .esanity .invalid
  let long ← index 4 longNi
  if e.start long ≠ 0 then
    return ← errorVal "field does not start at zero: e.start[long_ni] != 0" .einval .invalid
  if e.start long % 2 ≠ 0 then
    return ← errorVal "field does not have even stride" .einval .invalid
  if (e.order 1 : Nat) = longNi then
    return realExtents e long
  else
    errorVal "Unknown interleaving: e.order[1] != long_ni" .esanity .invalid

/-! ## Specification -/

/-- A pencil of a problem that is long in direction `i`. -/
structure Extents.Pencil (e : Extents) (i : Fin 3) : Prop where
  order_injective : Function.Injective e.order
  order_zero : e.order 0 = 3
  stride_order : ∀ k, e.stride (e.order k) = Layout.below e.size e.order k
  start_long : e.start (i.castAdd 1) = 0

/-- Fields of `parts` components, stored together. -/
structure Interleaved (e : FftwExtents) (parts : Nat) : Prop where
  order_injective : Function.Injective e.order
  order_zero : e.order 0 = 4
  order_one : e.order 1 = 3
  size_four : e.size 4 = parts
  stride_four : e.stride 4 = 1

/-- The complex side of a transform: everything is packed. -/
structure ComplexSide (e : FftwExtents) : Prop extends Interleaved e 2 where
  packed : ∀ k, e.stride (e.order k) = Layout.below e.size e.order k

/-- The real side of a transform long in direction `i`: the long direction follows the fields and
may be padded. -/
structure RealSide (i : Fin 3) (e : FftwExtents) : Prop extends Interleaved e 1 where
  order_two : e.order 2 = i.castAdd 2
  stride_three : e.stride 3 = 1
  stride_long : e.stride (i.castAdd 2) = e.size 3
  next : ∀ k : Fin 4, e.size (e.order k.castSucc) * e.stride (e.order k.castSucc) ≤
    e.stride (e.order k.succ)

theorem rowMajor_pencil {start size : Fin 4 → Nat} {flags : Flags} {i : Fin 3}
    (h : start (i.castAdd 1) = 0) :
    (Extents.rowMajor start size (storageOrder flags i)).Pencil i := by
  have hinj := storageOrder_injective flags i
  refine ⟨hinj, ?_, fun k => ?_, h⟩
  swap
  · exact Layout.packed_order
      (e := ⟨start, size, fun _ => 0, storageOrder flags i⟩) hinj k
  fin_cases i <;> simp only [Extents.rowMajor, storageOrder] <;> first | rfl | (split <;> rfl)

section Adjust

variable {e : Extents} {i : Fin 3}

/-- The order after one rotation. -/
def rotated (order : Fin 4 → Fin 4) : Fin 4 → Fin 4 := order ∘ ![0, 2, 3, 1]

theorem cons_rotateLeft (order : Fin 4 → Fin 4) :
    Fin.cons (order 0) (rotateLeft (Fin.tail order)) = rotated order := by
  funext k
  fin_cases k <;> rfl

theorem rotated_injective {order : Fin 4 → Fin 4} (h : Function.Injective order) :
    Function.Injective (rotated order) :=
  h.comp (by decide)

theorem rotateToLong_of_eq {left : Nat} {order : Fin 4 → Fin 4} (h : order 1 = i.castAdd 1) :
    rotateToLong (i : Nat) left order = pure (order, 0) := by
  have hval : ((order 1 : Nat) : Int) = (i : Nat) := by rw [h]; rfl
  cases left <;> rw [rotateToLong, if_pos hval]

theorem rotateToLong_of_ne {left : Nat} {order : Fin 4 → Fin 4} (h : order 1 ≠ i.castAdd 1) :
    rotateToLong (i : Nat) (left + 1) order = do
      let (order, nrotate) ← rotateToLong (i : Nat) left (rotated order)
      return (order, nrotate + 1) := by
  have hval : ¬ ((order 1 : Nat) : Int) = (i : Nat) := fun heq =>
    h (Fin.ext (Int.natCast_inj.mp heq))
  rw [rotateToLong, if_neg hval, cons_rotateLeft]

/-- The order the loop ends with. -/
def longOrder (order : Fin 4 → Fin 4) (i : Fin 3) : Fin 4 → Fin 4 :=
  if order 1 = i.castAdd 1 then order
  else if order 2 = i.castAdd 1 then rotated order
  else rotated (rotated order)

/-- The extents the adjustment ends with. -/
def Extents.adjusted (e : Extents) (i : Fin 3) : Extents :=
  if e.order 1 = i.castAdd 1 then e
  else
    let r := { e.toLayout with order := longOrder e.order i }
    { r with stride := r.chain r.stride 3, extent := e.extent }

/-- The rotations keep the fields fastest and end with the long direction next. -/
theorem longOrder_spec {order : Fin 4 → Fin 4} (hinj : Function.Injective order) (h0 : order 0 = 3)
    (i : Fin 3) : Function.Injective (longOrder order i) ∧ longOrder order i 0 = 3 ∧
      longOrder order i 1 = i.castAdd 1 := by
  rw [longOrder]
  by_cases h1 : order 1 = i.castAdd 1
  · rw [if_pos h1]
    exact ⟨hinj, h0, h1⟩
  rw [if_neg h1]
  by_cases h2 : order 2 = i.castAdd 1
  · rw [if_pos h2]
    exact ⟨rotated_injective hinj, h0, h2⟩
  rw [if_neg h2]
  -- the long direction has some place, and it is none of the others
  have h3 : order 3 = i.castAdd 1 := by
    obtain ⟨k, hk⟩ := Finite.injective_iff_surjective.mp hinj (i.castAdd 1)
    have hk0 : i.castAdd 1 ≠ (3 : Fin 4) := by
      have := i.isLt
      simp [Fin.ext_iff]
      omega
    fin_cases k
    · exact absurd (hk.symm.trans h0) hk0
    · exact absurd hk h1
    · exact absurd hk h2
    · exact hk
  exact ⟨rotated_injective (rotated_injective hinj), h0, h3⟩

/-- The loop ends within two rotations, and makes none exactly when the long direction was next. -/
theorem rotateToLong_eq {order : Fin 4 → Fin 4} (hinj : Function.Injective order) (h0 : order 0 = 3)
    (i : Fin 3) : ∃ nrotate, rotateToLong (i : Nat) 2 order = pure (longOrder order i, nrotate) ∧
      (nrotate = 0 ↔ order 1 = i.castAdd 1) := by
  obtain ⟨-, -, hlong⟩ := longOrder_spec hinj h0 i
  rw [longOrder] at hlong ⊢
  by_cases h1 : order 1 = i.castAdd 1
  · rw [if_pos h1]
    exact ⟨0, rotateToLong_of_eq h1, iff_of_true rfl h1⟩
  rw [if_neg h1] at hlong ⊢
  rw [rotateToLong_of_ne h1]
  by_cases h2 : order 2 = i.castAdd 1
  · rw [if_pos h2, rotateToLong_of_eq (show rotated order 1 = _ from h2)]
    exact ⟨1, rfl, iff_of_false (by decide) h1⟩
  rw [if_neg h2] at hlong ⊢
  rw [rotateToLong_of_ne (show rotated order 1 ≠ _ from h2), rotateToLong_of_eq hlong]
  exact ⟨2, rfl, iff_of_false (by decide) h1⟩

theorem Extents.Pencil.stride_three (he : e.Pencil i) : e.stride 3 = 1 := by
  have h := he.stride_order 0
  rw [he.order_zero] at h
  exact h

theorem adjusted_spec (he : e.Pencil i) : (e.adjusted i).Pencil i ∧
    (e.adjusted i).order 1 = i.castAdd 1 ∧ (e.adjusted i).size = e.size := by
  rw [Extents.adjusted]
  split
  · exact ⟨he, ‹_›, rfl⟩
  obtain ⟨hinj, h0, h1⟩ := longOrder_spec he.order_injective he.order_zero i
  have hone : e.stride (longOrder e.order i 0) = 1 := by
    rw [h0, he.stride_three]
  refine ⟨⟨hinj, h0, fun k => ?_, he.start_long⟩, h1, rfl⟩
  have hk := Layout.chain_order (e := { e.toLayout with order := longOrder e.order i }) hinj
    (s := e.stride) (fun _ => hone) 3 k k.isLt (by omega)
  rw [Nat.one_mul] at hk
  exact hk

theorem adjust_pencil (he : e.Pencil i) :
    ∃ nrotate, adjustForFastStrideInLongDirection e (i : Nat) = pure (e.adjusted i, nrotate) := by
  obtain ⟨nrotate, hrotate, hn⟩ := rotateToLong_eq he.order_injective he.order_zero i
  refine ⟨nrotate, ?_⟩
  rw [adjustForFastStrideInLongDirection, hrotate, pure_bind]
  dsimp only
  rw [Extents.adjusted]
  by_cases h1 : e.order 1 = i.castAdd 1
  · rw [if_neg (not_not.mpr (hn.mpr h1)), if_pos h1]
  · obtain ⟨-, h0, -⟩ := longOrder_spec he.order_injective he.order_zero i
    have hone : e.stride (longOrder e.order i 0) = 1 := by
      rw [h0, he.stride_three]
    rw [if_pos fun hz => h1 (hn.mp hz), if_neg h1, assert, if_pos hone]
    rfl

end Adjust

section Sides

variable {e : Extents} {i : Fin 3}

theorem Extents.Pencil.order_ne (he : e.Pencil i) {k : Fin 4} (hk : k ≠ 0) : e.order k ≠ 3 :=
  fun h => hk (he.order_injective (h.trans he.order_zero.symm))

theorem Extents.Pencil.long_ne (i : Fin 3) : (i.castAdd 1 : Fin 4) ≠ 3 := by
  revert i
  decide

theorem castSucc_ne {k k' : Fin 4} (h : k ≠ k') : k.castSucc ≠ k'.castSucc :=
  fun heq => h (Fin.castSucc_injective _ heq)

theorem extend_castSucc {α : Type} (f : Fin 4 → α) (a : α) (k : Fin 4) :
    extend f a k.castSucc = f k := Fin.snoc_castSucc _ _ _

theorem complexExtents_size {k : Fin 4} (hk : k ≠ 3) :
    (complexExtents e).size k.castSucc = e.size k :=
  (Function.update_of_ne (castSucc_ne hk) _ _).trans (extend_castSucc _ _ _)

theorem complexExtents_stride {k : Fin 4} (hk : k ≠ 3) :
    (complexExtents e).stride k.castSucc = e.stride k :=
  (Function.update_of_ne (castSucc_ne hk) _ _).trans (extend_castSucc _ _ _)

theorem realExtents_size {long k : Fin 4} (hk : k ≠ 3) : (realExtents e long).size k.castSucc =
    if k = long then (if e.size long = 1 then 1 else 2 * (e.size long - 1)) else e.size k := by
  refine (Function.update_of_ne (castSucc_ne hk) _ _).trans ?_
  by_cases h : k = long
  · rw [if_pos h, h, Function.update_self]
  · rw [if_neg h, Function.update_of_ne (castSucc_ne h), extend_castSucc]

theorem realExtents_stride {long k : Fin 4} (hk : k ≠ 3) :
    (realExtents e long).stride k.castSucc =
      if k = long then e.stride long / 2 else e.stride k := by
  refine (Function.update_of_ne (castSucc_ne hk) _ _).trans ?_
  by_cases h : k = long
  · rw [if_pos h, h, Function.update_self]
  · rw [if_neg h, Function.update_of_ne (castSucc_ne h), extend_castSucc]

theorem realExtents_four (long : Fin 4) :
    (realExtents e long).size 4 = 1 ∧ (realExtents e long).stride 4 = 1 := by
  have hlast : (4 : Fin 5) ≠ long.castSucc := (Fin.castSucc_ne_last long).symm
  constructor <;> simp only [realExtents] <;>
    rw [Function.update_of_ne (by decide), Function.update_of_ne hlast] <;> rfl

theorem Extents.Pencil.strides (he : e.Pencil i) : e.stride 3 = 1 ∧
    e.stride (e.order 1) = e.size 3 ∧
    e.stride (e.order 2) = e.size 3 * e.size (e.order 1) ∧
    e.stride (e.order 3) = e.size 3 * e.size (e.order 1) * e.size (e.order 2) := by
  have s0 := he.stride_order 0
  have s1 := he.stride_order 1
  have s2 := he.stride_order 2
  have s3 := he.stride_order 3
  rw [he.order_zero] at s0
  simp [Layout.below, he.order_zero] at s1 s2 s3
  exact ⟨s0, s1, s2, s3⟩

theorem componentsFirst_injective {order : Fin 4 → Fin 4} (h : Function.Injective order) :
    Function.Injective (componentsFirst order) := by
  have hcons : componentsFirst order = Fin.cons (α := fun _ => Fin 5) 4 (Fin.castSucc ∘ order) := by
    funext k
    fin_cases k <;> rfl
  rw [hcons, Fin.cons_injective_iff]
  refine ⟨?_, (Fin.castSucc_injective 4).comp h⟩
  rintro ⟨k, hk⟩
  exact Fin.castSucc_ne_last _ hk

theorem complexSide (he : e.Pencil i) (heven : e.size 3 % 2 = 0) :
    ComplexSide (complexExtents e) := by
  obtain ⟨h3, s1, s2, s3⟩ := he.strides
  have h1 := he.order_ne (k := 1) (by decide)
  have h2 := he.order_ne (k := 2) (by decide)
  have h3' := he.order_ne (k := 3) (by decide)
  have hhalf : 2 * (e.size 3 / 2) = e.size 3 := by omega
  have hone : (complexExtents e).order 1 = 3 := congrArg Fin.castSucc he.order_zero
  refine ⟨⟨componentsFirst_injective he.order_injective, rfl, hone, rfl, h3⟩, fun k => ?_⟩
  have hb2 : Layout.below (complexExtents e).size (complexExtents e).order 2 = e.size 3 := by
    show 1 * 2 * (complexExtents e).size ((complexExtents e).order 1) = e.size 3
    rw [hone]
    exact hhalf
  have hb3 : Layout.below (complexExtents e).size (complexExtents e).order 3 = _ :=
    congrArg₂ (· * ·) hb2 (complexExtents_size h1)
  have hb4 : Layout.below (complexExtents e).size (complexExtents e).order 4 = _ :=
    congrArg₂ (· * ·) hb3 (complexExtents_size h2)
  fin_cases k
  · exact h3
  · show (complexExtents e).stride ((complexExtents e).order 1) = 1 * 2
    rw [hone]
    show e.stride 3 * 2 = 1 * 2
    rw [h3]
  · exact (complexExtents_stride h1).trans (s1.trans hb2.symm)
  · exact (complexExtents_stride h2).trans (s2.trans hb3.symm)
  · exact (complexExtents_stride h3').trans (s3.trans hb4.symm)

theorem realSide (he : e.Pencil i) (heven : e.size 3 % 2 = 0) (hlong : e.order 1 = i.castAdd 1) :
    RealSide i (realExtents e (i.castAdd 1)) := by
  obtain ⟨h3, s1, s2, s3⟩ := he.strides
  have h1 := he.order_ne (k := 1) (by decide)
  have h2 := he.order_ne (k := 2) (by decide)
  have h3' := he.order_ne (k := 3) (by decide)
  have hne : ∀ {k}, k ≠ 1 → e.order k ≠ i.castAdd 1 := fun hk h =>
    hk (he.order_injective (h.trans hlong.symm))
  have hne2 : e.order 2 ≠ i.castAdd 1 := hne (by decide)
  have hne3 : e.order 3 ≠ i.castAdd 1 := hne (by decide)
  rw [hlong] at h1 s1 s2 s3
  let r := realExtents e (i.castAdd 1)
  have hone : r.order 1 = 3 := congrArg Fin.castSucc he.order_zero
  have htwo : r.order 2 = i.castAdd 2 := congrArg Fin.castSucc hlong
  have hlstride : r.stride (i.castAdd 2) = e.size 3 / 2 := by
    refine (realExtents_stride (k := i.castAdd 1) h1).trans ?_
    rw [if_pos rfl, s1]
  have hlsize : r.size (i.castAdd 2) ≤ 2 * e.size (i.castAdd 1) := by
    refine (realExtents_size (k := i.castAdd 1) h1).trans_le ?_
    rw [if_pos rfl]
    split <;> omega
  obtain ⟨hsize4, hstride4⟩ := realExtents_four (e := e) (i.castAdd 1)
  refine ⟨⟨componentsFirst_injective he.order_injective, rfl, hone, hsize4, hstride4⟩, htwo, rfl,
    hlstride, fun k => ?_⟩
  fin_cases k
  · show r.size 4 * r.stride 4 ≤ r.stride (r.order 1)
    rw [hone, hsize4, hstride4]
    exact Nat.le_refl 1
  · show r.size (r.order 1) * r.stride (r.order 1) ≤ r.stride (r.order 2)
    rw [hone, htwo, hlstride]
    exact (Nat.mul_one _).le
  · show r.size (r.order 2) * r.stride (r.order 2) ≤ r.stride (e.order 2).castSucc
    rw [htwo, hlstride, realExtents_stride h2, if_neg hne2, s2]
    calc r.size (i.castAdd 2) * (e.size 3 / 2)
        ≤ 2 * e.size (i.castAdd 1) * (e.size 3 / 2) := Nat.mul_le_mul_right _ hlsize
      _ = 2 * (e.size 3 / 2) * e.size (i.castAdd 1) := by ring
      _ = e.size 3 * e.size (i.castAdd 1) := by rw [show 2 * (e.size 3 / 2) = e.size 3 by omega]
  · show r.size (e.order 2).castSucc * r.stride (e.order 2).castSucc ≤ r.stride (e.order 3).castSucc
    rw [realExtents_size h2, if_neg hne2, realExtents_stride h2, if_neg hne2,
      realExtents_stride h3', if_neg hne3, s2, s3, Nat.mul_comm]

/-- The real and the complex side of a transform: half as many complex values, and one, on a
line. -/
structure Halves (i : Fin 3) (c r : FftwExtents) : Prop where
  size_eq : ∀ k, k ≠ i.castAdd 2 → k ≠ 4 → r.size k = c.size k
  half : c.size (i.castAdd 2) = r.size (i.castAdd 2) / 2 + 1
  pos : 0 < r.size (i.castAdd 2)

/-- The two sides of an in-place transform: a real line lies in the place of its complex line. -/
structure SamePlace (i : Fin 3) (c r : FftwExtents) : Prop where
  order_eq : c.order = r.order
  stride_eq : ∀ k, k ≠ i.castAdd 2 → k ≠ 3 → k ≠ 4 → r.stride k = c.stride k

theorem castAdd_two (i : Fin 3) : (i.castAdd 2 : Fin 5) = (i.castAdd 1 : Fin 4).castSucc := rfl

theorem exists_castSucc {k : Fin 5} (hk : k ≠ 4) : ∃ k' : Fin 4, k = k'.castSucc :=
  ⟨k.castPred hk, (Fin.castSucc_castPred k hk).symm⟩

theorem halves_of {e' : Extents} (hsize : e'.size = e.size) (hpos : 0 < e.size (i.castAdd 1)) :
    Halves i (complexExtents e) (realExtents e' (i.castAdd 1)) := by
  have hl := Extents.Pencil.long_ne i
  refine ⟨fun k hk h4 => ?_, ?_, ?_⟩
  · obtain ⟨k, rfl⟩ := exists_castSucc h4
    by_cases h3 : k = 3
    · subst h3
      exact congrArg (fun size : Fin 4 → Nat => size 3 / 2) hsize
    · rw [realExtents_size h3, complexExtents_size h3, if_neg fun h => hk (congrArg _ h), hsize]
  · rw [castAdd_two, complexExtents_size hl, realExtents_size hl, if_pos rfl, hsize]
    split <;> omega
  · rw [castAdd_two, realExtents_size hl, if_pos rfl, hsize]
    split <;> omega

theorem samePlace_of (i : Fin 3) (e : Extents) :
    SamePlace i (complexExtents e) (realExtents e (i.castAdd 1)) := by
  refine ⟨rfl, fun k hk h3 h4 => ?_⟩
  obtain ⟨k, rfl⟩ := exists_castSucc h4
  have h3' : k ≠ 3 := fun h => h3 (congrArg Fin.castSucc h)
  rw [realExtents_stride h3', complexExtents_stride h3', if_neg fun h => hk (congrArg _ h)]

/-! ### Making them -/

theorem index_long (i : Fin 3) : index 4 (i : Nat) = pure (i.castAdd 1) := by
  have hi : 0 ≤ ((i : Nat) : Int) ∧ ((i : Nat) : Int) < (4 : Nat) := by
    have := i.isLt
    omega
  rw [index, dif_pos hi]
  rfl

theorem not_outside (i : Fin 3) : ¬ (((i : Nat) : Int) < 0 ∨ ((i : Nat) : Int) > 2) := by
  have := i.isLt
  omega

theorem localExtents_some (problem : Problem) (i : Fin 3) :
    localExtents (some problem) (i : Nat) = pure (problem.longN i) := by
  rw [localExtents, dif_neg (not_outside i)]
  rfl

theorem createForComplex_pencil (he : e.Pencil i) (heven : e.size 3 % 2 = 0) :
    createFftwExtentsForComplex e (i : Nat) = pure (complexExtents e) := by
  rw [createFftwExtentsForComplex, if_neg (not_not.mpr heven), if_neg (not_not.mpr he.order_zero),
    index_long, pure_bind, if_neg (not_not.mpr he.start_long)]

theorem createForReal_pencil (he : e.Pencil i) (heven : e.size 3 % 2 = 0)
    (hlong : e.order 1 = i.castAdd 1) :
    createFftwExtentsForReal e (i : Nat) = pure (realExtents e (i.castAdd 1)) := by
  have hstart : e.start (i.castAdd 1) % 2 = 0 := by rw [he.start_long]
  have hval : ((e.order 1 : Nat) : Int) = (i : Nat) := by rw [hlong]; rfl
  rw [createFftwExtentsForReal, if_neg (not_not.mpr heven), if_neg (not_not.mpr he.order_zero),
    index_long, pure_bind, if_neg (not_not.mpr he.start_long), if_neg (not_not.mpr hstart),
    if_pos hval]

/-! ### Packing -/

theorem ComplexSide.pack_eq {e : FftwExtents} (h : ComplexSide e) :
    packStridesAccordingToOrder e = e := by
  have hstride : e.packed = e.stride := by
    funext k
    obtain ⟨m, rfl⟩ := Finite.injective_iff_surjective.mp h.order_injective k
    rw [Layout.packed_order h.order_injective, h.packed]
  rw [packStridesAccordingToOrder, hstride]

theorem RealSide.pack {e : FftwExtents} (h : RealSide i e) :
    RealSide i (packStridesAccordingToOrder e) := by
  have hp : ∀ k, e.packed (e.order k) = Layout.below e.size e.order k :=
    Layout.packed_order h.order_injective
  have h0 : e.packed (e.order 0) = 1 := hp 0
  have h1 : e.packed (e.order 1) = 1 * e.size (e.order 0) := hp 1
  have h2 : e.packed (e.order 2) = 1 * e.size (e.order 0) * e.size (e.order 1) := hp 2
  rw [h.order_zero] at h0
  rw [h.order_zero, h.order_one, h.size_four] at h1
  rw [h.order_zero, h.order_one, h.order_two, h.size_four, Nat.mul_one, Nat.one_mul] at h2
  refine ⟨⟨h.order_injective, h.order_zero, h.order_one, h.size_four, h0⟩, h.order_two, h1, h2,
    fun k => ?_⟩
  show e.size (e.order k.castSucc) * e.packed (e.order k.castSucc) ≤ e.packed (e.order k.succ)
  have hlt : (k.castSucc : Nat) < 5 := k.castSucc.isLt
  rw [hp, hp, Fin.val_succ, Layout.below, dif_pos (by omega), Nat.mul_comm]
  exact Nat.le_refl _

theorem Halves.pack {c r : FftwExtents} (h : Halves i c r) :
    Halves i c (packStridesAccordingToOrder r) :=
  ⟨h.size_eq, h.half, h.pos⟩

end Sides

end Underling
