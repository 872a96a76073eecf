import Underling.FftwExtents
import Mathlib.Data.Finset.Max
import Mathlib.Data.List.OfFn

/-!
# Underling.ExtentsCmp

The two comparisons of extents against the lexicographic order of their `int`s. They are the same
function, on arrays of four and of five.

* `intArraysCmp_eq`: the four comparisons are one `memcmp` of all bytes.
* `memcmp_intBytes`, `toInt_lt_iff`: of two `int`s, `memcmp` looks at the lowest byte that differs,
  the numeric order at the highest.
* `extents_cmp_iff`: so they agree exactly where these two bytes do.
-/

namespace Underling

/-- `underling_extents_cmp`, on the arrays. -/
def extentsCmp (e1 e2 : IntArrays 4) : Int := intArraysCmp e1 e2

/-- All `int`s of the arrays in the order they are compared. -/
def IntArrays.list {n : Nat} (e : IntArrays n) : List (BitVec 32) :=
  List.ofFn e.start ++ (List.ofFn e.size ++ (List.ofFn e.stride ++ List.ofFn e.order))

/-- Their values. -/
def IntArrays.values {n : Nat} (e : IntArrays n) : List Int := e.list.map BitVec.toInt

/-- The result of a comparison has the sign of the lexicographic one. -/
structure LexSign (c : Int) (a b : List Int) : Prop where
  neg : c < 0 ↔ a < b
  zero : c = 0 ↔ a = b
  pos : 0 < c ↔ b < a

/-! ## Bytes -/

/-- Byte `m` of an `int`. -/
def byteOf (x : BitVec 32) (m : Fin 4) : BitVec 8 := x.extractLsb' (8 * m) 8

/-- The bytes `lo` and `hi` are the lowest and the highest in which two `int`s differ. -/
structure Differ (x y : BitVec 32) (lo hi : Fin 4) : Prop where
  lo_ne : byteOf x lo ≠ byteOf y lo
  hi_ne : byteOf x hi ≠ byteOf y hi
  below : ∀ m, m < lo → byteOf x m = byteOf y m
  above : ∀ m, hi < m → byteOf x m = byteOf y m

/-- The top byte carries the sign. -/
def byteValue (m : Fin 4) (b : BitVec 8) : Int := if m = 3 then b.toInt else b.toNat

/-- The lowest byte that differs, unsigned, orders two `int`s as the highest one does. -/
def BytesAgree (x y : BitVec 32) : Prop :=
  ∀ lo hi, Differ x y lo hi →
    ((byteOf x lo).toNat < (byteOf y lo).toNat ↔
      byteValue hi (byteOf x hi) < byteValue hi (byteOf y hi))

/-- The first `int`s that differ. -/
def firstDiff : List (BitVec 32) → List (BitVec 32) → Option (BitVec 32 × BitVec 32)
  | x :: xs, y :: ys => if x = y then firstDiff xs ys else some (x, y)
  | _, _ => none

section Bytes

variable {x y : BitVec 32} {lo hi : Fin 4}

theorem intBytes_eq (x : BitVec 32) :
    intBytes x = [byteOf x 0, byteOf x 1, byteOf x 2, byteOf x 3] := rfl

theorem toNat_bytes (x : BitVec 32) : x.toNat = (byteOf x 0).toNat + 2 ^ 8 * (byteOf x 1).toNat +
    2 ^ 16 * (byteOf x 2).toNat + 2 ^ 24 * (byteOf x 3).toNat := by
  have hx := x.isLt
  simp [byteOf, BitVec.extractLsb'_toNat, Nat.shiftRight_eq_div_pow]
  omega

theorem toInt_bytes (x : BitVec 32) : x.toInt = (byteOf x 0).toNat + 2 ^ 8 * (byteOf x 1).toNat +
    2 ^ 16 * (byteOf x 2).toNat + 2 ^ 24 * (byteOf x 3).toInt := by
  have hx := toNat_bytes x
  have h0 := (byteOf x 0).isLt
  have h1 := (byteOf x 1).isLt
  have h2 := (byteOf x 2).isLt
  have h3 := (byteOf x 3).isLt
  rw [BitVec.toInt_eq_toNat_cond, BitVec.toInt_eq_toNat_cond]
  split <;> split <;> omega

theorem eq_of_bytes (h : ∀ m, byteOf x m = byteOf y m) : x = y := by
  refine BitVec.eq_of_toNat_eq ?_
  rw [toNat_bytes, toNat_bytes, h 0, h 1, h 2, h 3]

theorem exists_differ (h : x ≠ y) : ∃ lo hi, Differ x y lo hi := by
  let s : Finset (Fin 4) := Finset.univ.filter fun m => byteOf x m ≠ byteOf y m
  have hmem : ∀ {m}, m ∈ s ↔ byteOf x m ≠ byteOf y m := by simp [s]
  have hs : s.Nonempty := by
    by_contra hempty
    refine h (eq_of_bytes fun m => not_not.mp fun hm => ?_)
    exact hempty ⟨m, hmem.mpr hm⟩
  refine ⟨s.min' hs, s.max' hs, hmem.mp (s.min'_mem hs), hmem.mp (s.max'_mem hs), ?_, ?_⟩
  · intro m hm
    by_contra hne
    exact absurd (s.min'_le m (hmem.mpr hne)) (not_le.mpr hm)
  · intro m hm
    by_contra hne
    exact absurd (s.le_max' m (hmem.mpr hne)) (not_le.mpr hm)

theorem memcmp_intBytes (h : Differ x y lo hi) :
    memcmp (intBytes x) (intBytes y) = ((byteOf x lo).toNat : Int) - (byteOf y lo).toNat := by
  have hb := h.below
  have hlo := h.lo_ne
  rw [intBytes_eq, intBytes_eq]
  fin_cases lo
  · exact if_neg hlo
  · rw [memcmp, if_pos (hb 0 (by decide))]
    exact if_neg hlo
  · rw [memcmp, if_pos (hb 0 (by decide)), memcmp, if_pos (hb 1 (by decide))]
    exact if_neg hlo
  · rw [memcmp, if_pos (hb 0 (by decide)), memcmp, if_pos (hb 1 (by decide)), memcmp,
      if_pos (hb 2 (by decide))]
    exact if_neg hlo

theorem toInt_lt_iff (h : Differ x y lo hi) :
    x.toInt < y.toInt ↔ byteValue hi (byteOf x hi) < byteValue hi (byteOf y hi) := by
  have ha := h.above
  have hne : (byteOf x hi).toNat ≠ (byteOf y hi).toNat := fun heq =>
    h.hi_ne (BitVec.eq_of_toNat_eq heq)
  have hx0 := (byteOf x 0).isLt
  have hx1 := (byteOf x 1).isLt
  have hx2 := (byteOf x 2).isLt
  have hy0 := (byteOf y 0).isLt
  have hy1 := (byteOf y 1).isLt
  have hy2 := (byteOf y 2).isLt
  rw [toInt_bytes, toInt_bytes]
  fin_cases hi
  · rw [ha 1 (by decide), ha 2 (by decide), ha 3 (by decide)]
    simp [byteValue]
  · rw [ha 2 (by decide), ha 3 (by decide)]
    simp [byteValue] at hne ⊢
    omega
  · rw [ha 3 (by decide)]
    simp [byteValue] at hne ⊢
    omega
  · have hne' : (byteOf x 3).toInt ≠ (byteOf y 3).toInt := fun heq =>
      h.hi_ne (BitVec.eq_of_toInt_eq heq)
    simp [byteValue]
    omega

/-- Of two different `int`s, the comparison of the bytes is right where the two bytes agree. -/
theorem memcmp_lt_iff (hne : x ≠ y) :
    (memcmp (intBytes x) (intBytes y) < 0 ↔ x.toInt < y.toInt) ↔ BytesAgree x y := by
  constructor
  · intro h lo hi hd
    rw [← toInt_lt_iff hd, ← h, memcmp_intBytes hd]
    omega
  · intro h
    obtain ⟨lo, hi, hd⟩ := exists_differ hne
    rw [toInt_lt_iff hd, ← h lo hi hd, memcmp_intBytes hd]
    omega

theorem memcmp_intBytes_ne (hne : x ≠ y) : memcmp (intBytes x) (intBytes y) ≠ 0 := by
  obtain ⟨lo, hi, hd⟩ := exists_differ hne
  have hbyte : (byteOf x lo).toNat ≠ (byteOf y lo).toNat := fun heq =>
    hd.lo_ne (BitVec.eq_of_toNat_eq heq)
  rw [memcmp_intBytes hd]
  omega

end Bytes

/-! ## Lists of `int`s -/

theorem memcmp_append {a b a' b' : List (BitVec 8)} (h : a.length = b.length) :
    memcmp (a ++ a') (b ++ b') = if memcmp a b ≠ 0 then memcmp a b else memcmp a' b' := by
  induction a generalizing b with
  | nil =>
    cases b with
    | nil => rfl
    | cons _ _ => cases h
  | cons x xs ih =>
    cases b with
    | nil => cases h
    | cons y ys =>
      rw [List.cons_append, List.cons_append, memcmp, memcmp]
      by_cases hxy : x = y
      · rw [if_pos hxy, if_pos hxy]
        exact ih (Nat.succ.inj h)
      · have hne : (x.toNat : Int) - y.toNat ≠ 0 := by
          have : x.toNat ≠ y.toNat := fun heq => hxy (BitVec.eq_of_toNat_eq heq)
          omega
        rw [if_neg hxy, if_neg hxy, if_pos hne]

theorem length_intBytes (l : List (BitVec 32)) : (l.flatMap intBytes).length = 4 * l.length := by
  induction l with
  | nil => rfl
  | cons x xs ih =>
    rw [List.flatMap_cons, List.length_append, ih, List.length_cons]
    show 4 + 4 * xs.length = _
    omega

theorem intArraysCmp_eq {n : Nat} (e1 e2 : IntArrays n) :
    intArraysCmp e1 e2 = memcmp (e1.list.flatMap intBytes) (e2.list.flatMap intBytes) := by
  have hlen : ∀ f g : Fin n → BitVec 32,
      ((List.ofFn f).flatMap intBytes).length = ((List.ofFn g).flatMap intBytes).length := by
    intro f g
    rw [length_intBytes, length_intBytes, List.length_ofFn, List.length_ofFn]
  simp only [IntArrays.list, List.flatMap_append]
  rw [memcmp_append (hlen _ _), memcmp_append (hlen _ _), memcmp_append (hlen _ _)]
  unfold intArraysCmp
  extract_lets startCmp sizeCmp strideCmp orderCmp
  have hlast : (if orderCmp ≠ 0 then orderCmp else 0) = orderCmp := by
    split <;> omega
  rw [hlast]
  rfl

theorem lexSign_cons_self {c a : Int} {as bs : List Int} :
    LexSign c (a :: as) (a :: bs) ↔ LexSign c as bs := by
  constructor
  · intro h
    exact ⟨by simpa using h.neg, by simpa using h.zero, by simpa using h.pos⟩
  · intro h
    exact ⟨by simpa using h.neg, by simpa using h.zero, by simpa using h.pos⟩

theorem lexSign_cons {c a b : Int} {as bs : List Int} (hne : a ≠ b) (hc : c ≠ 0) :
    LexSign c (a :: as) (b :: bs) ↔ (c < 0 ↔ a < b) := by
  constructor
  · intro h
    simpa [List.cons_lt_cons_iff, hne] using h.neg
  · intro h
    refine ⟨by simpa [List.cons_lt_cons_iff, hne] using h, by simp [hne, hc], ?_⟩
    simp only [List.cons_lt_cons_iff, hne.symm, false_and, or_false]
    omega

theorem lexSign_iff {l1 l2 : List (BitVec 32)} (h : l1.length = l2.length) :
    LexSign (memcmp (l1.flatMap intBytes) (l2.flatMap intBytes)) (l1.map BitVec.toInt)
        (l2.map BitVec.toInt) ↔
      ∀ x y, firstDiff l1 l2 = some (x, y) → BytesAgree x y := by
  induction l1 generalizing l2 with
  | nil =>
    cases l2 with
    | nil =>
      have hsign : LexSign 0 ([] : List Int) [] := ⟨by simp, by simp, by simp⟩
      exact iff_of_true hsign fun x y hd => by cases hd
    | cons _ _ => cases h
  | cons x xs ih =>
    cases l2 with
    | nil => cases h
    | cons y ys =>
      rw [List.flatMap_cons, List.flatMap_cons, firstDiff,
        memcmp_append (a := intBytes x) (b := intBytes y) rfl]
      by_cases hxy : x = y
      · subst hxy
        rw [if_pos rfl, memcmp_self, if_neg (not_not.mpr rfl), ← ih (Nat.succ.inj h)]
        exact lexSign_cons_self
      · rw [if_neg hxy, if_pos (memcmp_intBytes_ne hxy)]
        have hx : x.toInt ≠ y.toInt := fun heq => hxy (BitVec.eq_of_toInt_eq heq)
        rw [List.map_cons, List.map_cons, lexSign_cons hx (memcmp_intBytes_ne hxy),
          memcmp_lt_iff hxy]
        constructor
        · rintro hagree _ _ ⟨⟩
          exact hagree
        · intro hall
          exact hall x y rfl

theorem intArraysCmp_lexSign_iff {n : Nat} (e1 e2 : IntArrays n) :
    LexSign (intArraysCmp e1 e2) e1.values e2.values ↔
      ∀ x y, firstDiff e1.list e2.list = some (x, y) → BytesAgree x y := by
  rw [intArraysCmp_eq]
  exact lexSign_iff (by simp [IntArrays.list])

/-- Each comparison of extents is the lexicographic one exactly where, at the first `int`s that
differ, the lowest byte that differs orders them as the highest one does. -/
theorem extents_cmp_iff (e1 e2 : IntArrays 4) (f1 f2 : IntArrays 5) :
    (LexSign (extentsCmp e1 e2) e1.values e2.values ↔
      ∀ x y, firstDiff e1.list e2.list = some (x, y) → BytesAgree x y) ∧
    (LexSign (intArraysCmp f1 f2) f1.values f2.values ↔
      ∀ x y, firstDiff f1.list f2.list = some (x, y) → BytesAgree x y) :=
  ⟨intArraysCmp_lexSign_iff e1 e2, intArraysCmp_lexSign_iff f1 f2⟩

/-- A start of 256 against a start of 1. -/
theorem extents_cmp_fails :
    let e1 : IntArrays 4 := ⟨![256, 0, 0, 0], ![1, 1, 1, 1], ![1, 1, 1, 1], ![3, 2, 1, 0]⟩
    let e2 : IntArrays 4 := ⟨![1, 0, 0, 0], ![1, 1, 1, 1], ![1, 1, 1, 1], ![3, 2, 1, 0]⟩
    extentsCmp e1 e2 < 0 ∧ e2.values < e1.values ∧
      ¬ LexSign (extentsCmp e1 e2) e1.values e2.values := by
  intro e1 e2
  have hneg : extentsCmp e1 e2 < 0 := by decide
  have hlt : e2.values < e1.values := by decide
  exact ⟨hneg, hlt, fun h => absurd (h.neg.mp hneg) (by decide)⟩

end Underling
