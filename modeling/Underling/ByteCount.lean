import Mathlib.Algebra.Order.Floor.Semiring
import Mathlib.Data.Fin.VecNotation
import Mathlib.Data.Rat.Floor
import Mathlib.Tactic.FieldSimp
import Mathlib.Tactic.Ring
import Underling.Trim

/-!
# Underling.ByteCount

Byte counts as the benchmark reads and prints them. A finite double is the rational number it
stands for; `strtod`, `log`, `pow` and the rounding of a result are those of the C library.

* `fromHumanReadableByteCount_spec`: which texts after the number are read, and as what.
* `byte_count_round_trip`: a count is read back from its number and its units.
-/

namespace Underling

/-- A character of the C locale. -/
def ch (c : Char) : BitVec 8 := .ofNat 8 c.toNat

/-- `toupper` in the C locale. -/
def toupper (c : BitVec 8) : BitVec 8 := if 97 ≤ c ∧ c ≤ 122 then c - 32 else c

/-- A double; a finite one is the number it stands for. -/
inductive Double where
  | finite (x : ℚ)
  | infinite (negative : Bool)
  | nan
deriving DecidableEq

/-- The comparison of a double with zero. -/
def Double.negative : Double → Bool
  | .finite x => x < 0
  | .infinite negative => negative
  | .nan => false

/-- The arithmetic of finite doubles, with the `log` and the `pow` of the C library. -/
structure Libm where
  round : ℚ → ℚ
  log : ℚ → ℚ
  pow : ℚ → Nat → ℚ

/-- The finite doubles: 53 bits, and the exponents of the format. -/
def IsDouble (x : ℚ) : Prop :=
  ∃ m e : Int, |m| ≤ 2 ^ 53 ∧ -1074 ≤ e ∧ e ≤ 971 ∧ x = m * 2 ^ e

/-- What is a double is neither rounded nor missed. -/
structure Libm.Exact (libm : Libm) : Prop where
  round : ∀ x, IsDouble x → libm.round x = x
  pow : ∀ x k, IsDouble (x ^ k) → libm.pow x k = x ^ k

/-- `strtod`: the number, what follows it, and whether `errno` is set. -/
abbrev Strtod := List (BitVec 8) → Double × List (BitVec 8) × Bool

/-- The conversion of a result to `long`; it is undefined when the value does not fit. -/
def toLong (x : ℚ) : Option Int :=
  let n := if 0 ≤ x then ⌊x⌋ else ⌈x⌉
  if -2 ^ 63 ≤ n ∧ n < 2 ^ 63 then some n else none

/-- What a finite double is converted to after a computation; the others convert to nothing. -/
def Double.toLong (f : ℚ → ℚ) : Double → Option Int
  | .finite x => Underling.toLong (f x)
  | _ => none

/-- The power of ten of a prefix. -/
def exponent (c : BitVec 8) : Option Nat :=
  if c = ch 'B' then some 0
  else if c = ch 'K' then some 3
  else if c = ch 'M' then some 6
  else if c = ch 'G' then some 9
  else if c = ch 'T' then some 12
  else if c = ch 'E' then some 15
  else if c = ch 'Z' then some 18
  else if c = ch 'Y' then some 21
  else none

/-- An `i` after the prefix selects factors of 1000. -/
def readUnit : List (BitVec 8) → Nat × List (BitVec 8)
  | [] => (1024, [])
  | c :: rest => if toupper c = ch 'I' then (1000, rest) else (1024, c :: rest)

/-- After the unit: nothing, or a `B` or a blank and then white space. -/
def readEnd : List (BitVec 8) → Bool
  | [] => true
  | c :: rest =>
    (toupper c = ch 'B' ∨ toupper c = ch ' ' ∨ toupper c = 9) && rest.dropWhile isspace = []

/-- `none` is the undefined conversion. -/
def fromHumanReadableByteCount (libm : Libm) (strtod : Strtod) (str : List (BitVec 8)) :
    Option Int :=
  let (coeff, endptr, errno) := strtod str
  if errno then some (-1)
  else
    match endptr.dropWhile isspace with
    | [] => coeff.toLong fun x => x
    | c :: rest =>
      if toupper c = ch ' ' ∨ toupper c = 9 then coeff.toLong fun x => x
      else
        match exponent (toupper c) with
        | none => some (-1)
        | some exp =>
          let (unit, rest) := readUnit rest
          if readEnd rest then
            coeff.toLong fun x =>
              if exp ≠ 0 then libm.round (x * libm.pow unit (exp / 3)) else x
          else some (-1)

/-- The units of bytes, with factors of 1024 and of 1000. -/
def suffix : Fin 8 → List (BitVec 8) × List (BitVec 8) :=
  ![([ch 'B'], [ch 'B']), ([ch 'k', ch 'B'], [ch 'K', ch 'i', ch 'B']),
    ([ch 'M', ch 'B'], [ch 'M', ch 'i', ch 'B']), ([ch 'G', ch 'B'], [ch 'G', ch 'i', ch 'B']),
    ([ch 'T', ch 'B'], [ch 'T', ch 'i', ch 'B']), ([ch 'E', ch 'B'], [ch 'E', ch 'i', ch 'B']),
    ([ch 'Z', ch 'B'], [ch 'Z', ch 'i', ch 'B']), ([ch 'Y', ch 'B'], [ch 'Y', ch 'i', ch 'B'])]

/-- `unit`, which `si` sets to 1000. -/
def unitOf (si : Bool) : Nat := if si then 1000 else 1024

/-- `exp`, which is at most 7; the quotient of the logarithms is not negative. -/
def expOf (libm : Libm) (bytes : Int) (si : Bool) : Nat :=
  if 0 < bytes then
    min ⌊libm.round (libm.log (libm.round bytes) / libm.log (unitOf si))⌋₊ 7
  else 0

theorem expOf_lt (libm : Libm) (bytes : Int) (si : Bool) : expOf libm bytes si < 8 := by
  unfold expOf
  split <;> omega

/-- `coeff` and `units`. -/
def toHumanReadableByteCount (libm : Libm) (bytes : Int) (si : Bool) : ℚ × List (BitVec 8) :=
  let exp := expOf libm bytes si
  let units := suffix ⟨exp, expOf_lt libm bytes si⟩
  (libm.round (libm.round bytes / libm.pow (unitOf si) exp), if si then units.2 else units.1)

/-! ## The texts that are read -/

/-- White space only. -/
def Blank (l : List (BitVec 8)) : Prop := ∀ c ∈ l, isspace c = true

/-- What may end a text: nothing, or a `B` or a blank and then white space. -/
inductive Ending : List (BitVec 8) → Prop where
  | none : Ending []
  | some {c : BitVec 8} {blank : List (BitVec 8)} :
      toupper c = ch 'B' ∨ toupper c = ch ' ' ∨ toupper c = 9 → Blank blank → Ending (c :: blank)

/-- What may follow the number, with the factor and its power it stands for. -/
inductive Suffix : List (BitVec 8) → Nat → Nat → Prop where
  | bare {blank : List (BitVec 8)} : Blank blank → Suffix blank 1024 0
  | binary {blank rest : List (BitVec 8)} {p : BitVec 8} {e : Nat} : Blank blank →
      exponent (toupper p) = some e → Ending rest → Suffix (blank ++ p :: rest) 1024 (e / 3)
  | decimal {blank rest : List (BitVec 8)} {p i : BitVec 8} {e : Nat} : Blank blank →
      exponent (toupper p) = some e → toupper i = ch 'I' → Ending rest →
      Suffix (blank ++ p :: i :: rest) 1000 (e / 3)

/-- The factor and its power, as the program reads them. -/
def readSuffix (endptr : List (BitVec 8)) : Option (Nat × Nat) :=
  match endptr.dropWhile isspace with
  | [] => some (1024, 0)
  | c :: rest =>
    match exponent (toupper c) with
    | none => none
    | some exp =>
      if readEnd (readUnit rest).2 then some ((readUnit rest).1, exp / 3) else none

theorem exponent_space : ∀ c : BitVec 8, isspace c = true → exponent (toupper c) = none := by
  decide

theorem toupper_blank : ∀ c : BitVec 8, toupper c = ch ' ' ∨ toupper c = 9 → isspace c = true := by
  decide

theorem exponent_end : ∀ c : BitVec 8,
    toupper c = ch 'B' ∨ toupper c = ch ' ' ∨ toupper c = 9 → toupper c ≠ ch 'I' := by
  decide

theorem dropWhile_blank {l : List (BitVec 8)} (h : Blank l) : l.dropWhile isspace = [] :=
  List.dropWhile_eq_nil_iff.mpr h

theorem dropWhile_blank_append {l rest : List (BitVec 8)} {c : BitVec 8} (h : Blank l)
    (hc : isspace c = false) : (l ++ c :: rest).dropWhile isspace = c :: rest := by
  rw [List.dropWhile_append_of_pos h, List.dropWhile_cons_of_neg (by simp [hc])]

theorem readEnd_iff {l : List (BitVec 8)} : readEnd l = true ↔ Ending l := by
  constructor
  · intro h
    cases l with
    | nil => exact .none
    | cons c rest =>
      simp [readEnd] at h
      exact .some h.1 h.2
  · intro h
    cases h with
    | none => rfl
    | some hc hb =>
      simp [readEnd]
      exact ⟨hc, hb⟩

theorem readUnit_ending {l : List (BitVec 8)} (h : Ending l) : readUnit l = (1024, l) := by
  cases h with
  | none => rfl
  | some hc hb => exact if_neg (exponent_end _ hc)

/-- The program reads the suffix if and only if it is one. -/
theorem readSuffix_iff {l : List (BitVec 8)} {unit k : Nat} :
    readSuffix l = some (unit, k) ↔ Suffix l unit k := by
  constructor
  · intro h
    have hl := List.takeWhile_append_dropWhile (p := isspace) (l := l)
    have hblank : Blank (l.takeWhile isspace) := fun c hc => List.mem_takeWhile_imp hc
    rw [readSuffix] at h
    split at h
    · next hdrop =>
      cases h
      rw [hdrop, List.append_nil] at hl
      exact .bare (hl ▸ hblank)
    · next c rest hdrop =>
      rw [hdrop] at hl
      split at h
      · cases h
      · next e he =>
        split at h
        · next hend =>
          cases h
          rw [readEnd_iff] at hend
          rw [← hl]
          cases rest with
          | nil => exact .binary hblank he hend
          | cons i rest =>
            by_cases hi : toupper i = ch 'I'
            · rw [readUnit, if_pos hi] at hend ⊢
              exact .decimal hblank he hi hend
            · rw [readUnit, if_neg hi] at hend ⊢
              exact .binary hblank he hend
        · cases h
  · intro h
    cases h with
    | bare hb => simp [readSuffix, dropWhile_blank hb]
    | binary hb he hend =>
      have hp : isspace _ = false := Bool.eq_false_iff.mpr fun hs => by
        rw [exponent_space _ hs] at he
        cases he
      simp [readSuffix, dropWhile_blank_append hb hp, he, readUnit_ending hend,
        readEnd_iff.mpr hend]
    | decimal hb he hi hend =>
      have hp : isspace _ = false := Bool.eq_false_iff.mpr fun hs => by
        rw [exponent_space _ hs] at he
        cases he
      simp [readSuffix, dropWhile_blank_append hb hp, he, readUnit, hi, readEnd_iff.mpr hend]

/-- The value of a number with its suffix. -/
def valueOf (libm : Libm) (x : ℚ) (unit k : Nat) : ℚ :=
  if k = 0 then x else libm.round (x * libm.pow unit k)

theorem exponent_div : ∀ c : BitVec 8, ∀ e ∈ exponent (toupper c), e / 3 = 0 ↔ e = 0 := by
  decide

/-- What the program returns, by the suffix it reads. -/
theorem fromHuman_eq {libm : Libm} {strtod : Strtod} {str rest : List (BitVec 8)}
    {coeff : Double} (h : strtod str = (coeff, rest, false)) :
    fromHumanReadableByteCount libm strtod str =
      match readSuffix rest with
      | some (unit, k) => coeff.toLong fun x => valueOf libm x unit k
      | none => some (-1) := by
  rw [fromHumanReadableByteCount, h, readSuffix]
  simp only [Bool.false_eq_true, if_false]
  split
  · next hdrop =>
    simp only [valueOf, if_pos]
  · next c tail hdrop =>
    have hc : isspace c = false := by
      have := List.head_dropWhile_not (l := rest) isspace (by simp [hdrop])
      simpa [hdrop] using this
    have hblank : ¬(toupper c = ch ' ' ∨ toupper c = 9) := fun hb => by
      rw [toupper_blank c hb] at hc
      cases hc
    rw [if_neg hblank]
    cases he : exponent (toupper c) with
    | none => rfl
    | some e =>
      have hzero := exponent_div c e he
      simp only
      split
      · by_cases h0 : e = 0
        · simp [valueOf, h0]
        · simp [valueOf, h0, hzero]
      · rfl

theorem toLong_lt {x : ℚ} {n : Int} (h : toLong x = some n) : n < 2 ^ 63 := by
  unfold toLong at h
  obtain ⟨hfits, heq⟩ := Option.ite_none_right_eq_some.mp h
  cases heq
  exact hfits.2

theorem Double.toLong_lt {x : Double} {f : ℚ → ℚ} {n : Int} (h : x.toLong f = some n) :
    n < 2 ^ 63 := by
  cases x with
  | finite x => exact Underling.toLong_lt h
  | infinite negative => cases h
  | nan => cases h

/-- Whatever is read fits a `long`. -/
theorem fromHuman_lt {libm : Libm} {strtod : Strtod} {str : List (BitVec 8)} {n : Int}
    (h : fromHumanReadableByteCount libm strtod str = some n) : n < 2 ^ 63 := by
  cases hread : strtod str with
  | mk coeff more =>
    cases more with
    | mk rest errno =>
      cases errno with
      | true =>
        simp only [fromHumanReadableByteCount, hread, if_pos] at h
        cases h
        decide
      | false =>
        rw [fromHuman_eq hread] at h
        split at h
        · exact Double.toLong_lt h
        · cases h
          decide

/-- A text is read exactly when no error is set and a suffix follows its number; what does not fit a
`long` is undefined. -/
theorem fromHumanReadableByteCount_spec (libm : Libm) (strtod : Strtod) (str : List (BitVec 8))
    (result : Option Int) :
    fromHumanReadableByteCount libm strtod str = result ↔
      let (coeff, rest, errno) := strtod str
      (errno = false ∧ ∃ unit k, Suffix rest unit k ∧
          result = coeff.toLong fun x => valueOf libm x unit k) ∨
        ((errno = true ∨ ∀ unit k, ¬Suffix rest unit k) ∧ result = some (-1)) := by
  cases h : strtod str with
  | mk coeff more =>
    cases more with
    | mk rest errno =>
      cases errno with
      | true =>
        have herr : fromHumanReadableByteCount libm strtod str = some (-1) := by
          simp [fromHumanReadableByteCount, h]
        simp [herr, eq_comm]
      | false =>
        rw [fromHuman_eq h]
        cases hread : readSuffix rest with
        | none =>
          have hno : ∀ unit k, ¬Suffix rest unit k := fun unit k hs => by
            rw [readSuffix_iff.mpr hs] at hread
            cases hread
          simp [hno, eq_comm]
        | some read =>
          have hsuffix : ∀ unit k, Suffix rest unit k ↔ read = (unit, k) := fun unit k => by
            rw [← readSuffix_iff, hread, Option.some.injEq]
          cases read with
          | mk unit k =>
            simp only [hsuffix, Prod.mk.injEq, Bool.false_eq_true, false_or, true_and]
            constructor
            · intro hresult
              exact .inl ⟨unit, k, ⟨rfl, rfl⟩, hresult.symm⟩
            · intro hresult
              cases hresult with
              | inl hread =>
                obtain ⟨_, _, ⟨rfl, rfl⟩, hread⟩ := hread
                exact hread.symm
              | inr hnone => exact absurd ⟨rfl, rfl⟩ (hnone.1 unit k)

/-! ## The texts that are printed -/

theorem readSuffix_blank {blank l : List (BitVec 8)} (h : Blank blank) :
    readSuffix (blank ++ l) = readSuffix l := by
  simp only [readSuffix, List.dropWhile_append_of_pos h]

/-- The units are read as the factor they were chosen for; a bare `B` has none. -/
theorem suffix_read : ∀ exp : Fin 8, ∀ si : Bool, ∃ unit,
    readSuffix (if si then (suffix exp).2 else (suffix exp).1) = some (unit, exp.val) ∧
      (exp.val ≠ 0 → unit = unitOf si) := by
  intro exp si
  refine ⟨if exp = 0 then 1024 else unitOf si, ?_⟩
  revert exp si
  decide

theorem isDouble_int {m : Int} (h : |m| ≤ 2 ^ 53) : IsDouble m :=
  ⟨m, 0, h, by omega, by omega, by simp⟩

theorem unit_cases : ∀ si : Bool, ∀ k : Fin 8, ∃ m : Int, |m| ≤ 2 ^ 53 ∧
    ((unitOf si : Nat) : Int) ^ k.val = m * 2 ^ (if si then 3 * k.val else 10 * k.val) := by
  intro si k
  refine ⟨if si then 125 ^ k.val else 1, ?_⟩
  revert si k
  decide

/-- The powers of the factor are doubles. -/
theorem isDouble_unit (si : Bool) {k : Nat} (hk : k < 8) : IsDouble ((unitOf si : ℚ) ^ k) := by
  obtain ⟨m, hm, hpow⟩ := unit_cases si ⟨k, hk⟩
  refine ⟨m, (if si then 3 * k else 10 * k : Nat), hm, by omega, by split <;> omega, ?_⟩
  rw [zpow_natCast]
  exact_mod_cast hpow

theorem unitOf_pos (si : Bool) : 0 < unitOf si := by
  cases si <;> decide

theorem isDouble_quotient {bytes : Int} {si : Bool} {k : Nat} (hk : k < 8)
    (hbytes : |bytes| ≤ 2 ^ 53) (hsi : si = true → (1000 : Int) ^ k ∣ bytes) :
    IsDouble (bytes / (unitOf si : ℚ) ^ k) := by
  cases si with
  | true =>
    obtain ⟨q, rfl⟩ := hsi rfl
    have hq : ((1000 : Int) ^ k * q : ℚ) / (unitOf true : ℚ) ^ k = q := by
      simp [unitOf]
    have hle : |q| ≤ |(1000 : Int) ^ k * q| := by
      rw [abs_mul]
      exact le_mul_of_one_le_left (abs_nonneg q) (by simp [one_le_pow₀])
    push_cast at hq ⊢
    rw [hq]
    exact isDouble_int (hle.trans hbytes)
  | false =>
    refine ⟨bytes, -(10 * k : Nat), hbytes, by omega, by omega, ?_⟩
    rw [zpow_neg, zpow_natCast, pow_mul, div_eq_mul_inv]
    norm_num [unitOf]

theorem toLong_int {n : Int} (h : |n| ≤ 2 ^ 53) : toLong n = some n := by
  obtain ⟨hl, hu⟩ := abs_le.mp h
  have hfits : -2 ^ 63 ≤ n ∧ n < 2 ^ 63 := by omega
  simpa [toLong] using hfits

/-- A count is read back from its number and its units when the number is read exactly; with
factors of 1000 the count has to be whole in its units. -/
theorem byte_count_round_trip {libm : Libm} (hlibm : libm.Exact) {bytes : Int} {si : Bool}
    (hbytes : |bytes| ≤ 2 ^ 53) (hsi : si = true → (1000 : Int) ^ expOf libm bytes si ∣ bytes)
    {strtod : Strtod} {str blank : List (BitVec 8)} (hblank : Blank blank)
    (hread : strtod str = (.finite (toHumanReadableByteCount libm bytes si).1,
      blank ++ (toHumanReadableByteCount libm bytes si).2, false)) :
    fromHumanReadableByteCount libm strtod str = some bytes := by
  have hk := expOf_lt libm bytes si
  have hpow := hlibm.pow _ _ (isDouble_unit si hk)
  have hcoeff : (toHumanReadableByteCount libm bytes si).1 =
      bytes / (unitOf si : ℚ) ^ expOf libm bytes si := by
    rw [toHumanReadableByteCount, hpow, hlibm.round _ (isDouble_int hbytes)]
    exact hlibm.round _ (isDouble_quotient hk hbytes hsi)
  obtain ⟨unit, hunits, hunit⟩ := suffix_read ⟨expOf libm bytes si, hk⟩ si
  rw [fromHuman_eq hread, readSuffix_blank hblank, hcoeff, toHumanReadableByteCount, hunits]
  show toLong (valueOf libm (bytes / (unitOf si : ℚ) ^ expOf libm bytes si) unit
    (expOf libm bytes si)) = some bytes
  by_cases h0 : expOf libm bytes si = 0
  · rw [h0, valueOf, if_pos rfl, pow_zero, div_one]
    exact toLong_int hbytes
  · have hne : (unitOf si : ℚ) ^ expOf libm bytes si ≠ 0 :=
      pow_ne_zero _ (by exact_mod_cast (unitOf_pos si).ne')
    rw [valueOf, if_neg h0, hunit h0, hpow, div_mul_cancel₀ _ hne,
      hlibm.round _ (isDouble_int hbytes)]
    exact toLong_int hbytes

/-- A C library on which nothing is rounded, with the logarithms of 1024 and of 3145728. -/
def plainLibm : Libm where
  round x := x
  log x := if x = 1024 then 6931471805599453 / 10 ^ 15 else 14961555899867016 / 10 ^ 15
  pow x k := x ^ k

/-- `strtod` on a text that starts with one digit. -/
def strtodDigit : Strtod
  | [] => (.finite 0, [], false)
  | c :: rest => (.finite (c.toNat - 48), rest, false)

/-- Three megabytes of factors of 1024. -/
theorem byte_count_round_trip_megabytes :
    fromHumanReadableByteCount plainLibm strtodDigit [ch '3', ch ' ', ch 'M', ch 'B'] =
      some 3145728 :=
  @byte_count_round_trip plainLibm ⟨fun _ _ => rfl, fun _ _ _ => rfl⟩ 3145728 false (by decide)
    (fun h => by cases h) strtodDigit _ [ch ' '] (by simp [Blank, isspace, ch]) (by decide +kernel)

end Underling
