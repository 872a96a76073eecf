import Mathlib.Data.List.TakeWhile
import Mathlib.Data.Nat.Digits.Defs

/-!
# Lib.Scan

Formatted input. A format is matched against a text from left to right; what was converted before
the first mismatch is what is returned.

* `scan_sentinel_iff`: with a last conversion that takes any character, a format converts all it
  asks for and no more exactly when it matches the whole text, up to white space.
* `readInt_print`: an integer in decimal is read back, and what follows it is left.
-/

namespace Scan

variable {β V : Type}

/-- What a format is made of: any amount of white space, a character, and a conversion. -/
inductive Directive (β V : Type) where
  | space
  | literal (c : β)
  | conv (read : List β → Option (V × List β))

/-- The conversions a format asks for. -/
def conversions : List (Directive β V) → Nat
  | [] => 0
  | .conv _ :: fmt => conversions fmt + 1
  | _ :: fmt => conversions fmt

/-- A format that ends with a conversion. -/
def Closed (fmt : List (Directive β V)) : Prop := ∃ init read, fmt = init ++ [.conv read]

theorem conversions_pos (init : List (Directive β V)) (read : List β → Option (V × List β)) :
    0 < conversions (init ++ [.conv read]) := by
  induction init with
  | nil => exact Nat.one_pos
  | cons d init ih =>
    cases d with
    | space => exact ih
    | literal c => exact ih
    | conv read' => exact Nat.succ_pos _

section Formats

variable [DecidableEq β] (blank : β → Bool)

/-- What is converted before the first mismatch. -/
def scan : List (Directive β V) → List β → List V
  | [], _ => []
  | .space :: fmt, text => scan fmt (text.dropWhile blank)
  | .literal c :: fmt, text =>
    match text with
    | [] => []
    | c' :: rest => if c' = c then scan fmt rest else []
  | .conv read :: fmt, text =>
    match read text with
    | none => []
    | some (v, rest) => v :: scan fmt rest

/-- The conversions of a format that is matched to its end, and what it leaves of the text. -/
def matchAll : List (Directive β V) → List β → Option (List V × List β)
  | [], text => some ([], text)
  | .space :: fmt, text => matchAll fmt (text.dropWhile blank)
  | .literal c :: fmt, text =>
    match text with
    | [] => none
    | c' :: rest => if c' = c then matchAll fmt rest else none
  | .conv read :: fmt, text =>
    match read text with
    | none => none
    | some (v, rest) => (matchAll fmt rest).map fun r => (v :: r.1, r.2)

variable {blank}

theorem matchAll_length {fmt : List (Directive β V)} {text rest : List β} {vs : List V}
    (h : matchAll blank fmt text = some (vs, rest)) : vs.length = conversions fmt := by
  induction fmt generalizing text vs with
  | nil =>
    cases h
    rfl
  | cons d fmt ih =>
    cases d with
    | space => exact ih h
    | literal c =>
      cases text with
      | nil => cases h
      | cons c' text =>
        simp only [matchAll] at h
        split at h
        · exact ih h
        · cases h
    | conv read =>
      simp only [matchAll] at h
      split at h
      · cases h
      · next v text' hread =>
        obtain ⟨r, hr, heq⟩ := Option.map_eq_some_iff.mp h
        cases heq
        simp [conversions, ih hr]

/-- A format that is matched to its end goes on with what follows it. -/
theorem scan_append {fmt more : List (Directive β V)} {text rest : List β} {vs : List V}
    (h : matchAll blank fmt text = some (vs, rest)) :
    scan blank (fmt ++ more) text = vs ++ scan blank more rest := by
  induction fmt generalizing text vs with
  | nil =>
    cases h
    rfl
  | cons d fmt ih =>
    cases d with
    | space => exact ih h
    | literal c =>
      cases text with
      | nil => cases h
      | cons c' text =>
        simp only [matchAll] at h
        split at h
        · next hc => simp only [List.cons_append, scan, if_pos hc, ih h]
        · cases h
    | conv read =>
      simp only [matchAll] at h
      split at h
      · cases h
      · next v text' hread =>
        obtain ⟨r, hr, heq⟩ := Option.map_eq_some_iff.mp h
        cases heq
        simp only [List.cons_append, scan, hread, ih hr]

/-- One that is not matched to its end misses a conversion, whatever follows it. -/
theorem scan_short {fmt : List (Directive β V)} (hfmt : Closed fmt)
    (more : List (Directive β V)) {text : List β}
    (h : matchAll blank fmt text = none) :
    (scan blank (fmt ++ more) text).length < conversions fmt := by
  obtain ⟨init, read, rfl⟩ := hfmt
  induction init generalizing text with
  | nil =>
    simp only [List.nil_append, matchAll] at h
    split at h
    · next hread => simp [scan, hread, conversions]
    · cases h
  | cons d init ih =>
    have hpos := conversions_pos init read
    cases d with
    | space => exact ih h
    | literal c =>
      cases text with
      | nil => exact hpos
      | cons c' text =>
        simp only [List.cons_append, matchAll] at h
        split at h
        · next hc =>
          simp only [List.cons_append, scan, if_pos hc]
          exact ih h
        · next hc =>
          simp only [List.cons_append, scan, if_neg hc]
          exact hpos
    | conv read' =>
      simp only [List.cons_append, matchAll] at h
      split at h
      · next hread =>
        simp only [List.cons_append, scan, hread]
        exact Nat.succ_pos _
      · next v text' hread =>
        simp only [List.cons_append, scan, hread]
        exact Nat.succ_lt_succ (ih (Option.map_eq_none_iff.mp h))

/-- A conversion of one character, whatever it is. -/
def anyChar (value : β → V) : List β → Option (V × List β)
  | [] => none
  | c :: rest => some (value c, rest)

/-- A last conversion of any character tells whether the whole text is matched. -/
theorem scan_sentinel_iff {fmt : List (Directive β V)} (hfmt : Closed fmt) (value : β → V)
    {text : List β} {vs : List V} (hvs : vs.length = conversions fmt) :
    scan blank (fmt ++ [.space, .conv (anyChar value)]) text = vs ↔
      ∃ rest, matchAll blank fmt text = some (vs, rest) ∧ ∀ c ∈ rest, blank c = true := by
  constructor
  · intro h
    cases hall : matchAll blank fmt text with
    | none =>
      have hshort := scan_short hfmt [.space, .conv (anyChar value)] hall
      rw [h, hvs] at hshort
      exact absurd hshort (Nat.lt_irrefl _)
    | some r =>
      cases r with
      | mk vs' rest =>
        have hlen := matchAll_length hall
        rw [scan_append hall] at h
        have hblank : rest.dropWhile blank = [] := by
          cases hrest : rest.dropWhile blank with
          | nil => rfl
          | cons c tail =>
            have hlong := congrArg List.length h
            simp [scan, hrest, anyChar, hvs, hlen] at hlong
        simp only [scan, hblank, anyChar, List.append_nil] at h
        exact ⟨rest, by rw [h], List.dropWhile_eq_nil_iff.mp hblank⟩
  · intro h
    obtain ⟨rest, hall, hblank⟩ := h
    rw [scan_append hall, scan, List.dropWhile_eq_nil_iff.mpr hblank, scan, anyChar,
      List.append_nil]

end Formats

/-! ## Integers in decimal -/

/-- The characters of decimal notation. -/
structure Decimal (β : Type) where
  blank : β → Bool
  digit : Nat → β
  value : β → Option Nat
  minus : β
  plus : β
  value_digit : ∀ d, d < 10 → value (digit d) = some d
  blank_digit : ∀ d, d < 10 → blank (digit d) = false
  value_minus : value minus = none
  value_plus : value plus = none
  blank_minus : blank minus = false

namespace Decimal

variable (dec : Decimal β)

/-- The digits a text starts with, after those that are read. -/
def readDigits (n : Nat) : List β → Nat × List β
  | [] => (n, [])
  | c :: rest =>
    match dec.value c with
    | some d => readDigits (10 * n + d) rest
    | none => (n, c :: rest)

/-- At least one digit. -/
def readNat : List β → Option (Nat × List β)
  | [] => none
  | c :: rest => (dec.value c).map fun d => dec.readDigits d rest

/-- A sign and digits after white space. -/
def readInt [DecidableEq β] (text : List β) : Option (Int × List β) :=
  match text.dropWhile dec.blank with
  | [] => none
  | c :: rest =>
    if c = dec.minus then (dec.readNat rest).map fun r => (-r.1, r.2)
    else if c = dec.plus then (dec.readNat rest).map fun r => (r.1, r.2)
    else (dec.readNat (c :: rest)).map fun r => (r.1, r.2)

def printNat (n : Nat) : List β :=
  if n = 0 then [dec.digit 0] else (Nat.digits 10 n).reverse.map dec.digit

def printInt (n : Int) : List β :=
  if n < 0 then dec.minus :: dec.printNat n.natAbs else dec.printNat n.natAbs

variable {dec}

/-- What ends the digits. -/
def NoDigit (dec : Decimal β) (rest : List β) : Prop := ∀ c ∈ rest.head?, dec.value c = none

theorem readDigits_rest {rest : List β} (h : dec.NoDigit rest) (n : Nat) :
    dec.readDigits n rest = (n, rest) := by
  cases rest with
  | nil => rfl
  | cons c rest => simp only [readDigits, h c rfl]

theorem readDigits_map {ds : List Nat} (hds : ∀ d ∈ ds, d < 10) {rest : List β}
    (h : dec.NoDigit rest) (n : Nat) :
    dec.readDigits n (ds.map dec.digit ++ rest) =
      (ds.foldl (fun n d => 10 * n + d) n, rest) := by
  induction ds generalizing n with
  | nil => exact readDigits_rest h n
  | cons d ds ih =>
    have hd := dec.value_digit d (hds d (by simp))
    simp only [List.map_cons, List.cons_append, readDigits, hd, List.foldl_cons]
    exact ih (fun d' hd' => hds d' (by simp [hd'])) _

/-- The digits of a number, highest first. -/
theorem printNat_eq (n : Nat) : ∃ d ds, dec.printNat n = (d :: ds).map dec.digit ∧
    (∀ d' ∈ d :: ds, d' < 10) ∧ ds.foldl (fun n d => 10 * n + d) d = n := by
  by_cases hn : n = 0
  · exact ⟨0, [], by simp [printNat, hn], by simp, by simp [hn]⟩
  · have hne : (Nat.digits 10 n).reverse ≠ [] := by
      simpa [Nat.digits_ne_nil_iff_ne_zero] using hn
    obtain ⟨d, ds, hds⟩ := List.exists_cons_of_ne_nil hne
    have hfold : (d :: ds).foldl (fun n d => 10 * n + d) 0 = n := by
      rw [← hds, List.foldl_reverse]
      have := Nat.ofDigits_digits 10 n
      rw [Nat.ofDigits_eq_foldr] at this
      simpa [Nat.add_comm] using this
    refine ⟨d, ds, by rw [printNat, if_neg hn, hds], fun d' hd' => ?_, by simpa using hfold⟩
    rw [← hds, List.mem_reverse] at hd'
    exact Nat.digits_lt_base (by decide) hd'

theorem readNat_print (n : Nat) {rest : List β} (h : dec.NoDigit rest) :
    dec.readNat (dec.printNat n ++ rest) = some (n, rest) := by
  obtain ⟨d, ds, hprint, hlt, hfold⟩ := dec.printNat_eq n
  rw [hprint, List.map_cons, List.cons_append, readNat, dec.value_digit d (hlt d (by simp)),
    Option.map_some, readDigits_map (fun d' hd' => hlt d' (by simp [hd'])) h, hfold]

theorem printInt_ne_nil (n : Int) : dec.printInt n ≠ [] := by
  obtain ⟨d, ds, hprint, -, -⟩ := dec.printNat_eq n.natAbs
  unfold printInt
  split
  · exact List.cons_ne_nil _ _
  · rw [hprint]
    exact List.cons_ne_nil _ _

theorem printInt_blank (n : Int) : ∀ c ∈ dec.printInt n, dec.blank c = false := by
  obtain ⟨d, ds, hprint, hlt, -⟩ := dec.printNat_eq n.natAbs
  have hdigits : ∀ c ∈ dec.printNat n.natAbs, dec.blank c = false := by
    intro c hc
    rw [hprint] at hc
    obtain ⟨d', hd', rfl⟩ := List.mem_map.mp hc
    exact dec.blank_digit d' (hlt d' hd')
  intro c hc
  unfold printInt at hc
  split at hc
  · cases hc with
    | head => exact dec.blank_minus
    | tail _ hc => exact hdigits c hc
  · exact hdigits c hc

variable [DecidableEq β]

/-- A printed integer is read back after any white space. -/
theorem readInt_print (n : Int) {space rest : List β} (hspace : ∀ c ∈ space, dec.blank c = true)
    (h : dec.NoDigit rest) : dec.readInt (space ++ (dec.printInt n ++ rest)) = some (n, rest) := by
  rw [readInt, List.dropWhile_append_of_pos hspace]
  by_cases hn : n < 0
  · rw [printInt, if_pos hn, List.cons_append,
      List.dropWhile_cons_of_neg (by simp [dec.blank_minus])]
    simp only [if_pos, readNat_print _ h, Option.map_some, Option.some.injEq, Prod.mk.injEq,
      and_true]
    omega
  · obtain ⟨d, ds, hprint, hlt, -⟩ := dec.printNat_eq n.natAbs
    have hd := dec.value_digit d (hlt d (by simp))
    have hminus : dec.digit d ≠ dec.minus := fun he => by
      rw [he, dec.value_minus] at hd
      cases hd
    have hplus : dec.digit d ≠ dec.plus := fun he => by
      rw [he, dec.value_plus] at hd
      cases hd
    have hread := dec.readNat_print n.natAbs h
    rw [printInt, if_neg hn]
    rw [hprint, List.map_cons, List.cons_append] at hread ⊢
    rw [List.dropWhile_cons_of_neg (by simp [dec.blank_digit d (hlt d (by simp))])]
    simp only [if_neg hminus, if_neg hplus, hread, Option.map_some, Option.some.injEq,
      Prod.mk.injEq, and_true]
    omega

end Decimal

end Scan
