import Underling.Bench
import Underling.ByteCount
import Underling.FftwPlan
import Underling.Lib.Scan

/-!
# Underling.Options

The command line of `underling_bench`: `parse_opt`, called with one option after another, and the
settings it leaves. Options that the parser stops at end the program, with the text it prints.

* `accepted_valid`: what every accepted command line leaves, whatever its options and their order.
* `extents_round_trip`: extents in the form in which they are printed are read back.
-/

namespace Underling

open Scan

/-- Where the parser ends the program, or what it answers to a key it does not know. -/
inductive Stop where
  /-- `argp_failure`, with `EX_USAGE` -/
  | failure (text : String)
  /-- `argp_error` -/
  | error (text : String)
  /-- `argp_usage` -/
  | usage
  | undefined
  /-- `ARGP_ERR_UNKNOWN` -/
  | unknown
deriving DecidableEq

/-- The keys of the options, and those of `argp` itself. -/
inductive Key where
  | arg
  | endOfArgs
  | estimate
  | measure
  | patient
  | exhaustive
  | wisdomOnly
  | dirForward
  | dirBackward
  | dirBoth
  | transN2
  | transN0
  | transAll
  | fftIic
  | fftIir
  | fftIcc
  | fftIcr
  | fftCcc
  | fftCcr
  | packN2
  | packN0
  | packAll
  | c
  | T
  | i
  | I
  | v
  | r
  | t
  | n
  | h
  | f
  | F
  | P
  | other
deriving DecidableEq

/-- What a conversion of `sscanf` stores. -/
inductive Scanned where
  | int (n : Int)
  | real (x : Double)
  | char (c : BitVec 8)
deriving DecidableEq

/-- The functions of the C library; `scanReal` is the conversion `%lf`. -/
structure Clib where
  libm : Libm
  strtod : Strtod
  scanReal : List (BitVec 8) → Option (Double × List (BitVec 8))

/-- What the options set: the fields of `struct details`, and the limit passed to
`fftw_set_timelimit`. -/
structure Settings where
  verbose : Nat
  repeats : Int
  nfields : Int
  howmany : Int
  nthreads : Int
  n0 : Int
  n1 : Int
  n2 : Int
  pA : Int
  pB : Int
  bytes : Int
  transposedFlags : Flags
  fftwRigorFlags : Flags
  packedFlags : Flags
  wisdomFile : Option (List (BitVec 8))
  fftN : Fin 3 → FftN
  mpiInplace : Bool
  fftInplace : Bool
  forward : Bool
  backward : Bool
  abstol : Double
  timelimit : Option Double

/-- The values `main` starts with. -/
def Settings.default : Settings where
  verbose := 0
  repeats := 1
  nfields := 1
  howmany := 2
  nthreads := 0
  n0 := 0
  n1 := 0
  n2 := 0
  pA := 0
  pB := 0
  bytes := 0
  transposedFlags := 0
  fftwRigorFlags := 0
  packedFlags := 0
  wisdomFile := none
  fftN := ![.i, .i, .i]
  mpiInplace := false
  fftInplace := false
  forward := true
  backward := true
  abstol := .finite (-1)
  timelimit := none

/-! ## The conversions of `sscanf` -/

/-- Decimal notation in the C locale. -/
def cLocale : Decimal (BitVec 8) where
  blank := isspace
  digit d := .ofNat 8 (48 + d)
  value c := if 48 ≤ c ∧ c ≤ 57 then some (c.toNat - 48) else none
  minus := ch '-'
  plus := ch '+'
  value_digit := by decide
  blank_digit := by decide
  value_minus := rfl
  value_plus := rfl
  blank_minus := rfl

abbrev Format := List (Directive (BitVec 8) Scanned)

/-- `%d` -/
def scanInt : Directive (BitVec 8) Scanned :=
  .conv fun text => (cLocale.readInt text).map fun r => (.int r.1, r.2)

/-- `%lf` -/
def Clib.scanDouble (lib : Clib) : Directive (BitVec 8) Scanned :=
  .conv fun text => (lib.scanReal text).map fun r => (.real r.1, r.2)

/-- The ` %c` that takes whatever else is there. -/
def sentinel : Format := [.space, .conv (anyChar .char)]

/-- ` x ` -/
def times : Format := [.space, .literal (ch 'x'), .space]

def countFormat : Format := [scanInt]

def dimsFormat : Format := [scanInt] ++ times ++ [scanInt]

def extentsFormat : Format := [scanInt] ++ times ++ [scanInt] ++ times ++ [scanInt]

/-- A stored integer fits an `int`; otherwise its conversion is undefined. -/
def Scanned.fits : Scanned → Bool
  | .int n => -2 ^ 31 ≤ n ∧ n < 2 ^ 31
  | _ => true

/-- `sscanf` with the sentinel: what is converted. -/
def sscanf (fmt : Format) (arg : Option (List (BitVec 8))) : Except Stop (List Scanned) :=
  let values := scan isspace (fmt ++ sentinel) (arg.getD [])
  if values.all Scanned.fits then .ok values else .error .undefined

/-! ## `parse_opt` -/

/-- The call of `trim`, which is undefined on white space only. -/
def trimArg : Option (List (BitVec 8)) → Except Stop (Option (List (BitVec 8)))
  | none => .ok none
  | some arg => if arg.all isspace then .error .undefined else .ok (some (trimmed arg))

/-- An option with a count: `malformed` is the text for an argument that is none, `low` the one for
a count that is less than `least`. -/
def countOption (malformed : String) (least : Int) (low : String)
    (arg : Option (List (BitVec 8))) : Except Stop Int := do
  match ← sscanf countFormat arg with
  | [.int n] => if n < least then throw (.failure low) else return n
  | _ => throw (.failure malformed)

/-- An option with a number that is not negative. -/
def realOption (lib : Clib) (malformed low : String) (arg : Option (List (BitVec 8))) :
    Except Stop Double := do
  match ← sscanf [lib.scanDouble] arg with
  | [.real x] => if x.negative then throw (.failure low) else return x
  | _ => throw (.failure malformed)

def extentsOption (arg : Option (List (BitVec 8))) : Except Stop (Int × Int × Int) := do
  match ← sscanf extentsFormat arg with
  | [.int n0, .int n1, .int n2] =>
    if n0 < 0 ∨ n1 < 0 ∨ n2 < 0 then
      throw (.failure "field-global values %dx%dx%d must be nonnegative")
    else return (n0, n1, n2)
  | _ => throw (.failure "field-global option is malformed: '%s'")

def dimsOption (arg : Option (List (BitVec 8))) : Except Stop (Int × Int) := do
  match ← sscanf dimsFormat arg with
  | [.int pA, .int pB] =>
    if pA < 0 ∨ pB < 0 then
      throw (.failure "field-global values %dx%d must be nonnegative")
    else return (pA, pB)
  | _ => throw (.failure "dims option not of form pAxpB: '%s'")

def onlyOne : String := "only one of --field-\x7bmemory,global\x7d may be specified"

def bytesOption (lib : Clib) (d : Settings) : Option (List (BitVec 8)) → Except Stop Settings
  | none => .ok d
  | some arg =>
    match fromHumanReadableByteCount lib.libm lib.strtod arg with
    | none => .error .undefined
    | some bytes =>
      if bytes < 1 then .error (.failure "field-memory option is malformed: '%s'")
      else .ok { d with bytes := bytes }

def parseOpt (lib : Clib) (argNum : Nat) (key : Key) (arg : Option (List (BitVec 8)))
    (d : Settings) : Except Stop Settings := do
  let arg ← trimArg arg
  match key with
  | .arg =>
    if argNum > 0 then throw .usage
    else
      match arg with
      | none => throw .undefined
      | some file => return { d with wisdomFile := some file }
  | .endOfArgs => if argNum > 1 then throw .usage else return d
  | .estimate => return { d with fftwRigorFlags := FFTW.ESTIMATE }
  | .measure => return { d with fftwRigorFlags := FFTW.MEASURE }
  | .patient => return { d with fftwRigorFlags := FFTW.PATIENT }
  | .exhaustive => return { d with fftwRigorFlags := FFTW.EXHAUSTIVE }
  | .wisdomOnly => return { d with fftwRigorFlags := FFTW.WISDOM_ONLY }
  | .dirForward => return { d with forward := true, backward := false }
  | .dirBackward => return { d with forward := false, backward := true }
  | .dirBoth => return { d with forward := true, backward := true }
  | .transN2 => return { d with transposedFlags := d.transposedFlags ||| TRANSPOSED_LONG_N2 }
  | .transN0 => return { d with transposedFlags := d.transposedFlags ||| TRANSPOSED_LONG_N0 }
  | .transAll =>
    return { d with
      transposedFlags := d.transposedFlags ||| TRANSPOSED_LONG_N2 ||| TRANSPOSED_LONG_N0 }
  | .fftIic => return { d with fftN := ![.i, .i, .c] }
  | .fftIir => return { d with fftN := ![.i, .i, .r] }
  | .fftIcc => return { d with fftN := ![.i, .c, .c] }
  | .fftIcr => return { d with fftN := ![.i, .c, .r] }
  | .fftCcc => return { d with fftN := ![.c, .c, .c] }
  | .fftCcr => return { d with fftN := ![.c, .c, .r] }
  | .packN2 => return { d with packedFlags := d.packedFlags ||| FFTW_PACKED_LONG_N2 }
  | .packN0 => return { d with packedFlags := d.packedFlags ||| FFTW_PACKED_LONG_N0 }
  | .packAll =>
    return { d with
      packedFlags := d.packedFlags ||| (FFTW_PACKED_LONG_N2 ||| FFTW_PACKED_LONG_N0) }
  | .c =>
    let x ← realOption lib "check option is malformed: '%s'" "abstol value %lf must be positive" arg
    return { d with abstol := x }
  | .T =>
    let x ← realOption lib "timelimit option is malformed: '%s'"
      "timelimit value %lf must be nonnegative" arg
    return { d with timelimit := some x }
  | .i => return { d with mpiInplace := true }
  | .I => return { d with fftInplace := true }
  | .v => return { d with verbose := d.verbose + 1 }
  | .r =>
    let n ← countOption "repeat option is malformed: '%s'" 0
      "repeat value %d must be nonnegative" arg
    return { d with repeats := n }
  | .t =>
    let n ← countOption "nthreads is malformed: '%s'" 0 "nthreads value %d must be nonnegative" arg
    return { d with nthreads := n }
  | .n =>
    let n ← countOption "nfields is malformed: '%s'" 0 "nfields value %d must be nonnegative" arg
    return { d with nfields := n }
  | .h =>
    let n ← countOption "howmany option is malformed: '%s'" 1
      "howmany value %d must be strictly positive" arg
    return { d with howmany := n }
  | .f =>
    if d.n0 ≠ 0 ∨ d.n1 ≠ 0 ∨ d.n2 ≠ 0 then throw (.error onlyOne)
    else bytesOption lib d arg
  | .F =>
    if d.bytes ≠ 0 then throw (.error onlyOne)
    else
      let (n0, n1, n2) ← extentsOption arg
      return { d with n0 := n0, n1 := n1, n2 := n2 }
  | .P =>
    let (pA, pB) ← dimsOption arg
    return { d with pA := pA, pB := pB }
  | .other => throw .unknown

/-- The state of `argp`: the arguments passed so far, and the settings. -/
structure Parser where
  argNum : Nat
  settings : Settings

/-- One call of `parse_opt`. `argp` takes no notice when a key of its own is not known. -/
def Parser.next (lib : Clib) (p : Parser) (event : Key × Option (List (BitVec 8))) :
    Except Stop Parser :=
  match parseOpt lib p.argNum event.1 event.2 p.settings with
  | .ok d => .ok { argNum := if event.1 = .arg then p.argNum + 1 else p.argNum, settings := d }
  | .error .unknown => .ok p
  | .error stop => .error stop

/-- A command line, as the options and arguments `argp` finds in it. -/
def parse (lib : Clib) (events : List (Key × Option (List (BitVec 8)))) : Except Stop Parser :=
  events.foldlM (Parser.next lib) { argNum := 0, settings := .default }

/-! ## What is accepted -/

/-- An `int` from `least` on. -/
def IntFrom (least n : Int) : Prop := least ≤ n ∧ n < 2 ^ 31

/-- The settings of an accepted command line. -/
structure Settings.Valid (d : Settings) : Prop where
  repeats : IntFrom 0 d.repeats
  nfields : IntFrom 0 d.nfields
  howmany : IntFrom 1 d.howmany
  nthreads : IntFrom 0 d.nthreads
  n0 : IntFrom 0 d.n0
  n1 : IntFrom 0 d.n1
  n2 : IntFrom 0 d.n2
  pA : IntFrom 0 d.pA
  pB : IntFrom 0 d.pB
  bytes : 0 ≤ d.bytes ∧ d.bytes < 2 ^ 63
  /-- The extents are given or computed from the memory, not both. -/
  exclusive : d.bytes ≠ 0 → d.n0 = 0 ∧ d.n1 = 0 ∧ d.n2 = 0
  transposed : StorageWord d.transposedFlags
  rigor : d.fftwRigorFlags.has nonRigorMask = false
  packed : d.packedFlags.has (~~~(FFTW_PACKED_LONG_N2 ||| FFTW_PACKED_LONG_N0)) = false
  /-- Only `n2` has real transforms. `n0` is transformed only if `n1` is, and `n1` only if `n2`
  is. -/
  real : d.fftN 0 ≠ .r ∧ d.fftN 1 ≠ .r
  inward : (d.fftN 0 ≠ .i → d.fftN 1 ≠ .i) ∧ (d.fftN 1 ≠ .i → d.fftN 2 ≠ .i)
  direction : d.forward = true ∨ d.backward = true
  abstol : d.abstol = .finite (-1) ∨ d.abstol.negative = false
  timelimit : ∀ x ∈ d.timelimit, x.negative = false

theorem default_valid : Settings.default.Valid := by
  constructor <;> simp [Settings.default, IntFrom, StorageWord, Flags.has]

theorem except_bind_ok {ε α β : Type} {x : Except ε α} {f : α → Except ε β} {b : β}
    (h : (x >>= f) = .ok b) : ∃ a, x = .ok a ∧ f a = .ok b := by
  cases x with
  | error e => cases h
  | ok a => exact ⟨a, rfl, h⟩

theorem sscanf_ok {fmt : Format} {arg : Option (List (BitVec 8))} {values : List Scanned}
    (h : sscanf fmt arg = .ok values) :
    scan isspace (fmt ++ sentinel) (arg.getD []) = values ∧ ∀ v ∈ values, v.fits = true := by
  simp only [sscanf] at h
  split at h
  · next hfits =>
    cases h
    exact ⟨rfl, List.all_eq_true.mp hfits⟩
  · cases h

theorem intFrom_of_fits {least n : Int} (h : (Scanned.int n).fits = true) (hn : ¬n < least) :
    IntFrom least n := by
  have := of_decide_eq_true h
  exact ⟨by omega, this.2⟩

theorem countOption_ok {malformed low : String} {least n : Int} {arg : Option (List (BitVec 8))}
    (h : countOption malformed least low arg = .ok n) : IntFrom least n := by
  obtain ⟨values, hscan, h⟩ := except_bind_ok h
  have hfits := (sscanf_ok hscan).2
  split at h
  · next m =>
    split at h
    · cases h
    · next hn =>
      cases h
      exact intFrom_of_fits (hfits _ (by simp)) hn
  · cases h

theorem realOption_ok {lib : Clib} {malformed low : String} {x : Double}
    {arg : Option (List (BitVec 8))} (h : realOption lib malformed low arg = .ok x) :
    x.negative = false := by
  obtain ⟨values, hscan, h⟩ := except_bind_ok h
  split at h
  · split at h
    · cases h
    · next hx =>
      cases h
      exact Bool.eq_false_iff.mpr hx
  · cases h

theorem extentsOption_ok {arg : Option (List (BitVec 8))} {n0 n1 n2 : Int}
    (h : extentsOption arg = .ok (n0, n1, n2)) : IntFrom 0 n0 ∧ IntFrom 0 n1 ∧ IntFrom 0 n2 := by
  obtain ⟨values, hscan, h⟩ := except_bind_ok h
  have hfits := (sscanf_ok hscan).2
  split at h
  · split at h
    · cases h
    · next hn =>
      cases h
      rw [not_or, not_or] at hn
      exact ⟨intFrom_of_fits (hfits _ (by simp)) hn.1, intFrom_of_fits (hfits _ (by simp)) hn.2.1,
        intFrom_of_fits (hfits _ (by simp)) hn.2.2⟩
  · cases h

theorem dimsOption_ok {arg : Option (List (BitVec 8))} {pA pB : Int}
    (h : dimsOption arg = .ok (pA, pB)) : IntFrom 0 pA ∧ IntFrom 0 pB := by
  obtain ⟨values, hscan, h⟩ := except_bind_ok h
  have hfits := (sscanf_ok hscan).2
  split at h
  · split at h
    · cases h
    · next hn =>
      cases h
      rw [not_or] at hn
      exact ⟨intFrom_of_fits (hfits _ (by simp)) hn.1, intFrom_of_fits (hfits _ (by simp)) hn.2⟩
  · cases h

theorem bytesOption_ok {lib : Clib} {arg : Option (List (BitVec 8))} {d d' : Settings}
    (h : bytesOption lib d arg = .ok d') :
    d' = d ∨ ∃ bytes, 1 ≤ bytes ∧ bytes < 2 ^ 63 ∧ d' = { d with bytes := bytes } := by
  unfold bytesOption at h
  split at h
  · cases h
    exact .inl rfl
  · split at h
    · cases h
    · next bytes hread =>
      split at h
      · cases h
      · next hpos =>
        cases h
        exact .inr ⟨bytes, by omega, fromHuman_lt hread, rfl⟩

theorem or_valid {f g mask : Flags} (hf : f.has mask = false) (hg : g.has mask = false) :
    (f ||| g).has mask = false := by
  rw [Flags.has_or, hf, hg]
  rfl

theorem rigor_valid {f : Flags} (h : f ∈ [FFTW.ESTIMATE, FFTW.MEASURE, FFTW.PATIENT,
    FFTW.EXHAUSTIVE, FFTW.WISDOM_ONLY]) : f.has nonRigorMask = false := by
  simp only [List.mem_cons, List.not_mem_nil, or_false] at h
  rcases h with rfl | rfl | rfl | rfl | rfl <;> decide

/-- `trimArg` is the call of `trim` on the memory of the argument. -/
theorem trimArg_run {mem : Int → BitVec 8} {arg arg' : List (BitVec 8)} (hmem : StringAt mem arg)
    (h : trimArg (some arg) = .ok (some arg')) :
    ∃ fuel s, Trim.trim fuel ⟨mem, []⟩ = .ok ((), s) ∧ StringAt s.mem arg' := by
  simp only [trimArg] at h
  split at h
  · cases h
  · next hall =>
    cases h
    obtain ⟨sp, tr, heq, hsp, htr, hends⟩ := trimmed_parts arg
    have hne : trimmed arg ≠ [] := fun hnil =>
      hall (List.all_eq_true.mpr (trimmed_eq_nil_iff.mp hnil))
    obtain ⟨⟨⟩, s, hrun, -, hs⟩ := trim_ends (s := ⟨mem, []⟩) (heq ▸ hmem) hsp htr hne
      (hends hne).1 (hends hne).2
    exact ⟨_, s, hrun, hs⟩

/-- What one call of `parse_opt` keeps. -/
theorem parseOpt_valid {lib : Clib} {argNum : Nat} {key : Key} {arg : Option (List (BitVec 8))}
    {d d' : Settings} (h : parseOpt lib argNum key arg d = .ok d') (hd : d.Valid) : d'.Valid := by
  obtain ⟨arg', -, h⟩ := except_bind_ok h
  cases key with
  | arg =>
    simp only at h
    split at h
    · cases h
    · split at h
      · cases h
      · cases h
        exact { hd with }
  | endOfArgs =>
    simp only at h
    split at h
    · cases h
    · cases h
      exact hd
  | estimate | measure | patient | exhaustive | wisdomOnly =>
    cases h
    exact { hd with rigor := rigor_valid (by simp) }
  | dirForward | dirBackward | dirBoth =>
    cases h
    exact { hd with direction := by simp }
  | transN2 | transN0 =>
    cases h
    exact { hd with transposed := or_valid hd.transposed (by decide) }
  | transAll =>
    cases h
    exact { hd with transposed := or_valid (or_valid hd.transposed (by decide)) (by decide) }
  | fftIic | fftIir | fftIcc | fftIcr | fftCcc | fftCcr =>
    cases h
    exact { hd with real := by simp, inward := by simp }
  | packN2 | packN0 | packAll =>
    cases h
    exact { hd with packed := or_valid hd.packed (by decide) }
  | c =>
    obtain ⟨x, hx, h⟩ := except_bind_ok h
    cases h
    exact { hd with abstol := .inr (realOption_ok hx) }
  | T =>
    obtain ⟨x, hx, h⟩ := except_bind_ok h
    cases h
    refine { hd with timelimit := fun y hy => ?_ }
    cases hy
    exact realOption_ok hx
  | i | I | v =>
    cases h
    exact { hd with }
  | r =>
    obtain ⟨n, hn, h⟩ := except_bind_ok h
    cases h
    exact { hd with repeats := countOption_ok hn }
  | t =>
    obtain ⟨n, hn, h⟩ := except_bind_ok h
    cases h
    exact { hd with nthreads := countOption_ok hn }
  | n =>
    obtain ⟨n, hn, h⟩ := except_bind_ok h
    cases h
    exact { hd with nfields := countOption_ok hn }
  | h =>
    obtain ⟨n, hn, h⟩ := except_bind_ok h
    cases h
    exact { hd with howmany := countOption_ok hn }
  | f =>
    simp only at h
    split at h
    · cases h
    · next hzero =>
      rw [not_or, not_or, not_not, not_not, not_not] at hzero
      cases bytesOption_ok h with
      | inl heq => exact heq ▸ hd
      | inr hset =>
        obtain ⟨bytes, hpos, hlt, rfl⟩ := hset
        exact { hd with
          bytes := ⟨Int.le_trans Int.one_nonneg hpos, hlt⟩
          exclusive := fun _ => hzero }
  | F =>
    simp only at h
    split at h
    · cases h
    · next hzero =>
      obtain ⟨⟨n0, n1, n2⟩, hn, h⟩ := except_bind_ok h
      cases h
      obtain ⟨h0, h1, h2⟩ := extentsOption_ok hn
      exact { hd with n0 := h0, n1 := h1, n2 := h2, exclusive := fun hne => absurd hne hzero }
  | P =>
    obtain ⟨⟨pA, pB⟩, hp, h⟩ := except_bind_ok h
    cases h
    obtain ⟨hA, hB⟩ := dimsOption_ok hp
    exact { hd with pA := hA, pB := hB }
  | other => cases h

/-- Of the arguments at most one is accepted, as the name of the file with the wisdom. -/
theorem parseOpt_wisdomFile {lib : Clib} {argNum : Nat} {key : Key}
    {arg : Option (List (BitVec 8))} {d d' : Settings}
    (h : parseOpt lib argNum key arg d = .ok d') :
    (key = .arg → argNum = 0 ∧ d'.wisdomFile.isSome) ∧
      (key ≠ .arg → d'.wisdomFile = d.wisdomFile) := by
  obtain ⟨arg', -, h⟩ := except_bind_ok h
  cases key with
  | arg =>
    refine ⟨fun _ => ?_, fun hkey => absurd rfl hkey⟩
    simp only at h
    split at h
    · cases h
    · next hzero =>
      split at h
      · cases h
      · cases h
        exact ⟨by omega, rfl⟩
  | endOfArgs =>
    refine ⟨nofun, fun _ => ?_⟩
    simp only at h
    split at h
    · cases h
    · cases h
      rfl
  | c | T | r | t | n | h | P =>
    refine ⟨nofun, fun _ => ?_⟩
    obtain ⟨x, -, h⟩ := except_bind_ok h
    cases h
    rfl
  | f =>
    refine ⟨nofun, fun _ => ?_⟩
    simp only at h
    split at h
    · cases h
    · cases bytesOption_ok h with
      | inl heq => rw [heq]
      | inr hset =>
        obtain ⟨bytes, -, -, rfl⟩ := hset
        rfl
  | F =>
    refine ⟨nofun, fun _ => ?_⟩
    simp only at h
    split at h
    · cases h
    · obtain ⟨n, -, h⟩ := except_bind_ok h
      cases h
      rfl
  | other => cases h
  | _ =>
    refine ⟨nofun, fun _ => ?_⟩
    cases h
    rfl

structure Parser.Valid (p : Parser) : Prop where
  settings : p.settings.Valid
  wisdomFile : p.argNum = if p.settings.wisdomFile.isSome then 1 else 0

theorem next_valid {lib : Clib} {p p' : Parser} {event : Key × Option (List (BitVec 8))}
    (h : p.next lib event = .ok p') (hp : p.Valid) : p'.Valid := by
  unfold Parser.next at h
  split at h
  · next d hd =>
    cases h
    refine ⟨parseOpt_valid hd hp.settings, ?_⟩
    obtain ⟨harg, hother⟩ := parseOpt_wisdomFile hd
    by_cases hkey : event.1 = .arg
    · obtain ⟨hzero, hsome⟩ := harg hkey
      rw [if_pos hkey, if_pos hsome, hzero]
    · rw [if_neg hkey, hother hkey]
      exact hp.wisdomFile
  · cases h
    exact hp
  · cases h

theorem run_valid {lib : Clib} {events : List (Key × Option (List (BitVec 8)))} {p p' : Parser}
    (h : events.foldlM (Parser.next lib) p = .ok p') (hp : p.Valid) : p'.Valid := by
  induction events generalizing p with
  | nil =>
    cases h
    exact hp
  | cons event events ih =>
    obtain ⟨p1, hnext, h⟩ := except_bind_ok h
    exact ih h (next_valid hnext hp)

/-- Whatever the options of an accepted command line and their order, they leave valid settings, and
at most one file was named. -/
theorem accepted_valid {lib : Clib} {events : List (Key × Option (List (BitVec 8)))} {p : Parser}
    (h : parse lib events = .ok p) : p.Valid :=
  run_valid h ⟨default_valid, rfl⟩

def plainClib : Clib where
  libm := plainLibm
  strtod := strtodDigit
  scanReal _ := none

/-- `--ccr -F 8x4x6 -r 3 w` -/
theorem accepted_valid_command :
    ∃ p, parse plainClib [(.fftCcr, none), (.F, some (['8', 'x', '4', 'x', '6'].map ch)),
      (.r, some [ch '3']), (.arg, some [ch 'w']), (.endOfArgs, none)] = .ok p ∧
        p.settings = { Settings.default with
          n0 := 8, n1 := 4, n2 := 6, repeats := 3, fftN := ![.c, .c, .r],
          wisdomFile := some [ch 'w'] } ∧ p.Valid := by
  have h : parse plainClib [(.fftCcr, none), (.F, some (['8', 'x', '4', 'x', '6'].map ch)),
      (.r, some [ch '3']), (.arg, some [ch 'w']), (.endOfArgs, none)] =
        .ok ⟨1, { Settings.default with
          n0 := 8, n1 := 4, n2 := 6, repeats := 3, fftN := ![.c, .c, .r],
          wisdomFile := some [ch 'w'] }⟩ := rfl
  exact ⟨_, h, rfl, accepted_valid h⟩

/-! ## Extents as they are printed -/

/-- White space around a text that neither starts nor ends with some is what `trim` removes. -/
theorem trimArg_between (middle : List (BitVec 8)) {before first last behind : List (BitVec 8)}
    (hbefore : Blank before) (hbehind : Blank behind) (hfirst : first ≠ [])
    (hfirst' : ∀ c ∈ first, isspace c = false)
    (hlast : last ≠ []) (hlast' : ∀ c ∈ last, isspace c = false) :
    trimArg (some (before ++ (first ++ (middle ++ (last ++ behind))))) =
      .ok (some (first ++ (middle ++ last))) := by
  obtain ⟨c, cs, rfl⟩ := List.exists_cons_of_ne_nil hfirst
  have hc : isspace c = false := hfirst' c (by simp)
  obtain ⟨e, es, hes⟩ := List.exists_cons_of_ne_nil (List.reverse_ne_nil_iff.mpr hlast)
  have he : isspace e = false := hlast' e (List.mem_reverse.mp (hes ▸ List.mem_cons_self))
  have hall : (before ++ (c :: cs ++ (middle ++ (last ++ behind)))).all isspace = false := by
    rw [List.all_eq_false]
    exact ⟨c, by simp, by simp [hc]⟩
  have hbehind' : ∀ x ∈ behind.reverse, isspace x = true := fun x hx =>
    hbehind x (List.mem_reverse.mp hx)
  have hdrop : (behind.reverse ++ e :: (es ++ (c :: cs ++ middle).reverse)).dropWhile isspace =
      e :: (es ++ (c :: cs ++ middle).reverse) := dropWhile_blank_append hbehind' he
  have htrim : trimmed (before ++ (c :: cs ++ (middle ++ (last ++ behind)))) =
      c :: cs ++ (middle ++ last) := by
    rw [trimmed, List.cons_append, dropWhile_blank_append hbefore hc, List.rdropWhile,
      show (c :: (cs ++ (middle ++ (last ++ behind)))).reverse =
        behind.reverse ++ (last.reverse ++ (c :: cs ++ middle).reverse) by simp, hes,
      List.cons_append, hdrop, ← List.cons_append, ← hes, ← List.reverse_append,
      List.reverse_reverse, List.append_assoc]
  rw [trimArg, hall, htrim]
  rfl

theorem blank_value : ∀ c : BitVec 8, isspace c = true → cLocale.value c = none := by
  decide

theorem noDigit_blank_cons (rest : List (BitVec 8)) {blank : List (BitVec 8)} {c : BitVec 8}
    (hblank : Blank blank) (hc : cLocale.value c = none) :
    cLocale.NoDigit (blank ++ c :: rest) := by
  intro x hx
  cases blank with
  | nil =>
    cases hx
    exact hc
  | cons b blank =>
    cases hx
    exact blank_value x (hblank x (by simp))

/-- `%d` reads what `%d` prints. -/
theorem matchAll_scanInt (n : Int) (fmt : Format) {blank rest : List (BitVec 8)}
    (hblank : Blank blank) (hrest : cLocale.NoDigit rest) :
    matchAll isspace (scanInt :: fmt) (blank ++ (cLocale.printInt n ++ rest)) =
      (matchAll isspace fmt rest).map fun r => (.int n :: r.1, r.2) := by
  have hread : cLocale.readInt (blank ++ (cLocale.printInt n ++ rest)) = some (n, rest) :=
    cLocale.readInt_print n hblank hrest
  simp only [scanInt, matchAll, hread, Option.map_some]

theorem matchAll_times {blank blank' rest : List (BitVec 8)} {fmt : Format} (hblank : Blank blank)
    (hblank' : Blank blank') :
    matchAll isspace (times ++ fmt) (blank ++ ch 'x' :: (blank' ++ rest)) =
      matchAll isspace fmt (rest.dropWhile isspace) := by
  have hx : isspace (ch 'x') = false := rfl
  rw [times, List.cons_append, matchAll, dropWhile_blank_append hblank hx]
  simp only [List.cons_append, List.nil_append, matchAll, if_pos,
    List.dropWhile_append_of_pos hblank']

/-- What `%d x %d x %d` matches: the blanks around each `x` are free. -/
def printExtents (blanks : Fin 4 → List (BitVec 8)) (n0 n1 n2 : Int) : List (BitVec 8) :=
  cLocale.printInt n0 ++ (blanks 0 ++ ch 'x' :: (blanks 1 ++ (cLocale.printInt n1 ++
    (blanks 2 ++ ch 'x' :: (blanks 3 ++ cLocale.printInt n2)))))

theorem printInt_dropWhile (n : Int) (rest : List (BitVec 8)) :
    (cLocale.printInt n ++ rest).dropWhile isspace = cLocale.printInt n ++ rest := by
  obtain ⟨c, cs, hc⟩ := List.exists_cons_of_ne_nil (cLocale.printInt_ne_nil n)
  have hblank : isspace c = false := cLocale.printInt_blank n c (hc ▸ List.mem_cons_self)
  rw [hc, List.cons_append, List.dropWhile_cons_of_neg (by simp [hblank])]

theorem matchAll_printExtents {blanks : Fin 4 → List (BitVec 8)} (hblanks : ∀ i, Blank (blanks i))
    (n0 n1 n2 : Int) : matchAll isspace extentsFormat (printExtents blanks n0 n1 n2) =
      some ([.int n0, .int n1, .int n2], []) := by
  have hx : cLocale.value (ch 'x') = none := rfl
  have hnil : Blank [] := nofun
  have hend : cLocale.NoDigit [] := nofun
  have hlast := matchAll_scanInt n2 [] hnil hend
  have hmiddle := matchAll_scanInt n1 (times ++ [scanInt]) hnil
    (noDigit_blank_cons (blanks 3 ++ cLocale.printInt n2) (hblanks 2) hx)
  have hfirst := matchAll_scanInt n0 (times ++ [scanInt] ++ times ++ [scanInt]) hnil
    (noDigit_blank_cons (blanks 1 ++ (cLocale.printInt n1 ++
      (blanks 2 ++ ch 'x' :: (blanks 3 ++ cLocale.printInt n2)))) (hblanks 0) hx)
  have h2 := printInt_dropWhile n2 []
  simp only [List.nil_append, List.append_nil] at hlast hmiddle hfirst h2
  show matchAll isspace (scanInt :: (times ++ [scanInt] ++ times ++ [scanInt])) _ = _
  rw [printExtents, hfirst, List.append_assoc, List.append_assoc,
    matchAll_times (hblanks 0) (hblanks 1), printInt_dropWhile]
  show Option.map _ (matchAll isspace (scanInt :: (times ++ [scanInt])) _) = _
  rw [hmiddle, matchAll_times (hblanks 2) (hblanks 3), h2, hlast]
  rfl

theorem sscanf_printExtents {blanks : Fin 4 → List (BitVec 8)} (hblanks : ∀ i, Blank (blanks i))
    {n0 n1 n2 : Int} (h0 : IntFrom 0 n0) (h1 : IntFrom 0 n1) (h2 : IntFrom 0 n2) :
    sscanf extentsFormat (some (printExtents blanks n0 n1 n2)) =
      .ok [.int n0, .int n1, .int n2] := by
  have hclosed : Closed extentsFormat := ⟨[scanInt] ++ times ++ [scanInt] ++ times, _, rfl⟩
  have hscan : scan isspace (extentsFormat ++ [.space, .conv (anyChar Scanned.char)])
      (printExtents blanks n0 n1 n2) = [.int n0, .int n1, .int n2] :=
    (scan_sentinel_iff hclosed Scanned.char rfl).mpr
      ⟨[], matchAll_printExtents hblanks n0 n1 n2, nofun⟩
  have hfits : ∀ n : Int, IntFrom 0 n → (Scanned.int n).fits = true := fun n hn => by
    have := hn.1
    have := hn.2
    simp only [Scanned.fits, decide_eq_true_eq]
    omega
  rw [sscanf, sentinel, Option.getD_some, hscan]
  simp [hfits, h0, h1, h2]

/-- Extents printed with any white space about them and about each `x` are read back, unless the
memory of a field was given before. -/
theorem extents_round_trip (lib : Clib) (argNum : Nat) {d : Settings} (hbytes : d.bytes = 0)
    {n0 n1 n2 : Int} (h0 : IntFrom 0 n0) (h1 : IntFrom 0 n1) (h2 : IntFrom 0 n2)
    {before behind : List (BitVec 8)} (hbefore : Blank before) (hbehind : Blank behind)
    {blanks : Fin 4 → List (BitVec 8)} (hblanks : ∀ i, Blank (blanks i)) :
    parseOpt lib argNum .F (some (before ++ (printExtents blanks n0 n1 n2 ++ behind))) d =
      .ok { d with n0 := n0, n1 := n1, n2 := n2 } := by
  have htrim : trimArg (some (before ++ (printExtents blanks n0 n1 n2 ++ behind))) =
      .ok (some (printExtents blanks n0 n1 n2)) := by
    have hbetween := trimArg_between (blanks 0 ++ ch 'x' :: (blanks 1 ++
      (cLocale.printInt n1 ++ (blanks 2 ++ ch 'x' :: blanks 3)))) hbefore hbehind
      (cLocale.printInt_ne_nil n0) (cLocale.printInt_blank n0) (cLocale.printInt_ne_nil n2)
      (cLocale.printInt_blank n2)
    simpa [printExtents] using hbetween
  have hread : extentsOption (some (printExtents blanks n0 n1 n2)) = .ok (n0, n1, n2) := by
    have hnonneg : ¬(n0 < 0 ∨ n1 < 0 ∨ n2 < 0) := by
      have := h0.1
      have := h1.1
      have := h2.1
      omega
    rw [extentsOption, sscanf_printExtents hblanks h0 h1 h2]
    exact if_neg hnonneg
  rw [parseOpt, htrim]
  show (if d.bytes ≠ 0 then _ else _) = _
  rw [if_neg (not_not.mpr hbytes), hread]
  rfl

/-- ` 8 x 4x 16` -/
theorem extents_round_trip_spaced :
    parseOpt plainClib 0 .F (some ([' ', '8', ' ', 'x', ' ', '4', 'x', ' ', '1', '6'].map ch))
      .default = .ok { Settings.default with n0 := 8, n1 := 4, n2 := 16 } := by
  have hspace : Blank [ch ' '] := by simp [Blank, ch, isspace]
  have hnil : Blank [] := by simp [Blank]
  have hblanks : ∀ i : Fin 4, Blank (![[ch ' '], [ch ' '], [], [ch ' ']] i) := by
    intro i
    fin_cases i
    · exact hspace
    · exact hspace
    · exact hnil
    · exact hspace
  have hprint : printExtents ![[ch ' '], [ch ' '], [], [ch ' ']] 8 4 16 =
      ['8', ' ', 'x', ' ', '4', 'x', ' ', '1', '6'].map ch := by
    decide +kernel
  have h := @extents_round_trip plainClib 0 .default rfl 8 4 16 ⟨by decide, by decide⟩
    ⟨by decide, by decide⟩ ⟨by decide, by decide⟩ _ _ hspace hnil _ hblanks
  rw [hprint] at h
  exact h

end Underling
