import Underling.BenchRun
import Underling.InvalidExtents
import Underling.Options

/-!
# Underling.Commands

From the command line to the main loop of `underling_bench`: what `main` makes of the settings of an
accepted command line before it starts to loop.

* `Details.entry_zero`, `Details.entry_one`, `Details.entry_scratch`: the buffers `main` passes are
  there if and only if there is a field.
* `accepted_bench_iff`: on a process grid that is admitted every call of the library succeeds if
  and only if the settings suit the transforms that are asked for. `Commanded.suited` and
  `Settings.Suited.exists_commanded` are its two directions.
-/

namespace Underling

namespace Details

variable {d : Details}

/-- `f[i]`, one of `d.nfields + extra` buffers. -/
def entry (d : Details) (i : Nat) : Option Ptr := if i < d.nfields + d.extra then some i else none

theorem entry_eq_some {i : Nat} {ptr : Ptr} (h : d.entry i = some ptr) :
    i < d.nfields + d.extra ∧ ptr = i := by
  obtain ⟨hlt, heq⟩ := Option.ite_none_right_eq_some.mp h
  exact ⟨hlt, (Option.some.inj heq).symm⟩

/-- There is a scratch buffer exactly for the stages that are made out of place. -/
theorem extra_eq : d.extra = if ∃ i, d.outOfPlace i = true then 1 else 0 := by
  have hmoves : (d.move 0 ≠ 0 ∨ d.move 1 ≠ 0 ∨ d.move 2 ≠ 0 ∨ d.move 3 ≠ 0 ∨ d.move 4 ≠ 0 ∨
      d.move 5 ≠ 0) ↔ ∃ i, d.outOfPlace i = true := by
    simp only [ne_eq, move_eq_zero_iff, Bool.not_eq_false]
    constructor
    · rintro (h | h | h | h | h | h)
      all_goals exact ⟨_, h⟩
    · rintro ⟨i, hi⟩
      fin_cases i <;> simp_all [outOfPlace]
  unfold extra
  simp only [hmoves]

theorem entry_zero (h : 1 ≤ d.nfields) : d.entry 0 = some 0 := by
  have hextra : 0 ≤ d.extra := by
    rw [extra_eq]
    split <;> decide
  exact if_pos (by omega)

/-- The buffer a stage made out of place moves to. -/
theorem entry_one (h : 1 ≤ d.nfields) {i : Fin 10} (hi : d.outOfPlace i = true) :
    d.entry 1 = some 1 := by
  have hextra : d.extra = 1 := by rw [extra_eq, if_pos ⟨i, hi⟩]
  exact if_pos (by omega)

/-- Without a field there is a scratch buffer at most. -/
theorem entry_scratch (h : d.nfields = 0) {k : Nat} {ptr : Ptr} (hk : d.entry k = some ptr) :
    k = 0 ∧ ∃ i, d.outOfPlace i = true := by
  have hlt := (entry_eq_some hk).1
  rw [h, extra_eq] at hlt
  split at hlt
  · next hout => exact ⟨by omega, hout⟩
  · omega

end Details

namespace Settings

variable (d : Settings)

/-- What the main loop depends on. -/
def details : Details where
  repeats := d.repeats.toNat
  nfields := d.nfields.toNat
  fftN := d.fftN
  mpiInplace := d.mpiInplace
  fftInplace := d.fftInplace
  forward := d.forward
  backward := d.backward

/-- The extents of the grid; `cube` is what they are computed to from the memory of a field. -/
def extents (cube : Int) : Int × Int × Int :=
  if d.bytes ≠ 0 then (cube, cube, cube) else (d.n0, d.n1, d.n2)

/-- The directions the transpose plan is made for. -/
def transposeFlags : Flags :=
  (if d.forward then TRANSPOSE_LONG_N2_TO_LONG_N1 ||| TRANSPOSE_LONG_N1_TO_LONG_N0 else 0) |||
    (if d.backward then TRANSPOSE_LONG_N0_TO_LONG_N1 ||| TRANSPOSE_LONG_N1_TO_LONG_N2 else 0)

/-- A superfluous forward transform is only estimated. -/
def forwardRigor : Flags := if d.forward then d.fftwRigorFlags else FFTW.ESTIMATE

/-- `!d.mpi_inplace`, as an index. -/
def mpiOut : Nat := if d.mpiInplace then 0 else 1

/-- `!d.fft_inplace`, as an index. -/
def fftOut : Nat := if d.fftInplace then 0 else 1

/-- There is a field, since the plans are made for its buffer. Transforms need complex fields. In
place they are not packed, and those of real fields start from pencils that are not transposed. -/
structure Suited : Prop where
  fields : 1 ≤ d.nfields
  even : d.fftN 2 ≠ .i → d.howmany % 2 = 0
  unpacked : d.fftInplace = true → ∀ i, d.fftN i ≠ .i → ¬Packs i d.packedFlags
  untransposed : d.fftInplace = true → d.fftN 2 = .r →
    d.transposedFlags.has TRANSPOSED_LONG_N2 = false

end Settings

/-- What `main` makes of the settings, with the way back on: the grid, the problem and the plans.
The buffers it passes are entries of `f`. -/
structure Commanded {env : Env} (d : Settings) (cube : Int) (bench : Bench env) : Prop where
  details : bench.details = d.details
  backward : d.backward = true
  extents : (bench.job.n0, bench.job.n1, bench.job.n2) = d.extents cube
  howmany : bench.job.howmany = d.howmany
  flags : bench.job.flags = d.transposedFlags
  transposeFlags : bench.planning.transposeFlags = d.transposeFlags
  rigorFlags : bench.planning.rigorFlags = d.fftwRigorFlags
  inp : d.details.entry 0 = some bench.planning.inp
  out : d.details.entry d.mpiOut = some bench.planning.out
  plans : ∀ i c, d.details.creator i = some c →
    ∃ inp out, d.details.entry 0 = some inp ∧ d.details.entry d.fftOut = some out ∧
      ∀ a b, a < bench.job.pA → b < bench.job.pB → ∃ w w1,
        bench.job.fftCreate c a b i inp out d.forwardRigor d.packedFlags .granting =
            .ok (some (bench.forwardPlan i a b), w) ∧
          fftwPlanCreateInverse env (some (bench.forwardPlan i a b)) (some inp) (some out)
            d.fftwRigorFlags .granting = .ok (some (bench.backwardPlan i a b), w1)

/-- A plan that is not made. -/
def FftPlan.unmade : FftPlan where
  addr := 0
  longNi := 0
  type := .unspecified
  input := .invalid
  planPreorder := none
  planFftw := none
  planPostorder := none
  output := .invalid
  inPlace := false
  offset := ⟨0, 0, 0, 0⟩

section Setup

variable {d : Settings}

theorem planWords_settings (hd : d.Valid) : PlanWords d.transposeFlags d.fftwRigorFlags := by
  refine ⟨?_, hd.rigor⟩
  unfold Settings.transposeFlags
  cases d.forward <;> cases d.backward <;> decide

theorem forwardRigor_valid (hd : d.Valid) : d.forwardRigor.has nonRigorMask = false := by
  unfold Settings.forwardRigor
  split
  · exact hd.rigor
  · decide

theorem fftOut_eq_iff : 0 = d.fftOut ↔ d.fftInplace = true := by
  unfold Settings.fftOut
  cases d.fftInplace <;> decide

/-- A direction is transformed only if `n2` is. -/
theorem planned_n2 (hd : d.Valid) {i : Fin 3} (h : d.fftN i ≠ .i) : d.fftN 2 ≠ .i := by
  fin_cases i
  · exact hd.inward.2 (hd.inward.1 h)
  · exact hd.inward.2 h
  · exact h

/-- Only `n2` has transforms of real fields. -/
theorem creator_real (hd : d.Valid) {i : Fin 3} {c : Creator} (h : d.details.creator i = some c)
    (hreal : c.real = true) : i = 2 ∧ d.fftN 2 = .r := by
  have hr : d.fftN i = .r := by
    unfold Details.creator at h
    split at h
    · cases h
    · cases h
      cases hreal
    · next hn => exact hn
  fin_cases i
  · exact absurd hr hd.real.1
  · exact absurd hr hd.real.2
  · exact ⟨rfl, hr⟩

theorem creator_planned {i : Fin 3} {c : Creator} (h : d.details.creator i = some c) :
    d.fftN i ≠ .i := by
  intro hn
  unfold Details.creator at h
  rw [show d.details.fftN i = .i from hn] at h
  cases h

/-- What the creators accept in place. -/
theorem accepts_settings {env : Env} {job : Job env} (hd : d.Valid) (hsuited : d.Suited)
    (hflags : job.flags = d.transposedFlags) {i : Fin 3} {c : Creator}
    (hc : d.details.creator i = some c) {a b : Nat} (ha : a < job.pA) (hb : b < job.pB)
    (hplace : 0 = d.fftOut) : c.Accepts ((job.problem a b).longN i) i d.packedFlags := by
  have hin := fftOut_eq_iff.mp hplace
  refine ⟨hsuited.unpacked hin i (creator_planned hc), fun hreal => ?_⟩
  obtain ⟨rfl, hr⟩ := creator_real hd hc hreal
  have hun := hsuited.untransposed hin hr
  rw [job.longN_eq ha hb]
  show storageOrder job.decomp.flags 2 1 = _
  rw [storageOrder, show job.decomp.flags = d.transposedFlags from hflags, hun]
  rfl

/-- The number of fields of the loop is that of the settings. -/
theorem details_nfields (hd : d.Valid) : 1 ≤ d.details.nfields ↔ 1 ≤ d.nfields := by
  have hpos := hd.nfields.1
  show 1 ≤ d.nfields.toNat ↔ _
  omega

theorem transform_outOfPlace {i : Fin 3} {c : Creator} (hc : d.details.creator i = some c)
    (hout : d.fftInplace = false) : ∃ k, d.details.outOfPlace k = true := by
  have hmoves : d.details.fftMoves i = true := by
    simp [Details.fftMoves, Settings.details, creator_planned hc, hout]
  fin_cases i
  · exact ⟨4, hmoves⟩
  · exact ⟨2, hmoves⟩
  · exact ⟨0, hmoves⟩

theorem creator_some {i : Fin 3} (hn : d.fftN i ≠ .i) : ∃ c, d.details.creator i = some c := by
  unfold Details.creator
  split
  · next h => exact absurd h hn
  · exact ⟨_, rfl⟩
  · exact ⟨_, rfl⟩

/-- The buffers of the plans, with a field. -/
theorem entry_mpiOut (hd : d.Valid) (h : 1 ≤ d.nfields) :
    d.details.entry d.mpiOut = some d.mpiOut := by
  have hfields := (details_nfields hd).mpr h
  unfold Settings.mpiOut
  cases hin : d.mpiInplace with
  | true => exact Details.entry_zero hfields
  | false =>
    have hmoves : d.details.outOfPlace 1 = true := by
      simp [Details.outOfPlace, Settings.details, hin]
    exact Details.entry_one hfields hmoves

theorem entry_fftOut (hd : d.Valid) (h : 1 ≤ d.nfields) {i : Fin 3} {c : Creator}
    (hc : d.details.creator i = some c) : d.details.entry d.fftOut = some d.fftOut := by
  have hfields := (details_nfields hd).mpr h
  unfold Settings.fftOut
  cases hin : d.fftInplace with
  | true => exact Details.entry_zero hfields
  | false =>
    obtain ⟨k, hk⟩ := transform_outOfPlace hc hin
    exact Details.entry_one hfields hk

/-- Without a field a stage made out of place would need a second scratch buffer. -/
theorem fields_of_commanded {env : Env} {cube : Int} {bench : Bench env} (hd : d.Valid)
    (h : Commanded d cube bench) : 1 ≤ d.nfields := by
  by_contra hnone
  have hfields : d.details.nfields = 0 := by
    have := (details_nfields hd).not.mpr hnone
    omega
  obtain ⟨-, k, hk⟩ := Details.entry_scratch hfields h.inp
  have hmpi : d.mpiInplace = true := by
    have hout := (Details.entry_scratch hfields h.out).1
    unfold Settings.mpiOut at hout
    split at hout
    · assumption
    · cases hout
  -- so it is a transform that is made out of place
  obtain ⟨i, hi⟩ : ∃ i, d.details.fftMoves i = true := by
    fin_cases k <;> simp [Details.outOfPlace, Settings.details, hmpi] at hk <;> exact ⟨_, hk⟩
  have hplanned : d.fftN i ≠ .i ∧ d.fftInplace = false := by
    simpa [Details.fftMoves, Settings.details] using hi
  obtain ⟨c, hc⟩ := creator_some hplanned.1
  obtain ⟨-, out, -, hout, -⟩ := h.plans i c hc
  have hzero := (Details.entry_scratch hfields hout).1
  rw [Settings.fftOut, hplanned.2] at hzero
  cases hzero

section Made

variable {env : Env} {cube : Int} {bench : Bench env}

/-- A transform that was made needs even numbers, and was accepted. -/
theorem Commanded.made (h : Commanded d cube bench) {i : Fin 3} {c : Creator}
    (hc : d.details.creator i = some c) : d.howmany % 2 = 0 ∧
      (0 = d.fftOut → c.Accepts ((bench.job.problem 0 0).longN i) i d.packedFlags) := by
  have ha := bench.job.pA_pos
  have hb := bench.job.pB_pos
  obtain ⟨inp, out, hinp, hout, hplans⟩ := h.plans i c hc
  obtain ⟨w, w1, hrun, -⟩ := hplans 0 0 ha hb
  obtain rfl := (Details.entry_eq_some hinp).2
  obtain rfl := (Details.entry_eq_some hout).2
  have heven : bench.job.howmany % 2 = 0 := by
    by_contra hodd
    have hp := bench.job.isProblem ha hb
    have hsize : ((bench.job.problem 0 0).longN i).size 3 % 2 ≠ 0 := by
      rw [hp.size_three, bench.job.howmany_eq ha hb]
      have := (bench.job.created ha hb).howmany_nonneg
      omega
    exact c.unusable_not_made env (.odd (hp.pencil i) hsize) _ _ _ _ _ _ _ hrun
  exact ⟨h.howmany ▸ heven, (Made.of_run ha hb heven hrun).accepts⟩

theorem Commanded.suited (hd : d.Valid) (h : Commanded d cube bench) : d.Suited := by
  refine ⟨fields_of_commanded hd h, fun hn => ?_, fun hin i hn => ?_, fun hin hr => ?_⟩
  · obtain ⟨c, hc⟩ := creator_some hn
    exact (h.made hc).1
  · obtain ⟨c, hc⟩ := creator_some hn
    exact ((h.made hc).2 (fftOut_eq_iff.mpr hin)).1
  · have hc : d.details.creator 2 = some .r2cForward := by
      unfold Details.creator
      rw [show d.details.fftN 2 = .r from hr]
    have horder := ((h.made hc).2 (fftOut_eq_iff.mpr hin)).2 rfl
    rw [bench.job.longN_eq bench.job.pA_pos bench.job.pB_pos] at horder
    by_contra htrans
    have hflags : bench.job.decomp.flags.has TRANSPOSED_LONG_N2 = true := by
      rw [show bench.job.decomp.flags = d.transposedFlags from h.flags]
      exact Bool.eq_true_of_not_eq_false htrans
    have hone : storageOrder bench.job.decomp.flags 2 1 = 2 := horder
    rw [storageOrder, if_pos hflags] at hone
    cases hone

end Made

section Making

variable {env : Env} {cube n0 n1 n2 : Int}

theorem extents_int (hd : d.Valid) (hcube : cube ≤ INT_MAX) (hn : d.extents cube = (n0, n1, n2)) :
    n0 ≤ INT_MAX ∧ n1 ≤ INT_MAX ∧ n2 ≤ INT_MAX := by
  have h0 := hd.n0.2
  have h1 := hd.n1.2
  have h2 := hd.n2.2
  unfold Settings.extents at hn
  simp only [INT_MAX] at hcube ⊢
  split at hn <;> cases hn <;> omega

/-- The plans of a direction, if it is transformed. -/
theorem exists_transforms {job : Job env} (hd : d.Valid) (hsuited : d.Suited)
    (hhow : job.howmany = d.howmany) (hflags : job.flags = d.transposedFlags) (i : Fin 3) :
    ∃ p q : Nat → Nat → FftPlan, ∀ c, d.details.creator i = some c → job.howmany % 2 = 0 ∧
      ∀ a b, a < job.pA → b < job.pB → ∃ w w1,
        job.fftCreate c a b i 0 d.fftOut d.forwardRigor d.packedFlags .granting =
            .ok (some (p a b), w) ∧
          fftwPlanCreateInverse env (some (p a b)) (some 0) (some d.fftOut) d.fftwRigorFlags
            .granting = .ok (some (q a b), w1) := by
  cases hc : d.details.creator i with
  | none => exact ⟨fun _ _ => .unmade, fun _ _ => .unmade, fun c hc' => by cases hc'⟩
  | some c =>
    have heven : job.howmany % 2 = 0 := by
      rw [hhow]
      exact hsuited.even (planned_n2 hd (creator_planned hc))
    obtain ⟨p, q, hruns⟩ := exists_plans job heven c i 0 d.fftOut (forwardRigor_valid hd) hd.rigor
      d.packedFlags fun a b ha hb hplace => accepts_settings hd hsuited hflags hc ha hb hplace
    refine ⟨p, q, fun c' hc' => ?_⟩
    cases hc'
    exact ⟨heven, hruns⟩

/-- Settings that suit them make everything. -/
theorem Settings.Suited.exists_commanded (hsuited : d.Suited) (hd : d.Valid)
    (hback : d.backward = true) (hcube : cube ≤ INT_MAX) (hn : d.extents cube = (n0, n1, n2))
    {nproc pA pB : Nat} (hdoc : Documented env nproc n0 n1 n2 d.pA d.pB pA pB) :
    ∃ bench : Bench env, Commanded d cube bench ∧ (bench.job.pA = pA ∧ bench.job.pB = pB) ∧
      bench.details.Offered := by
  obtain ⟨job, ⟨rfl, rfl, rfl⟩, hp, hhow, hflags, hg⟩ := exists_job hdoc (extents_int hd hcube hn)
    (Int.le_trans Int.one_nonneg hd.howmany.1) hd.transposed
  obtain ⟨planning, ⟨hi, ho⟩, htf, hrf⟩ := exists_planning_flags job hg 0 d.mpiOut
    (planWords_settings hd)
  choose p q hplans using fun i => exists_transforms hd hsuited hhow hflags i
  let bench : Bench env :=
    { details := d.details
      job := job
      planning := planning
      forwardPlan := p
      backwardPlan := q
      plan_inp := hi
      plan_out := ho
      plans := fun i c hc => .of_plans (hplans i c hc).1 (hplans i c hc).2 }
  have hzero : d.details.entry 0 = some 0 :=
    Details.entry_zero ((details_nfields hd).mpr hsuited.fields)
  have hinp : d.details.entry 0 = some planning.inp := hi ▸ hzero
  have hout : d.details.entry d.mpiOut = some planning.out := ho ▸ entry_mpiOut hd hsuited.fields
  exact ⟨bench, ⟨rfl, hback, hn.symm, hhow, hflags, htf, hrf, hinp, hout, fun i c hc =>
    ⟨0, d.fftOut, hzero, entry_fftOut hd hsuited.fields hc, (hplans i c hc).2⟩⟩, hp, hd.real⟩

end Making

end Setup

/-- For every accepted command line with a way back, and a process grid that is admitted: the calls
of the library before the main loop succeed exactly for settings that suit them. -/
theorem accepted_bench_iff {env : Env} {lib : Clib}
    {events : List (Key × Option (List (BitVec 8)))} {p : Parser} (h : parse lib events = .ok p)
    (hback : p.settings.backward = true) {cube n0 n1 n2 : Int} (hcube : cube ≤ INT_MAX)
    (hn : p.settings.extents cube = (n0, n1, n2)) {nproc pA pB : Nat}
    (hd : Documented env nproc n0 n1 n2 p.settings.pA p.settings.pB pA pB) :
    (∃ bench : Bench env, Commanded p.settings cube bench ∧
      (bench.job.pA = pA ∧ bench.job.pB = pB) ∧ bench.details.Offered) ↔ p.settings.Suited := by
  have hvalid : p.settings.Valid := (run_valid h ⟨default_valid, rfl⟩).settings
  constructor
  · intro hbench
    obtain ⟨bench, hcommanded, -⟩ := hbench
    exact hcommanded.suited hvalid
  · intro hsuited
    exact hsuited.exists_commanded hvalid hback hcube hn hd

/-- `--ccr -F 8x4x6 -P 2x2` -/
theorem accepted_bench_command :
    ∃ p, parse plainClib [(.fftCcr, none), (.F, some (['8', 'x', '4', 'x', '6'].map ch)),
      (.P, some (['2', 'x', '2'].map ch)), (.endOfArgs, none)] = .ok p ∧
        ((∃ bench : Bench .reference, Commanded p.settings 0 bench ∧
          (bench.job.pA = 2 ∧ bench.job.pB = 2) ∧ bench.details.Offered) ↔ p.settings.Suited) ∧
        p.settings.Suited := by
  have h : parse plainClib [(.fftCcr, none), (.F, some (['8', 'x', '4', 'x', '6'].map ch)),
      (.P, some (['2', 'x', '2'].map ch)), (.endOfArgs, none)] =
        .ok ⟨0, { Settings.default with
          n0 := 8, n1 := 4, n2 := 6, pA := 2, pB := 2, fftN := ![.c, .c, .r] }⟩ := rfl
  refine ⟨_, h, accepted_bench_iff h rfl (by decide) rfl
    (documented_reference (by decide) (by decide) (by decide) (by decide) (by decide) (by decide)),
    by decide, fun _ => rfl, nofun, nofun⟩

end Underling
