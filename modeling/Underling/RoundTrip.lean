import Underling.InPlace

/-!
# Underling.RoundTrip

FFT plans and their inverses.

* `Transforms.round_trip`: a transform and the one back multiply by the length.
* `MadeBetween.inverse_of_run`: an inverse plan is made between the extents of the plan, exchanged.
* `inverse_round_trip`: the inverse of a plan inverts it, and is inverted by a plan like it.
-/

namespace Underling

open Runs C Strided

variable {α : Type}

/-- The logical length of the lines; for a real transform, that of the real ones. -/
def TransformType.length (type : TransformType) (i : Fin 3) (input output : FftwExtents) : Nat :=
  match type with
  | .c2rBackward => output.size (i.castAdd 2)
  | _ => input.size (i.castAdd 2)

/-- Every line is the half-spectrum of a real line of length `n`. -/
def HalfSpectra (K : Kernel α) (i : Fin 3) (n : Nat) (e : FftwExtents) (x : Nat → α) : Prop :=
  ∀ j, Lines e i j → ∃ v : Fin n → α, ∀ m : Fin (n / 2 + 1), complexLine e i x j m = K.r2c n v m

section RoundTrip

variable {i : Fin 3} {type : TransformType} {inPlace : Prop} {input output : FftwExtents}
  {K : Kernel α} {x y z : Nat → α}

/-- The lines a real-to-complex transform leaves are half-spectra. -/
theorem Transforms.halfSpectra (hs : Sides i .r2cForward inPlace input output)
    (h : Transforms K .r2cForward i input output x y) :
    HalfSpectra K i (input.size (i.castAdd 2)) output y :=
  fun j hj => ⟨_, h j fun k hk h4 => hs.across hk h4 ▸ hj k hk h4⟩

theorem component_smul [SMul Nat α] (n : Nat) (v : α × α) (imaginary : Bool) :
    component (n • v) imaginary = n • component v imaginary := by
  cases imaginary <;> rfl

theorem complexLine_scaled [SMul Nat α] {e : FftwExtents} {j : Fin 5 → Nat} {n length : Nat}
    (hfour : e.size 4 = 2) (hlong : e.size (i.castAdd 2) = length) (hj : e.InBox j)
    (h : ∀ m : Fin length, complexLine e i z j m = n • complexLine e i x j m) :
    z (e.addr j) = n • x (e.addr j) := by
  have hparts : j 4 < 2 := hfour ▸ hj 4
  have hm : j (i.castAdd 2) < length := hlong ▸ hj (i.castAdd 2)
  rw [complexLine_component e i hparts z, complexLine_component e i hparts x, ← component_smul]
  exact congrArg (component · _) (h ⟨_, hm⟩)

/-- There and back, every value is multiplied by the length of the lines. -/
theorem Transforms.round_trip [SMul Nat α] (hK : K.Inverts)
    (hs : Sides i type inPlace input output) (h : Transforms K type i input output x y)
    (hback : Transforms K type.inverse i output input y z)
    (hspectra : type = .c2rBackward → HalfSpectra K i (output.size (i.castAdd 2)) input x)
    {j : Fin 5 → Nat} (hj : input.InBox j) :
    z (input.addr j) = type.length i input output • x (input.addr j) := by
  have hlines : Lines input i j := fun k _ _ => hj k
  have hlines' : Lines output i j := fun k hk h4 => hs.across hk h4 ▸ hj k
  -- on the line of the index, what was written is read back
  cases type with
  | unspecified => exact hs.elim
  | c2cForward =>
    have hthere := h j hlines
    have hread := hback j hlines'
    rw [hs.2.2.1] at hread
    simp only [hthere] at hread
    have hinv := hK.backward_dft _ (fun n => complexLine input i x j n)
      (Nat.zero_lt_of_lt (hj (i.castAdd 2)))
    exact complexLine_scaled hs.1.size_four rfl hj fun m => (hread m).trans (congrFun hinv m)
  | c2cBackward =>
    have hthere := h j hlines
    have hread := hback j hlines'
    rw [hs.2.2.1, funext hthere] at hread
    have hinv := hK.dft_backward _ (fun n => complexLine input i x j n)
      (Nat.zero_lt_of_lt (hj (i.castAdd 2)))
    exact complexLine_scaled hs.1.size_four rfl hj fun m => (hread m).trans (congrFun hinv m)
  | c2rBackward =>
    obtain ⟨v, hv⟩ := hspectra rfl j hlines
    have hthere := h j hlines
    have hread := hback j hlines'
    rw [funext hthere, funext hv, hK.r2c_c2r _ _ hs.2.2.1.pos] at hread
    exact complexLine_scaled hs.1.size_four hs.2.2.1.half hj fun m => by
      rw [hread m, Pi.smul_apply, ← hv]
      rfl
  | r2cForward =>
    have hparts : j 4 < 1 := hs.1.size_four ▸ hj 4
    have hthere := h j hlines
    have hread := hback j hlines' ⟨_, hj (i.castAdd 2)⟩
    rw [funext hthere, hK.c2r_r2c _ _ hs.2.2.1.pos, Pi.smul_apply] at hread
    rw [realLine_self _ i hparts z, realLine_self _ i hparts x]
    exact hread

end RoundTrip

/-! ## Inverse plans -/

/-- A plan of the given type that was made between the given extents, for the given buffers. -/
structure MadeBetween (type : TransformType) (i : Fin 3) (inp out : Ptr)
    (input output : FftwExtents) (p : FftPlan) : Prop where
  sides : Sides i type (inp = out) input output
  between : ∃ rigorFlags, PlanBetween type i inp out input output rigorFlags p

section Inverse

variable {i : Fin 3} {type : TransformType} {inp out inp' out' : Ptr} {input output : FftwExtents}
  {p q : FftPlan} {rigorFlags : Flags}

theorem MadeBetween.fields (h : MadeBetween type i inp out input output p) :
    (p.type = type ∧ p.longNi = i) ∧ (p.input = input ∧ p.output = output) ∧
      (p.inPlace = true ↔ inp = out) := by
  obtain ⟨_, k1, k2, -, hplan⟩ := h.between
  exact ⟨⟨hplan.type_eq, hplan.longNi_eq⟩, ⟨hplan.input_eq, hplan.output_eq⟩, by
    rw [hplan.inPlace_eq, beq_iff_eq]⟩

theorem Made.madeBetween {c : Creator} {e : Extents} {packedFlags : Flags}
    (h : Made c e i inp out rigorFlags packedFlags p) :
    MadeBetween c.type i inp out p.input p.output p :=
  ⟨h.sides, _, h.between⟩

theorem MadeBetween.execute (h : MadeBetween type i inp out input output p) (fftw : FftwExec α)
    {x y : Ptr} (hplace : x = y ↔ inp = out) (m : Mem α) :
    ∃ m', fftwPlanExecute fftw (some p) (some x) (some y) m = .ok (none, m') ∧
      Transforms fftw.kernel type i input output (m x) (m' y) := by
  obtain ⟨_, hplan⟩ := h.between
  exact execute_transforms fftw h.sides hplan hplace m

theorem MadeBetween.createInverse_ends (env : Env) (h : MadeBetween type i inp out input output p)
    (hplace : inp' = out' ↔ inp = out) (rigorFlags : Flags) (w : World) :
    ∃ o w', FftCreated rigorFlags (MadeBetween type.inverse i inp' out' output input) w.Granted o
        w' ∧
      fftwPlanCreateInverse env (some p) (some inp') (some out') rigorFlags w =
        match o with
        | some q => .ok (some q, w')
        | none => .error .nullRead := by
  obtain ⟨⟨htype, hlong⟩, ⟨hin, hout⟩, -⟩ := h.fields
  have hs := h.sides.imp hplace.mp
  have hsides : Sides p.longNi p.type (inp' = out') p.input p.output := by
    rw [htype, hlong, hin, hout]
    exact hs
  obtain ⟨o, w', hc, hrun⟩ := inverse_ends env (w := w) (G := w.Granted) id hsides rigorFlags
  rw [htype, hlong, hin, hout] at hc
  exact ⟨o, w', ⟨fun q hq => ⟨⟨hs.inverse, _, (hc.sound q hq).1⟩, (hc.sound q hq).2⟩, hc.complete⟩,
    hrun⟩

theorem MadeBetween.inverse_of_run {env : Env} {w w' : World}
    (h : MadeBetween type i inp out input output p) (hplace : inp' = out' ↔ inp = out)
    (hrun : fftwPlanCreateInverse env (some p) (some inp') (some out') rigorFlags w =
      .ok (some q, w')) :
    MadeBetween type.inverse i inp' out' output input q := by
  obtain ⟨o, w1, hc, heq⟩ := h.createInverse_ends env hplace rigorFlags w
  rw [hrun] at heq
  cases o with
  | none => cases heq
  | some q' =>
    cases heq
    exact (hc.sound q rfl).1

end Inverse

/-- `q` is the inverse of `p`, as far as the plans tell. -/
structure InverseOf (p q : FftPlan) : Prop where
  input_eq : q.input = p.output
  output_eq : q.output = p.input
  /-- The way back from `q` is the way of `p`. -/
  back : ∀ (env : Env) (inp out : Ptr) (rigorFlags : Flags) (w w' : World) (r : FftPlan),
    (inp = out ↔ q.inPlace = true) →
    fftwPlanCreateInverse env (some q) (some inp) (some out) rigorFlags w = .ok (some r, w') →
    r.type = p.type ∧ r.longNi = p.longNi ∧ r.input = p.input ∧ r.output = p.output

/-- Executing `p` and then `q` multiplies every value of the input by the length. -/
def Inverts [SMul Nat α] (fftw : FftwExec α) (p q : FftPlan) : Prop :=
  ∀ (x y : Ptr) (m : Mem α), (x = y ↔ p.inPlace = true) →
    (p.type = .c2rBackward →
      HalfSpectra fftw.kernel p.longNi (p.output.size p.long) p.input (m x)) →
    ∃ m' m'', fftwPlanExecute fftw (some p) (some x) (some y) m = .ok (none, m') ∧
      fftwPlanExecute fftw (some q) (some y) (some x) m' = .ok (none, m'') ∧
      ∀ j, p.input.InBox j → m'' x (p.input.addr j) =
        p.type.length p.longNi p.input p.output • m x (p.input.addr j)

/-- The inverse of a plan, made for the same kind of placement, has its extents exchanged, inverts
it, and is inverted by a plan of the same type between the same extents. -/
theorem inverse_round_trip [SMul Nat α] {env : Env} (job : Job env) {a b : Nat} (ha : a < job.pA)
    (hb : b < job.pB) (heven : job.howmany % 2 = 0) (c : Creator) (i : Fin 3)
    {inp out inp' out' : Ptr} {rigorFlags rigorFlags' packedFlags : Flags} {p q : FftPlan}
    {w w' w1 w1' : World}
    (hp : job.fftCreate c a b i inp out rigorFlags packedFlags w = .ok (some p, w'))
    (hplace : inp' = out' ↔ inp = out)
    (hq : fftwPlanCreateInverse env (some p) (some inp') (some out') rigorFlags' w1 =
      .ok (some q, w1'))
    (fftw : FftwExec α) (hinverts : fftw.kernel.Inverts) : InverseOf p q ∧ Inverts fftw p q := by
  have hmade := (Made.of_run ha hb heven hp).madeBetween
  have hinverse := hmade.inverse_of_run hplace hq
  obtain ⟨⟨htype, hlong⟩, -, hin⟩ := hmade.fields
  obtain ⟨-, ⟨hqin, hqout⟩, hin'⟩ := hinverse.fields
  refine ⟨⟨hqin, hqout, fun env' inp'' out'' rigorFlags'' w2 w2' r hplace' hr => ?_⟩, ?_⟩
  · have hback := hinverse.inverse_of_run (hplace'.trans hin') hr
    rw [TransformType.inverse_inverse] at hback
    obtain ⟨⟨hrtype, hrlong⟩, ⟨hrin, hrout⟩, -⟩ := hback.fields
    exact ⟨hrtype.trans htype.symm, hrlong.trans hlong.symm, hrin, hrout⟩
  · intro x y m hxy hspectra
    have hxy' : x = y ↔ inp = out := hxy.trans hin
    obtain ⟨m', hrun, ht⟩ := hmade.execute fftw hxy' m
    obtain ⟨m'', hrun', ht'⟩ := hinverse.execute fftw ((eq_comm.trans hxy').trans hplace.symm) m'
    rw [FftPlan.long, htype, hlong] at hspectra
    refine ⟨m', m'', hrun, hrun', fun j hj => ?_⟩
    rw [htype, hlong]
    exact ht.round_trip hinverts hmade.sides ht' hspectra hj

/-- A complex-to-real plan and its inverse in one buffer, on the half-spectra the inverse makes of
any data. -/
theorem inverse_round_trip_c2r :
    ∃ (job : Job .reference) (p q : FftPlan) (w w' : World),
      (job.n0 = 4 ∧ job.n1 = 5 ∧ job.n2 = 3) ∧ (job.pA = 2 ∧ job.pB = 3) ∧ job.howmany = 4 ∧
        job.fftCreate .c2rBackward 1 0 1 0 0 FFTW.ESTIMATE 0 .granting = .ok (some p, w) ∧
        fftwPlanCreateInverse .reference (some p) (some 0) (some 0) FFTW.ESTIMATE .granting =
          .ok (some q, w') ∧
        InverseOf p q ∧
        ∀ m : Mem ℝ, ∃ ms m' m'',
          fftwPlanExecute (.reference .fourier) (some q) (some 0) (some 0) m = .ok (none, ms) ∧
          fftwPlanExecute (.reference .fourier) (some p) (some 0) (some 0) ms = .ok (none, m') ∧
          fftwPlanExecute (.reference .fourier) (some q) (some 0) (some 0) m' = .ok (none, m'') ∧
          ∀ j, p.input.InBox j → m'' 0 (p.input.addr j) =
            p.type.length p.longNi p.input p.output • ms 0 (p.input.addr j) := by
  obtain ⟨job, hn, hp, hhow, -, -⟩ := exists_admitted 4 5 3 2 3 4 0 (by decide)
  have ha : 1 < job.pA := by omega
  have hb : 0 < job.pB := by omega
  have heven : job.howmany % 2 = 0 := by omega
  have hr : FFTW.ESTIMATE.has nonRigorMask = false := by decide
  have hplace : (0 : Ptr) = 0 ↔ (0 : Ptr) = 0 := Iff.rfl
  obtain ⟨p, w, hrun⟩ := job.exists_fftCreate ha hb heven .c2rBackward 1 0 0 hr 0
    fun _ => job.accepts_longN1 ha hb _ _
  have hmade := (Made.of_run ha hb heven hrun).madeBetween
  obtain ⟨o, w', hc, hinv⟩ := hmade.createInverse_ends .reference hplace FFTW.ESTIMATE .granting
  obtain ⟨q, rfl⟩ := Option.isSome_iff_exists.mp (hc.complete World.granting_granted hr)
  obtain ⟨hinverse, hinverts⟩ := inverse_round_trip job ha hb heven .c2rBackward 1 hrun hplace hinv
    (.reference .fourier) Kernel.fourier_inverts
  obtain ⟨⟨-, hlong⟩, -, hin⟩ := hmade.fields
  refine ⟨job, p, q, w, w', hn, hp, hhow, hrun, hinv, hinverse, fun m => ?_⟩
  obtain ⟨ms, hq, ht⟩ := (hc.sound q rfl).1.execute (.reference .fourier) hplace m
  obtain ⟨m', m'', hp', hq', hval⟩ := hinverts 0 0 ms hin.symm fun _ => by
    rw [FftPlan.long, hlong]
    exact ht.halfSpectra hmade.sides.inverse
  exact ⟨ms, m', m'', hq, hp', hq', hval⟩

end Underling
