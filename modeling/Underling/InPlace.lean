import Underling.PencilPlans
import Underling.Transforms

/-!
# Underling.InPlace

FFT plans within one buffer.

* `Transforms.unique`: what a transform leaves at the addresses of its output extents.
* `in_place_agrees`: an in-place plan leaves there what the unpacked plan between two buffers does.
-/

namespace Underling

open Runs C Strided

variable {α : Type}

section Unique

variable {i : Fin 3} {type : TransformType} {inPlace : Prop} {input output : FftwExtents}

theorem Sides.across (h : Sides i type inPlace input output) {k : Fin 5} (hk : k ≠ i.castAdd 2)
    (h4 : k ≠ 4) : output.size k = input.size k := by
  cases type with
  | unspecified => exact h.elim
  | c2cForward => exact congrFun h.2.2.1 k
  | c2cBackward => exact congrFun h.2.2.1 k
  | c2rBackward => exact h.2.2.1.size_eq k hk h4
  | r2cForward => exact (h.2.2.1.size_eq k hk h4).symm

theorem Sides.lines (h : Sides i type inPlace input output) {j : Fin 5 → Nat}
    (hj : output.InBox j) : Lines input i j := fun k hk h4 => h.across hk h4 ▸ hj k

theorem onLine_self (i : Fin 3) (j : Fin 5 → Nat) : onLine i j (j (i.castAdd 2)) (j 4) = j := by
  funext k
  rw [onLine]
  split
  · exact congrArg j (by assumption : k = _).symm
  · split
    · exact congrArg j (by assumption : k = _).symm
    · rfl

theorem complexLine_component (e : FftwExtents) (i : Fin 3) {j : Fin 5 → Nat} (hj : j 4 < 2)
    (x : Nat → α) :
    x (e.addr j) = component (complexLine e i x j (j (i.castAdd 2))) (decide (j 4 = 1)) := by
  have hself := onLine_self i j
  rcases (by omega : j 4 = 0 ∨ j 4 = 1) with h | h
  · rw [h] at hself
    simp [component, complexLine, h, hself]
  · rw [h] at hself
    simp [component, complexLine, h, hself]

theorem realLine_self (e : FftwExtents) (i : Fin 3) {j : Fin 5 → Nat} (hj : j 4 < 1) (x : Nat → α) :
    x (e.addr j) = realLine e i x j (j (i.castAdd 2)) := by
  have hself := onLine_self i j
  rw [Nat.lt_one_iff.mp hj] at hself
  rw [realLine, hself]

theorem complexLine_unique {e : FftwExtents} {y y' : Nat → α} {j : Fin 5 → Nat} {n : Nat}
    {f : Fin n → α × α} (hfour : e.size 4 = 2) (hlong : e.size (i.castAdd 2) = n) (hj : e.InBox j)
    (h : ∀ m : Fin n, complexLine e i y j m = f m)
    (h' : ∀ m : Fin n, complexLine e i y' j m = f m) : y (e.addr j) = y' (e.addr j) := by
  have hparts : j 4 < 2 := hfour ▸ hj 4
  have hm : j (i.castAdd 2) < n := hlong ▸ hj (i.castAdd 2)
  rw [complexLine_component e i hparts y, complexLine_component e i hparts y',
    (h ⟨_, hm⟩).trans (h' ⟨_, hm⟩).symm]

theorem Transforms.unique {K : Kernel α} {x y y' : Nat → α} (hs : Sides i type inPlace input output)
    (h : Transforms K type i input output x y) (h' : Transforms K type i input output x y')
    {j : Fin 5 → Nat} (hj : output.InBox j) : y (output.addr j) = y' (output.addr j) := by
  have hl := hs.lines hj
  cases type with
  | unspecified => exact hs.elim
  | c2cForward =>
    exact complexLine_unique hs.2.1.size_four (congrFun hs.2.2.1 _) hj (h j hl) (h' j hl)
  | c2cBackward =>
    exact complexLine_unique hs.2.1.size_four (congrFun hs.2.2.1 _) hj (h j hl) (h' j hl)
  | c2rBackward =>
    have hparts : j 4 < 1 := hs.2.1.size_four ▸ hj 4
    have hm := hj (i.castAdd 2)
    rw [realLine_self _ i hparts y, realLine_self _ i hparts y',
      (h j hl ⟨_, hm⟩).trans (h' j hl ⟨_, hm⟩).symm]
  | r2cForward =>
    exact complexLine_unique hs.2.1.size_four hs.2.2.1.half hj (h j hl) (h' j hl)

end Unique

/-! ## The extents of the two plans -/

theorem not_packs_none (i : Fin 3) : ¬ Packs i FFTW_PACKED_NONE := by
  revert i
  decide

theorem Made.unpacked {c : Creator} {e : Extents} {i : Fin 3} {buf inp out : Ptr}
    {rigorFlags rigorFlags' packedFlags : Flags} {f g : FftPlan}
    (hf : Made c e i buf buf rigorFlags packedFlags f)
    (hg : Made c e i inp out rigorFlags' FFTW_PACKED_NONE g) :
    f.input = g.input ∧ f.output = g.output := by
  have hside : c.packedSide e i packedFlags = c.packedSide e i FFTW_PACKED_NONE := by
    rw [Creator.packedSide, Creator.packedSide, if_neg (hf.accepts rfl).1,
      if_neg (not_packs_none i)]
  rw [hf.input_eq, hf.output_eq, hg.input_eq, hg.output_eq]
  cases c with
  | c2cForward => exact ⟨rfl, hside⟩
  | c2cBackward => exact ⟨rfl, hside⟩
  | c2rBackward => exact ⟨rfl, hside⟩
  | r2cForward => exact ⟨hside, rfl⟩

/-- The plan `f` within one buffer leaves at the addresses of its output extents what the plan `g`
between two buffers does, when that reads a copy of the buffer. -/
structure AgreesWith (fftw : FftwExec α) (f g : FftPlan) : Prop where
  input_eq : fftwLocalExtentsInput (some f) = fftwLocalExtentsInput (some g)
  output_eq : fftwLocalExtentsOutput (some f) = fftwLocalExtentsOutput (some g)
  execute : ∀ (buf inp out : Ptr) (m mcopy : Mem α), inp ≠ out → mcopy inp = m buf → ∃ m' mcopy',
    fftwPlanExecute fftw (some f) (some buf) (some buf) m = .ok (none, m') ∧
      fftwPlanExecute fftw (some g) (some inp) (some out) mcopy = .ok (none, mcopy') ∧
      ∀ j, f.output.InBox j → m' buf (f.output.addr j) = mcopy' out (f.output.addr j)

/-- Whenever a creator makes a plan within one buffer, that plan agrees with the one it makes
between two, unpacked. -/
theorem in_place_agrees {env : Env} (job : Job env) {a b : Nat} (ha : a < job.pA) (hb : b < job.pB)
    (heven : job.howmany % 2 = 0) (c : Creator) (i : Fin 3) {buf inp out : Ptr} (hne : inp ≠ out)
    {rigorFlags packedFlags : Flags} {f g : FftPlan} {w w' w1 w1' : World}
    (hf : job.fftCreate c a b i buf buf rigorFlags packedFlags w = .ok (some f, w'))
    (hg : job.fftCreate c a b i inp out rigorFlags FFTW_PACKED_NONE w1 = .ok (some g, w1'))
    (fftw : FftwExec α) : AgreesWith fftw f g := by
  have hmade := Made.of_run ha hb heven hf
  have hmade' := Made.of_run ha hb heven hg
  obtain ⟨hin, hout⟩ := hmade.unpacked hmade'
  refine ⟨?_, ?_, fun buf' inp' out' m mcopy hne' hcopy => ?_⟩
  · rw [fftwLocalExtentsInput, fftwLocalExtentsInput, hin]
  · rw [fftwLocalExtentsOutput, fftwLocalExtentsOutput, hout]
  obtain ⟨m', hrun, ht⟩ := execute_transforms fftw hmade.sides hmade.between
    (iff_of_true (rfl : buf' = buf') rfl) m
  obtain ⟨mcopy', hrun', ht'⟩ := execute_transforms fftw hmade'.sides hmade'.between
    (iff_of_false hne' hne) mcopy
  rw [← hin, ← hout, hcopy] at ht'
  exact ⟨m', mcopy', hrun, hrun', fun j hj => ht.unique hmade.sides ht' hj⟩

/-- A complex-to-real plan of one of `2 × 3` processes, long in `n1`. -/
theorem in_place_agrees_c2r :
    ∃ (job : Job .reference) (f g : FftPlan) (w w' : World),
      (job.n0 = 4 ∧ job.n1 = 5 ∧ job.n2 = 3) ∧ (job.pA = 2 ∧ job.pB = 3) ∧ job.howmany = 4 ∧
        job.fftCreate .c2rBackward 1 0 1 0 0 FFTW.ESTIMATE 0 .granting = .ok (some f, w) ∧
        job.fftCreate .c2rBackward 1 0 1 0 1 FFTW.ESTIMATE FFTW_PACKED_NONE .granting =
          .ok (some g, w') ∧
        AgreesWith (.reference .fourier) f g := by
  obtain ⟨job, hn, hp, hhow, -, -⟩ := exists_admitted 4 5 3 2 3 4 0 (by decide)
  have ha : 1 < job.pA := by omega
  have hb : 0 < job.pB := by omega
  have heven : job.howmany % 2 = 0 := by omega
  have hr : FFTW.ESTIMATE.has nonRigorMask = false := by decide
  obtain ⟨f, w, hf⟩ := job.exists_fftCreate ha hb heven .c2rBackward 1 0 0 hr 0
    fun _ => job.accepts_longN1 ha hb _ _
  obtain ⟨g, w', hg⟩ := job.exists_fftCreate ha hb heven .c2rBackward 1 0 1 hr FFTW_PACKED_NONE
    fun _ => job.accepts_longN1 ha hb _ _
  exact ⟨job, f, g, w, w', hn, hp, hhow, hf, hg, in_place_agrees job ha hb heven .c2rBackward 1
    (by decide : (0 : Ptr) ≠ 1) hf hg (.reference .fourier)⟩

end Underling
