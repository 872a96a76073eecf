import Underling.Creators
import Underling.Handles

/-!
# Underling.PencilPlans

The FFT plans for the pencils of a job.

* `Job.pencil`: the pencils of a job are what the creators work on.
* `Job.fftCreate_ends`: a creator called on a process of a job ends without a fault, with a plan
  when nothing is refused. `Made.of_run` says what is known of a plan it returned.
* `Made.shaped`: the sizes of the two sides of a plan, by those of the pencil.
-/

namespace Underling

open Runs C Strided

namespace Job

variable {env : Env} (job : Job env) {a b : Nat}

theorem pencil (ha : a < job.pA) (hb : b < job.pB) (i : Fin 3) :
    ((job.problem a b).longN i).Pencil i :=
  (job.isProblem ha hb).pencil i

theorem size_three (ha : a < job.pA) (hb : b < job.pB) (i : Fin 3) :
    ((job.problem a b).longN i).size 3 = job.howmany.toNat :=
  ((job.isProblem ha hb).size_three i).trans (job.howmany_eq ha hb)

theorem size_three_even (ha : a < job.pA) (hb : b < job.pB) (i : Fin 3)
    (heven : job.howmany % 2 = 0) : ((job.problem a b).longN i).size 3 % 2 = 0 := by
  have := (job.created ha hb).howmany_nonneg
  rw [job.size_three ha hb]
  omega

theorem size_long_pos (ha : a < job.pA) (hb : b < job.pB) (i : Fin 3) :
    0 < ((job.problem a b).longN i).size (i.castAdd 1) :=
  (job.isProblem ha hb).size_long_pos i

/-- A call of a creator by a process of a job. -/
def fftCreate (c : Creator) (a b : Nat) (i : Fin 3) (inp out : Ptr)
    (rigorFlags packedFlags : Flags) : C (Option FftPlan) :=
  c.create env (some (job.problem a b)) (i : Nat) (some inp) (some out) rigorFlags packedFlags

end Job

/-- A plan that a creator made for the pencil `e`. -/
structure Made (c : Creator) (e : Extents) (i : Fin 3) (inp out : Ptr)
    (rigorFlags packedFlags : Flags) (f : FftPlan) : Prop where
  accepts : inp = out → c.Accepts e i packedFlags
  input_eq : f.input = c.input e i packedFlags
  output_eq : f.output = c.output e i packedFlags
  sides : Sides i c.type (inp = out) f.input f.output
  between : PlanBetween c.type i inp out f.input f.output rigorFlags f

theorem Made.type_eq {c : Creator} {e : Extents} {i : Fin 3} {inp out : Ptr}
    {rigorFlags packedFlags : Flags} {f : FftPlan}
    (h : Made c e i inp out rigorFlags packedFlags f) : f.type = c.type ∧ f.longNi = i := by
  obtain ⟨k1, k2, -, hf⟩ := h.between
  exact ⟨hf.type_eq, hf.longNi_eq⟩

/-! ## Sizes -/

/-- The lengths of the lines of the two sides, for a pencil of length `n`. -/
def TransformType.lengths (n nIn nOut : Nat) : TransformType → Prop
  | .c2cForward | .c2cBackward => nIn = n ∧ nOut = n
  | .c2rBackward => nIn = n ∧ n = nOut / 2 + 1
  | .r2cForward => n = nIn / 2 + 1 ∧ nOut = n
  | .unspecified => False

def TransformType.parts : TransformType → Nat × Nat
  | .c2cForward | .c2cBackward => (2, 2)
  | .c2rBackward => (2, 1)
  | .r2cForward => (1, 2)
  | .unspecified => (0, 0)

/-- The sizes of the two sides of a transform of the pencil `e`. -/
structure Shaped (type : TransformType) (i : Fin 3) (e : Extents) (input output : FftwExtents) :
    Prop where
  across : ∀ k : Fin 3, k ≠ i → input.size (k.castAdd 2) = e.size (k.castAdd 1) ∧
    output.size (k.castAdd 2) = e.size (k.castAdd 1)
  fields : input.size 3 = e.size 3 / 2 ∧ output.size 3 = e.size 3 / 2
  along : type.lengths (e.size (i.castAdd 1)) (input.size (i.castAdd 2)) (output.size (i.castAdd 2))
  parts : (input.size 4, output.size 4) = type.parts

theorem complexExtents_domain (e : Extents) (k : Fin 3) :
    (complexExtents e).size (k.castAdd 2) = e.size (k.castAdd 1) :=
  complexExtents_size (Extents.Pencil.long_ne k)

theorem complexExtents_three (e : Extents) : (complexExtents e).size 3 = e.size 3 / 2 := by
  simp [complexExtents]

theorem castAdd_ne {k i : Fin 3} (h : k ≠ i) : (k.castAdd 2 : Fin 5) ≠ i.castAdd 2 :=
  fun heq => h (Fin.castAdd_injective 3 2 heq)

section Shaped

variable {i : Fin 3} {e : Extents} {r : FftwExtents}

theorem real_sizes (hh : Halves i (complexExtents e) r) :
    (∀ k : Fin 3, k ≠ i → r.size (k.castAdd 2) = e.size (k.castAdd 1)) ∧ r.size 3 = e.size 3 / 2 ∧
      e.size (i.castAdd 1) = r.size (i.castAdd 2) / 2 + 1 := by
  refine ⟨fun k hk => ?_, ?_, ?_⟩
  · rw [hh.size_eq _ (castAdd_ne hk) (four_ne_long k).symm, complexExtents_domain]
  · rw [hh.size_eq 3 (three_ne_long i) (by decide), complexExtents_three]
  · rw [← complexExtents_domain, hh.half]

theorem complex_shaped {type : TransformType} (htype : type = .c2cForward ∨ type = .c2cBackward)
    {output : FftwExtents} (hsize : output.size = (complexExtents e).size) :
    Shaped type i e (complexExtents e) output := by
  have hdomain := complexExtents_domain e
  refine ⟨fun k _ => ?_, ?_, ?_, ?_⟩
  · rw [hsize, hdomain]
    exact ⟨rfl, rfl⟩
  · rw [hsize, complexExtents_three]
    exact ⟨rfl, rfl⟩
  · rw [hsize, hdomain]
    rcases htype with rfl | rfl <;> exact ⟨rfl, rfl⟩
  · rw [hsize]
    rcases htype with rfl | rfl <;> rfl

theorem Creator.shaped (c : Creator) {packedFlags : Flags} {inPlace : Prop}
    (hs : Sides i c.type inPlace (c.input e i packedFlags) (c.output e i packedFlags)) :
    Shaped c.type i e (c.input e i packedFlags) (c.output e i packedFlags) := by
  have hdomain := complexExtents_domain e
  have hthree := complexExtents_three e
  cases c with
  | c2cForward => exact complex_shaped (.inl rfl) hs.2.2.1
  | c2cBackward => exact complex_shaped (.inr rfl) hs.2.2.1
  | c2rBackward =>
    obtain ⟨hacross, hfields, hlong⟩ := real_sizes (e := e) hs.2.2.1
    exact ⟨fun k hk => ⟨hdomain k, hacross k hk⟩, ⟨hthree, hfields⟩, ⟨hdomain i, hlong⟩,
      Prod.ext rfl hs.2.1.size_four⟩
  | r2cForward =>
    obtain ⟨hacross, hfields, hlong⟩ := real_sizes (e := e) hs.2.2.1
    exact ⟨fun k hk => ⟨hacross k hk, hdomain k⟩, ⟨hfields, hthree⟩, ⟨hlong, hdomain i⟩,
      Prod.ext hs.1.size_four rfl⟩

theorem Made.shaped {c : Creator} {inp out : Ptr} {rigorFlags packedFlags : Flags} {f : FftPlan}
    (h : Made c e i inp out rigorFlags packedFlags f) :
    Shaped c.type i e f.input f.output := by
  have hs := h.sides
  rw [h.input_eq, h.output_eq] at hs ⊢
  exact c.shaped hs

end Shaped

section Runs

variable {env : Env} {job : Job env} {a b : Nat} {w : World}

theorem Job.fftCreate_ends (job : Job env) (ha : a < job.pA) (hb : b < job.pB)
    (heven : job.howmany % 2 = 0) (c : Creator) (i : Fin 3) (inp out : Ptr)
    (rigorFlags packedFlags : Flags) (w : World) :
    Ends (job.fftCreate c a b i inp out rigorFlags packedFlags) w
      (FftCreated rigorFlags
        (Made c ((job.problem a b).longN i) i inp out rigorFlags packedFlags)
        (w.Granted ∧ (inp = out → c.Accepts ((job.problem a b).longN i) i packedFlags))) := by
  have he := job.pencil ha hb i
  have heven' := job.size_three_even ha hb i heven
  have hpos := job.size_long_pos ha hb i
  refine (creator_ends (G := w.Granted) id c he heven' hpos inp out rigorFlags
    packedFlags).mono fun o w' hc => ⟨fun f hf => ⟨?_, (hc.sound f hf).2⟩, hc.complete⟩
  obtain ⟨hacc, k1, k2, ho, hplan⟩ := (hc.sound f hf).1
  refine ⟨hacc, hplan.input_eq, hplan.output_eq, ?_, k1, k2, ho, ?_⟩
  · rw [hplan.input_eq, hplan.output_eq]
    exact c.sides he heven' hpos hacc
  · rw [hplan.input_eq, hplan.output_eq]
    exact hplan

theorem Made.of_run {c : Creator} {i : Fin 3} {inp out : Ptr} {rigorFlags packedFlags : Flags}
    {f : FftPlan} {w' : World} (ha : a < job.pA) (hb : b < job.pB) (heven : job.howmany % 2 = 0)
    (h : job.fftCreate c a b i inp out rigorFlags packedFlags w = .ok (some f, w')) :
    Made c ((job.problem a b).longN i) i inp out rigorFlags packedFlags f := by
  have hc : FftCreated .. :=
    (job.fftCreate_ends ha hb heven c i inp out rigorFlags packedFlags w).of_run h
  exact (hc.sound f rfl).1

theorem Job.exists_fftCreate (job : Job env) (ha : a < job.pA) (hb : b < job.pB)
    (heven : job.howmany % 2 = 0) (c : Creator) (i : Fin 3) (inp out : Ptr)
    {rigorFlags : Flags} (hr : rigorFlags.has nonRigorMask = false) (packedFlags : Flags)
    (haccepts : inp = out → c.Accepts ((job.problem a b).longN i) i packedFlags) :
    ∃ f w', job.fftCreate c a b i inp out rigorFlags packedFlags .granting = .ok (some f, w') := by
  obtain ⟨o, w', hrun, hc⟩ :=
    job.fftCreate_ends ha hb heven c i inp out rigorFlags packedFlags .granting
  obtain ⟨f, rfl⟩ :=
    Option.isSome_iff_exists.mp (hc.complete ⟨World.granting_granted, haccepts⟩ hr)
  exact ⟨f, w', hrun⟩

/-- Long in `n1` the fields are followed by the long direction, so real transforms are accepted. -/
theorem Job.accepts_longN1 (job : Job env) (ha : a < job.pA) (hb : b < job.pB) (c : Creator)
    (packedFlags : Flags) : c.Accepts ((job.problem a b).longN 1) 1 packedFlags := by
  refine ⟨by simp [Packs], fun _ => ?_⟩
  rw [job.longN_eq ha hb]
  rfl

end Runs

end Underling
