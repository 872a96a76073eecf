import Underling.FftAddressing
import Underling.Interleaving
import Underling.Lib.Undoing

/-!
# Underling.Spectral

Transforms and transpositions of all processes one after the other, and the way back.

* `takesBack_move`, `takesBack_fft`: a direction, and a transform, and what takes them back.
* `Journey.takesBack`: so the way there and the way back multiply the data by the lengths of the
  transforms.
* `spectral_round_trip`: starting with a transform of complex or of real fields.
-/

namespace Underling

open Schedule Undoing RowTranspose

variable {α : Type}

section Input

variable {i : Fin 3} {type : TransformType} {inPlace : Prop} {input output : FftwExtents}
  {K : Kernel α} {x x' y : Nat → α}

/-- A transform reads its input at the addresses of the input extents only. -/
theorem Transforms.congr_input (hs : Sides i type inPlace input output)
    (hx : ∀ j, input.InBox j → x' (input.addr j) = x (input.addr j))
    (h : Transforms K type i input output x y) : Transforms K type i input output x' y := by
  have hcomplex : ∀ {n}, ComplexSide input → n = input.size (i.castAdd 2) →
      ∀ j, Lines input i j → (fun m : Fin n => complexLine input i x' j m) =
        fun m : Fin n => complexLine input i x j m := by
    intro n hc hn j hj
    funext m
    exact complexLine_eq hx hj (m.isLt.trans_eq hn) hc.size_four
  cases type with
  | unspecified => exact h
  | c2cForward =>
    intro j hj n
    rw [hcomplex hs.1 rfl j hj, h j hj n]
  | c2cBackward =>
    intro j hj n
    have hline := hcomplex hs.1 rfl j hj
    rw [h j hj n]
    congr 3
    funext m
    exact congrArg Prod.swap (congrFun hline m).symm
  | c2rBackward =>
    intro j hj n
    rw [hcomplex hs.1 hs.2.2.1.half.symm j hj, h j hj n]
  | r2cForward =>
    intro j hj n
    have hline : (fun m : Fin (input.size (i.castAdd 2)) => realLine input i x' j m) =
        fun m : Fin (input.size (i.castAdd 2)) => realLine input i x j m := by
      funext m
      exact realLine_eq hx hj m.isLt (by rw [hs.1.size_four]; exact Nat.one_pos)
    rw [hline, h j hj n]

end Input

/-! ## Directions -/

/-- The direction that takes a direction back. -/
def Move.inverse : Move → Move
  | .n2n1 => .n1n2
  | .n1n0 => .n0n1
  | .n0n1 => .n1n0
  | .n1n2 => .n2n1

theorem Move.source_inverse (move : Move) : move.inverse.source = move.target := by
  cases move <;> rfl

theorem Move.target_inverse (move : Move) : move.inverse.target = move.source := by
  cases move <;> rfl

theorem Decomposition.Linked.map {β : Type} {d : Decomposition}
    {c : Fin 3 → Nat → Nat → Nat → α} (h : d.Linked c) (g : α → β) :
    d.Linked fun i a b k => g (c i a b k) where
  stageA := fun b ht R C k he => congrArg g (h.stageA b ht R C k he)
  stageB := fun a ht R C k he => congrArg g (h.stageB a ht R C k he)

namespace Job

variable {env : Env} (job : Job env)

/-- Every process holds `c` in the buffer `ptr`, up to the extent of its pencil long in `i`. -/
def Shows (i : Fin 3) (ptr : Ptr) (c : Nat → Nat → Nat → α) (mem : Nat → Nat → Mem α) : Prop :=
  ∀ a b, a < job.pA → b < job.pB → ∀ k, k < ((job.problem a b).longN i).extent →
    mem a b ptr k = c a b k

/-- The number of points of the domain in a direction. -/
def points (i : Fin 3) : Nat := (![job.n0, job.n1, job.n2] i).toNat

end Job

/-! ## Plans -/

/-- The execution of an FFT plan on every process. -/
def fftTask (fftw : FftwExec α) (plan : Nat → Nat → FftPlan) (inp out : Ptr) : Task α :=
  .work fun a b m =>
    match fftwPlanExecute fftw (some (plan a b)) (some inp) (some out) m with
    | .ok (_, m') => m'
    | .error _ => m

/-- Every process made a plan with the creator. -/
structure FftPlanned (job : Job env) (c : Creator) (i : Fin 3) (inp out : Ptr)
    (p : Nat → Nat → FftPlan) : Prop where
  even : job.howmany % 2 = 0
  forward : ∀ a b, a < job.pA → b < job.pB → ∃ rigorFlags packedFlags w w',
    job.fftCreate c a b i inp out rigorFlags packedFlags w = .ok (some (p a b), w')

/-- And the plan that inverts it. -/
structure PlannedPair (job : Job env) (c : Creator) (i : Fin 3) (inp out : Ptr)
    (p q : Nat → Nat → FftPlan) : Prop extends FftPlanned job c i inp out p where
  backward : ∀ a b, a < job.pA → b < job.pB → ∃ inp' out' rigorFlags w w',
    (inp' = out' ↔ inp = out) ∧
      fftwPlanCreateInverse env (some (p a b)) (some inp') (some out') rigorFlags w =
        .ok (some (q a b), w')

/-- Every process holds `c` in the buffer `ptr` where its plan reads its input. -/
def ShowsInput (job : Job env) (p : Nat → Nat → FftPlan) (ptr : Ptr) (c : Nat → Nat → Nat → α)
    (mem : Nat → Nat → Mem α) : Prop :=
  ∀ a b, a < job.pA → b < job.pB → ∀ j, (p a b).input.InBox j →
    mem a b ptr ((p a b).input.addr j) = c a b ((p a b).input.addr j)

/-- The logical length of the transform of `n` points of a pencil. -/
def Creator.logical (c : Creator) (n : Nat) : Nat :=
  if c.real then if n = 1 then 1 else 2 * (n - 1) else n

section Plans

variable {env : Env} {job : Job env} {planning : Planning job} {mpi : FftwMpi α}

theorem Job.size_long (job : Job env) {a b : Nat} (ha : a < job.pA) (hb : b < job.pB) (i : Fin 3) :
    ((job.problem a b).longN i).size (i.castAdd 1) = job.points i := by
  rw [job.longN_eq ha hb]
  fin_cases i <;> rfl

theorem Job.points_pos (job : Job env) (i : Fin 3) : 0 < job.points i := by
  rw [← job.size_long job.pA_pos job.pB_pos i]
  exact job.size_long_pos job.pA_pos job.pB_pos i

variable {c : Creator} {i : Fin 3} {inp out x y : Ptr} {p q : Nat → Nat → FftPlan}

theorem Made.length_eq {e : Extents} {rigorFlags packedFlags : Flags} {f : FftPlan}
    (h : Made c e i inp out rigorFlags packedFlags f) (he : e.Pencil i) :
    c.type.length i f.input f.output = c.logical (e.size (i.castAdd 1)) := by
  have hreal : c.real = true → (c.packedSide e i packedFlags).size (i.castAdd 2) =
      c.logical (e.size (i.castAdd 1)) := by
    intro hc
    have hsize : (realExtents (e.adjusted i) (i.castAdd 1)).size (i.castAdd 2) = _ :=
      realExtents_size (k := i.castAdd 1) (Extents.Pencil.long_ne i)
    rw [Creator.logical, if_pos hc, ← (adjusted_spec he).2.2, Creator.packedSide, Creator.side,
      if_pos hc]
    rw [if_pos rfl] at hsize
    split <;> exact hsize
  rw [h.input_eq, h.output_eq]
  cases c with
  | c2cForward => exact complexExtents_domain e i
  | c2cBackward => exact complexExtents_domain e i
  | c2rBackward => exact hreal rfl
  | r2cForward => exact hreal rfl

/-- What is known of the plans of a process. -/
structure PlannedPair.At (job : Job env) (c : Creator) (i : Fin 3) (inp out : Ptr) (a b : Nat)
    (f g : FftPlan) : Prop where
  made : ∃ rigorFlags packedFlags,
    Made c ((job.problem a b).longN i) i inp out rigorFlags packedFlags f
  inverse : ∃ inp' out', (inp' = out' ↔ inp = out) ∧
    MadeBetween c.type.inverse i inp' out' f.output f.input g

theorem PlannedPair.at (h : PlannedPair job c i inp out p q) {a b : Nat} (ha : a < job.pA)
    (hb : b < job.pB) : At job c i inp out a b (p a b) (q a b) := by
  obtain ⟨rigorFlags, packedFlags, w, w', hrun⟩ := h.forward a b ha hb
  obtain ⟨inp', out', rigorFlags', w1, w1', hplace, hinv⟩ := h.backward a b ha hb
  have hmade := Made.of_run ha hb h.even hrun
  exact ⟨⟨_, _, hmade⟩, inp', out', hplace, hmade.madeBetween.inverse_of_run hplace hinv⟩

/-- Both plans run whatever the buffers hold. -/
theorem PlannedPair.execute (h : PlannedPair job c i inp out p q) (hplace : x = y ↔ inp = out)
    (fftw : FftwExec α) {a b : Nat} (ha : a < job.pA) (hb : b < job.pB) (m : Mem α) :
    (∃ m', fftwPlanExecute fftw (some (p a b)) (some x) (some y) m = .ok (none, m') ∧
        Transforms fftw.kernel c.type i (p a b).input (p a b).output (m x) (m' y)) ∧
      ∃ m', fftwPlanExecute fftw (some (q a b)) (some y) (some x) m = .ok (none, m') ∧
        Transforms fftw.kernel c.type.inverse i (p a b).output (p a b).input (m y) (m' x) := by
  obtain ⟨⟨_, _, hmade⟩, inp', out', hplace', hinv⟩ := h.at ha hb
  refine ⟨hmade.madeBetween.execute fftw hplace m, hinv.execute fftw ?_ m⟩
  exact (eq_comm.trans hplace).trans hplace'.symm

theorem perform_fftTask (fftw : FftwExec α) {a b : Nat} (ha : a < job.pA) (hb : b < job.pB)
    {f : Nat → Nat → FftPlan} {mem : Nat → Nat → Mem α} {m' : Mem α}
    (h : fftwPlanExecute fftw (some (f a b)) (some x) (some y) (mem a b) = .ok (none, m')) :
    planning.perform mpi (fftTask fftw f x y) mem a b = m' := by
  unfold Planning.perform fftTask
  rw [if_pos ⟨ha, hb⟩]
  simp only [h]

/-- A complex side is the whole pencil. -/
theorem showsInput_iff (h : PlannedPair job c i inp out p q) (hc : c.real = false)
    (content : Nat → Nat → Nat → α) (mem : Nat → Nat → Mem α) :
    ShowsInput job p x content mem ↔ job.Shows i x content mem := by
  have hbij : ∀ {a b}, a < job.pA → b < job.pB → Set.BijOn (p a b).input.addr
      {j | (p a b).input.InBox j} (Set.Iio ((job.problem a b).longN i).extent) := by
    intro a b ha hb
    obtain ⟨⟨_, _, hmade⟩, -⟩ := h.at ha hb
    have hpencil := (job.pencil ha hb i).ofPencil (job.size_three_even ha hb i h.even)
      ((job.isProblem ha hb).extent_eq i)
    rw [hmade.input_eq]
    cases c with
    | c2cForward => exact hpencil.bijOn
    | c2cBackward => exact hpencil.bijOn
    | c2rBackward => cases hc
    | r2cForward => cases hc
  constructor
  · intro hs a b ha hb k hk
    obtain ⟨j, hj, rfl⟩ := (hbij ha hb).surjOn hk
    exact hs a b ha hb j hj
  · intro hs a b ha hb j hj
    exact hs a b ha hb _ ((hbij ha hb).mapsTo hj)

end Plans

/-! ## Multiples -/

variable [AddMonoid α]

/-- The transforms of multiples are multiples. -/
structure Kernel.Homogeneous (K : Kernel α) : Prop where
  dft_nsmul : ∀ (k n : Nat) v, K.dft n (k • v) = k • K.dft n v
  r2c_nsmul : ∀ (k n : Nat) v, K.r2c n (k • v) = k • K.r2c n v

theorem Kernel.fourier_homogeneous : Kernel.fourier.Homogeneous where
  dft_nsmul := fun k _ v => Fourier.dft_nsmul k v
  r2c_nsmul := fun k _ v => Fourier.r2c_nsmul k v

theorem complexLine_nsmul (e : FftwExtents) (i : Fin 3) (k : Nat) (x : Nat → α) (j : Fin 5 → Nat)
    (m : Nat) : complexLine e i (k • x) j m = k • complexLine e i x j m := rfl

section Transforms

variable {i : Fin 3} {type : TransformType} {inPlace : Prop} {input output : FftwExtents}
  {K : Kernel α} {x y z : Nat → α}

theorem Transforms.nsmul (hK : K.Homogeneous) (htype : type ≠ .c2rBackward) (k : Nat)
    (h : Transforms K type i input output x y) :
    Transforms K type i input output (k • x) (k • y) := by
  cases type with
  | unspecified => exact h
  | c2cForward =>
    intro j hj n
    have hline : (fun n : Fin (input.size (i.castAdd 2)) => complexLine input i (k • x) j n) =
        k • fun n : Fin (input.size (i.castAdd 2)) => complexLine input i x j n := rfl
    rw [complexLine_nsmul, hline, hK.dft_nsmul, h j hj n]
    rfl
  | c2cBackward =>
    intro j hj n
    have hline : (fun n : Fin (input.size (i.castAdd 2)) =>
        (complexLine input i (k • x) j n).swap) =
        k • fun n : Fin (input.size (i.castAdd 2)) => (complexLine input i x j n).swap := rfl
    rw [complexLine_nsmul, hline, hK.dft_nsmul, h j hj n]
    rfl
  | c2rBackward => exact absurd rfl htype
  | r2cForward =>
    intro j hj n
    have hline : (fun n : Fin (input.size (i.castAdd 2)) => realLine input i (k • x) j n) =
        k • fun n : Fin (input.size (i.castAdd 2)) => realLine input i x j n := rfl
    rw [complexLine_nsmul, hline, hK.r2c_nsmul, h j hj n]
    rfl

/-- The way back from a multiple of a transform. -/
theorem Transforms.round_trip_nsmul (hK : K.Inverts) (hH : K.Homogeneous)
    (hs : Sides i type inPlace input output) (htype : type ≠ .c2rBackward)
    (h : Transforms K type i input output x y) {k : Nat} {y' : Nat → α}
    (hy : ∀ j, output.InBox j → y' (output.addr j) = k • y (output.addr j))
    (hback : Transforms K type.inverse i output input y' z) {j : Fin 5 → Nat}
    (hj : input.InBox j) :
    z (input.addr j) = (k * type.length i input output) • x (input.addr j) := by
  have hback' : Transforms K type.inverse i output input (k • y) z :=
    hback.congr_input hs.inverse fun j hj => (hy j hj).symm
  rw [(h.nsmul hH htype k).round_trip hK hs hback' (fun hc => absurd hc htype) hj, mul_nsmul]
  rfl

end Transforms

/-! ## Stages and the ways back -/

section Stages

variable {env : Env} {job : Job env} (planning : Planning job) (mpi : FftwMpi α)

theorem takesBack_move {inp out : Ptr} (hp : planning.Placed inp out) (move : Move) :
    TakesBack (job.Shows move.source inp) (job.Shows move.target out)
      (planning.perform mpi (.execute ⟨move, inp, out⟩))
      (planning.perform mpi (.execute ⟨move.inverse, out, inp⟩)) 1 := by
  intro c mem hc
  obtain ⟨linked, hlinked, hsource⟩ := job.decomp.exists_linked move.source c
  have hstart : Planning.Follows job linked move.source inp mem := by
    intro a b ha hb k hk
    rw [hsource]
    exact hc a b ha hb k hk
  refine ⟨linked move.target, planning.perform_follows hlinked (s := ⟨move, out⟩) hp hstart, ?_⟩
  intro k t ht
  have hmultiple := hlinked.map fun v => k • v
  have hback : planning.Placed out inp := hp.trans eq_comm
  have hfollows : Planning.Follows job (fun i a b l => k • linked i a b l) move.inverse.source out
      t := by
    rw [move.source_inverse]
    exact ht
  have hend : Planning.Follows job _ move.inverse.target inp
      (planning.perform mpi (.execute ⟨move.inverse, out, inp⟩) t) :=
    planning.perform_follows hmultiple (s := ⟨move.inverse, inp⟩) hback hfollows
  intro a b ha hb l hl
  have hval := hend a b ha hb l
  simp only [move.target_inverse, hsource] at hval
  rw [Nat.mul_one]
  exact hval hl

variable {planning mpi} {c : Creator} {i : Fin 3} {inp out x y : Ptr} {p q : Nat → Nat → FftPlan}

/-- A transform of complex or of real fields, and its inverse. -/
theorem takesBack_fft (h : PlannedPair job c i inp out p q) (hplace : x = y ↔ inp = out)
    (hc : c ≠ .c2rBackward) (fftw : FftwExec α) (hK : fftw.kernel.Inverts)
    (hH : fftw.kernel.Homogeneous) :
    TakesBack (ShowsInput job p x) (job.Shows i y) (planning.perform mpi (fftTask fftw p x y))
      (planning.perform mpi (fftTask fftw q y x)) (c.logical (job.points i)) := by
  intro content mem hcontent
  let mem' := planning.perform mpi (fftTask fftw p x y) mem
  refine ⟨fun a b => mem' a b y, fun a b _ _ k _ => rfl, fun k t ht a b ha hb j hj => ?_⟩
  obtain ⟨⟨m', hrun, hthere⟩, -⟩ := h.execute hplace fftw ha hb (mem a b)
  obtain ⟨-, m'', hrun', hback⟩ := h.execute hplace fftw ha hb (t a b)
  obtain ⟨⟨rigorFlags, packedFlags, hmade⟩, -⟩ := h.at ha hb
  have he := job.pencil ha hb i
  have hmem : mem' a b = m' := perform_fftTask fftw ha hb hrun
  have htype : c.type ≠ .c2rBackward := by cases c <;> simp [Creator.type] at hc ⊢
  -- the output of the plan lies in the pencil
  obtain ⟨hin, hout⟩ := c.rooms he (job.size_three_even ha hb i h.even) packedFlags
  rw [← (job.isProblem ha hb).extent_eq i, ← hmade.input_eq] at hin
  rw [← (job.isProblem ha hb).extent_eq i, ← hmade.output_eq] at hout
  obtain ⟨-, hpencil⟩ := hmade.sides.collisionless hin hout
  have hdata : ∀ j, (p a b).output.InBox j →
      t a b y ((p a b).output.addr j) = k • m' y ((p a b).output.addr j) := by
    intro j hj
    rw [← hmem]
    exact ht a b ha hb _ (hpencil.mapsTo hj)
  rw [perform_fftTask fftw ha hb hrun']
  have hval := hthere.round_trip_nsmul hK hH hmade.sides htype hdata hback hj
  rw [hmade.length_eq he, job.size_long ha hb] at hval
  exact hval.trans (congrArg _ (hcontent a b ha hb j hj))

end Stages

/-! ## Journeys -/

/-- Tasks that take the data long in `i` in the buffer `ptr` to long in `j` in the buffer `last` by
directions and complex transforms, the tasks that take it back, and the product of the lengths of
the transforms. -/
inductive Journey {env : Env} {job : Job env} (planning : Planning job) (fftw : FftwExec α) :
    Fin 3 → Ptr → List (Task α) → List (Task α) → Nat → Fin 3 → Ptr → Prop where
  | here {i : Fin 3} {ptr : Ptr} : Journey planning fftw i ptr [] [] 1 i ptr
  | move {move : Move} {ptr out last : Ptr} {there back : List (Task α)} {n : Nat} {j : Fin 3} :
      planning.Placed ptr out → Journey planning fftw move.target out there back n j last →
      Journey planning fftw move.source ptr (.execute ⟨move, ptr, out⟩ :: there)
        (back ++ [.execute ⟨move.inverse, out, ptr⟩]) n j last
  | fft {c : Creator} {i : Fin 3} {inp out ptr out' last : Ptr} {p q : Nat → Nat → FftPlan}
      {there back : List (Task α)} {n : Nat} {j : Fin 3} :
      PlannedPair job c i inp out p q → c.real = false → (ptr = out' ↔ inp = out) →
      Journey planning fftw i out' there back n j last →
      Journey planning fftw i ptr (fftTask fftw p ptr out' :: there)
        (back ++ [fftTask fftw q out' ptr]) (n * job.points i) j last

section Journeys

variable {env : Env} {job : Job env} {planning : Planning job} (mpi : FftwMpi α)
  {fftw : FftwExec α}

theorem Journey.takesBack (hK : fftw.kernel.Inverts) (hH : fftw.kernel.Homogeneous)
    {i j : Fin 3} {ptr last : Ptr} {there back : List (Task α)} {n : Nat}
    (h : Journey planning fftw i ptr there back n j last) :
    TakesBack (job.Shows i ptr) (job.Shows j last) (runAll (planning.perform mpi) there)
      (runAll (planning.perform mpi) back) n := by
  induction h with
  | here => exact .refl _
  | move hp _ ih =>
    have hstage := (takesBack_move planning mpi hp _).runAll_cons ih
    rwa [Nat.mul_one] at hstage
  | @fft c i inp out ptr out' last p q there back n j hpair hc hplace _ ih =>
    have hlen : c.logical (job.points i) = job.points i := if_neg (by rw [hc]; decide)
    have hne : c ≠ .c2rBackward := by
      rintro rfl
      cases hc
    have hfft : TakesBack _ _ (planning.perform mpi (fftTask fftw p ptr out')) _ _ :=
      takesBack_fft hpair hplace hne fftw hK hH
    rw [hlen] at hfft
    exact (hfft.congr_left (showsInput_iff hpair hc)).runAll_cons ih

/-- A transform of complex or of real fields, a journey, and the way back. -/
theorem Journey.round_trip (hK : fftw.kernel.Inverts) (hH : fftw.kernel.Homogeneous)
    {c : Creator} (hc : c ≠ .c2rBackward) {i j : Fin 3} {inp out x y last : Ptr}
    {p q : Nat → Nat → FftPlan} (hpair : PlannedPair job c i inp out p q)
    (hplace : x = y ↔ inp = out) {there back : List (Task α)} {n : Nat}
    (h : Journey planning fftw i y there back n j last) :
    TakesBack (ShowsInput job p x) (job.Shows j last)
      (runAll (planning.perform mpi) (fftTask fftw p x y :: there))
      (runAll (planning.perform mpi) (back ++ [fftTask fftw q y x]))
      (n * c.logical (job.points i)) :=
  (takesBack_fft hpair hplace hc fftw hK hH).runAll_cons (h.takesBack mpi hK hH)

end Journeys

/-- Every process gets a plan and its inverse when nothing is refused and the extents suit. -/
theorem exists_plans {env : Env} (job : Job env) (heven : job.howmany % 2 = 0) (c : Creator)
    (i : Fin 3) (inp out : Ptr) {rigorFlags rigorFlags' : Flags}
    (hr : rigorFlags.has nonRigorMask = false) (hr' : rigorFlags'.has nonRigorMask = false)
    (packedFlags : Flags) (haccepts : ∀ a b, a < job.pA → b < job.pB → inp = out →
      c.Accepts ((job.problem a b).longN i) i packedFlags) :
    ∃ p q : Nat → Nat → FftPlan, ∀ a b, a < job.pA → b < job.pB → ∃ w w1,
      job.fftCreate c a b i inp out rigorFlags packedFlags .granting = .ok (some (p a b), w) ∧
        fftwPlanCreateInverse env (some (p a b)) (some inp) (some out) rigorFlags' .granting =
          .ok (some (q a b), w1) := by
  have hproc : ∀ {a b}, a < job.pA → b < job.pB → ∃ f g w w1,
      job.fftCreate c a b i inp out rigorFlags packedFlags .granting = .ok (some f, w) ∧
        fftwPlanCreateInverse env (some f) (some inp) (some out) rigorFlags' .granting =
          .ok (some g, w1) := by
    intro a b ha hb
    obtain ⟨f, w, hrun⟩ := job.exists_fftCreate ha hb heven c i inp out hr packedFlags
      (haccepts a b ha hb)
    obtain ⟨o, w1, hmade, hinv⟩ := (Made.of_run ha hb heven hrun).madeBetween.createInverse_ends
      env (Iff.rfl : inp = out ↔ inp = out) rigorFlags' .granting
    obtain ⟨g, rfl⟩ := Option.isSome_iff_exists.mp (hmade.complete World.granting_granted hr')
    exact ⟨f, g, w, w1, hrun, hinv⟩
  have hall : ∀ a b, ∃ f g, a < job.pA → b < job.pB → ∃ w w1,
      job.fftCreate c a b i inp out rigorFlags packedFlags .granting = .ok (some f, w) ∧
        fftwPlanCreateInverse env (some f) (some inp) (some out) rigorFlags' .granting =
          .ok (some g, w1) := by
    intro a b
    by_cases hab : a < job.pA ∧ b < job.pB
    · obtain ⟨f, g, w, w1, h⟩ := hproc hab.1 hab.2
      exact ⟨f, g, fun _ _ => ⟨w, w1, h⟩⟩
    · obtain ⟨f, g, -⟩ := hproc job.pA_pos job.pB_pos
      exact ⟨f, g, fun ha hb => absurd ⟨ha, hb⟩ hab⟩
  choose p q h using hall
  exact ⟨p, q, h⟩

theorem PlannedPair.of_plans {env : Env} {job : Job env} (heven : job.howmany % 2 = 0) {c : Creator}
    {i : Fin 3} {inp out : Ptr} {rigorFlags rigorFlags' packedFlags : Flags}
    {p q : Nat → Nat → FftPlan} (h : ∀ a b, a < job.pA → b < job.pB → ∃ w w1,
      job.fftCreate c a b i inp out rigorFlags packedFlags .granting = .ok (some (p a b), w) ∧
        fftwPlanCreateInverse env (some (p a b)) (some inp) (some out) rigorFlags' .granting =
          .ok (some (q a b), w1)) : PlannedPair job c i inp out p q := by
  refine ⟨⟨heven, fun a b ha hb => ?_⟩, fun a b ha hb => ?_⟩
  · obtain ⟨w, -, hrun, -⟩ := h a b ha hb
    exact ⟨_, _, _, w, hrun⟩
  · obtain ⟨-, w1, -, hinv⟩ := h a b ha hb
    exact ⟨inp, out, _, _, w1, Iff.rfl, hinv⟩

theorem exists_plannedPair {env : Env} (job : Job env) (heven : job.howmany % 2 = 0) (c : Creator)
    (i : Fin 3) (inp out : Ptr) (packedFlags : Flags)
    (haccepts : ∀ a b, a < job.pA → b < job.pB → inp = out →
      c.Accepts ((job.problem a b).longN i) i packedFlags) :
    ∃ p q, PlannedPair job c i inp out p q := by
  have hr : FFTW.ESTIMATE.has nonRigorMask = false := by decide
  obtain ⟨p, q, h⟩ := exists_plans job heven c i inp out hr hr packedFlags haccepts
  exact ⟨p, q, .of_plans heven h⟩

/-- However the processes interleave, a transform of complex or of real fields, any journey from its
output, and the way back multiply the data at its input by the lengths of the transforms. -/
theorem spectral_round_trip {env : Env} {job : Job env} (planning : Planning job) (mpi : FftwMpi α)
    (fftw : FftwExec α) (hK : fftw.kernel.Inverts) (hH : fftw.kernel.Homogeneous)
    {c : Creator} (hc : c ≠ .c2rBackward) {i j : Fin 3} {inp out x y last : Ptr}
    {p q : Nat → Nat → FftPlan} (hpair : PlannedPair job c i inp out p q)
    (hplace : x = y ↔ inp = out) {there back : List (Task α)} {n : Nat}
    (hjourney : Journey planning fftw i y there back n j last) (mem : Nat → Nat → Mem α)
    {fired : List (Event α)} {s : Collectives.State job.Proc (Event α) (Mem α)}
    (hrun : (planning.system mpi mem).Run
      (planning.launch ((fftTask fftw p x y :: there) ++ (back ++ [fftTask fftw q y x])) mem)
      fired s)
    (hs : s.Finished) :
    ∀ (r : job.Proc) (k : Fin 5 → Nat), (p r.1 r.2).input.InBox k →
      s.data r x ((p r.1 r.2).input.addr k) =
        (n * c.logical (job.points i)) • mem r.1 r.2 x ((p r.1 r.2).input.addr k) := by
  intro r k hk
  have hstart : ShowsInput job p x (fun a b => mem a b x) mem := fun a b _ _ j _ => rfl
  have hback := (hjourney.round_trip mpi hK hH hc hpair hplace).round_trip hstart
  rw [planning.run_settles hrun hs r, runAll_append]
  exact hback r.1 r.2 r.1.isLt r.2.isLt k hk

/-- Real fields on `2 × 3` processes, transformed in all three directions between two buffers, with
both storage flags and packed storage. -/
theorem spectral_round_trip_six :
    ∃ (job : Job .reference) (planning : Planning job) (p q p1 q1 p0 q0 : Nat → Nat → FftPlan),
      (job.n0 = 4 ∧ job.n1 = 5 ∧ job.n2 = 3) ∧ (job.pA = 2 ∧ job.pB = 3) ∧ job.howmany = 4 ∧
      PlannedPair job .r2cForward 2 0 1 p q ∧
      ∀ mem : Nat → Nat → Mem ℝ,
        let fftw : FftwExec ℝ := .reference .fourier
        ∃ fired s, (planning.system FftwMpi.reference mem).Run (planning.launch
            ([fftTask fftw p 0 1, .execute ⟨.n2n1, 1, 0⟩, fftTask fftw p1 0 1,
                .execute ⟨.n1n0, 1, 0⟩, fftTask fftw p0 0 1] ++
              [fftTask fftw q0 1 0, .execute ⟨.n0n1, 0, 1⟩, fftTask fftw q1 1 0,
                .execute ⟨.n1n2, 0, 1⟩, fftTask fftw q 1 0]) mem) fired s ∧
          ∀ (r : job.Proc) (k : Fin 5 → Nat), (p r.1 r.2).input.InBox k →
            s.data r 0 ((p r.1 r.2).input.addr k) =
              (1 * job.points 0 * job.points 1 * Creator.r2cForward.logical (job.points 2)) •
                mem r.1 r.2 0 ((p r.1 r.2).input.addr k) := by
  obtain ⟨job, planning, hn, hp, hhow, -, hi, ho⟩ :=
    exists_planned 4 5 3 2 3 4 (TRANSPOSED_LONG_N2 ||| TRANSPOSED_LONG_N0) 0 1 (by decide)
  have heven : job.howmany % 2 = 0 := by omega
  have hout : ∀ {x y : Ptr}, x ≠ y → planning.Placed x y := by
    intro x y hxy
    unfold Planning.Placed
    rw [hi, ho]
    exact iff_of_false (by decide) hxy
  have hapart : ∀ {c : Creator} {i : Fin 3} {flags : Flags} a b, a < job.pA → b < job.pB →
      (0 : Ptr) = 1 → c.Accepts ((job.problem a b).longN i) i flags :=
    fun _ _ _ _ h => absurd h (by decide)
  obtain ⟨p, q, h2⟩ := exists_plannedPair job heven .r2cForward 2 0 1 FFTW_PACKED_LONG_N2 hapart
  obtain ⟨p1, q1, h1⟩ := exists_plannedPair job heven .c2cForward 1 0 1 0 hapart
  obtain ⟨p0, q0, h0⟩ := exists_plannedPair job heven .c2cForward 0 0 1 FFTW_PACKED_LONG_N0 hapart
  refine ⟨job, planning, p, q, p1, q1, p0, q0, hn, hp, hhow, h2, fun mem => ?_⟩
  intro fftw
  have h10 : planning.Placed 1 0 := hout (by decide)
  have hn0 : Journey planning fftw (Move.target .n1n0) 0 _ _ _ 0 1 :=
    .fft h0 rfl (by decide) .here
  have hn1 : Journey planning fftw (Move.target .n2n1) 0 _ _ _ 0 1 :=
    .fft h1 rfl (by decide) (.move h10 hn0)
  have hjourney : Journey planning fftw 2 1 _ _ (1 * job.points 0 * job.points 1) 0 1 :=
    .move h10 hn1
  obtain ⟨fired, s, hrun, hs⟩ := planning.exists_run FftwMpi.reference
    ([fftTask fftw p 0 1, .execute ⟨.n2n1, 1, 0⟩, fftTask fftw p1 0 1,
        .execute ⟨.n1n0, 1, 0⟩, fftTask fftw p0 0 1] ++
      [fftTask fftw q0 1 0, .execute ⟨.n0n1, 0, 1⟩, fftTask fftw q1 1 0,
        .execute ⟨.n1n2, 0, 1⟩, fftTask fftw q 1 0]) mem
  refine ⟨fired, s, hrun, ?_⟩
  exact spectral_round_trip planning FftwMpi.reference fftw Kernel.fourier_inverts
    Kernel.fourier_homogeneous (by decide) h2 (by decide) hjourney mem hrun hs

end Underling
