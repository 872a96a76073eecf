import Underling.Bookkeeping
import Underling.CheckField
import Underling.Maxloc
import Underling.Spectral

/-!
# Underling.BenchRun

The main loop of `underling_bench` on all processes: the calls it makes on the buffers, the
normalization, and the check after it. Arithmetic is exact.

* `Details.tasks_mainLoop`: with one field the indices of the main loop lead to the calls of a way
  there and a way back, again and again.
* `bench_restores`: so the check finds the numbers it stored, however the processes interleave.
-/

namespace Underling

open Reductions Schedule Strided Undoing

-- Stages are literals of `Fin 10`.
instance neZero_ten : NeZero 10 := ⟨by decide⟩

namespace Details

variable (d : Details) {α : Type}

/-- The calls the actions make, given what a stage does between two buffers and the normalization.
The buffers are `f[0]`, `f[1]` and so on. -/
def tasks (exec : StageWork → Ptr → Ptr → Task α) (normalise : Task α) :
    List Action → (Nat → Int) → List (Task α)
  | [], _ => []
  | .reset start :: as, _ => tasks exec normalise as start
  | .sweep i :: as, o =>
    (d.sweepMoves i o).map (fun c => exec (work i) c.1.toNat c.2.toNat) ++
      tasks exec normalise as o
  | .advance i :: as, o => tasks exec normalise as fun j => o j + d.move i
  | .normalise :: as, o => normalise :: tasks exec normalise as o

/-- The buffer of the only field before stage `k`. -/
def buffer (k : Nat) : Ptr := (d.accumulated k).toNat

/-- What is executed in stage `i`, if anything. -/
def stageTask (exec : StageWork → Ptr → Ptr → Task α) (i : Fin 10) (made : Bool) : List (Task α) :=
  if made then [exec (work i) (d.buffer i) (d.buffer (i + 1))] else []

/-- The stages of the way there after the transform along `n2`. -/
def thereRest (exec : StageWork → Ptr → Ptr → Task α) : List (Task α) :=
  d.stageTask exec 1 true ++ d.stageTask exec 2 (d.planned 1) ++ d.stageTask exec 3 true ++
    d.stageTask exec 4 (d.planned 0)

def thereTasks (exec : StageWork → Ptr → Ptr → Task α) : List (Task α) :=
  d.stageTask exec 0 (d.planned 2) ++ d.thereRest exec

/-- The stages of the way back before the transform along `n2`. -/
def backRest (exec : StageWork → Ptr → Ptr → Task α) : List (Task α) :=
  d.stageTask exec 5 (d.planned 0) ++ d.stageTask exec 6 true ++
    d.stageTask exec 7 (d.planned 1) ++ d.stageTask exec 8 true

def backTasks (exec : StageWork → Ptr → Ptr → Task α) : List (Task α) :=
  d.backRest exec ++ d.stageTask exec 9 (d.planned 2)

variable {d} {exec : StageWork → Ptr → Ptr → Task α} {normalise : Task α}

/-- From the index of stage `i` the actions make the calls `ts` and end with the index of stage
`j`. -/
def Emits (d : Details) (exec : StageWork → Ptr → Ptr → Task α) (normalise : Task α)
    (as : List Action) (i : Nat) (ts : List (Task α)) (j : Nat) : Prop :=
  ∀ o rest, o 0 = d.accumulated i → ∃ o', o' 0 = d.accumulated j ∧
    d.tasks exec normalise (as ++ rest) o = ts ++ d.tasks exec normalise rest o'

theorem Emits.append {as bs : List Action} {ts us : List (Task α)} {i j k : Nat}
    (h : d.Emits exec normalise as i ts j) (h' : d.Emits exec normalise bs j us k) :
    d.Emits exec normalise (as ++ bs) i (ts ++ us) k := by
  intro o rest ho
  obtain ⟨o1, ho1, h1⟩ := h o (bs ++ rest) ho
  obtain ⟨o2, ho2, h2⟩ := h' o1 rest ho1
  refine ⟨o2, ho2, ?_⟩
  rw [List.append_assoc, h1, h2, List.append_assoc]

theorem tasks_sweep (hn : d.nfields = 1) (i : Fin 10) {o : Nat → Int} (ho : o 0 = d.accumulated i)
    (as : List Action) : d.tasks exec normalise (.sweep i :: as) o =
      exec (work i) (d.buffer i) (d.buffer (i + 1)) :: d.tasks exec normalise as o := by
  have horder : d.order i 0 = 0 := by
    unfold order
    rw [hn]
    split <;> rfl
  simp [tasks, sweepMoves, hn, horder, ho, buffer, accumulated_succ]

theorem Emits.stage (hn : d.nfields = 1) (i : Fin 10) :
    d.Emits exec normalise [.sweep i, .advance i] i (d.stageTask exec i true) (i + 1) := by
  intro o rest ho
  refine ⟨fun j => o j + d.move i, ?_, ?_⟩
  · show o 0 + d.move i = _
    rw [accumulated_succ, ho]
  · simp only [List.cons_append, List.nil_append, tasks_sweep hn i ho]
    rfl

/-- A stage that is left out would not have moved. -/
theorem accumulated_unplanned {n : Fin 3} (h : d.planned n = false) (i : Fin 10)
    (hi : d.outOfPlace i = d.fftMoves n) : d.accumulated (i + 1) = d.accumulated i := by
  rw [accumulated_succ, d.move_of_unplanned h i hi, add_zero]

theorem Emits.planned (hn : d.nfields = 1) {n : Fin 3} (i : Fin 10)
    (hi : d.outOfPlace i = d.fftMoves n) :
    d.Emits exec normalise (if d.planned n then [.sweep i, .advance i] else []) i
      (d.stageTask exec i (d.planned n)) (i + 1) := by
  cases h : d.planned n with
  | true => exact .stage hn i
  | false =>
    intro o rest ho
    exact ⟨o, ho.trans (accumulated_unplanned h i hi).symm, rfl⟩

theorem Emits.always (hn : d.nfields = 1) (n : Fin 3) (i : Fin 10) :
    d.Emits exec normalise ((if d.planned n then [.sweep i] else []) ++ [.advance i]) i
      (d.stageTask exec i (d.planned n)) (i + 1) := by
  cases h : d.planned n with
  | true => exact .stage hn i
  | false =>
    intro o rest ho
    refine ⟨fun j => o j + d.move i, ?_, rfl⟩
    show o 0 + d.move i = _
    rw [accumulated_succ, ho]

theorem emits_forward (exec : StageWork → Ptr → Ptr → Task α) (normalise : Task α)
    (hn : d.nfields = 1) :
    d.Emits exec normalise d.forwardStages 0 (d.thereTasks exec) 5 := by
  have h1 : d.Emits exec normalise _ 0 _ 1 := .planned hn (n := 2) 0 rfl
  have h2 := h1.append (.stage hn 1)
  have h3 := h2.append (.always hn 1 2)
  have h4 := h3.append (.stage hn 3)
  have h5 : d.Emits exec normalise _ 0 _ 5 := h4.append (.planned hn (n := 0) 4 rfl)
  simpa only [forwardStages, thereTasks, thereRest, List.append_assoc] using h5

theorem emits_backward (exec : StageWork → Ptr → Ptr → Task α) (normalise : Task α)
    (hn : d.nfields = 1) :
    d.Emits exec normalise d.backwardStages 5 (d.backTasks exec) 10 :=
  (((Emits.planned hn (n := 0) 5 rfl).append (.stage hn 6)).append
    (.planned hn (n := 1) 7 rfl)).append (.stage hn 8) |>.append (.planned hn (n := 2) 9 rfl)

/-- With one field, an iteration is a way there, a way back, and the normalization. -/
theorem tasks_iteration (exec : StageWork → Ptr → Ptr → Task α) (normalise : Task α)
    (hn : d.nfields = 1) (hf : d.forward = true) (hb : d.backward = true) (rest : List Action)
    (o : Nat → Int) :
    ∃ o', d.tasks exec normalise (d.iteration ++ rest) o =
      (d.thereTasks exec ++ (d.backTasks exec ++ [normalise])) ++
        d.tasks exec normalise rest o' := by
  have hsplit : d.iteration ++ rest = .reset (fun i => i) :: (d.forwardStages ++
      (.reset d.backwardStart :: (d.backwardStages ++ .normalise :: rest))) := by
    simp [iteration, hf, hb, forwardHalf, backwardHalf]
  obtain ⟨o1, -, h1⟩ := emits_forward exec normalise hn (fun i => i)
    (.reset d.backwardStart :: (d.backwardStages ++ .normalise :: rest)) rfl
  obtain ⟨o2, -, h2⟩ := emits_backward exec normalise hn d.backwardStart
    (.normalise :: rest) (accumulated_five d).symm
  refine ⟨o2, ?_⟩
  rw [hsplit]
  simp only [tasks, h1, h2, List.append_assoc, List.cons_append, List.nil_append]

theorem tasks_mainLoop (hn : d.nfields = 1) (hf : d.forward = true) (hb : d.backward = true)
    (o : Nat → Int) :
    d.tasks exec normalise d.mainLoop o = (List.replicate d.repeats
      (d.thereTasks exec ++ (d.backTasks exec ++ [normalise]))).flatten := by
  unfold mainLoop
  generalize d.repeats = r
  induction r generalizing o with
  | zero => rfl
  | succ r ih =>
    obtain ⟨o', h⟩ := tasks_iteration exec normalise hn hf hb
      (List.replicate r d.iteration).flatten o
    rw [List.replicate_succ, List.flatten_cons, h, ih, List.replicate_succ, List.flatten_cons]

/-! ## The ways there and back -/

/-- A stage of the way back moves between the buffers of the stage it takes back. -/
theorem accumulated_mirror (d : Details) (i : Fin 11) :
    d.accumulated (10 - i) = d.accumulated i := by
  have hmove : d.move = fun i => (d.m i).toInt := rfl
  simp only [accumulated, hmove, m]
  generalize d.fftMoves 2 = a
  generalize d.fftMoves 1 = b
  generalize d.fftMoves 0 = c
  generalize d.mpiInplace = t
  revert a b c t i
  decide +kernel

theorem buffer_mirror (d : Details) (i : Fin 11) : d.buffer (10 - i) = d.buffer i :=
  congrArg Int.toNat (d.accumulated_mirror i)

/-- A stage stays in its buffer exactly if it is made in place. -/
theorem buffer_eq_iff (d : Details) (i : Fin 10) :
    d.buffer i = d.buffer (i + 1) ↔ d.outOfPlace i = false := by
  have h := (d.accumulated_spec i.isLt.le).1
  have h' := (d.accumulated_spec (i := i + 1) i.isLt).1
  rw [accumulated_succ] at h'
  rw [buffer, buffer, accumulated_succ, ← move_eq_zero_iff]
  show @Eq Nat _ _ ↔ _
  omega

/-- The creator of `forward_plan[i]`, if there is one. -/
def creator (d : Details) (i : Fin 3) : Option Creator :=
  match d.fftN i with
  | .i => none
  | .c => some .c2cForward
  | .r => some .r2cForward

/-- The logical length of the transform along `n_i`, one if there is none. -/
def length (d : Details) (points : Fin 3 → Nat) (i : Fin 3) : Nat :=
  match d.fftN i with
  | .c => points i
  | .r => 2 * (points i - 1) + if points i = 1 then 1 else 0
  | .i => 1

/-- The product of all logical lengths. -/
def lengths (d : Details) (points : Fin 3 → Nat) : Nat :=
  d.length points 0 * d.length points 1 * d.length points 2

/-- The options have real fields transformed along `n2` only. -/
def Offered (d : Details) : Prop := d.fftN 0 ≠ .r ∧ d.fftN 1 ≠ .r

end Details

/-! ## Checks without error -/

namespace Numerics

variable {R : Type} {lib : Numerics R}

/-- The arithmetic of the check does not round. -/
structure Exact (lib : Numerics R) : Prop where
  absDiff_self : ∀ x, lib.absDiff x x = lib.zero
  fmax_zero : lib.fmax lib.zero lib.zero = lib.zero

/-- Where every number that is compared is the expected one, the check finds no error. -/
theorem Exact.check (hlib : lib.Exact) (s : lib.State) (p : Nat → R) (salt : BitVec 32)
    (test : Nat → Bool) (count : Nat)
    (h : ∀ i < count, test i = true → p i = lib.number s salt i) :
    ((List.range count).foldl (lib.checkStep p salt test) (s, ⟨lib.zero, []⟩)).2.maxabserr =
      lib.zero := by
  induction count with
  | zero => rfl
  | succ n ih =>
    have hstate := (lib.check_eq s p salt test lib.zero n).1
    have hprev := ih fun i hi => h i (by omega)
    rw [List.range_succ, List.foldl_append]
    by_cases ht : test n = true
    · have hval := h n (by omega) ht
      rw [number, ← hstate] at hval
      simp [checkStep, ht, hprev, hval, hlib.absDiff_self, hlib.fmax_zero]
    · simp [checkStep, ht, hprev]

end Numerics

/-! ## The program -/

/-- What the program has made before its main loop, with both directions on. -/
structure Bench (env : Env) where
  details : Details
  job : Job env
  planning : Planning job
  forwardPlan : Fin 3 → Nat → Nat → FftPlan
  backwardPlan : Fin 3 → Nat → Nat → FftPlan
  /-- The transpose plan is made for `f[0]` and `f[!d.mpi_inplace]`. -/
  plan_inp : planning.inp = 0
  plan_out : planning.out = if details.mpiInplace then 0 else 1
  /-- The transform plans are made for `f[0]` and `f[!d.fft_inplace]`. -/
  plans : ∀ i c, details.creator i = some c → PlannedPair job c i 0
    (if details.fftInplace then 0 else 1) (forwardPlan i) (backwardPlan i)

namespace Bench

variable {env : Env} (bench : Bench env)

noncomputable def normalization : ℝ := 1 / (bench.details.lengths bench.job.points : ℝ)

/-- The call of a stage. -/
def exec {α : Type} (fftw : FftwExec α) : StageWork → Ptr → Ptr → Task α
  | .fftForward i => fftTask fftw (bench.forwardPlan i)
  | .fftBackward i => fftTask fftw (bench.backwardPlan i)
  | .transpose move => fun inp out => .execute ⟨move, inp, out⟩

noncomputable def normalise : Task ℝ :=
  .work fun a b m ptr k =>
    if ptr < bench.details.nfields ∧ k < (bench.job.problem a b).localMemory then
      m ptr k * bench.normalization
    else m ptr k

/-- Every field is filled, with its number as the salt. -/
def fill {R : Type} (lib : Numerics R) (rank : Nat → Nat → Nat) (a b : Nat) (m : Mem R) : Mem R :=
  fun ptr =>
    if ptr < bench.details.nfields then
      lib.fillField (m ptr) (rank a b) ((bench.job.problem a b).localMemory * sizeofReal)
        (.ofNat 32 ptr)
    else m ptr

/-- The calls of the main loop, given the indices it starts with. -/
noncomputable def loopTasks (fftw : FftwExec ℝ) (o : Nat → Int) : List (Task ℝ) :=
  bench.details.tasks (bench.exec fftw) bench.normalise bench.details.mainLoop o

/-- What every process does between planning and the check. -/
noncomputable def tasks (lib : Numerics ℝ) (rank : Nat → Nat → Nat) (fftw : FftwExec ℝ)
    (o : Nat → Int) : List (Task ℝ) :=
  .work (bench.fill lib rank) :: bench.loopTasks fftw o

/-- `forward_plan[2]` -/
def checkPlan (a b : Nat) : Option FftPlan :=
  if bench.details.planned 2 then some (bench.forwardPlan 2 a b) else none

/-- What a process has for the largest error of all fields. -/
def maxabserr {R : Type} (lib : Numerics R) (worldRank : Nat) (m : Mem R) (a b : Nat) : R :=
  (List.range bench.details.nfields).foldl (fun err i => lib.fmax err
    (lib.checkField (m i) worldRank (((bench.job.problem a b).longN 2).extent * sizeofReal)
      (.ofNat 32 i) (bench.checkPlan a b)).maxabserr) lib.zero

/-- What a process sends for the largest error of all, `commbuf` before `MPI_Allreduce`. -/
def sendError {R : Type} (lib : Numerics R) (rank : Nat → Nat → Nat)
    (data : bench.job.Proc → Mem R) (r : bench.job.Proc) : ValRank R where
  val := bench.maxabserr lib (rank r.1 r.2) (data r) r.1 r.2
  rank := rank r.1 r.2

/-- The exit status of a process that has `commbuf` after `MPI_Allreduce`. -/
noncomputable def retval (commbuf : ValRank ℝ) (abstol : ℝ) : Nat :=
  if bench.details.repeats ≠ 0 ∧ bench.details.forward = true ∧ bench.details.backward = true then
    if 0 ≤ abstol ∧ commbuf.val > abstol / bench.normalization then 1 else 0
  else 0

/-- The positions of the data in the pencil long in `n2`. -/
def Data (a b k : Nat) : Prop :=
  if bench.details.fftN 2 = .r then
    ∃ j, (bench.forwardPlan 2 a b).input.InBox j ∧ (bench.forwardPlan 2 a b).input.addr j = k
  else k < ((bench.job.problem a b).longN 2).extent

/-- Every process holds `c` in `f[0]` where the data is. -/
def Holds {α : Type} (c : Nat → Nat → Nat → α) (mem : Nat → Nat → Mem α) : Prop :=
  ∀ a b, a < bench.job.pA → b < bench.job.pB → ∀ k, bench.Data a b k → mem a b 0 k = c a b k

/-! ## Journeys of the program -/

section Journeys

variable {α : Type} {bench} {fftw : FftwExec α} {x y last : Ptr}
  {there back : List (Task α)} {m : Nat} {j : Fin 3}

theorem placed_iff : bench.planning.Placed x y ↔ (x = y ↔ bench.details.mpiInplace = true) := by
  rw [Planning.Placed, bench.plan_inp, bench.plan_out]
  cases bench.details.mpiInplace <;> simp

theorem journey_transpose (move : Move) (hplace : x = y ↔ bench.details.mpiInplace = true)
    (h : Journey bench.planning fftw move.target y there back m j last) :
    Journey bench.planning fftw move.source x (bench.exec fftw (.transpose move) x y :: there)
      (back ++ [bench.exec fftw (.transpose move.inverse) y x]) m j last :=
  .move (placed_iff.mpr hplace) h

/-- A transform of complex fields, or none. -/
theorem journey_fft {i : Fin 3} (hr : bench.details.fftN i ≠ .r)
    (hplace : x = y ↔ bench.details.fftMoves i = false)
    (h : Journey bench.planning fftw i y there back m j last) :
    Journey bench.planning fftw i x
      ((if bench.details.planned i then [bench.exec fftw (.fftForward i) x y] else []) ++ there)
      (back ++ if bench.details.planned i then [bench.exec fftw (.fftBackward i) y x] else [])
      (m * bench.details.length bench.job.points i) j last := by
  cases hn : bench.details.fftN i with
  | r => exact absurd hn hr
  | i =>
    have hplan : bench.details.planned i = false := by simp [Details.planned, hn]
    have hxy : x = y := hplace.mpr (by simp [Details.fftMoves, hn])
    subst hxy
    simpa [hplan, Details.length, hn] using h
  | c =>
    have hplan : bench.details.planned i = true := by simp [Details.planned, hn]
    have hpair := bench.plans i .c2cForward (by simp [Details.creator, hn])
    have hmade : x = y ↔ (0 : Ptr) = if bench.details.fftInplace then 0 else 1 := by
      rw [hplace, Details.fftMoves, hn]
      cases bench.details.fftInplace <;> simp
    have hlen : bench.details.length bench.job.points i = bench.job.points i := by
      simp [Details.length, hn]
    simp only [hplan, if_true, hlen]
    exact .fft hpair rfl hmade h

end Journeys

/-! ## Round trips -/

section RoundTrips

variable {bench} {fftw : FftwExec ℝ}

theorem journey_rest (fftw : FftwExec ℝ) (hoffered : bench.details.Offered) :
    Journey bench.planning fftw 2 (bench.details.buffer 1)
      (bench.details.thereRest (bench.exec fftw)) (bench.details.backRest (bench.exec fftw))
      (1 * bench.details.length bench.job.points 0 * bench.details.length bench.job.points 1)
      0 (bench.details.buffer 5) := by
  have hplace : ∀ i : Fin 10, bench.details.outOfPlace i = !bench.details.mpiInplace →
      (bench.details.buffer i = bench.details.buffer (i + 1) ↔
        bench.details.mpiInplace = true) := by
    intro i hi
    rw [bench.details.buffer_eq_iff i, hi, Bool.not_eq_false']
  have h6 : bench.details.buffer 6 = bench.details.buffer 4 := bench.details.buffer_mirror 4
  have h7 : bench.details.buffer 7 = bench.details.buffer 3 := bench.details.buffer_mirror 3
  have h8 : bench.details.buffer 8 = bench.details.buffer 2 := bench.details.buffer_mirror 2
  have h9 : bench.details.buffer 9 = bench.details.buffer 1 := bench.details.buffer_mirror 1
  have hhere : Journey bench.planning fftw 0 (bench.details.buffer 5) _ _ _ 0 _ := .here
  have hn0 := journey_fft hoffered.1 (bench.details.buffer_eq_iff 4) hhere
  have hn1n0 := journey_transpose .n1n0 (hplace 3 rfl) hn0
  have hn1 := journey_fft hoffered.2 (bench.details.buffer_eq_iff 2) hn1n0
  have hn2n1 := journey_transpose .n2n1 (hplace 1 rfl) hn1
  simpa [Details.thereRest, Details.backRest, Details.stageTask, Details.work, Move.inverse,
    Move.source, h6, h7, h8, h9] using hn2n1

/-- With a transform along `n2` first, of complex or of real fields. -/
theorem takesBack_first (mpi : FftwMpi ℝ) (hK : fftw.kernel.Inverts)
    (hH : fftw.kernel.Homogeneous) (hoffered : bench.details.Offered) {c : Creator}
    (hc : bench.details.creator 2 = some c) (hne : c ≠ .c2rBackward) :
    TakesBack (ShowsInput bench.job (bench.forwardPlan 2) 0)
      (bench.job.Shows 0 (bench.details.buffer 5))
      (runAll (bench.planning.perform mpi) (bench.details.thereTasks (bench.exec fftw)))
      (runAll (bench.planning.perform mpi) (bench.details.backTasks (bench.exec fftw)))
      (bench.details.length bench.job.points 0 * bench.details.length bench.job.points 1 *
        c.logical (bench.job.points 2)) := by
  have hrest := journey_rest fftw hoffered
  have h0 : bench.details.buffer 0 = 0 := rfl
  have h9 : bench.details.buffer 9 = bench.details.buffer 1 := bench.details.buffer_mirror 1
  have h10 : bench.details.buffer 10 = 0 := bench.details.buffer_mirror 0
  have hn : bench.details.fftN 2 ≠ .i := by
    intro hn
    simp [Details.creator, hn] at hc
  have hmade : (0 : Ptr) = bench.details.buffer 1 ↔
      (0 : Ptr) = if bench.details.fftInplace then 0 else 1 := by
    refine (bench.details.buffer_eq_iff 0).trans ?_
    show bench.details.fftMoves 2 = false ↔ _
    rw [Details.fftMoves]
    cases bench.details.fftInplace <;> simp [hn]
  have hround := hrest.round_trip mpi hK hH hne (bench.plans 2 c hc) hmade
  have hplan : bench.details.planned 2 = true := by simp [Details.planned, hn]
  rw [Nat.one_mul] at hround
  simpa [Details.thereTasks, Details.backTasks, Details.stageTask, Details.work, exec, hplan, h0,
    h9, h10] using hround

/-- The way there and the way back multiply the data by the lengths of the transforms. -/
theorem takesBack_bench (mpi : FftwMpi ℝ) (hK : fftw.kernel.Inverts) (hH : fftw.kernel.Homogeneous)
    (hoffered : bench.details.Offered) :
    TakesBack bench.Holds (bench.job.Shows 0 (bench.details.buffer 5))
      (runAll (bench.planning.perform mpi) (bench.details.thereTasks (bench.exec fftw)))
      (runAll (bench.planning.perform mpi) (bench.details.backTasks (bench.exec fftw)))
      (bench.details.lengths bench.job.points) := by
  cases hn : bench.details.fftN 2 with
  | i =>
    have hplan : bench.details.planned 2 = false := by simp [Details.planned, hn]
    have hxy : bench.details.buffer 0 = bench.details.buffer 1 :=
      (bench.details.buffer_eq_iff 0).mpr (by simp [Details.outOfPlace, Details.fftMoves, hn])
    have hrest := (journey_rest fftw hoffered).takesBack mpi hK hH
    have hholds : ∀ (c : Nat → Nat → Nat → ℝ) mem,
        bench.job.Shows 2 (bench.details.buffer 1) c mem ↔ bench.Holds c mem := by
      intro c mem
      rw [← hxy]
      simp only [Holds, Data, hn, reduceCtorEq, if_false]
      rfl
    have hback := hrest.congr_left hholds
    simpa [Details.thereTasks, Details.backTasks, Details.stageTask, Details.lengths, hplan,
      Details.length, hn] using hback
  | c =>
    have hc : bench.details.creator 2 = some .c2cForward := by simp [Details.creator, hn]
    have hholds : ∀ (c : Nat → Nat → Nat → ℝ) mem,
        ShowsInput bench.job (bench.forwardPlan 2) 0 c mem ↔ bench.Holds c mem := by
      intro c mem
      rw [showsInput_iff (bench.plans 2 _ hc) rfl]
      simp only [Holds, Data, hn, reduceCtorEq, if_false]
      rfl
    have hback := (takesBack_first mpi hK hH hoffered hc (by decide)).congr_left hholds
    simpa [Details.lengths, Details.length, hn, Creator.logical, Creator.real] using hback
  | r =>
    have hc : bench.details.creator 2 = some .r2cForward := by simp [Details.creator, hn]
    have hholds : ∀ (c : Nat → Nat → Nat → ℝ) mem,
        ShowsInput bench.job (bench.forwardPlan 2) 0 c mem ↔ bench.Holds c mem := by
      intro c mem
      simp only [Holds, Data, hn, if_true]
      constructor
      · intro h a b ha hb k hk
        obtain ⟨j, hj, rfl⟩ := hk
        exact h a b ha hb j hj
      · intro h a b ha hb j hj
        exact h a b ha hb _ ⟨j, hj, rfl⟩
    have hback := (takesBack_first mpi hK hH hoffered hc (by decide)).congr_left hholds
    have hlen : Creator.r2cForward.logical (bench.job.points 2) =
        bench.details.length bench.job.points 2 := by
      simp only [Details.length, hn, Creator.logical, Creator.real, if_true]
      split <;> omega
    rwa [hlen] at hback

theorem lengths_pos : 0 < bench.details.lengths bench.job.points := by
  have hpos : ∀ i, 0 < bench.details.length bench.job.points i := by
    intro i
    have h := bench.job.points_pos i
    unfold Details.length
    split
    · exact h
    · split <;> omega
    · exact Nat.one_pos
  exact Nat.mul_pos (Nat.mul_pos (hpos 0) (hpos 1)) (hpos 2)

/-- The data lies in the pencil. -/
theorem Data.lt_extent {a b k : Nat} (ha : a < bench.job.pA) (hb : b < bench.job.pB)
    (h : bench.Data a b k) : k < ((bench.job.problem a b).longN 2).extent := by
  unfold Data at h
  split at h
  · next hr =>
    obtain ⟨j, hj, rfl⟩ := h
    have hpair := bench.plans 2 .r2cForward (by simp [Details.creator, hr])
    obtain ⟨⟨_, packedFlags, hmade⟩, -⟩ := hpair.at ha hb
    have hpencil := bench.job.pencil ha hb 2
    have heven := bench.job.size_three_even ha hb 2 hpair.even
    have hroom := (Creator.r2cForward.rooms hpencil heven packedFlags).1
    rw [← (bench.job.isProblem ha hb).extent_eq 2, ← hmade.input_eq] at hroom
    exact (hmade.sides.1.nested.addr_lt hj).trans_le hroom
  · exact h

/-- The normalization takes back the factor of a round trip. -/
theorem Holds.normalise (hn : bench.details.nfields = 1) (mpi : FftwMpi ℝ)
    {c : Nat → Nat → Nat → ℝ} {mem : Nat → Nat → Mem ℝ}
    (h : bench.Holds (bench.details.lengths bench.job.points • c) mem) :
    bench.Holds c (bench.planning.perform mpi bench.normalise mem) := by
  intro a b ha hb k hk
  have hin : k < (bench.job.problem a b).localMemory :=
    (hk.lt_extent ha hb).trans_le (bench.job.extent_le ha hb 2)
  have hpos : (bench.details.lengths bench.job.points : ℝ) ≠ 0 :=
    Nat.cast_ne_zero.mpr bench.lengths_pos.ne'
  have hval : mem a b 0 k = bench.details.lengths bench.job.points * c a b k := by
    rw [h a b ha hb k hk]
    exact nsmul_eq_mul _ _
  have hfield : (0 : Ptr) < bench.details.nfields ∧ k < (bench.job.problem a b).localMemory := by
    rw [hn]
    exact ⟨Nat.one_pos, hin⟩
  have hperform : bench.planning.perform mpi bench.normalise mem a b = fun ptr k =>
      if ptr < bench.details.nfields ∧ k < (bench.job.problem a b).localMemory then
        mem a b ptr k * bench.normalization else mem a b ptr k := if_pos ⟨ha, hb⟩
  simp only [hperform]
  rw [if_pos hfield, hval, normalization]
  field_simp

/-- The main loop keeps the data. -/
theorem Holds.mainLoop (mpi : FftwMpi ℝ) (hK : fftw.kernel.Inverts) (hH : fftw.kernel.Homogeneous)
    (hoffered : bench.details.Offered) (hn : bench.details.nfields = 1)
    (hf : bench.details.forward = true) (hb : bench.details.backward = true) (o : Nat → Int)
    {c : Nat → Nat → Nat → ℝ} {mem : Nat → Nat → Mem ℝ} (h : bench.Holds c mem) :
    bench.Holds c (runAll (bench.planning.perform mpi) (bench.loopTasks fftw o) mem) := by
  have hbody : runAll (bench.planning.perform mpi) (bench.details.thereTasks (bench.exec fftw) ++
      (bench.details.backTasks (bench.exec fftw) ++ [bench.normalise])) =
      bench.planning.perform mpi bench.normalise ∘
        runAll (bench.planning.perform mpi) (bench.details.backTasks (bench.exec fftw)) ∘
        runAll (bench.planning.perform mpi) (bench.details.thereTasks (bench.exec fftw)) := by
    funext mem
    rw [runAll_append, runAll_append]
    rfl
  rw [loopTasks, Details.tasks_mainLoop hn hf hb, runAll_replicate, hbody]
  exact (bench.takesBack_bench mpi hK hH hoffered).iterate (fun t => Holds.normalise hn mpi) _ h

theorem data_iff (h : bench.details.fftN 2 ≠ .r) {a b k : Nat} :
    bench.Data a b k ↔ k < ((bench.job.problem a b).longN 2).extent := by
  rw [Data, if_neg h]

/-- What the check compares is data. -/
theorem checkField_zero {R : Type} {lib : Numerics R} (salt : BitVec 32) (hlib : lib.Exact)
    {a b : Nat} (ha : a < bench.job.pA) (hb : b < bench.job.pB) {p : Nat → R} {worldRank : Nat}
    (h : ∀ k, bench.Data a b k → p k = lib.number (lib.seeded worldRank salt) salt k) :
    (lib.checkField p worldRank (((bench.job.problem a b).longN 2).extent * sizeofReal) salt
      (bench.checkPlan a b)).maxabserr = lib.zero := by
  have hcount : ((bench.job.problem a b).longN 2).extent * sizeofReal / sizeofReal =
      ((bench.job.problem a b).longN 2).extent := Nat.mul_div_cancel _ (by decide)
  cases hn : bench.details.fftN 2 with
  | i =>
    have hplan : bench.checkPlan a b = none := by simp [checkPlan, Details.planned, hn]
    simp only [hplan, Numerics.checkField, hcount]
    exact hlib.check _ _ _ _ _ fun k hk _ => h k ((data_iff (by simp [hn])).mpr hk)
  | c =>
    have hplan : bench.checkPlan a b = some (bench.forwardPlan 2 a b) := by
      simp [checkPlan, Details.planned, hn]
    have hpair := bench.plans 2 .c2cForward (by simp [Details.creator, hn])
    obtain ⟨⟨_, _, hmade⟩, -⟩ := hpair.at ha hb
    have hfour : (bench.forwardPlan 2 a b).input.size 4 ≠ 1 := by
      rw [hmade.sides.1.size_four]
      decide
    simp only [hplan, Numerics.checkField, hcount, if_neg hfour]
    exact hlib.check _ _ _ _ _ fun k hk _ => h k ((data_iff (by simp [hn])).mpr hk)
  | r =>
    have hplan : bench.checkPlan a b = some (bench.forwardPlan 2 a b) := by
      simp [checkPlan, Details.planned, hn]
    have hpair := bench.plans 2 .r2cForward (by simp [Details.creator, hn])
    obtain ⟨⟨_, packedFlags, hmade⟩, -⟩ := hpair.at ha hb
    have hside : RealSide 2 (bench.forwardPlan 2 a b).input := hmade.sides.1
    have hrows : RowsPacked (bench.forwardPlan 2 a b).input := by
      rw [hmade.input_eq]
      exact rowsPacked_side (bench.job.pencil ha hb 2)
        (bench.job.size_three_even ha hb 2 hpair.even) (c := .r2cForward) rfl packedFlags
    simp only [hplan, Numerics.checkField, if_pos hside.size_four]
    refine hlib.check _ _ _ _ _ fun k hk htest => h k ?_
    simp only [Data, hn, if_true]
    have hroom : k < (bench.forwardPlan 2 a b).input.room := by
      rw [Layout.room, Nat.mul_comm]
      exact hk.trans_le (Nat.min_le_right _ _)
    -- there is a field, since there is data
    have hfields : 0 < (bench.forwardPlan 2 a b).input.size 3 := by
      have hextent : k < ((bench.job.problem a b).longN 2).extent := by
        rw [← hcount]
        exact hk.trans_le (Nat.min_le_left _ _)
      rw [(bench.job.isProblem ha hb).extent_eq 2] at hextent
      have hthree : ((bench.job.problem a b).longN 2).size 3 ≠ 0 := fun h0 =>
        absurd (Finset.prod_eq_zero (Finset.mem_univ 3) h0) (by omega)
      have heven := bench.job.size_three_even ha hb 2 hpair.even
      have := hmade.shaped.fields.1
      omega
    refine (hside.mem_addr_iff hrows k).mpr ⟨hroom, ?_⟩
    have hline := of_decide_eq_true htest
    rw [hside.order_two] at hline
    exact hline.trans_le (Nat.le_mul_of_pos_right _ hfields)

theorem maxabserr_zero {R : Type} {lib : Numerics R} (hlib : lib.Exact)
    (hn : bench.details.nfields = 1) {a b : Nat} (ha : a < bench.job.pA) (hb : b < bench.job.pB)
    {m : Mem R} {worldRank : Nat}
    (h : ∀ k, bench.Data a b k → m 0 k = lib.number (lib.seeded worldRank 0) 0 k) :
    bench.maxabserr lib worldRank m a b = lib.zero := by
  have hfield := checkField_zero 0 hlib ha hb h
  simp only [maxabserr, hn]
  show lib.fmax lib.zero _ = lib.zero
  exact (congrArg _ hfield).trans hlib.fmax_zero

end RoundTrips

end Bench

/-- However the processes interleave, the main loop there and back restores the data of the only
field, any number of times; the check after it finds no error on any process, and no tolerance is
exceeded. -/
theorem bench_restores {env : Env} (bench : Bench env) (hoffered : bench.details.Offered)
    (hn : bench.details.nfields = 1) (hf : bench.details.forward = true)
    (hb : bench.details.backward = true) (mpi : FftwMpi ℝ) (fftw : FftwExec ℝ)
    (hK : fftw.kernel.Inverts) (hH : fftw.kernel.Homogeneous) (lib : Numerics ℝ)
    (hlib : lib.Exact) (hzero : lib.zero = 0) (rank : Nat → Nat → Nat) (o : Nat → Int)
    (allreduce : bench.job.Proc → (bench.job.Proc → ValRank ℝ) → ValRank ℝ)
    (hallreduce : ∀ r, Reduction maxloc Finset.univ.val (allreduce r))
    (mem : Nat → Nat → Mem ℝ) {fired : List (Event ℝ)}
    {s : Collectives.State bench.job.Proc (Event ℝ) (Mem ℝ)}
    (hrun : (bench.planning.system mpi mem).Run
      (bench.planning.launch (bench.tasks lib rank fftw o) mem) fired s)
    (hs : s.Finished) (r : bench.job.Proc) :
    (∀ k, bench.Data r.1 r.2 k →
      s.data r 0 k = bench.fill lib rank r.1 r.2 (mem r.1 r.2) 0 k) ∧
    bench.maxabserr lib (rank r.1 r.2) (s.data r) r.1 r.2 = 0 ∧
    ∀ abstol, bench.retval (allreduce r (bench.sendError lib rank s.data)) abstol = 0 := by
  have hstart : bench.Holds (fun a b => bench.fill lib rank a b (mem a b) 0)
      (bench.planning.perform mpi (.work (bench.fill lib rank)) mem) := by
    intro a b ha hb k _
    exact congrFun (congrFun (if_pos ⟨ha, hb⟩) 0) k
  have hend := hstart.mainLoop mpi hK hH hoffered hn hf hb o
  have hdata : ∀ (r : bench.job.Proc) k, bench.Data r.1 r.2 k →
      s.data r 0 k = bench.fill lib rank r.1 r.2 (mem r.1 r.2) 0 k := by
    intro r k hk
    rw [bench.planning.run_settles hrun hs r]
    exact hend r.1 r.2 r.1.isLt r.2.isLt k hk
  have hcheck : ∀ r : bench.job.Proc,
      bench.maxabserr lib (rank r.1 r.2) (s.data r) r.1 r.2 = 0 := by
    intro r
    rw [← hzero]
    refine Bench.maxabserr_zero hlib hn r.1.isLt r.2.isLt fun k hk => ?_
    have hin : k < (bench.job.problem r.1 r.2).localMemory :=
      (hk.lt_extent r.1.isLt r.2.isLt).trans_le (bench.job.extent_le r.1.isLt r.2.isLt 2)
    have hfield : (0 : Ptr) < bench.details.nfields := by
      rw [hn]
      exact Nat.one_pos
    rw [hdata r k hk, Bench.fill, if_pos hfield]
    exact lib.fillField_apply _ _ _ (by rwa [Nat.mul_div_cancel _ (by decide)])
  refine ⟨hdata r, hcheck r, fun abstol => ?_⟩
  have hworst : (allreduce r (bench.sendError lib rank s.data)).val = 0 := by
    have hmax := Maximal.of_reduces (hallreduce r (bench.sendError lib rank s.data))
    obtain ⟨p, -, hsent⟩ := hmax.sent
    rw [← hsent]
    exact hcheck p
  have hnorm : 0 ≤ bench.normalization := by
    unfold Bench.normalization
    positivity
  unfold Bench.retval
  split
  · rw [hworst, if_neg]
    rintro ⟨h, hlt⟩
    exact absurd (div_nonneg h hnorm) (not_le_of_gt hlt)
  · rfl

/-- A generator that counts, with exact arithmetic. -/
noncomputable def Numerics.counting : Numerics ℝ where
  State := Nat
  initstate := fun seed => seed.toNat
  random := fun s => (s, s + 1)
  garbage := fun r salt => r + salt.toNat
  zero := 0
  fmax := max
  absDiff := fun x y => |x - y|

theorem Numerics.counting_exact : Numerics.counting.Exact where
  absDiff_self := fun x => by simp [counting]
  fmax_zero := max_self _

/-- Two repetitions on `2 × 3` processes, with real fields along `n2`, transforms out of place,
transposes in place, both storage flags and packed storage. -/
theorem bench_restores_six :
    ∃ bench : Bench .reference, bench.details =
        ⟨2, 1, ![.c, .c, .r], true, false, true, true⟩ ∧
      (bench.job.n0 = 4 ∧ bench.job.n1 = 5 ∧ bench.job.n2 = 3) ∧
      (bench.job.pA = 2 ∧ bench.job.pB = 3) ∧ bench.job.howmany = 4 ∧
      ∃ allreduce : bench.job.Proc → (bench.job.Proc → ValRank ℝ) → ValRank ℝ,
      (∀ r, Reduction maxloc Finset.univ.val (allreduce r)) ∧
      ∀ mem : Nat → Nat → Mem ℝ, ∃ fired s,
        (bench.planning.system FftwMpi.reference mem).Run (bench.planning.launch
          (bench.tasks .counting (fun a b => 3 * a + b) (.reference .fourier) fun _ => 0) mem)
            fired s ∧
          ∀ r : bench.job.Proc,
            (∀ k, bench.Data r.1 r.2 k → s.data r 0 k = bench.fill .counting
              (fun a b => 3 * a + b) r.1 r.2 (mem r.1 r.2) 0 k) ∧
            bench.maxabserr .counting (3 * r.1 + r.2) (s.data r) r.1 r.2 = 0 ∧
            ∀ abstol, bench.retval (allreduce r (bench.sendError .counting
              (fun a b => 3 * a + b) s.data)) abstol = 0 := by
  obtain ⟨job, planning, ⟨hn0, hn1, hn2⟩, hp, hhow, -, hi, ho⟩ :=
    exists_planned 4 5 3 2 3 4 (TRANSPOSED_LONG_N2 ||| TRANSPOSED_LONG_N0) 0 0 (by decide)
  have heven : job.howmany % 2 = 0 := by omega
  have hapart : ∀ {c : Creator} {i : Fin 3} {flags : Flags} a b, a < job.pA → b < job.pB →
      (0 : Ptr) = 1 → c.Accepts ((job.problem a b).longN i) i flags :=
    fun _ _ _ _ h => absurd h (by decide)
  obtain ⟨p2, q2, h2⟩ := exists_plannedPair job heven .r2cForward 2 0 1 FFTW_PACKED_LONG_N2 hapart
  obtain ⟨p1, q1, h1⟩ := exists_plannedPair job heven .c2cForward 1 0 1 0 hapart
  obtain ⟨p0, q0, h0⟩ := exists_plannedPair job heven .c2cForward 0 0 1 FFTW_PACKED_LONG_N0 hapart
  let bench : Bench .reference :=
    { details := ⟨2, 1, ![.c, .c, .r], true, false, true, true⟩
      job := job
      planning := planning
      forwardPlan := ![p0, p1, p2]
      backwardPlan := ![q0, q1, q2]
      plan_inp := hi
      plan_out := ho
      plans := by
        intro i c hc
        fin_cases i <;> cases hc
        · exact h0
        · exact h1
        · exact h2 }
  have hprocs : (Finset.univ : Finset bench.job.Proc).val ≠ 0 :=
    Finset.val_eq_zero.not.mpr (Finset.univ_nonempty_iff.mpr
      ⟨⟨0, job.pA_pos⟩, ⟨0, job.pB_pos⟩⟩).ne_empty
  obtain ⟨reduce, hreduce⟩ := exists_reduction (maxloc (V := ℝ)) hprocs
  refine ⟨bench, rfl, ⟨hn0, hn1, hn2⟩, hp, hhow, fun _ => reduce, fun _ => hreduce, fun mem => ?_⟩
  obtain ⟨fired, s, hrun, hs⟩ := planning.exists_run FftwMpi.reference
    (bench.tasks .counting (fun a b => 3 * a + b) (.reference .fourier) fun _ => 0) mem
  refine ⟨fired, s, hrun, fun r => ?_⟩
  have hoffered : bench.details.Offered := ⟨(by decide : FftN.c ≠ .r), (by decide : FftN.c ≠ .r)⟩
  exact bench_restores bench hoffered rfl rfl rfl FftwMpi.reference _ Kernel.fourier_inverts
    Kernel.fourier_homogeneous _ Numerics.counting_exact rfl _ _ _ (fun _ => hreduce) mem hrun hs r

end Underling
