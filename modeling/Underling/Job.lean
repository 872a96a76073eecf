import Underling.Decomposition
import Underling.Plan

/-!
# Underling.Job

All processes of a process grid together. In a `Job` every process has called `gridCreate` and
`problemCreate` with the same arguments and got a problem; `MPI_Bcast` delivered the values of the
member with rank 0. In a `Planning` of a job every process has called `planCreate` too.

* `Job.longN_eq`, `Job.args_eq`: the pencils and the transposes of every process are those of the
  decomposition the job computes (`Job.decomp`).
* `exists_job`, `exists_planning`: arguments that pass the checks give a job when nothing is
  refused.
-/

namespace Underling

open Runs Strided RowTranspose

/-! ## Directions -/

/-- The communicator a direction uses. -/
def Move.dir : Move → Dir
  | .n2n1 => .pA
  | .n1n0 => .pB
  | .n0n1 => .pB
  | .n1n2 => .pA

/-- The rank of the process at `(a, b)` in the communicator a direction uses. -/
def Move.rank (move : Move) (a b : Nat) : Nat :=
  match move with
  | .n2n1 => a
  | .n1n0 => b
  | .n0n1 => b
  | .n1n2 => a

namespace Decomposition

variable (d : Decomposition)

def procs : Move → Nat
  | .n2n1 => d.pA
  | .n1n0 => d.pB
  | .n0n1 => d.pB
  | .n1n2 => d.pA

/-- The transposition of a direction, on the communicator of the process at `(a, b)`. -/
def args (move : Move) (a b : Nat) : TransposeArgs :=
  match move with
  | .n2n1 => (d.stageA b).args
  | .n1n0 => (d.stageB a).args
  | .n0n1 => (d.stageB a).args.inverse
  | .n1n2 => (d.stageA b).args.inverse

theorem accepted (move : Move) (a b : Nat) (h : ¬ (d.args move a b).Trivial) :
    (d.args move a b).Accepted (d.procs move) := by
  cases move with
  | n2n1 => exact (d.stageA b).accepted h
  | n1n0 => exact (d.stageB a).accepted h
  | n0n1 =>
    exact ((d.stageB a).accepted fun ht => h ((TransposeArgs.inverse_trivial_iff _).mpr ht)).inverse
  | n1n2 =>
    exact ((d.stageA b).accepted fun ht => h ((TransposeArgs.inverse_trivial_iff _).mpr ht)).inverse

end Decomposition

theorem pencils_eq {env : Env} {d : Decomposition} {g : Grid} {a b : Nat}
    (hn : g.n = ![d.n0, d.n1, d.n2]) (hrA : g.pAComm.rank = a) (hsA : g.pAComm.size = d.pA)
    (hrB : g.pBComm.rank = b) (hsB : g.pBComm.size = d.pB) (h : Nat) :
    pencils g.n d.howmany d.flags
        (env.localSizeManyTransposed (g.n 0) (g.n 1) h FFTW.MPI_DEFAULT_BLOCK
          FFTW.MPI_DEFAULT_BLOCK g.pBComm)
        (env.localSizeManyTransposed (g.n 1) (g.n 2) h FFTW.MPI_DEFAULT_BLOCK
          FFTW.MPI_DEFAULT_BLOCK g.pAComm) = d.longN a b := by
  funext i
  fin_cases i <;>
    simp only [pencils, Env.localSizeManyTransposed, fftwBlock_default, hrA, hsA, hrB, hsB, hn] <;>
    rfl

/-! ## Jobs -/

structure Job (env : Env) where
  n0 : Int
  n1 : Int
  n2 : Int
  /-- The process grid asked for; zero leaves a size open. -/
  reqA : Int
  reqB : Int
  howmany : Int
  flags : Flags
  /-- The process grid. -/
  pA : Nat
  pB : Nat
  pA_pos : 0 < pA
  pB_pos : 0 < pB
  /-- The sizes of the domain are `int`s. -/
  int_n0 : n0 ≤ INT_MAX
  int_n1 : n1 ≤ INT_MAX
  int_n2 : n2 ≤ INT_MAX
  nproc : Nat
  /-- The caller's communicator as each process sees it. -/
  comm : Nat → Nat → Comm
  comm_dir : ∀ a b, (comm a b).dir = .world
  comm_size : ∀ a b, (comm a b).size = nproc
  grid : Nat → Nat → Grid
  problem : Nat → Nat → Problem
  /-- The world of each process before `gridCreate`, between the calls, and after. -/
  before : Nat → Nat → World
  between : Nat → Nat → World
  after : Nat → Nat → World
  grid_run : ∀ a b, a < pA → b < pB →
    gridCreate env (a, b) (some (comm a b)) n0 n1 n2 reqA reqB (before a b) =
      .ok (some (grid a b), between a b)
  sizes : ∀ a b, a < pA → b < pB → (grid a b).pA = pA ∧ (grid a b).pB = pB
  /-- What `MPI_Bcast` delivers to each process. -/
  bcast : Nat → Nat → Comm → Nat × Nat → Nat × Nat
  bcast_pA : ∀ a b v, a < pA → b < pB →
    bcast a b (grid a b).pAComm v = pABlock (problem 0 b).longN
  bcast_pB : ∀ a b v, a < pA → b < pB →
    bcast a b (grid a b).pBComm v = pBBlock (problem a 0).longN
  problem_run : ∀ a b, a < pA → b < pB →
    problemCreate env (bcast a b) (some (grid a b)) howmany flags (between a b) =
      .ok (some (problem a b), after a b)

namespace Job

variable {env : Env} (job : Job env)

theorem documented {a b : Nat} (ha : a < job.pA) (hb : b < job.pB) :
    Documented env job.nproc job.n0 job.n1 job.n2 job.reqA job.reqB job.pA job.pB := by
  have hd := gridCreate_sizes (job.grid_run a b ha hb)
  obtain ⟨hA, hB⟩ := job.sizes a b ha hb
  rw [hA, hB, job.comm_size] at hd
  exact hd

/-- The problem a process of a job got, and the calls it made for it. -/
structure Created (a b : Nat) : Prop where
  grid : GridFor (a, b) job.n0 job.n1 job.n2 ((job.pA : Int), (job.pB : Int)) (job.grid a b)
  howmany_nonneg : 0 ≤ job.howmany
  storage : StorageWord job.flags
  problem : ProblemFor env (job.bcast a b) (job.grid a b) job.howmany.toNat job.flags
    (job.problem a b)
  calls : (job.after a b).log.calls = (job.before a b).log.calls ++
    gridCalls (job.comm a b) (job.grid a b) ++
    problemCalls (job.grid a b) job.howmany.toNat (job.problem a b)

theorem created {a b : Nat} (ha : a < job.pA) (hb : b < job.pB) : job.Created a b := by
  have hgrid : GridCreated .. :=
    (gridCreate_ends (l := (job.before a b).log) (G := False) ⟨rfl, False.elim⟩).of_run
      (job.grid_run a b ha hb)
  obtain ⟨dims, hadm, hfor, hat⟩ := hgrid.sound _ rfl
  -- the sizes chosen here are those of the job
  have hdims : dims = ((job.pA : Int), (job.pB : Int)) := by
    rw [job.comm_size] at hadm
    obtain ⟨h1, h2⟩ := (admits_iff.mp hadm).chosen.unique (job.documented ha hb).chosen
    exact Prod.ext h1 h2
  rw [hdims] at hfor
  have hint : ∀ i, (job.grid a b).n i ≤ INT_MAX := by
    have h0 := job.int_n0
    have h1 := job.int_n1
    have h2 := job.int_n2
    intro i
    rw [hfor.n_eq]
    fin_cases i <;> simp <;> omega
  have hproblem : ProblemCreated .. :=
    (problemCreate_ends hat hint).of_run (job.problem_run a b ha hb)
  obtain ⟨h0, hf, hfor', hat'⟩ := hproblem.sound _ rfl
  exact ⟨hfor, h0, hf, hfor', congrArg Log.calls hat'.1⟩

/-- The decomposition a job computes. -/
def decomp : Decomposition where
  n0 := job.n0.toNat
  n1 := job.n1.toNat
  n2 := job.n2.toNat
  pA := job.pA
  pB := job.pB
  howmany := job.howmany.toNat
  flags := job.flags
  n2_pos := by
    have := (job.documented job.pA_pos job.pB_pos).n2_pos
    omega
  pA_pos := job.pA_pos
  pB_pos := job.pB_pos
  n0_ge := by
    have := (job.documented job.pA_pos job.pB_pos).n0_ge
    omega
  n1_ge_pA := by
    have := (job.documented job.pA_pos job.pB_pos).n1_ge_pA
    omega
  n1_ge_pB := by
    have := (job.documented job.pA_pos job.pB_pos).n1_ge_pB
    omega

theorem longN_eq {a b : Nat} (ha : a < job.pA) (hb : b < job.pB) :
    (job.problem a b).longN = job.decomp.longN a b := by
  have hc := job.created ha hb
  have hg := hc.grid
  rw [hc.problem.longN_eq]
  exact pencils_eq (d := job.decomp) hg.n_eq hg.pAComm_rank (hg.pAComm_size.trans hg.pA_eq)
    hg.pBComm_rank (hg.pBComm_size.trans hg.pB_eq) _

theorem blocks_eq {a b : Nat} (ha : a < job.pA) (hb : b < job.pB) (v : Nat × Nat) :
    job.bcast a b (job.grid a b).pAComm v =
        (job.decomp.lenB0 b * job.decomp.blockA1, job.decomp.blockA2) ∧
      job.bcast a b (job.grid a b).pBComm v =
        (job.decomp.lenA2 a * job.decomp.blockB0, job.decomp.blockB1) := by
  have hfirst : ∀ {n p : Nat}, 0 < p → Blocks.len n (n ⌈/⌉ p) 0 = n ⌈/⌉ p := fun hp => by
    rw [Blocks.len_zero, Nat.min_eq_right (Blocks.ceilDiv_le_self hp)]
  rw [job.bcast_pA a b v ha hb, job.bcast_pB a b v ha hb, job.longN_eq job.pA_pos hb,
    job.longN_eq ha job.pB_pos]
  constructor
  · refine Prod.ext ?_ ?_
    · exact congrArg (job.decomp.lenB0 b * ·) (hfirst job.pA_pos)
    · exact hfirst job.pA_pos
  · refine Prod.ext ?_ ?_
    · exact congrArg (job.decomp.lenA2 a * ·) (hfirst job.pB_pos)
    · exact hfirst job.pB_pos

theorem backwardA_eq {a b : Nat} (ha : a < job.pA) (hb : b < job.pB) :
    (job.problem a b).backwardA.toTransposeArgs = (job.decomp.stageA b).args := by
  have hc := job.created ha hb
  rw [hc.problem.backwardA.args_eq, (job.blocks_eq ha hb _).1, job.longN_eq ha hb, hc.grid.n_eq]
  rfl

theorem backwardB_eq {a b : Nat} (ha : a < job.pA) (hb : b < job.pB) :
    (job.problem a b).backwardB.toTransposeArgs = (job.decomp.stageB a).args := by
  have hc := job.created ha hb
  rw [hc.problem.backwardB.args_eq, (job.blocks_eq ha hb _).2, job.longN_eq ha hb, hc.grid.n_eq]
  rfl

theorem args_eq {a b : Nat} (ha : a < job.pA) (hb : b < job.pB) (move : Move) :
    (move.transpose (job.problem a b)).toTransposeArgs = job.decomp.args move a b := by
  have hc := job.created ha hb
  cases move with
  | n2n1 => exact job.backwardA_eq ha hb
  | n1n0 => exact job.backwardB_eq ha hb
  | n0n1 => exact hc.problem.forwardB.args_eq.trans (congrArg _ (job.backwardB_eq ha hb))
  | n1n2 => exact hc.problem.forwardA.args_eq.trans (congrArg _ (job.backwardA_eq ha hb))

theorem comm_eq {a b : Nat} (ha : a < job.pA) (hb : b < job.pB) (move : Move) :
    (move.transpose (job.problem a b)).comm.dir = move.dir ∧
      (move.transpose (job.problem a b)).comm.rank = move.rank a b ∧
      (move.transpose (job.problem a b)).comm.size = job.decomp.procs move := by
  have hc := job.created ha hb
  have hA := hc.problem.backwardA
  have hB := hc.problem.backwardB
  have hA' := hc.problem.forwardA
  have hB' := hc.problem.forwardB
  have hpA := hc.grid.pA_eq
  have hpB := hc.grid.pB_eq
  simp only [Int.toNat_natCast] at hpA hpB
  have hgA : (job.grid a b).pAComm.size = job.pA := hc.grid.pAComm_size.trans hpA
  have hgB : (job.grid a b).pBComm.size = job.pB := hc.grid.pBComm_size.trans hpB
  cases move with
  | n2n1 => exact ⟨hA.comm_dir.trans hc.grid.pAComm_dir, hA.comm_rank.trans hc.grid.pAComm_rank,
      hA.comm_size.trans hgA⟩
  | n1n0 => exact ⟨hB.comm_dir.trans hc.grid.pBComm_dir, hB.comm_rank.trans hc.grid.pBComm_rank,
      hB.comm_size.trans hgB⟩
  | n0n1 => exact ⟨(hB'.comm_dir.trans hB.comm_dir).trans hc.grid.pBComm_dir,
      (hB'.comm_rank.trans hB.comm_rank).trans hc.grid.pBComm_rank,
      (hB'.comm_size.trans hB.comm_size).trans hgB⟩
  | n1n2 => exact ⟨(hA'.comm_dir.trans hA.comm_dir).trans hc.grid.pAComm_dir,
      (hA'.comm_rank.trans hA.comm_rank).trans hc.grid.pAComm_rank,
      (hA'.comm_size.trans hA.comm_size).trans hgA⟩

end Job

/-! ## Planning -/

/-- Every process of a job has called `planCreate` with the same arguments. -/
structure Planning {env : Env} (job : Job env) where
  inp : Ptr
  out : Ptr
  transposeFlags : Flags
  rigorFlags : Flags
  plan : Nat → Nat → Plan
  after : Nat → Nat → World
  plan_run : ∀ a b, a < job.pA → b < job.pB →
    planCreate env (some (job.problem a b)) (some inp) (some out) transposeFlags rigorFlags
      (job.after a b) = .ok (some (plan a b), after a b)

namespace Planning

variable {env : Env} {job : Job env} (planning : Planning job)

theorem created {a b : Nat} (ha : a < job.pA) (hb : b < job.pB) :
    PlanWords planning.transposeFlags planning.rigorFlags ∧
      PlanFor env (job.problem a b) planning.inp planning.out planning.rigorFlags
        (planning.plan a b) ∧
      (planning.after a b).log =
        planLog env (job.problem a b) planning.rigorFlags (job.after a b).log := by
  have hplan : PlanCreated .. :=
    (planCreate_ends (l := (job.after a b).log) (G := False) ⟨rfl, False.elim⟩ _ _).of_run
      (planning.plan_run a b ha hb)
  obtain ⟨hw, hp, hat⟩ := hplan.sound _ rfl
  exact ⟨hw, hp, hat.1⟩

end Planning

/-! ## Existence -/

theorem Documented.exists_grid {env : Env} {n0 n1 n2 reqA reqB : Int} {pA pB : Nat} {comm : Comm}
    (hd : Documented env comm.size n0 n1 n2 reqA reqB pA pB) (coords : Nat × Nat) {w : World}
    (hw : w.Granted) :
    ∃ g w', gridCreate env coords (some comm) n0 n1 n2 reqA reqB w = .ok (some g, w') ∧
      GridFor coords n0 n1 n2 ((pA : Int), (pB : Int)) g ∧ w'.Granted := by
  have hends : Ends _ _ (GridCreated env coords comm n0 n1 n2 reqA reqB w.log True) :=
    gridCreate_ends ⟨rfl, fun _ => hw⟩
  obtain ⟨o, w', hrun, hc⟩ := hends
  obtain ⟨g, rfl⟩ := Option.isSome_iff_exists.mp (hc.complete trivial _ (admits_iff.mpr hd))
  obtain ⟨dims, hadm, hfor, hat⟩ := hc.sound g rfl
  -- MPI chooses only once
  obtain ⟨e1, e2⟩ := (admits_iff.mp hadm).chosen.unique hd.chosen
  have hdims : dims = ((pA : Int), (pB : Int)) := Prod.ext e1 e2
  exact ⟨g, w', hrun, hdims ▸ hfor, hat.2 trivial⟩

theorem exists_problem (env : Env) (bcast : Comm → Nat × Nat → Nat × Nat) {grid : Grid}
    {howmany : Int} {flags : Flags} {w : World} (hw : w.Granted) (hfit : ∀ i, grid.n i ≤ INT_MAX)
    (hh : 0 ≤ howmany) (hf : StorageWord flags) :
    ∃ p w', problemCreate env bcast (some grid) howmany flags w = .ok (some p, w') ∧
      ProblemFor env bcast grid howmany.toNat flags p ∧ w'.Granted := by
  have hends : Ends _ _ (ProblemCreated env bcast grid howmany flags w.log True) :=
    problemCreate_ends ⟨rfl, fun _ => hw⟩ hfit
  obtain ⟨o, w', hrun, hc⟩ := hends
  obtain ⟨p, rfl⟩ := Option.isSome_iff_exists.mp (hc.complete trivial hh hf)
  obtain ⟨-, -, hfor, hat⟩ := hc.sound p rfl
  exact ⟨p, w', hrun, hfor, hat.2 trivial⟩

theorem exists_job {env : Env} {nproc : Nat} {n0 n1 n2 reqA reqB howmany : Int} {flags : Flags}
    {pA pB : Nat} (hd : Documented env nproc n0 n1 n2 reqA reqB pA pB)
    (hint : n0 ≤ INT_MAX ∧ n1 ≤ INT_MAX ∧ n2 ≤ INT_MAX) (hh : 0 ≤ howmany)
    (hf : StorageWord flags) :
    ∃ job : Job env, (job.n0 = n0 ∧ job.n1 = n1 ∧ job.n2 = n2) ∧ (job.pA = pA ∧ job.pB = pB) ∧
      job.howmany = howmany ∧ job.flags = flags ∧
      ∀ a b, a < job.pA → b < job.pB → (job.after a b).Granted := by
  obtain ⟨hA0, hB0⟩ := hd.chosen.pos
  have h0 := hd.n0_pos
  have h1 := hd.n1_pos
  have h2 := hd.n2_pos
  have hge := hd.n0_ge
  have hgeA := hd.n1_ge_pA
  have hgeB := hd.n1_ge_pB
  let d : Decomposition :=
    { n0 := n0.toNat, n1 := n1.toNat, n2 := n2.toNat, pA := pA, pB := pB
      howmany := howmany.toNat, flags := flags, n2_pos := by omega, pA_pos := by omega
      pB_pos := by omega, n0_ge := by omega, n1_ge_pA := by omega, n1_ge_pB := by omega }
  let comm : Nat → Nat → Comm := fun a b => .world nproc (a * pB + b)
  have hgrid : ∀ a b, ∃ g w, gridCreate env (a, b) (some (comm a b)) n0 n1 n2 reqA reqB .granting =
      .ok (some g, w) ∧ GridFor (a, b) n0 n1 n2 ((pA : Int), (pB : Int)) g ∧ w.Granted :=
    fun a b => hd.exists_grid (a, b) World.granting_granted
  choose grid between hgrun hgfor hgw using hgrid
  let bcast : Nat → Nat → Comm → Nat × Nat → Nat × Nat := fun a b c _ =>
    if c.dir = .pA then pABlock (d.longN 0 b) else pBBlock (d.longN a 0)
  have hproblem : ∀ a b, ∃ p w,
      problemCreate env (bcast a b) (some (grid a b)) howmany flags (between a b) =
        .ok (some p, w) ∧ p.longN = d.longN a b ∧ w.Granted := by
    intro a b
    have hg := hgfor a b
    have hfit : ∀ i, (grid a b).n i ≤ INT_MAX := by
      intro i
      rw [hg.n_eq]
      fin_cases i <;> simp <;> omega
    obtain ⟨p, w, hrun, hfor, hw⟩ := exists_problem env (bcast a b) (hgw a b) hfit hh hf
    refine ⟨p, w, hrun, ?_, hw⟩
    rw [hfor.longN_eq]
    exact pencils_eq (d := d) hg.n_eq hg.pAComm_rank (hg.pAComm_size.trans hg.pA_eq)
      hg.pBComm_rank (hg.pBComm_size.trans hg.pB_eq) _
  choose problem after hprun hlong hpw using hproblem
  let job : Job env :=
    { n0 := n0, n1 := n1, n2 := n2, reqA := reqA, reqB := reqB, howmany := howmany, flags := flags
      pA := pA, pB := pB, pA_pos := by omega, pB_pos := by omega, int_n0 := hint.1
      int_n1 := hint.2.1, int_n2 := hint.2.2, nproc := nproc, comm := comm
      comm_dir := fun _ _ => rfl, comm_size := fun _ _ => rfl, grid := grid, problem := problem
      before := fun _ _ => .granting, between := between, after := after
      grid_run := fun a b _ _ => hgrun a b
      sizes := fun a b _ _ => ⟨(hgfor a b).pA_eq, (hgfor a b).pB_eq⟩
      bcast := bcast
      bcast_pA := fun a b _ _ _ => by
        rw [hlong]
        exact if_pos (hgfor a b).pAComm_dir
      bcast_pB := fun a b _ _ _ => by
        rw [hlong]
        exact if_neg (by rw [(hgfor a b).pBComm_dir]; decide)
      problem_run := fun a b _ _ => hprun a b }
  exact ⟨job, ⟨rfl, rfl, rfl⟩, ⟨rfl, rfl⟩, rfl, rfl, fun a b _ _ => hpw a b⟩

theorem exists_planning_flags {env : Env} (job : Job env)
    (hg : ∀ a b, a < job.pA → b < job.pB → (job.after a b).Granted) (inp out : Ptr)
    {transposeFlags rigorFlags : Flags} (hw : PlanWords transposeFlags rigorFlags) :
    ∃ planning : Planning job, (planning.inp = inp ∧ planning.out = out) ∧
      planning.transposeFlags = transposeFlags ∧ planning.rigorFlags = rigorFlags := by
  have hplan : ∀ a b, ∃ plan w, a < job.pA → b < job.pB →
      planCreate env (some (job.problem a b)) (some inp) (some out) transposeFlags rigorFlags
        (job.after a b) = .ok (some plan, w) := by
    intro a b
    by_cases hab : a < job.pA ∧ b < job.pB
    · have hends : Ends _ _ (PlanCreated env (job.problem a b) inp out transposeFlags rigorFlags
          (job.after a b).log True) :=
        planCreate_ends ⟨rfl, fun _ => hg a b hab.1 hab.2⟩ transposeFlags rigorFlags
      obtain ⟨o, w, hrun, hc⟩ := hends
      obtain ⟨plan, rfl⟩ := Option.isSome_iff_exists.mp (hc.complete trivial hw)
      exact ⟨plan, w, fun _ _ => hrun⟩
    · exact ⟨⟨0, false, none, none, none, none⟩, .granting, fun ha hb => absurd ⟨ha, hb⟩ hab⟩
  choose plan after hrun using hplan
  exact ⟨⟨inp, out, transposeFlags, rigorFlags, plan, after, hrun⟩, ⟨rfl, rfl⟩, rfl, rfl⟩

theorem exists_planning {env : Env} (job : Job env)
    (hg : ∀ a b, a < job.pA → b < job.pB → (job.after a b).Granted) (inp out : Ptr)
    {transposeFlags rigorFlags : Flags} (hw : PlanWords transposeFlags rigorFlags) :
    ∃ planning : Planning job, planning.inp = inp ∧ planning.out = out := by
  obtain ⟨planning, h, -⟩ := exists_planning_flags job hg inp out hw
  exact ⟨planning, h⟩

theorem documented_reference {n0 n1 n2 : Int} {pA pB : Nat} (hA : 0 < pA) (hB : 0 < pB)
    (h2 : 1 ≤ n2) (h0 : pB ≤ n0) (h1A : pA ≤ n1) (h1B : pB ≤ n1) :
    Documented .reference (pA * pB) n0 n1 n2 pA pB pA pB := by
  have hne : pA * pB ≠ 0 := (Nat.mul_pos hA hB).ne'
  have hdims : referenceDims (pA * pB) ((pA : Int), (pB : Int)) = .ok ((pA : Int), (pB : Int)) := by
    rw [referenceDims, if_neg (by simp only []; omega), if_neg (by simp only []; omega),
      if_neg (by simp only []; omega), if_neg (by simp only []; omega), if_pos]
    exact ⟨by simp only []; omega, by simp only []; omega, by simp [Nat.cast_mul]⟩
  refine ⟨by omega, by omega, h2, by omega, by omega,
    ⟨pA, pB, hdims, by omega, by omega, ?_, ?_, ?_, ?_⟩, h0, h1A, h1B⟩
  · exact (Nat.cast_mul pA pB).symm
  · exact fun _ => rfl
  · exact fun _ => rfl
  · rw [if_neg (by omega)]

/-- Sizes of a domain and of a grid, and words, that are accepted with nothing chosen by the
library. -/
abbrev Admitted (n0 n1 n2 : Int) (pA pB : Nat) (howmany : Int) (flags : Flags) : Prop :=
  (0 < pA ∧ 0 < pB) ∧ (1 ≤ n2 ∧ pB ≤ n0 ∧ pA ≤ n1 ∧ pB ≤ n1) ∧
    (n0 ≤ INT_MAX ∧ n1 ≤ INT_MAX ∧ n2 ≤ INT_MAX) ∧ 0 ≤ howmany ∧ StorageWord flags

theorem exists_admitted (n0 n1 n2 : Int) (pA pB : Nat) (howmany : Int) (flags : Flags)
    (h : Admitted n0 n1 n2 pA pB howmany flags) :
    ∃ job : Job .reference,
      (job.n0 = n0 ∧ job.n1 = n1 ∧ job.n2 = n2) ∧ (job.pA = pA ∧ job.pB = pB) ∧
      job.howmany = howmany ∧ job.flags = flags ∧
      ∀ a b, a < job.pA → b < job.pB → (job.after a b).Granted := by
  obtain ⟨⟨hA, hB⟩, ⟨h2, h0, h1A, h1B⟩, hint, hh, hf⟩ := h
  exact exists_job (documented_reference hA hB h2 h0 h1A h1B) hint hh hf

theorem exists_planned (n0 n1 n2 : Int) (pA pB : Nat) (howmany : Int) (flags : Flags)
    (inp out : Ptr) (h : Admitted n0 n1 n2 pA pB howmany flags) :
    ∃ (job : Job .reference) (planning : Planning job),
      (job.n0 = n0 ∧ job.n1 = n1 ∧ job.n2 = n2) ∧ (job.pA = pA ∧ job.pB = pB) ∧
        job.howmany = howmany ∧ job.flags = flags ∧ planning.inp = inp ∧ planning.out = out := by
  obtain ⟨job, hn, hp, hhow, hflags, hg⟩ := exists_admitted n0 n1 n2 pA pB howmany flags h
  have hw : PlanWords TRANSPOSE_ALL FFTW.ESTIMATE := ⟨by decide, by decide⟩
  obtain ⟨planning, hi, ho⟩ := exists_planning job hg inp out hw
  exact ⟨job, planning, hn, hp, hhow, hflags, hi, ho⟩

/-- On `2 × 3` processes the last block of `n1` over `pA` is partial and that of `n0` over `pB` is
empty. -/
theorem exists_uneven : ∃ (job : Job .reference) (_ : Planning job),
    (job.n0 = 4 ∧ job.n1 = 5 ∧ job.n2 = 3) ∧ (job.pA = 2 ∧ job.pB = 3) ∧
      ((job.problem 1 0).longN 2).size 1 = 2 ∧ ((job.problem 0 2).longN 2).size 0 = 0 := by
  obtain ⟨job, planning, hn, hp, -⟩ := exists_planned 4 5 3 2 3 2 TRANSPOSED_LONG_N2 0 0 (by decide)
  have hpA : 1 < job.pA := by rw [hp.1]; decide
  have hpB : 2 < job.pB := by rw [hp.2]; decide
  refine ⟨job, planning, hn, hp, ?_, ?_⟩
  · rw [job.longN_eq hpA job.pB_pos]
    show job.decomp.lenA1 1 = 2
    simp only [Decomposition.lenA1, Decomposition.blockA1, Job.decomp, hn.2.1, hp.1]
    rfl
  · rw [job.longN_eq job.pA_pos hpB]
    show job.decomp.lenB0 2 = 0
    simp only [Decomposition.lenB0, Decomposition.blockB0, Job.decomp, hn.1, hp.2]
    rfl

end Underling
