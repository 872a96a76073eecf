import Underling.Interleaving
import Underling.Reporting

/-!
# Underling.Refusals

The processes of a job when memory or plans are refused to some of them. A process that does not get
its grid, its problem or its plan gives up: it does nothing any more. Freeing a communicator is not
counted as a call that waits for the other members.

* `gridCreate_scripted`, `problemCreate_scripted`, `planCreate_scripted`: whichever requests are
  refused, the collective calls made are a first part of a script that all members agree on, and all
  of it if nothing failed.
* `attempt_scripted`: the same of the three together.
* `refusals_in_step`: in every interleaving the calls that meet are the same call, whoever is stuck
  waits for a process that gave up, and a process that gave up has left its buffers alone.
-/

namespace Underling

open Runs C Messages

abbrev World.calls : World → List (Dir × Call) := World.shown Log.calls

/-! ## Effects -/

section Effects

variable {α : Type}

theorem errorNull_quiet (reason : String) (status : Status) :
    Sends World.calls (errorNull reason status : C (Option α)) fun o sent => o = none ∧ sent = [] :=
  .skip (modify_silent fun _ => rfl) fun _ => .pure ⟨rfl, rfl⟩

theorem giveUp_quiet {x : C Unit} (hx : Silent World.calls x) (reason : String) (status : Status) :
    Sends World.calls (do x
                          errorNull reason status : C (Option α))
      fun o sent => o = none ∧ sent = [] :=
  .skip hx fun _ => errorNull_quiet reason status

theorem call_sends (dir : Dir) (c : Call) :
    Sends World.calls (call dir c) fun _ sent => True ∧ sent = [(dir, c)] := by
  intro w a w' hrun
  cases hrun
  exact ⟨_, ⟨trivial, rfl⟩, rfl⟩

theorem newComm_sends (dir : Dir) (rank size : Nat) :
    Sends World.calls (newComm dir rank size)
      fun c sent => (c.dir = dir ∧ c.rank = rank ∧ c.size = size) ∧ sent = [] := by
  intro w a w' hrun
  cases hrun
  exact ⟨[], ⟨⟨rfl, rfl, rfl⟩, rfl⟩, (List.append_nil _).symm⟩

theorem commDupWithName_sends (comm : Comm) :
    Sends World.calls (commDupWithName comm)
      fun c sent => c.dir = comm.dir ∧ sent = [(comm.dir, .dup)] := by
  refine .bind (call_sends comm.dir .dup) ?_
  rintro _ _ ⟨-, rfl⟩
  exact (newComm_sends _ _ _).mono fun c sent h => ⟨h.1.1, by rw [h.2, List.append_nil]⟩

theorem planGuru_quiet (g : Guru) : Silent World.calls (planGuru g) :=
  .skip (modify_silent fun _ => rfl) fun _ => plan_silent _

end Effects

/-! ## Grids -/

theorem gridCreate_scripted {env : Env} {coords : Nat × Nat} {comm : Comm}
    {n0 n1 n2 reqA reqB : Int} {pA pB : Nat}
    (hadm : Admits env comm.size n0 n1 n2 reqA reqB ((pA : Int), (pB : Int))) :
    Scripted World.calls (gridCreate env coords (some comm) n0 n1 n2 reqA reqB)
      [(comm.dir, .cartCreate pA pB), (.grid, .cartSub .pA), (.grid, .cartSub .pB)]
      (GridFor coords n0 n1 n2 ((pA : Int), (pB : Int))) := by
  obtain ⟨dims, hdims, halign⟩ := hadm.chosen
  refine .ite (fun _ => .give_up (errorNull_quiet _ _)) fun _ => ?_
  refine .ite (fun _ => .give_up (errorNull_quiet _ _)) fun _ => ?_
  refine .ite (fun _ => .give_up (errorNull_quiet _ _)) fun _ => ?_
  refine .ite (fun _ => .give_up (errorNull_quiet _ _)) fun _ => ?_
  refine .ite (fun _ => .give_up (errorNull_quiet _ _)) fun _ => .skip malloc_silent fun o => ?_
  cases o with
  | none => exact .give_up (errorNull_quiet _ _)
  | some addr =>
    dsimp only
    rw [hdims]
    dsimp only
    rw [halign]
    have hfree : ∀ reason status, Scripted World.calls
        (do free addr
            errorNull reason status : C (Option Grid))
        [(comm.dir, .cartCreate pA pB), (.grid, .cartSub .pA), (.grid, .cartSub .pB)]
        (GridFor coords n0 n1 n2 ((pA : Int), (pB : Int))) := fun reason status =>
      .give_up (giveUp_quiet (release_silent _) reason status)
    refine .ite (fun _ => hfree _ _) fun _ => .ite (fun _ => hfree _ _) fun _ => ?_
    refine .ite (fun _ => hfree _ _) fun _ => .ite (fun _ => hfree _ _) fun _ => ?_
    refine .after (m := [_]) (call_sends _ _) fun _ _ => ?_
    refine .after (m := []) (newComm_sends _ _ _) fun gComm hg => ?_
    rw [hg.1]
    refine .after (m := [_]) (call_sends _ _) fun _ _ => ?_
    refine .after (m := []) (newComm_sends _ _ _) fun pAComm ha => ?_
    refine .after (m := [_]) (call_sends _ _) fun _ _ => ?_
    refine .after (m := []) (newComm_sends _ _ _) fun pBComm hb => .done ?_
    exact ⟨rfl, rfl, rfl, ha.1, ha.2.1, ha.2.2, hb.1, hb.2.1, hb.2.2⟩

/-! ## Problems -/

section Problems

variable {env : Env}

theorem localDetails_sends (t : TransposeArgs) (comm : Comm) :
    Sends World.calls (localDetails env t comm) fun _ sent => True ∧ sent =
      if t.Trivial then []
      else [(comm.dir, .localSizeTransposed t.d0 t.d1 t.howmany t.block0 t.block1)] := by
  refine .ite (fun ht => .pure ⟨trivial, (if_pos ht).symm⟩) fun ht => ?_
  refine .bind (call_sends _ _) ?_
  rintro _ _ ⟨-, rfl⟩
  exact .pure ⟨trivial, (if_neg ht).symm⟩

/-- The transpose made with given arguments on a duplicate of a communicator. -/
def Transpose.On (args : TransposeArgs) (dir : Dir) (t : Transpose) : Prop :=
  t.toTransposeArgs = args ∧ t.comm.dir = dir

theorem transposeFill_scripted (addr : Nat) (t : TransposeArgs) (comm : Comm) :
    Scripted World.calls (do
        let comm ← commDupWithName comm
        let details ← localDetails env t comm
        return some ({ t with addr := addr, comm := comm, details := details } : Transpose))
      (transposeCalls t comm.dir) (Transpose.On t comm.dir) := by
  have hcalls : transposeCalls t comm.dir = [(comm.dir, .dup)] ++ ((if t.Trivial then []
      else [(comm.dir, .localSizeTransposed t.d0 t.d1 t.howmany t.block0 t.block1)]) ++ []) := by
    rw [List.append_nil]
    rfl
  rw [hcalls]
  refine .after (commDupWithName_sends comm) fun c hc => ?_
  rw [← hc]
  exact .after (localDetails_sends t c) fun _ _ => .done ⟨rfl, rfl⟩

theorem transposeCreate_scripted (t : TransposeArgs) (comm : Comm) :
    Scripted World.calls (transposeCreate env t comm) (transposeCalls t comm.dir)
      (Transpose.On t comm.dir) := by
  refine .skip malloc_silent fun o => ?_
  cases o with
  | none => exact .give_up (errorNull_quiet _ _)
  | some addr => exact transposeFill_scripted addr t comm

theorem transposeCreateInverse_scripted {forward : Transpose} {args : TransposeArgs} {dir : Dir}
    (h : forward.On args dir) :
    Scripted World.calls (transposeCreateInverse env (some forward))
      (transposeCalls args.inverse dir) (Transpose.On args.inverse dir) := by
  obtain ⟨rfl, rfl⟩ := h
  refine .ite (fun _ => .give_up (errorNull_quiet _ _)) fun _ => .skip malloc_silent fun o => ?_
  cases o with
  | none => exact .give_up (errorNull_quiet _ _)
  | some addr => exact transposeFill_scripted addr forward.inverse forward.comm

theorem decompose_sends (d0 d1 howmany : Nat) (comm : Comm) :
    Sends World.calls (decompose env d0 d1 howmany comm) fun l sent =>
      l = env.localSizeManyTransposed d0 d1 (if howmany = 0 then 1 else howmany)
        FFTW.MPI_DEFAULT_BLOCK FFTW.MPI_DEFAULT_BLOCK comm ∧
      sent = [(comm.dir,
        .localSizeTransposed d0 d1 (if howmany = 0 then 1 else howmany) 0 0)] := by
  refine .bind (call_sends _ _) ?_
  rintro _ _ ⟨-, rfl⟩
  refine .skip (assert_silent _) fun _ => .skip (assert_silent _) fun _ => ?_
  exact .skip (assert_silent _) fun _ => .skip (assert_silent _) fun _ => .pure ⟨rfl, rfl⟩

/-- A problem with the given transposes. -/
structure Problem.Built (grid : Grid) (tA tB : TransposeArgs) (p : Problem) : Prop where
  backwardA : p.backwardA.On tA grid.pAComm.dir
  backwardB : p.backwardB.On tB grid.pBComm.dir
  forwardB : p.forwardB.On tB.inverse grid.pBComm.dir
  forwardA : p.forwardA.On tA.inverse grid.pAComm.dir

theorem problemCreate_scripted {bcast : Comm → Nat × Nat → Nat × Nat} {grid : Grid} {howmany : Int}
    {flags : Flags} {longN : Fin 3 → Extents} {blockA blockB : Nat × Nat}
    (hlong : pencils grid.n howmany.toNat flags
      (env.localSizeManyTransposed (grid.n 0) (grid.n 1)
        (if howmany.toNat = 0 then 1 else howmany.toNat) FFTW.MPI_DEFAULT_BLOCK
        FFTW.MPI_DEFAULT_BLOCK grid.pBComm)
      (env.localSizeManyTransposed (grid.n 1) (grid.n 2)
        (if howmany.toNat = 0 then 1 else howmany.toNat) FFTW.MPI_DEFAULT_BLOCK
        FFTW.MPI_DEFAULT_BLOCK grid.pAComm) = longN)
    (hA : ∀ v, bcast grid.pAComm v = blockA) (hB : ∀ v, bcast grid.pBComm v = blockB) :
    let tA := backwardAArgs grid.n howmany.toNat flags longN blockA
    let tB := backwardBArgs grid.n howmany.toNat flags longN blockB
    Scripted World.calls (problemCreate env bcast (some grid) howmany flags)
      (problemScript grid howmany.toNat tA tB) (Problem.Built grid tA tB) := by
  intro tA tB
  refine .ite (fun _ => .give_up (errorNull_quiet _ _)) fun _ => ?_
  refine .ite (fun _ => .give_up (errorNull_quiet _ _)) fun _ => .skip malloc_silent fun o => ?_
  cases o with
  | none => exact .give_up (errorNull_quiet _ _)
  | some addr =>
    refine .after (m := [_]) (decompose_sends _ _ _ _) fun dB hdB => ?_
    refine .after (m := [_]) (decompose_sends _ _ _ _) fun dA hdA => ?_
    subst hdB hdA
    dsimp only
    rw [hlong]
    refine .after (m := [_]) (call_sends _ _) fun _ _ => ?_
    refine .after (m := [_]) (call_sends _ _) fun _ _ => ?_
    rw [hA, hB]
    have hfree : ∀ a b c d reason, Sends World.calls
        (do problemRelease addr a b c d
            errorNull reason .efailed : C (Option Problem)) fun o sent => o = none ∧ sent = [] :=
      fun a b c d reason => giveUp_quiet (problemRelease_silent addr a b c d) reason _
    refine .bind (transposeCreate_scripted tA _) (hfree _ _ _ _ _) fun backwardA hbA => ?_
    refine .bind (transposeCreate_scripted tB _) (hfree _ _ _ _ _) fun backwardB hbB => ?_
    refine .bind (transposeCreateInverse_scripted hbB) (hfree _ _ _ _ _) fun forwardB hfB => ?_
    rw [← List.append_nil (transposeCalls tA.inverse _)]
    refine .bind (transposeCreateInverse_scripted hbA) (hfree _ _ _ _ _) fun forwardA hfA => ?_
    exact .done ⟨hbA, hbB, hfB, hfA⟩

end Problems

/-! ## Plans -/

section Plans

variable {env : Env}

theorem transposeFftwPlan_sends (t : Transpose) (inp out : Ptr) (fftwFlags : Flags) :
    Sends World.calls (transposeFftwPlan (some t) inp out fftwFlags) fun _ sent =>
      True ∧ sent = planCalls t.toTransposeArgs t.comm.dir fftwFlags := by
  refine .ite (fun ht => ?_) fun ht => ?_
  · exact (planGuru_quiet _).mono fun _ _ h => ⟨trivial, h.trans (if_pos ht).symm⟩
  · refine .bind (call_sends _ _) ?_
    rintro _ _ ⟨-, rfl⟩
    refine (plan_silent _).mono ?_
    rintro _ _ rfl
    exact ⟨trivial, (if_neg ht).symm⟩

/-- The call is made before it is known whether there is a plan. -/
theorem plannerBlock_scripted (transposeFlags : Flags) (move : Move) {t : Transpose}
    {args : TransposeArgs} {dir : Dir} (ht : t.On args dir) (inp out : Ptr) (fftwFlags : Flags)
    (field : String) (store : Plan → FftwPlan → Plan) (plan : Plan) :
    Scripted World.calls
      (plannerBlock env transposeFlags move.flag t inp out fftwFlags field store plan)
      (planCalls args dir fftwFlags) fun _ => True := by
  obtain ⟨rfl, rfl⟩ := ht
  rw [plannerBlock, if_pos (planner_guard transposeFlags move),
    ← List.append_nil (planCalls _ _ _)]
  refine .after (transposeFftwPlan_sends t inp out fftwFlags) fun o _ => ?_
  cases o with
  | none => exact .give_up (giveUp_quiet (planDestroy_silent _) _ _)
  | some q => exact .done trivial

theorem planCreate_scripted {grid : Grid} {tA tB : TransposeArgs} {problem : Problem}
    (hp : Problem.Built grid tA tB problem) (inp out : Ptr) (transposeFlags rigorFlags : Flags) :
    Scripted World.calls
      (planCreate env (some problem) (some inp) (some out) transposeFlags rigorFlags)
      (planScript grid.pAComm.dir grid.pBComm.dir tA tB (rigorFlags ||| env.destroyFlags))
      (PlanFor env problem inp out rigorFlags) := by
  have hcalls : Scripted World.calls
      (planCreate env (some problem) (some inp) (some out) transposeFlags rigorFlags)
      (planScript grid.pAComm.dir grid.pBComm.dir tA tB (rigorFlags ||| env.destroyFlags))
      fun _ => True := by
    have hnone : Sends World.calls (pure none : C (Option Plan))
        fun o sent => o = none ∧ sent = [] := .pure ⟨rfl, rfl⟩
    refine .ite (fun _ => .give_up (errorNull_quiet _ _)) fun _ => ?_
    refine .ite (fun _ => .give_up (errorNull_quiet _ _)) fun _ => .skip malloc_silent fun o => ?_
    cases o with
    | none => exact .give_up (errorNull_quiet _ _)
    | some addr =>
      refine .bind (plannerBlock_scripted _ .n2n1 hp.backwardA _ _ _ _ _ _) hnone fun p1 _ => ?_
      refine .bind (plannerBlock_scripted _ .n1n0 hp.backwardB _ _ _ _ _ _) hnone fun p2 _ => ?_
      refine .bind (plannerBlock_scripted _ .n0n1 hp.forwardB _ _ _ _ _ _) hnone fun p3 _ => ?_
      rw [← List.append_nil (planCalls tA.inverse _ _)]
      refine .bind (plannerBlock_scripted _ .n1n2 hp.forwardA _ _ _ _ _ _) hnone fun p4 _ => ?_
      exact .done trivial
  have hends : ∀ w, Ends
      (planCreate env (some problem) (some inp) (some out) transposeFlags rigorFlags) w
      fun o _ => ∀ plan, o = some plan → PlanFor env problem inp out rigorFlags plan :=
    fun w => (planCreate_ends (w := w) (l := w.log) (G := False) ⟨rfl, False.elim⟩ _ _).mono
      fun o w' h plan hplan => (h.sound plan hplan).2.1
  exact (Sends.and_ends hcalls hends).mono fun o sent h =>
    ⟨h.1.1, fun plan hplan => ⟨(h.1.2 plan hplan).1, h.2 plan hplan⟩⟩

end Plans

/-! ## Attempts -/

section Attempts

variable {env : Env} {job : Job env} {a b : Nat}

theorem Job.blockA_eq (ha : a < job.pA) (hb : b < job.pB) :
    pABlock (job.problem 0 b).longN =
      (job.decomp.lenB0 b * job.decomp.blockA1, job.decomp.blockA2) :=
  (job.bcast_pA a b (0, 0) ha hb).symm.trans (job.blocks_eq ha hb (0, 0)).1

theorem Job.blockB_eq (ha : a < job.pA) (hb : b < job.pB) :
    pBBlock (job.problem a 0).longN =
      (job.decomp.lenA2 a * job.decomp.blockB0, job.decomp.blockB1) :=
  (job.bcast_pB a b (0, 0) ha hb).symm.trans (job.blocks_eq ha hb (0, 0)).2

end Attempts

namespace Planning

variable {env : Env} {job : Job env} (planning : Planning job) {a b : Nat}

/-- What the process at `(a, b)` does before its tasks, with the arguments of the job. -/
def attempt (bcast : Comm → Nat × Nat → Nat × Nat) (a b : Nat) : C (Option Plan) := do
  let some grid ←
      gridCreate env (a, b) (some (job.comm a b)) job.n0 job.n1 job.n2 job.reqA job.reqB
    | return none
  let some problem ← problemCreate env bcast (some grid) job.howmany job.flags | return none
  planCreate env (some problem) (some planning.inp) (some planning.out) planning.transposeFlags
    planning.rigorFlags

theorem attempt_scripted (ha : a < job.pA) (hb : b < job.pB)
    {bcast : Comm → Nat × Nat → Nat × Nat}
    (hA : ∀ comm v, comm.dir = .pA → bcast comm v = pABlock (job.problem 0 b).longN)
    (hB : ∀ comm v, comm.dir = .pB → bcast comm v = pBBlock (job.problem a 0).longN) :
    Scripted World.calls (planning.attempt bcast a b) (job.calls a b ++ planning.calls a b)
      (planning.Alike a b) := by
  have hadm : Admits env (job.comm a b).size job.n0 job.n1 job.n2 job.reqA job.reqB
      ((job.pA : Int), (job.pB : Int)) := by
    rw [job.comm_size]
    exact admits_iff.mpr (job.documented ha hb)
  have hj := (job.created ha hb).grid
  rw [job.calls_eq ha hb, planning.calls_eq ha hb, List.append_assoc, ← job.comm_dir a b]
  refine .bind (gridCreate_scripted hadm) (.pure ⟨rfl, rfl⟩) fun g hg => ?_
  have htA : backwardAArgs g.n job.howmany.toNat job.flags (job.decomp.longN a b)
      (job.decomp.lenB0 b * job.decomp.blockA1, job.decomp.blockA2) =
      (job.decomp.stageA b).args := by
    rw [hg.n_eq]
    rfl
  have htB : backwardBArgs g.n job.howmany.toNat job.flags (job.decomp.longN a b)
      (job.decomp.lenA2 a * job.decomp.blockB0, job.decomp.blockB1) =
      (job.decomp.stageB a).args := by
    rw [hg.n_eq]
    rfl
  have hscript : problemScript (job.grid a b) job.howmany.toNat (job.decomp.stageA b).args
      (job.decomp.stageB a).args = problemScript g job.howmany.toNat (job.decomp.stageA b).args
        (job.decomp.stageB a).args := by
    simp only [problemScript, hj.n_eq, hj.pAComm_dir, hj.pBComm_dir, hg.n_eq, hg.pAComm_dir,
      hg.pBComm_dir]
  have hproblem : Scripted World.calls (problemCreate env bcast (some g) job.howmany job.flags)
      (problemScript g job.howmany.toNat (job.decomp.stageA b).args (job.decomp.stageB a).args)
      (Problem.Built g (job.decomp.stageA b).args (job.decomp.stageB a).args) := by
    rw [← htA, ← htB]
    exact problemCreate_scripted
      (pencils_eq (d := job.decomp) hg.n_eq hg.pAComm_rank (hg.pAComm_size.trans hg.pA_eq)
        hg.pBComm_rank (hg.pBComm_size.trans hg.pB_eq) _)
      (fun v => (hA g.pAComm v hg.pAComm_dir).trans (job.blockA_eq ha hb))
      (fun v => (hB g.pBComm v hg.pBComm_dir).trans (job.blockB_eq ha hb))
  rw [hscript]
  refine .bind hproblem (.pure ⟨rfl, rfl⟩) fun p hp => ?_
  rw [← hg.pAComm_dir, ← hg.pBComm_dir]
  refine (planCreate_scripted hp planning.inp planning.out planning.transposeFlags
    planning.rigorFlags).mono fun plan hfor => ⟨p, hfor, fun move => ?_⟩
  cases move with
  | n2n1 => exact hp.backwardA.1
  | n1n0 => exact hp.backwardB.1
  | n0n1 => exact hp.forwardB.1
  | n1n2 => exact hp.forwardA.1

/-- An attempt of every process, from worlds of their own. What `MPI_Bcast` delivers is what rank 0
sends when it comes so far. -/
structure Attempts (planning : Planning job) where
  before : Nat → Nat → World
  after : Nat → Nat → World
  bcast : Nat → Nat → Comm → Nat × Nat → Nat × Nat
  bcast_pA : ∀ a b comm v, comm.dir = .pA → bcast a b comm v = pABlock (job.problem 0 b).longN
  bcast_pB : ∀ a b comm v, comm.dir = .pB → bcast a b comm v = pBBlock (job.problem a 0).longN
  plan : Nat → Nat → Option Plan
  run : ∀ a b, a < job.pA → b < job.pB →
    planning.attempt (bcast a b) a b (before a b) = .ok (plan a b, after a b)

namespace Attempts

variable {planning} (attempts : planning.Attempts)

/-- The collective calls a process makes before its tasks. -/
def calls (a b : Nat) : List (Dir × Call) :=
  (attempts.after a b).log.calls.drop (attempts.before a b).log.calls.length

/-- Everything a process does: a process without a plan does no tasks. -/
def script {α : Type} (tasks : List (Task α)) (a b : Nat) : List (Event α) :=
  (attempts.calls a b).map (fun c => .call c.1 (c.1.index a b) c.2) ++
    match attempts.plan a b with
    | none => []
    | some plan => tasks.map (plan.event a b)

theorem scripted (ha : a < job.pA) (hb : b < job.pB) :
    attempts.calls a b <+: job.calls a b ++ planning.calls a b ∧
      ∀ plan, attempts.plan a b = some plan →
        attempts.calls a b = job.calls a b ++ planning.calls a b ∧ planning.Alike a b plan := by
  obtain ⟨sent, hs, hview⟩ := planning.attempt_scripted ha hb (attempts.bcast_pA a b)
    (attempts.bcast_pB a b) (attempts.run a b ha hb)
  have hcalls : attempts.calls a b = sent := by
    have hlog : (attempts.after a b).log.calls = (attempts.before a b).log.calls ++ sent := hview
    rw [calls, hlog, List.drop_left]
  rw [hcalls]
  exact hs

section Scripts

variable {α : Type} (tasks : List (Task α))

theorem script_of_plan (ha : a < job.pA) (hb : b < job.pB) (h : attempts.plan a b ≠ none) :
    attempts.script tasks a b = planning.script tasks a b := by
  obtain ⟨plan, hplan⟩ := Option.ne_none_iff_exists'.mp h
  obtain ⟨hcalls, halike⟩ := (attempts.scripted ha hb).2 plan hplan
  have htasks : tasks.map (plan.event a b) = tasks.map (planning.event a b) :=
    List.map_congr_left fun task _ => halike.event_eq (planning.alike ha hb) task
  rw [script, Planning.script, hplan, hcalls, ← htasks]

theorem script_prefix (ha : a < job.pA) (hb : b < job.pB) :
    attempts.script tasks a b <+: planning.script tasks a b := by
  by_cases h : attempts.plan a b = none
  · obtain ⟨more, hmore⟩ := (attempts.scripted ha hb).1
    rw [script, Planning.script, h, ← hmore, List.append_nil, List.map_append, List.append_assoc]
    exact List.prefix_append _ _
  · rw [attempts.script_of_plan tasks ha hb h]

/-- What a process that gave up did not come to. -/
def missed (p : job.Proc) : List (Event α) :=
  (planning.script tasks p.1 p.2).drop (attempts.script tasks p.1 p.2).length

theorem script_missed (p : job.Proc) :
    attempts.script tasks p.1 p.2 ++ attempts.missed tasks p =
      Collectives.program (planning.rounds tasks) p := by
  rw [program_rounds, missed]
  exact List.prefix_iff_eq_append.mp (attempts.script_prefix tasks p.1.isLt p.2.isLt)

/-- Every process before its first call. -/
def launch (mem : Nat → Nat → Mem α) : Collectives.State job.Proc (Event α) (Mem α) where
  todo := fun p => attempts.script tasks p.1 p.2
  data := fun p => mem p.1 p.2

end Scripts

end Attempts

end Planning

section Refused

open Collectives

variable {α : Type} {env : Env} {job : Job env} {planning : Planning job}

/-- What holds of a run of the processes of a job, some of which may get no plan, from buffers
`mem`, with the events that fired. -/
structure InStep (attempts : planning.Attempts) (fftw : FftwMpi α) (tasks : List (Task α))
    (mem : Nat → Nat → Mem α) (fired : List (Event α))
    (s : State job.Proc (Event α) (Mem α)) : Prop where
  bounded : fired.length ≤ ∑ p : job.Proc, (attempts.script tasks p.1 p.2).length
  /-- Two processes that wait for each other wait in the same call, with the same arguments. -/
  matched : ∀ p q e e', (s.todo p).head? = some e → (s.todo q).head? = some e' →
    (planning.system fftw mem).takes q e → (planning.system fftw mem).takes p e' → e = e'
  /-- Who is stuck waits, directly or through others, for a process that got no plan. -/
  waits : (planning.system fftw mem).Stuck s → ∀ p, s.todo p ≠ [] → ∃ q,
    Relation.TransGen ((planning.system fftw mem).WaitsFor s) p q ∧ s.todo q = [] ∧
      attempts.plan q.1 q.2 = none
  completes : (∀ p : job.Proc, attempts.plan p.1 p.2 ≠ none) →
    ∃ l s', (planning.system fftw mem).Run s l s' ∧ s'.Finished
  untouched : ∀ p : job.Proc, attempts.plan p.1 p.2 = none → s.data p = mem p.1 p.2

/-- Whichever requests are refused to which processes, and however the processes interleave, the
collective calls of those that go on match, and nobody waits but for a process that gave up. -/
theorem refusals_in_step (attempts : planning.Attempts) (fftw : FftwMpi α) (tasks : List (Task α))
    (mem : Nat → Nat → Mem α) {fired : List (Event α)} {s : State job.Proc (Event α) (Mem α)}
    (h : (planning.system fftw mem).Run (attempts.launch tasks mem) fired s) :
    InStep attempts fftw tasks mem fired s := by
  have hagreed := planning.agreed_rounds fftw mem tasks
  have hcut := attempts.script_missed tasks
  refine ⟨?_, fun p q e e' => h.matched hagreed hcut, fun hstuck p hp => ?_, fun hall => ?_, ?_⟩
  · have hlen := h.length_le
    simp only [Planning.Attempts.launch] at hlen
    omega
  · obtain ⟨q, hwait, hend, hmissed⟩ := h.gave_up hagreed hcut hstuck hp
    refine ⟨q, hwait, hend, ?_⟩
    by_contra hplan
    refine hmissed ?_
    rw [Planning.Attempts.missed, attempts.script_of_plan tasks q.1.isLt q.2.isLt hplan,
      List.drop_length]
  · have hstart : attempts.launch tasks mem =
        ⟨program (planning.rounds tasks), fun p => mem p.1 p.2⟩ := by
      unfold Planning.Attempts.launch
      congr 1
      funext p
      rw [planning.program_rounds, attempts.script_of_plan tasks p.1.isLt p.2.isLt (hall p)]
    rw [hstart] at h
    exact h.completes hagreed
  · intro p hp
    refine h.data_eq fun e he d => ?_
    simp only [Planning.Attempts.launch, Planning.Attempts.script, hp, List.append_nil] at he
    obtain ⟨c, -, rfl⟩ := List.mem_map.mp he
    rfl

/-! ## Existence -/

/-- Attempts come to an end whatever is refused. -/
theorem exists_attempts (planning : Planning job) (before : Nat → Nat → World) :
    ∃ attempts : planning.Attempts, attempts.before = before := by
  let bcast : Nat → Nat → Comm → Nat × Nat → Nat × Nat := fun a b comm _ =>
    if comm.dir = .pA then pABlock (job.problem 0 b).longN else pBBlock (job.problem a 0).longN
  have hrun : ∀ a b, ∃ o w, a < job.pA → b < job.pB →
      planning.attempt (bcast a b) a b (before a b) = .ok (o, w) := by
    intro a b
    have hends : Ends (planning.attempt (bcast a b) a b) (before a b) fun _ _ => True := by
      refine .bind (gridCreate_ends (G := False) ⟨rfl, False.elim⟩) ?_
      rintro (_ | g) w1 hg
      · exact .pure trivial
      obtain ⟨dims, -, hfor, hat⟩ := hg.sound g rfl
      have hint : ∀ i, g.n i ≤ INT_MAX := by
        have h0 := job.int_n0
        have h1 := job.int_n1
        have h2 := job.int_n2
        intro i
        rw [hfor.n_eq]
        fin_cases i <;> simp <;> omega
      refine .bind (problemCreate_ends hat hint) ?_
      rintro (_ | p) w2 hp
      · exact .pure trivial
      obtain ⟨-, -, -, hat'⟩ := hp.sound p rfl
      exact (planCreate_ends hat' _ _).mono fun _ _ _ => trivial
    obtain ⟨o, w, hrun, -⟩ := hends
    exact ⟨o, w, fun _ _ => hrun⟩
  choose plan after hrun using hrun
  exact ⟨⟨before, after, bcast, fun a b comm v h => if_pos h,
    fun a b comm v h => if_neg (by rw [h]; decide), plan, hrun⟩, rfl⟩

/-- A process to which the memory of its grid is refused. -/
theorem gridCreate_refused {coords : Nat × Nat} {comm : Comm} {n0 n1 n2 pA pB : Int} {w : World}
    (hw : w.refuse w.requests = true) :
    Ends (gridCreate env coords (some comm) n0 n1 n2 pA pB) w fun o _ => o = none := by
  have hnone : ∀ (reason : String) (status : Status) (w : World),
      Ends (errorNull reason status : C (Option Grid)) w fun o _ => o = none :=
    fun _ _ _ => errorNull_none fun _ => rfl
  refine .ite (fun _ => hnone _ _ _) fun _ => .ite (fun _ => hnone _ _ _) fun _ => ?_
  refine .ite (fun _ => hnone _ _ _) fun _ => .ite (fun _ => hnone _ _ _) fun _ => ?_
  refine .ite (fun _ => hnone _ _ _) fun _ => .bind (request_asked .block) ?_
  rintro (_ | addr) w1 ⟨-, hgrants⟩
  · exact hnone _ _ _
  · rw [World.grants_one_iff, hw] at hgrants
    cases hgrants.mp rfl

end Refused

/-- On `2 × 3` processes of which the first gets no memory. -/
theorem refusals_in_step_six :
    ∃ (job : Job .reference) (planning : Planning job) (attempts : planning.Attempts),
      (job.pA = 2 ∧ job.pB = 3) ∧ attempts.plan 0 0 = none ∧
        ∀ mem : Nat → Nat → Mem Nat, ∃ fired s,
          (planning.system FftwMpi.reference mem).Run
            (attempts.launch [.execute ⟨.n2n1, 0, 0⟩] mem) fired s ∧
          (planning.system FftwMpi.reference mem).Stuck s ∧
          InStep attempts FftwMpi.reference [.execute ⟨.n2n1, 0, 0⟩] mem fired s := by
  obtain ⟨job, planning, -, hp, -⟩ := exists_planned 4 5 3 2 3 2 0 0 0 (by decide)
  obtain ⟨attempts, hbefore⟩ := exists_attempts planning fun a b =>
    .init fun _ => decide (a = 0 ∧ b = 0)
  refine ⟨job, planning, attempts, hp, ?_, fun mem => ?_⟩
  · have hrun := attempts.run 0 0 job.pA_pos job.pB_pos
    rw [hbefore] at hrun
    obtain ⟨o, w1, hgrid, hrest⟩ := ok_bind hrun
    obtain rfl : o = none := (gridCreate_refused rfl).of_run hgrid
    exact (congrArg Prod.fst (Except.ok.inj hrest)).symm
  · obtain ⟨fired, s, hrun, hstuck⟩ := (planning.system FftwMpi.reference mem).exists_stuck
      (attempts.launch [.execute ⟨.n2n1, 0, 0⟩] mem)
    exact ⟨fired, s, hrun, hstuck, refusals_in_step attempts FftwMpi.reference _ mem hrun⟩

end Underling
