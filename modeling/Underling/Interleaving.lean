import Underling.Collective
import Underling.Lib.Collectives
import Underling.Walk

/-!
# Underling.Interleaving

The processes of a job running on their own. Each makes its collective calls in its own order, and a
collective call completes when all members of its communicator make it; nothing else keeps the
processes in step. A plan that is a no-op, and an execute call that fails, involve nobody else.

* `interleavings_complete`: creating grid, problem and plan and then any list of execute calls and
  local work never deadlocks, however the processes interleave; every run that ends leaves the
  buffers as if all processes had done one task after the other together (`Planning.perform`).
* `interleaved_walk`: a walk leaves in its last buffer, in every interleaving, what it leaves when
  all processes take each step together.
-/

namespace Underling

open Collectives Schedule

variable {α : Type}

/-! ## Calls -/

section Calls

/-- The collective calls of `problemCreate` on a grid, given the transposes on the way down. -/
def problemScript (grid : Grid) (howmany : Nat) (tA tB : TransposeArgs) : List (Dir × Call) :=
  let howmanyTmp := if howmany = 0 then 1 else howmany
  [(grid.pBComm.dir, .localSizeTransposed (grid.n 0) (grid.n 1) howmanyTmp 0 0),
    (grid.pAComm.dir, .localSizeTransposed (grid.n 1) (grid.n 2) howmanyTmp 0 0),
    (grid.pAComm.dir, .bcast 2 0), (grid.pBComm.dir, .bcast 2 0)] ++
    (transposeCalls tA grid.pAComm.dir ++ (transposeCalls tB grid.pBComm.dir ++
      (transposeCalls tB.inverse grid.pBComm.dir ++ transposeCalls tA.inverse grid.pAComm.dir)))

/-- The collective calls of `planCreate`, given the transposes on the way down. -/
def planScript (dirA dirB : Dir) (tA tB : TransposeArgs) (fftwFlags : Flags) :
    List (Dir × Call) :=
  planCalls tA dirA fftwFlags ++ (planCalls tB dirB fftwFlags ++
    (planCalls tB.inverse dirB fftwFlags ++ planCalls tA.inverse dirA fftwFlags))

variable {env : Env} {job : Job env} {a b : Nat}

theorem Job.calls_eq (ha : a < job.pA) (hb : b < job.pB) :
    job.calls a b =
      [(.world, .cartCreate job.pA job.pB), (.grid, .cartSub .pA), (.grid, .cartSub .pB)] ++
        problemScript (job.grid a b) job.howmany.toNat (job.decomp.stageA b).args
          (job.decomp.stageB a).args := by
  have hc := job.created ha hb
  have hpA : (job.grid a b).pA = job.pA := hc.grid.pA_eq
  have hpB : (job.grid a b).pB = job.pB := hc.grid.pB_eq
  have hA := job.args_eq ha hb .n2n1
  have hB := job.args_eq ha hb .n1n0
  have hB' := job.args_eq ha hb .n0n1
  have hA' := job.args_eq ha hb .n1n2
  simp only [Move.transpose, Decomposition.args] at hA hB hB' hA'
  rw [Job.calls, hc.calls, List.append_assoc, List.drop_left]
  simp [gridCalls, problemCalls, problemScript, job.comm_dir, hpA, hpB, hA, hB, hB', hA']

theorem Planning.calls_eq (planning : Planning job) (ha : a < job.pA) (hb : b < job.pB) :
    planning.calls a b = planScript .pA .pB (job.decomp.stageA b).args (job.decomp.stageB a).args
      (planning.rigorFlags ||| env.destroyFlags) := by
  have hlog := congrArg Log.calls (planning.created ha hb).2.2
  have hA := job.args_eq ha hb .n2n1
  have hB := job.args_eq ha hb .n1n0
  have hB' := job.args_eq ha hb .n0n1
  have hA' := job.args_eq ha hb .n1n2
  have hdA := (job.comm_eq ha hb .n2n1).1
  have hdB := (job.comm_eq ha hb .n1n0).1
  have hdB' := (job.comm_eq ha hb .n0n1).1
  have hdA' := (job.comm_eq ha hb .n1n2).1
  simp only [Move.transpose, Decomposition.args, Move.dir] at hA hB hB' hA' hdA hdB hdB' hdA'
  simp only [planLog, Transpose.planLog_calls, hA, hB, hA', hB', hdA, hdB, hdA', hdB',
    List.append_assoc] at hlog
  simp only [Planning.calls, hlog, List.drop_left, planScript]

end Calls

/-! ## Events -/

/-- Which of the communicators of a kind the process at `(a, b)` is a member of. -/
def Dir.index (dir : Dir) (a b : Nat) : Nat :=
  match dir with
  | .pA => b
  | .pB => a
  | _ => 0

inductive Event (α : Type) where
  /-- A collective call on the `i`-th communicator of a kind. -/
  | call (dir : Dir) (i : Nat) (c : Call)
  /-- `fftw_mpi_execute_r2r` on the `i`-th communicator of the direction. -/
  | exchange (c : ExecCall) (i : Nat)
  /-- What the process at `(a, b)` does to its buffers without the others. -/
  | own (a b : Nat) (f : Mem α → Mem α)

/-- What every process does next: an execute call, or work on its own buffers. -/
inductive Task (α : Type) where
  | execute (c : ExecCall)
  | work (f : Nat → Nat → Mem α → Mem α)

instance (c : ExecCall) (plan : Plan) : Decidable (c.Placed plan) :=
  inferInstanceAs (Decidable (_ ↔ _))

/-- The event a task is for the process at `(a, b)` that has the given plan. -/
def Plan.event (plan : Plan) (a b : Nat) : Task α → Event α
  | .execute c =>
    match c.move.field plan with
    | some ⟨_, .manyTranspose _ _ _ _⟩ =>
      if c.Placed plan then .exchange c (c.move.dir.index a b) else .own a b id
    | _ => .own a b id
  | .work f => .own a b (f a b)

namespace Planning

variable {env : Env} {job : Job env} (planning : Planning job)

def event (a b : Nat) : Task α → Event α := (planning.plan a b).event a b

/-- Everything a process does: its collective calls to create grid, problem and plan, then the
tasks. -/
def script (tasks : List (Task α)) (a b : Nat) : List (Event α) :=
  (job.calls a b ++ planning.calls a b).map (fun c => .call c.1 (c.1.index a b) c.2) ++
    tasks.map (planning.event a b)

/-- A task done by all processes of the job together. -/
def perform (fftw : FftwMpi α) (task : Task α) (mem : Nat → Nat → Mem α) (a b : Nat) : Mem α :=
  if a < job.pA ∧ b < job.pB then
    match task with
    | .execute c =>
      let effect : Effect α := fun q _ _ m =>
        match q.desc with
        | .manyTranspose _ _ _ _ =>
          fftw.run (job.decomp.procs c.move) (planning.members c.move c.inp c.out mem a b)
            (c.move.rank a b)
        | .guru _ => m
      (c.run effect (planning.plan a b) (mem a b)).2
    | .work f => f a b (mem a b)
  else mem a b

end Planning

/-! ## The system -/

/-- The processes of a job. -/
abbrev Job.Proc {env : Env} (job : Job env) := Fin job.pA × Fin job.pB

namespace Planning

variable {env : Env} {job : Job env} (planning : Planning job)

/-- The buffers of all coordinates, given those of the processes. -/
def spread (mem : Nat → Nat → Mem α) (d : job.Proc → Mem α) (a b : Nat) : Mem α :=
  if h : a < job.pA ∧ b < job.pB then d (⟨a, h.1⟩, ⟨b, h.2⟩) else mem a b

/-- The process takes part in the event. -/
def Takes (p : job.Proc) : Event α → Prop
  | .call dir i _ => dir.index p.1 p.2 = i
  | .exchange c i => c.move.dir.index p.1 p.2 = i
  | .own a b _ => p.1 = a ∧ p.2 = b

/-- What an event does to the buffers of the processes that take part in it. -/
def effect (fftw : FftwMpi α) (mem : Nat → Nat → Mem α) (e : Event α) (d : job.Proc → Mem α)
    (p : job.Proc) : Mem α :=
  match e with
  | .call _ _ _ => d p
  | .exchange c _ =>
    fftw.run (job.decomp.procs c.move)
      (planning.members c.move c.inp c.out (spread mem d) p.1 p.2) (c.move.rank p.1 p.2)
  | .own _ _ f => f (d p)

theorem spread_self (mem : Nat → Nat → Mem α) (d : job.Proc → Mem α) (p : job.Proc) :
    spread mem d p.1 p.2 = d p := by
  unfold spread
  rw [dif_pos ⟨p.1.isLt, p.2.isLt⟩]

/-- The members of a communicator are those processes that take part in its events. -/
theorem members_congr (move : Move) (inp out : Ptr) (mem : Nat → Nat → Mem α)
    {d d' : job.Proc → Mem α} (p : job.Proc)
    (h : ∀ q : job.Proc, move.dir.index q.1 q.2 = move.dir.index p.1 p.2 → d q = d' q) :
    planning.members move inp out (spread mem d) p.1 p.2 =
      planning.members move inp out (spread mem d') p.1 p.2 := by
  funext r
  have hplace : spread mem d (move.place p.1 p.2 r).1 (move.place p.1 p.2 r).2 =
      spread mem d' (move.place p.1 p.2 r).1 (move.place p.1 p.2 r).2 := by
    unfold spread
    split
    · exact h _ (by cases move <;> rfl)
    · rfl
  simp only [members, hplace]

/-- The processes of a job and the events of their scripts. -/
def system (fftw : FftwMpi α) (mem : Nat → Nat → Mem α) : System job.Proc (Event α) (Mem α) where
  takes := Takes
  effect := planning.effect fftw mem
  footprint := by
    intro e d d' h p hp
    cases e with
    | call dir i c => exact h p hp
    | exchange c i =>
      have hd : ∀ q : job.Proc, c.move.dir.index q.1 q.2 = c.move.dir.index p.1 p.2 →
          d q = d' q := fun q hq => h q (hq.trans hp)
      simp only [effect, planning.members_congr c.move c.inp c.out mem p hd]
    | own a b f => exact congrArg f (h p hp)

/-! ## Rounds -/

/-- A call on every communicator of a kind, its arguments given by the communicator. -/
def callRound (job : Job env) (α : Type) (dir : Dir) (f : Nat → Option Call) :
    Round job.Proc (Event α) :=
  fun p => (f (dir.index p.1 p.2)).map (.call dir (dir.index p.1 p.2))

def transposeRounds (job : Job env) (α : Type) (dir : Dir) (t : Nat → TransposeArgs) :
    List (Round job.Proc (Event α)) :=
  [callRound job α dir fun _ => some .dup,
    callRound job α dir fun i =>
      if (t i).Trivial then none
      else some (.localSizeTransposed (t i).d0 (t i).d1 (t i).howmany (t i).block0 (t i).block1)]

def planRounds (job : Job env) (α : Type) (dir : Dir) (t : Nat → TransposeArgs) (f : Flags) :
    List (Round job.Proc (Event α)) :=
  [callRound job α dir fun i =>
    if (t i).Trivial then none
    else some (.planTranspose { t i with flags := (t i).flags ||| f })]

/-- The rounds of the creation of a grid and a problem. -/
def creationRounds (job : Job env) (α : Type) : List (Round job.Proc (Event α)) :=
  let d := job.decomp
  let hmany := if d.howmany = 0 then 1 else d.howmany
  [callRound job α .world fun _ => some (.cartCreate job.pA job.pB),
    callRound job α .grid fun _ => some (.cartSub .pA),
    callRound job α .grid fun _ => some (.cartSub .pB),
    callRound job α .pB fun _ => some (.localSizeTransposed d.n0 d.n1 hmany 0 0),
    callRound job α .pA fun _ => some (.localSizeTransposed d.n1 d.n2 hmany 0 0),
    callRound job α .pA fun _ => some (.bcast 2 0),
    callRound job α .pB fun _ => some (.bcast 2 0)] ++
    transposeRounds job α .pA (fun b => (d.stageA b).args) ++
    transposeRounds job α .pB (fun a => (d.stageB a).args) ++
    transposeRounds job α .pB (fun a => (d.stageB a).args.inverse) ++
    transposeRounds job α .pA (fun b => (d.stageA b).args.inverse)

/-- The rounds of a planning. -/
def planningRounds (α : Type) : List (Round job.Proc (Event α)) :=
  let d := job.decomp
  let f := planning.rigorFlags ||| env.destroyFlags
  planRounds job α .pA (fun b => (d.stageA b).args) f ++
    planRounds job α .pB (fun a => (d.stageB a).args) f ++
    planRounds job α .pB (fun a => (d.stageB a).args.inverse) f ++
    planRounds job α .pA (fun b => (d.stageA b).args.inverse) f

def taskRound (task : Task α) : Round job.Proc (Event α) :=
  fun p => some (planning.event p.1 p.2 task)

/-- The rounds of a script. -/
def rounds (tasks : List (Task α)) : List (Round job.Proc (Event α)) :=
  creationRounds job α ++ planning.planningRounds α ++ tasks.map planning.taskRound

theorem program_append (r r' : List (Round job.Proc (Event α))) (p : job.Proc) :
    program (r ++ r') p = program r p ++ program r' p :=
  List.filterMap_append

theorem program_transposeRounds (dir : Dir) (t : Nat → TransposeArgs) (p : job.Proc) :
    program (transposeRounds job α dir t) p =
      (transposeCalls (t (dir.index p.1 p.2)) dir).map
        fun c => .call c.1 (c.1.index p.1 p.2) c.2 := by
  unfold transposeRounds transposeCalls program callRound
  by_cases h : (t (dir.index p.1 p.2)).Trivial <;> simp [h]

theorem program_planRounds (dir : Dir) (t : Nat → TransposeArgs) (f : Flags) (p : job.Proc) :
    program (planRounds job α dir t f) p =
      (planCalls (t (dir.index p.1 p.2)) dir f).map fun c => .call c.1 (c.1.index p.1 p.2) c.2 := by
  unfold planRounds planCalls program callRound
  by_cases h : (t (dir.index p.1 p.2)).Trivial <;> simp [h]

theorem program_creationRounds (p : job.Proc) :
    program (creationRounds job α) p =
      (job.calls p.1 p.2).map fun c => .call c.1 (c.1.index p.1 p.2) c.2 := by
  have hg := (job.created p.1.isLt p.2.isLt).grid
  simp only [job.calls_eq p.1.isLt p.2.isLt, problemScript, hg.n_eq, hg.pAComm_dir, hg.pBComm_dir,
    creationRounds, program_append, program_transposeRounds, List.map_append]
  simp [program, callRound, Job.decomp, Dir.index]

theorem program_planningRounds (p : job.Proc) :
    program (planning.planningRounds α) p =
      (planning.calls p.1 p.2).map fun c => .call c.1 (c.1.index p.1 p.2) c.2 := by
  simp only [planning.calls_eq p.1.isLt p.2.isLt, planScript, planningRounds, program_append,
    program_planRounds, List.map_append, List.append_assoc, Dir.index]

/-- The rounds are what every process does. -/
theorem program_rounds (tasks : List (Task α)) (p : job.Proc) :
    program (planning.rounds tasks) p = planning.script tasks p.1 p.2 := by
  have htasks : program (tasks.map planning.taskRound) p = tasks.map (planning.event p.1 p.2) := by
    unfold program taskRound
    rw [List.filterMap_map]
    exact congrFun List.filterMap_eq_map tasks
  unfold rounds script
  rw [program_append, program_append, program_creationRounds, program_planningRounds, htasks,
    List.map_append]

/-! ## Agreement -/

section Agreement

variable {planning} {a b : Nat}

theorem execute_misplaced (effect : Effect α) {plan : Plan} {c : ExecCall} (hc : ¬ c.Placed plan)
    (m : Mem α) : (c.run effect plan m).2 = m := by
  have hbody : ∀ name,
      (executeField effect name c.move.field (some plan) (some c.inp) (some c.out) m).2 = m := by
    intro name
    unfold ExecCall.Placed at hc
    simp only [executeField]
    cases c.move.field plan with
    | none => rfl
    | some q =>
      by_cases hi : plan.inPlace = true
      · have he : c.inp ≠ c.out := fun he => hc (iff_of_true hi he)
        simp only [if_pos hi, if_pos he]
        rfl
      · have he : c.inp = c.out := by
          by_contra hne
          exact hc (iff_of_false hi hne)
        simp only [if_neg hi, if_pos he]
        rfl
  obtain ⟨move, inp, out⟩ := c
  cases move
  · exact hbody "plan_backwardA"
  · exact hbody "plan_backwardB"
  · exact hbody "plan_forwardB"
  · exact hbody "plan_forwardA"

/-- A plan for a problem with the transposes of the job. -/
def Alike (planning : Planning job) (a b : Nat) (plan : Plan) : Prop :=
  ∃ problem, PlanFor env problem planning.inp planning.out planning.rigorFlags plan ∧
    ∀ move : Move, (move.transpose problem).toTransposeArgs = job.decomp.args move a b

theorem alike (planning : Planning job) (ha : a < job.pA) (hb : b < job.pB) :
    planning.Alike a b (planning.plan a b) :=
  ⟨job.problem a b, (planning.created ha hb).2.1, job.args_eq ha hb⟩

section Plans

variable {plan : Plan} {c : ExecCall}

/-- The plan of a direction: a no-op exactly where the transposition is trivial. -/
theorem Alike.desc (h : planning.Alike a b plan) (move : Move) :
    ∃ id desc, move.field plan = some ⟨id, desc⟩ ∧
      if (job.decomp.args move a b).Trivial then desc = .guru nopGuru
      else ∃ t comm i o, desc = .manyTranspose t comm i o := by
  obtain ⟨problem, hplan, hargs⟩ := h
  obtain ⟨⟨id, desc⟩, hq, hdesc⟩ := hplan.planned move
  refine ⟨id, desc, hq, ?_⟩
  rw [Transpose.planned, hargs] at hdesc
  split
  · rename_i ht
    rw [if_pos ht] at hdesc
    exact hdesc
  · rename_i ht
    rw [if_neg ht] at hdesc
    exact ⟨_, _, _, _, hdesc⟩

theorem Alike.placed_iff (h : planning.Alike a b plan) (c : ExecCall) :
    c.Placed plan ↔ planning.Placed c.inp c.out := by
  obtain ⟨problem, hplan, -⟩ := h
  rw [ExecCall.Placed, hplan.inPlace_eq, beq_iff_eq, Placed]

/-- An execute call that involves the other members of the communicator. -/
def Joint (planning : Planning job) (c : ExecCall) (a b : Nat) : Prop :=
  ¬ (job.decomp.args c.move a b).Trivial ∧ planning.Placed c.inp c.out

theorem Alike.event_joint (h : planning.Alike a b plan) (hj : planning.Joint c a b) :
    plan.event a b (.execute c) = (.exchange c (c.move.dir.index a b) : Event α) := by
  obtain ⟨id, desc, hfield, hdesc⟩ := h.desc c.move
  rw [if_neg hj.1] at hdesc
  obtain ⟨t, comm, i, o, rfl⟩ := hdesc
  simp only [Plan.event, hfield, if_pos ((h.placed_iff c).mpr hj.2)]

theorem Alike.event_alone (h : planning.Alike a b plan) (hj : ¬ planning.Joint c a b) :
    plan.event a b (.execute c) = (.own a b id : Event α) := by
  obtain ⟨id, desc, hfield, hdesc⟩ := h.desc c.move
  by_cases ht : (job.decomp.args c.move a b).Trivial
  · rw [if_pos ht] at hdesc
    subst hdesc
    simp only [Plan.event, hfield]
  · rw [if_neg ht] at hdesc
    obtain ⟨t, comm, i, o, rfl⟩ := hdesc
    have hp : ¬ c.Placed plan := fun hp => hj ⟨ht, (h.placed_iff c).mp hp⟩
    simp only [Plan.event, hfield, if_neg hp]

/-- Plans for the same transposes make the same of a task. -/
theorem Alike.event_eq (h : planning.Alike a b plan) {plan' : Plan}
    (h' : planning.Alike a b plan') (task : Task α) :
    plan.event a b task = plan'.event a b task := by
  cases task with
  | work f => rfl
  | execute c =>
    by_cases hj : planning.Joint c a b
    · rw [h.event_joint hj, h'.event_joint hj]
    · rw [h.event_alone hj, h'.event_alone hj]

end Plans

theorem event_joint (ha : a < job.pA) (hb : b < job.pB) {c : ExecCall} (h : planning.Joint c a b) :
    planning.event a b (.execute c) = (.exchange c (c.move.dir.index a b) : Event α) :=
  (planning.alike ha hb).event_joint h

theorem event_alone (ha : a < job.pA) (hb : b < job.pB) {c : ExecCall}
    (h : ¬ planning.Joint c a b) : planning.event a b (.execute c) = (.own a b id : Event α) :=
  (planning.alike ha hb).event_alone h

theorem perform_joint (ha : a < job.pA) (hb : b < job.pB) {c : ExecCall}
    (h : planning.Joint c a b) (fftw : FftwMpi α) (mem : Nat → Nat → Mem α) :
    planning.perform fftw (.execute c) mem a b =
      fftw.run (job.decomp.procs c.move) (planning.members c.move c.inp c.out mem a b)
        (c.move.rank a b) := by
  obtain ⟨id, desc, hfield, hdesc⟩ := (planning.alike ha hb).desc c.move
  rw [if_neg h.1] at hdesc
  obtain ⟨t, comm, i, o, rfl⟩ := hdesc
  simp only [perform, if_pos (And.intro ha hb),
    execute_planned _ hfield (((planning.alike ha hb).placed_iff c).mpr h.2)]

theorem perform_alone (ha : a < job.pA) (hb : b < job.pB) {c : ExecCall}
    (h : ¬ planning.Joint c a b) (fftw : FftwMpi α) (mem : Nat → Nat → Mem α) :
    planning.perform fftw (.execute c) mem a b = mem a b := by
  obtain ⟨id, desc, hfield, hdesc⟩ := (planning.alike ha hb).desc c.move
  by_cases hp : c.Placed (planning.plan a b)
  · by_cases ht : (job.decomp.args c.move a b).Trivial
    · rw [if_pos ht] at hdesc
      subst hdesc
      simp only [perform, if_pos (And.intro ha hb), execute_planned _ hfield hp]
    · exact absurd ⟨ht, ((planning.alike ha hb).placed_iff c).mp hp⟩ h
  · simp only [perform, if_pos (And.intro ha hb), execute_misplaced _ hp]

/-- The members of a communicator agree on which execute calls are joint. -/
theorem Joint.congr {c : ExecCall} {a' b' : Nat}
    (h : c.move.dir.index a' b' = c.move.dir.index a b) :
    planning.Joint c a' b' ↔ planning.Joint c a b := by
  have hargs : job.decomp.args c.move a' b' = job.decomp.args c.move a b := by
    obtain ⟨move, inp, out⟩ := c
    cases move <;> cases h <;> rfl
  unfold Joint
  rw [hargs]

end Agreement

theorem agreed_callRound (fftw : FftwMpi α) (mem : Nat → Nat → Mem α) (dir : Dir)
    (f : Nat → Option Call) : (planning.system fftw mem).Agreed (callRound job α dir f) := by
  constructor
  · intro p e he
    obtain ⟨c, -, rfl⟩ := Option.map_eq_some_iff.mp he
    exact rfl
  · intro p q e he hq
    obtain ⟨c, hc, rfl⟩ := Option.map_eq_some_iff.mp he
    have hq' : dir.index q.1 q.2 = dir.index p.1 p.2 := hq
    unfold callRound
    rw [hq', hc]
    rfl

theorem agreed_taskRound (fftw : FftwMpi α) (mem : Nat → Nat → Mem α) (task : Task α) :
    (planning.system fftw mem).Agreed (planning.taskRound task) := by
  have halone : ∀ (p q : job.Proc) f, Takes q (.own p.1 p.2 f : Event α) → q = p := fun p q f hq =>
    Prod.ext (Fin.ext hq.1) (Fin.ext hq.2)
  constructor
  · rintro p _ ⟨⟩
    show Takes p _
    cases task with
    | execute c =>
      by_cases hj : planning.Joint c p.1 p.2
      · rw [event_joint p.1.isLt p.2.isLt hj]
        exact rfl
      · rw [event_alone p.1.isLt p.2.isLt hj]
        exact ⟨rfl, rfl⟩
    | work f => exact ⟨rfl, rfl⟩
  · rintro p q _ ⟨⟩ hq
    have hq' : Takes q (planning.event p.1 p.2 task) := hq
    show some (planning.event q.1 q.2 task) = _
    cases task with
    | execute c =>
      by_cases hj : planning.Joint c p.1 p.2
      · rw [event_joint p.1.isLt p.2.isLt hj] at hq' ⊢
        have hidx : c.move.dir.index q.1 q.2 = c.move.dir.index p.1 p.2 := hq'
        rw [event_joint q.1.isLt q.2.isLt ((Joint.congr hidx).mpr hj), hidx]
      · rw [event_alone p.1.isLt p.2.isLt hj] at hq'
        rw [halone p q id hq']
    | work f => rw [halone p q _ hq']

theorem agreed_rounds (fftw : FftwMpi α) (mem : Nat → Nat → Mem α) (tasks : List (Task α)) :
    ∀ r ∈ planning.rounds tasks, (planning.system fftw mem).Agreed r := by
  have hcall := planning.agreed_callRound fftw mem
  simp only [rounds, creationRounds, planningRounds, transposeRounds, planRounds,
    List.forall_mem_append, List.forall_mem_cons, hcall, true_and]
  refine ⟨by simp, fun r hr => ?_⟩
  obtain ⟨task, -, rfl⟩ := List.mem_map.mp hr
  exact planning.agreed_taskRound fftw mem task

/-! ## All processes together -/

section Together

variable (fftw : FftwMpi α) (mem : Nat → Nat → Mem α)

theorem together_callRound (dir : Dir) (f : Nat → Option Call) (d : job.Proc → Mem α) :
    (planning.system fftw mem).together (callRound job α dir f) d = d := by
  funext p
  simp only [System.together, callRound]
  cases f (dir.index p.1 p.2) <;> rfl

theorem together_taskRound (task : Task α) (d : job.Proc → Mem α) :
    spread mem ((planning.system fftw mem).together (planning.taskRound task) d) =
      planning.perform fftw task (spread mem d) := by
  funext a b
  by_cases hab : a < job.pA ∧ b < job.pB
  · obtain ⟨ha, hb⟩ := hab
    let p : job.Proc := (⟨a, ha⟩, ⟨b, hb⟩)
    have hself : ∀ d' : job.Proc → Mem α, spread mem d' a b = d' p := fun d' => spread_self mem d' p
    rw [hself]
    show planning.effect fftw mem (planning.event a b task) d p = _
    cases task with
    | execute c =>
      by_cases hj : planning.Joint c a b
      · rw [event_joint ha hb hj, perform_joint ha hb hj]
        rfl
      · rw [event_alone ha hb hj, perform_alone ha hb hj, hself]
        rfl
    | work f =>
      unfold perform
      rw [if_pos ⟨ha, hb⟩, hself]
      rfl
  · unfold perform spread
    rw [dif_neg hab, if_neg hab, dif_neg hab]

theorem runAll_together (tasks : List (Task α)) (d : job.Proc → Mem α) :
    spread mem (runAll (planning.system fftw mem).together (planning.rounds tasks) d) =
      runAll (planning.perform fftw) tasks (spread mem d) := by
  have hsetup : runAll (planning.system fftw mem).together
      (creationRounds job α ++ planning.planningRounds α) d = d := by
    simp [creationRounds, planningRounds, transposeRounds, planRounds, runAll,
      together_callRound planning]
  unfold rounds
  rw [runAll_append, hsetup]
  clear hsetup
  induction tasks generalizing d with
  | nil => rfl
  | cons task tasks ih =>
    simp only [List.map_cons, runAll]
    rw [ih, together_taskRound]

end Together

/-- What holds of a run of the processes of a job, from buffers `mem`, with the events that
fired. -/
structure Interleaved (fftw : FftwMpi α) (tasks : List (Task α)) (mem : Nat → Nat → Mem α)
    (fired : List (Event α)) (s : State job.Proc (Event α) (Mem α)) : Prop where
  bounded : fired.length ≤ ∑ p : job.Proc, (planning.script tasks p.1 p.2).length
  /-- There is no deadlock. -/
  unstuck : ¬ s.Finished → ∃ e s', (planning.system fftw mem).Fires e s s'
  completes : ∃ l s', (planning.system fftw mem).Run s l s' ∧ s'.Finished
  settled : s.Finished → ∀ p : job.Proc, s.data p = runAll (planning.perform fftw) tasks mem p.1 p.2

/-- Every process before its first call. -/
def launch (tasks : List (Task α)) (mem : Nat → Nat → Mem α) :
    State job.Proc (Event α) (Mem α) where
  todo := fun p => planning.script tasks p.1 p.2
  data := fun p => mem p.1 p.2

theorem launch_eq (tasks : List (Task α)) (mem : Nat → Nat → Mem α) :
    planning.launch tasks mem = ⟨program (planning.rounds tasks), fun p => mem p.1 p.2⟩ := by
  unfold launch
  congr 1
  funext p
  exact (program_rounds planning tasks p).symm

/-- The buffers at the end of a run. -/
theorem run_settles {fftw : FftwMpi α} {tasks : List (Task α)} {mem : Nat → Nat → Mem α}
    {fired : List (Event α)} {s : State job.Proc (Event α) (Mem α)}
    (h : (planning.system fftw mem).Run (planning.launch tasks mem) fired s) (hs : s.Finished)
    (p : job.Proc) : s.data p = runAll (planning.perform fftw) tasks mem p.1 p.2 := by
  have hspread : spread mem (fun q : job.Proc => mem q.1 q.2) = mem := by
    funext a b
    unfold spread
    split <;> rfl
  rw [launch_eq] at h
  rw [h.settles (planning.agreed_rounds fftw mem tasks) hs,
    ← spread_self mem (runAll _ _ _) p, runAll_together, hspread]

theorem exists_run (fftw : FftwMpi α) (tasks : List (Task α)) (mem : Nat → Nat → Mem α) :
    ∃ fired s, (planning.system fftw mem).Run (planning.launch tasks mem) fired s ∧
      s.Finished := by
  have hstart : (planning.system fftw mem).Run
      ⟨program (planning.rounds tasks), fun p => mem p.1 p.2⟩ [] _ := .nil
  obtain ⟨fired, s, hrun, hs⟩ := hstart.completes (planning.agreed_rounds fftw mem tasks)
  rw [← planning.launch_eq] at hrun
  exact ⟨fired, s, hrun, hs⟩

/-! ## Walks -/

/-- The execute calls of a walk. -/
def walkTasks : Ptr → List Step → List (Task α)
  | _, [] => []
  | ptr, s :: walk => .execute ⟨s.move, ptr, s.out⟩ :: walkTasks s.out walk

theorem perform_follows {fftw : FftwMpi α} {c : Fin 3 → Nat → Nat → Nat → α}
    {mem : Nat → Nat → Mem α} (hc : job.decomp.Linked c) {ptr : Ptr} {s : Step}
    (hp : planning.Placed ptr s.out) (h : Follows job c s.move.source ptr mem) :
    Follows job c s.move.target s.out
      (planning.perform fftw (.execute ⟨s.move, ptr, s.out⟩) mem) := by
  intro a b ha hb k hk
  by_cases ht : (job.decomp.args s.move a b).Trivial
  · rw [job.longN_eq ha hb, Decomposition.extent_target, TransposeArgs.outSize_of_trivial ht] at hk
    cases hk
  · have hj : planning.Joint ⟨s.move, ptr, s.out⟩ a b := ⟨ht, hp⟩
    rw [perform_joint ha hb hj, ← exchange_eq fftw hp ha hb]
    exact step_follows hc hp h a b ha hb k hk

theorem performAll_follows (fftw : FftwMpi α) {c : Fin 3 → Nat → Nat → Nat → α}
    (hc : job.decomp.Linked c) :
    ∀ {i : Fin 3} {ptr : Ptr} {walk : List Step} {mem : Nat → Nat → Mem α},
      planning.Legal i ptr walk → Follows job c i ptr mem →
      Follows job c (lastOrientation i walk) (lastBuffer ptr walk)
        (runAll (planning.perform fftw) (walkTasks ptr walk) mem) := by
  intro i ptr walk
  induction walk generalizing i ptr with
  | nil => exact fun _ h => h
  | cons s walk ih =>
    rintro mem ⟨rfl, hp, hlegal⟩ h
    exact ih hlegal (perform_follows planning hc hp h)

end Planning

/-- However the processes interleave, creating grid, problem and plan and doing any tasks never
deadlocks, and ends with the buffers of all processes doing one task after the other together. -/
theorem interleavings_complete {env : Env} {job : Job env} (planning : Planning job)
    (fftw : FftwMpi α) (tasks : List (Task α)) (mem : Nat → Nat → Mem α) {fired : List (Event α)}
    {s : State job.Proc (Event α) (Mem α)}
    (h : (planning.system fftw mem).Run (planning.launch tasks mem) fired s) :
    planning.Interleaved fftw tasks mem fired s := by
  have hagreed := planning.agreed_rounds fftw mem tasks
  have hlen := h.length_le
  have hrun := h
  rw [planning.launch_eq] at hrun
  refine ⟨?_, hrun.never_stuck hagreed, hrun.completes hagreed,
    fun hs p => planning.run_settles h hs p⟩
  simp only [Planning.launch] at hlen
  omega

/-- A transposition on `2 × 3` processes, work on what it leaves, and the way back. -/
theorem interleavings_complete_six :
    ∃ (job : Job .reference) (planning : Planning job), (job.pA = 2 ∧ job.pB = 3) ∧
      ∀ mem : Nat → Nat → Mem Nat,
        let tasks : List (Task Nat) :=
          [.execute ⟨.n2n1, 0, 0⟩, .work fun a b m q k => m q k + a + b, .execute ⟨.n1n2, 0, 0⟩]
        ∃ fired s, (planning.system FftwMpi.reference mem).Run (planning.launch tasks mem) fired s ∧
          s.Finished ∧
          ∀ p, s.data p = runAll (planning.perform FftwMpi.reference) tasks mem p.1 p.2 := by
  obtain ⟨job, planning, -, hp, -⟩ :=
    exists_planned 4 5 3 2 3 2 (TRANSPOSED_LONG_N2 ||| TRANSPOSED_LONG_N0) 0 0 (by decide)
  refine ⟨job, planning, hp, fun mem => ?_⟩
  intro tasks
  obtain ⟨fired, s, hrun, hs⟩ :=
    (interleavings_complete planning FftwMpi.reference tasks mem .nil).completes
  exact ⟨fired, s, hrun, hs,
    (interleavings_complete planning FftwMpi.reference tasks mem hrun).settled hs⟩

/-- A walk whose steps interleave across the communicators leaves what it leaves when all processes
execute each step together, up to the extent of the pencil. -/
theorem interleaved_walk {env : Env} {job : Job env} (planning : Planning job)
    (fftw : FftwMpi α) {i : Fin 3} {ptr : Ptr} {walk : List Step}
    (hlegal : planning.Legal i ptr walk)
    (mem : Nat → Nat → Mem α) {fired : List (Event α)} {s : State job.Proc (Event α) (Mem α)}
    (h : (planning.system fftw mem).Run (planning.launch (Planning.walkTasks ptr walk) mem) fired s)
    (hs : s.Finished) :
    ∀ p : job.Proc, ∀ k,
      k < ((job.problem p.1 p.2).longN (lastOrientation i walk)).extent →
      s.data p (lastBuffer ptr walk) k =
        planning.walk fftw ptr walk mem p.1 p.2 (lastBuffer ptr walk) k := by
  intro p k hk
  obtain ⟨c, hc, hstart⟩ := job.decomp.exists_linked i fun a b => mem a b ptr
  have hbegin : Planning.Follows job c i ptr mem := by
    intro a b _ _ k _
    rw [hstart]
  rw [planning.run_settles h hs p,
    planning.performAll_follows fftw hc hlegal hbegin p.1 p.2 p.1.isLt p.2.isLt k hk]
  exact (planning.walk_follows fftw hc hlegal hbegin p.1 p.2 p.1.isLt p.2.isLt k hk).symm

/-- Down to orientation 0 and out of place, on `2 × 3` processes. -/
theorem interleaved_walk_down :
    ∃ (job : Job .reference) (planning : Planning job), (job.pA = 2 ∧ job.pB = 3) ∧
      ∀ mem : Nat → Nat → Mem Nat, ∃ fired s,
        (planning.system FftwMpi.reference mem).Run
          (planning.launch (Planning.walkTasks 0 [⟨.n2n1, 1⟩, ⟨.n1n0, 0⟩]) mem) fired s ∧
        ∀ p : job.Proc, ∀ k, k < ((job.problem p.1 p.2).longN 0).extent →
          s.data p 0 k =
            planning.walk FftwMpi.reference 0 [⟨.n2n1, 1⟩, ⟨.n1n0, 0⟩] mem p.1 p.2 0 k := by
  obtain ⟨job, planning, -, hp, -, -, hi, ho⟩ := exists_planned 4 5 3 2 3 2 0 0 1 (by decide)
  have hplaced : planning.Placed 0 1 ∧ planning.Placed 1 0 := by
    unfold Planning.Placed
    rw [hi, ho]
    decide
  have hlegal : planning.Legal 2 0 [⟨.n2n1, 1⟩, ⟨.n1n0, 0⟩] :=
    ⟨rfl, hplaced.1, rfl, hplaced.2, trivial⟩
  refine ⟨job, planning, hp, fun mem => ?_⟩
  obtain ⟨fired, s, hrun, hs⟩ := planning.exists_run FftwMpi.reference
    (Planning.walkTasks 0 [⟨.n2n1, 1⟩, ⟨.n1n0, 0⟩]) mem
  exact ⟨fired, s, hrun, interleaved_walk planning FftwMpi.reference hlegal mem hrun hs⟩

end Underling
