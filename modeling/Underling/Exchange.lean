import Underling.Job

/-!
# Underling.Exchange

All processes of a job executing one direction together. `FftwMpi` is the collective
`fftw_mpi_execute_r2r`, of which only the documented result is used: plans that were made with the
same accepted arguments on all members transpose the rows the members hold. Buffers past the local
blocks, and the input of an out-of-place execution, are arbitrary afterwards.

* `Planning.exchange_transposed`: what one direction does to the buffers of the processes.
* `FftwMpi.reference`: a collective execution with this result.
-/

namespace Underling

open RowTranspose

variable {α : Type}

/-- What a member of a communicator hands to `fftw_mpi_execute_r2r`, and its buffers. -/
structure Member (α : Type) where
  plan : Option FftwPlan
  inp : Ptr
  out : Ptr
  mem : Mem α

/-- The member with rank `r` of `p` executes a plan made for `t`, with the placement it was planned
for. -/
def Member.Executes (m : Member α) (t : TransposeArgs) (p r : Nat) : Prop :=
  ∃ q comm i o, m.plan = some q ∧ q.desc = .manyTranspose t comm i o ∧ comm.size = p ∧
    comm.rank = r ∧ (i = o ↔ m.inp = m.out)

/-- Collective execution: `run p ms r` are the buffers of rank `r` after `p` members executed. -/
structure FftwMpi (α : Type) where
  run : Nat → (Nat → Member α) → Nat → Mem α
  transposed : ∀ p ms (t : TransposeArgs), t.Accepted p → (∀ r, r < p → (ms r).Executes t p r) →
    Transposed t.shape (fun r => (ms r).mem (ms r).inp) fun r => run p ms r (ms r).out

/-- Every member writes its transposed block and nothing else. -/
def FftwMpi.reference : FftwMpi α where
  run := fun _ ms r =>
    match (ms r).plan with
    | some ⟨_, .manyTranspose t _ _ _⟩ =>
      Function.update (ms r).mem (ms r).out
        (transpose t.shape (fun r => (ms r).mem (ms r).inp) r)
    | _ => (ms r).mem
  transposed := by
    intro p ms t ht hex
    refine (transposed_transpose (s := t.shape) ht.block1_pos _).congr_ranks
      (fun C hC => ht.col_rank hC) fun r hr => ?_
    obtain ⟨⟨id, desc⟩, comm, i, o, hplan, rfl, -⟩ := hex r hr
    simp only [hplan, Function.update_self]

/-- The coordinates of rank `r` in the communicator a direction uses at `(a, b)`. -/
def Move.place (move : Move) (a b r : Nat) : Nat × Nat :=
  match move with
  | .n2n1 => (r, b)
  | .n1n0 => (a, r)
  | .n0n1 => (a, r)
  | .n1n2 => (r, b)

namespace Planning

variable {env : Env} {job : Job env} (planning : Planning job)

/-- The members of the communicator a direction uses at `(a, b)`. -/
def members (move : Move) (inp out : Ptr) (mem : Nat → Nat → Mem α) (a b r : Nat) : Member α :=
  let c := move.place a b r
  { plan := move.field (planning.plan c.1 c.2), inp := inp, out := out, mem := mem c.1 c.2 }

/-- The buffers after every process called execute for a direction. -/
def exchange (fftw : FftwMpi α) (move : Move) (inp out : Ptr) (mem : Nat → Nat → Mem α)
    (a b : Nat) : Mem α :=
  let effect : Effect α := fun _ _ _ _ =>
    fftw.run (job.decomp.procs move) (planning.members move inp out mem a b) (move.rank a b)
  (ExecCall.run effect (planning.plan a b) ⟨move, inp, out⟩ (mem a b)).2

/-- The buffers passed have the placement that was planned for. -/
def Placed (inp out : Ptr) : Prop := planning.inp = planning.out ↔ inp = out

variable {planning} {inp out : Ptr} {a b : Nat}

theorem exchange_succeeds (hp : planning.Placed inp out) (ha : a < job.pA) (hb : b < job.pB)
    (move : Move) (effect : Effect α) (m : Mem α) :
    ∃ q, move.field (planning.plan a b) = some q ∧
      ExecCall.run effect (planning.plan a b) ⟨move, inp, out⟩ m = (none, effect q inp out m) := by
  obtain ⟨-, hplan, -⟩ := planning.created ha hb
  obtain ⟨q, hq, -⟩ := hplan.planned move
  refine ⟨q, hq, execute_planned effect hq ?_ m⟩
  rw [ExecCall.Placed, hplan.inPlace_eq, beq_iff_eq]
  exact hp

theorem exchange_eq (fftw : FftwMpi α) (hp : planning.Placed inp out) (ha : a < job.pA)
    (hb : b < job.pB) (move : Move) (mem : Nat → Nat → Mem α) :
    planning.exchange fftw move inp out mem a b =
      fftw.run (job.decomp.procs move) (planning.members move inp out mem a b) (move.rank a b) := by
  obtain ⟨q, -, hcall⟩ := exchange_succeeds hp ha hb move (fun _ _ _ _ =>
    fftw.run (job.decomp.procs move) (planning.members move inp out mem a b) (move.rank a b))
    (mem a b)
  exact congrArg Prod.snd hcall

theorem plannerFlags (ha : a < job.pA) (hb : b < job.pB) {m : Flags}
    (hm : m &&& nonRigorMask = m) (hd : FFTW.DESTROY_INPUT.has m = false) :
    (planning.rigorFlags ||| env.destroyFlags).has m = false := by
  have hr := Flags.not_has_of_and (planning.created ha hb).1.rigor hm
  have hdf : env.destroyFlags.has m = false := by
    rw [Env.destroyFlags]
    split
    · exact hd
    · simp [Flags.has]
  rw [Flags.has_or, hr, hdf]
  rfl

/-- One direction, executed by all processes, transposes the buffers of every communicator whose
transposition is not trivial. -/
theorem exchange_transposed (fftw : FftwMpi α) (hp : planning.Placed inp out) (ha : a < job.pA)
    (hb : b < job.pB) (move : Move) (mem : Nat → Nat → Mem α)
    (ht : ¬ (job.decomp.args move a b).Trivial) :
    Transposed (job.decomp.args move a b).shape
      (fun r => mem (move.place a b r).1 (move.place a b r).2 inp)
      fun r =>
        planning.exchange fftw move inp out mem (move.place a b r).1 (move.place a b r).2 out := by
  have hacc := job.decomp.accepted move a b ht
  -- every rank of the communicator is a process of the job
  have hplace : ∀ r, r < job.decomp.procs move →
      (move.place a b r).1 < job.pA ∧ (move.place a b r).2 < job.pB := by
    intro r hr
    cases move <;> first | exact ⟨hr, hb⟩ | exact ⟨ha, hr⟩
  let f := planning.rigorFlags ||| env.destroyFlags
  let t : TransposeArgs :=
    { job.decomp.args move a b with flags := (job.decomp.args move a b).flags ||| f }
  have hshape : t.shape = (job.decomp.args move a b).shape :=
    TransposeArgs.shape_or _ (plannerFlags ha hb (by decide) (by decide))
      (plannerFlags ha hb (by decide) (by decide))
  have hex : ∀ r, r < job.decomp.procs move →
      (planning.members move inp out mem a b r).Executes t (job.decomp.procs move) r := by
    intro r hr
    obtain ⟨ha', hb'⟩ := hplace r hr
    obtain ⟨-, hplan, -⟩ := planning.created ha' hb'
    obtain ⟨q, hq, hdesc⟩ := hplan.planned move
    obtain ⟨-, hrank, hsize⟩ := job.comm_eq ha' hb' move
    have hargs := job.args_eq ha' hb' move
    have hsame : job.decomp.args move (move.place a b r).1 (move.place a b r).2 =
        job.decomp.args move a b := by cases move <;> rfl
    rw [hsame] at hargs
    rw [Transpose.planned, hargs, if_neg ht] at hdesc
    refine ⟨q, _, _, _, hq, hdesc, hsize, ?_, hp⟩
    rw [hrank]
    cases move <;> rfl
  have hrun := fftw.transposed _ _ t (hacc.or f) hex
  rw [hshape] at hrun
  refine hrun.congr_ranks (fun C hC => hacc.col_rank hC) fun r hr => ?_
  obtain ⟨ha', hb'⟩ := hplace r hr
  have hcall := exchange_eq fftw hp ha' hb' move mem
  refine (congrFun hcall out).trans ?_
  cases move <;> rfl

end Planning

end Underling
