import Underling.Job

/-!
# Underling.Collective

The members of one communicator make the same collective calls in the same order.

* `collective_agreement`: on every `pA` and every `pB` communicator of a job the members build the
  transposes of that communicator with the same arguments, take the same branch and make the same
  calls in the same order, when the problems are created and in any planning; FFTW accepts every
  distribution it is given.
-/

namespace Underling

namespace Job

variable {env : Env} (job : Job env)

/-- The collective calls a process makes to create its grid and its problem. -/
def calls (a b : Nat) : List (Dir × Call) :=
  (job.after a b).log.calls.drop (job.before a b).log.calls.length

end Job

/-- The calls on communicators of one kind. -/
def callsOn (dir : Dir) (calls : List (Dir × Call)) : List (Dir × Call) :=
  calls.filter (·.1 = dir)

namespace Planning

variable {env : Env} {job : Job env} (planning : Planning job)

/-- The collective calls a process makes to plan. -/
def calls (a b : Nat) : List (Dir × Call) :=
  (planning.after a b).log.calls.drop (job.after a b).log.calls.length

end Planning

/-- Two processes are members of one communicator of the given kind. -/
def SameComm (dir : Dir) (a b a' b' : Nat) : Prop :=
  match dir with
  | .pA => b = b'
  | .pB => a = a'
  | _ => True

structure CollectiveAgreement {env : Env} (job : Job env) : Prop where
  /-- The transposes of a communicator have the same sizes, blocks and flags on all its members. -/
  transposes : ∀ (move : Move) a b a' b', a < job.pA → b < job.pB → a' < job.pA → b' < job.pB →
    SameComm move.dir a b a' b' →
    (move.transpose (job.problem a b)).toTransposeArgs =
      (move.transpose (job.problem a' b')).toTransposeArgs
  /-- So all members take the same branch, in the same order: they make the same calls. -/
  creation : ∀ dir a b a' b', a < job.pA → b < job.pB → a' < job.pA → b' < job.pB →
    dir = .pA ∨ dir = .pB → SameComm dir a b a' b' →
    callsOn dir (job.calls a b) = callsOn dir (job.calls a' b')
  planning : ∀ (planning : Planning job) dir a b a' b',
    a < job.pA → b < job.pB → a' < job.pA → b' < job.pB →
    dir = .pA ∨ dir = .pB → SameComm dir a b a' b' →
    callsOn dir (planning.calls a b) = callsOn dir (planning.calls a' b')
  /-- Whenever FFTW is asked, it accepts the distribution. -/
  accepted : ∀ (move : Move) a b, a < job.pA → b < job.pB →
    ¬ (move.transpose (job.problem a b)).Trivial →
    (move.transpose (job.problem a b)).Accepted (move.transpose (job.problem a b)).comm.size

section Calls

theorem callsOn_append (dir : Dir) (l l' : List (Dir × Call)) :
    callsOn dir (l ++ l') = callsOn dir l ++ callsOn dir l' :=
  List.filter_append ..

/-- A list of calls on one kind of communicator is kept or dropped whole. -/
theorem callsOn_of_all {dir dir' : Dir} {l : List (Dir × Call)} (h : ∀ c ∈ l, c.1 = dir') :
    callsOn dir l = if dir' = dir then l else [] := by
  rw [callsOn]
  split
  · subst dir'
    exact List.filter_eq_self.mpr fun c hc => by simp [h c hc]
  · rename_i hne
    exact List.filter_eq_nil_iff.mpr fun c hc => by simpa [h c hc] using hne

theorem transposeCalls_dir {t : TransposeArgs} {dir : Dir} :
    ∀ c ∈ transposeCalls t dir, c.1 = dir := by
  intro c hc
  simp only [transposeCalls] at hc
  split at hc <;> simp at hc <;> rcases hc with rfl | rfl <;> rfl

theorem planCalls_dir {t : TransposeArgs} {dir : Dir} {f : Flags} :
    ∀ c ∈ planCalls t dir f, c.1 = dir := by
  intro c hc
  simp only [planCalls] at hc
  split at hc <;> simp at hc
  subst c
  rfl

variable {env : Env} (job : Job env) {a b : Nat}

theorem Job.callsOn_calls (ha : a < job.pA) (hb : b < job.pB) (hmany : Nat)
    (hh : hmany = if job.howmany.toNat = 0 then 1 else job.howmany.toNat) :
    callsOn .pA (job.calls a b) =
        [(.pA, .localSizeTransposed job.decomp.n1 job.decomp.n2 hmany 0 0), (.pA, .bcast 2 0)] ++
          transposeCalls (job.decomp.stageA b).args .pA ++
          transposeCalls (job.decomp.stageA b).args.inverse .pA ∧
      callsOn .pB (job.calls a b) =
        [(.pB, .localSizeTransposed job.decomp.n0 job.decomp.n1 hmany 0 0), (.pB, .bcast 2 0)] ++
          transposeCalls (job.decomp.stageB a).args .pB ++
          transposeCalls (job.decomp.stageB a).args.inverse .pB := by
  have hc := job.created ha hb
  have hcalls : job.calls a b = gridCalls (job.comm a b) (job.grid a b) ++
      problemCalls (job.grid a b) job.howmany.toNat (job.problem a b) := by
    rw [calls, hc.calls, List.append_assoc, List.drop_left]
  have hA : (job.problem a b).backwardA.toTransposeArgs = _ := job.args_eq ha hb .n2n1
  have hB : (job.problem a b).backwardB.toTransposeArgs = _ := job.args_eq ha hb .n1n0
  have hB' : (job.problem a b).forwardB.toTransposeArgs = _ := job.args_eq ha hb .n0n1
  have hA' : (job.problem a b).forwardA.toTransposeArgs = _ := job.args_eq ha hb .n1n2
  simp only [hcalls, gridCalls, problemCalls, job.comm_dir, hc.grid.pAComm_dir, hc.grid.pBComm_dir,
    hc.grid.n_eq, hA, hB, hA', hB', callsOn_append, callsOn_of_all transposeCalls_dir, ← hh]
  simp [callsOn, decomp, Decomposition.args]

theorem Planning.callsOn_calls {job : Job env} (planning : Planning job) (ha : a < job.pA)
    (hb : b < job.pB) (f : Flags) (hf : f = planning.rigorFlags ||| env.destroyFlags) :
    callsOn .pA (planning.calls a b) =
        planCalls (job.decomp.stageA b).args .pA f ++
          planCalls (job.decomp.stageA b).args.inverse .pA f ∧
      callsOn .pB (planning.calls a b) =
        planCalls (job.decomp.stageB a).args .pB f ++
          planCalls (job.decomp.stageB a).args.inverse .pB f := by
  have hlog := congrArg Log.calls (planning.created ha hb).2.2
  have hA : (job.problem a b).backwardA.toTransposeArgs = _ := job.args_eq ha hb .n2n1
  have hB : (job.problem a b).backwardB.toTransposeArgs = _ := job.args_eq ha hb .n1n0
  have hB' : (job.problem a b).forwardB.toTransposeArgs = _ := job.args_eq ha hb .n0n1
  have hA' : (job.problem a b).forwardA.toTransposeArgs = _ := job.args_eq ha hb .n1n2
  have hdA : (job.problem a b).backwardA.comm.dir = _ := (job.comm_eq ha hb .n2n1).1
  have hdB : (job.problem a b).backwardB.comm.dir = _ := (job.comm_eq ha hb .n1n0).1
  have hdB' : (job.problem a b).forwardB.comm.dir = _ := (job.comm_eq ha hb .n0n1).1
  have hdA' : (job.problem a b).forwardA.comm.dir = _ := (job.comm_eq ha hb .n1n2).1
  simp only [planLog, Transpose.planLog_calls, ← hf, hA, hB, hA', hB', hdA, hdB, hdA', hdB',
    List.append_assoc] at hlog
  simp only [calls, hlog, List.drop_left, callsOn_append, callsOn_of_all planCalls_dir]
  simp [Move.dir, Decomposition.args]

end Calls

/-- Members of one communicator build the same transposes and make the same calls on it. -/
theorem collective_agreement {env : Env} (job : Job env) : CollectiveAgreement job := by
  refine ⟨?_, ?_, ?_, ?_⟩
  · intro move a b a' b' ha hb ha' hb' hsame
    rw [job.args_eq ha hb, job.args_eq ha' hb']
    cases move <;> cases hsame <;> rfl
  · rintro dir a b a' b' ha hb ha' hb' (rfl | rfl) hsame <;> cases hsame
    · rw [(job.callsOn_calls ha hb _ rfl).1, (job.callsOn_calls ha' hb' _ rfl).1]
    · rw [(job.callsOn_calls ha hb _ rfl).2, (job.callsOn_calls ha' hb' _ rfl).2]
  · rintro planning dir a b a' b' ha hb ha' hb' (rfl | rfl) hsame <;> cases hsame
    · rw [(planning.callsOn_calls ha hb _ rfl).1, (planning.callsOn_calls ha' hb' _ rfl).1]
    · rw [(planning.callsOn_calls ha hb _ rfl).2, (planning.callsOn_calls ha' hb' _ rfl).2]
  · intro move a b ha hb
    rw [job.args_eq ha hb, (job.comm_eq ha hb move).2.2]
    exact job.decomp.accepted move a b

/-- On `2 × 3` processes with a partial and an empty block, which have planned. -/
theorem collective_agreement_uneven :
    ∃ (job : Job .reference) (_ : Planning job), (job.n0 = 4 ∧ job.n1 = 5 ∧ job.n2 = 3) ∧
      (job.pA = 2 ∧ job.pB = 3) ∧ ((job.problem 1 0).longN 2).size 1 = 2 ∧
      ((job.problem 0 2).longN 2).size 0 = 0 ∧ CollectiveAgreement job := by
  obtain ⟨job, planning, hn, hp, hpartial, hempty⟩ := exists_uneven
  exact ⟨job, planning, hn, hp, hpartial, hempty, collective_agreement job⟩

end Underling
