import Underling.Exchange

/-!
# Underling.Walk

Sequences of directions executed by all processes, each starting in the orientation and in the
buffer the one before it ended in.

* `Decomposition.Linked`: contents of the three orientations that the stages take to each other.
* `Planning.step_follows`: one direction moves from one linked content to the next, whatever the
  processes hold past their local blocks. `Planning.walk_follows`: so does a whole walk.
* `closed_walk`: a walk that ends in the orientation it started in restores the data.
-/

namespace Underling

open RowTranspose

variable {α : Type}

def Move.source : Move → Fin 3
  | .n2n1 => 2
  | .n1n0 => 1
  | .n0n1 => 0
  | .n1n2 => 1

def Move.target : Move → Fin 3
  | .n2n1 => 1
  | .n1n0 => 0
  | .n0n1 => 1
  | .n1n2 => 2

/-- One direction, executed into the buffer `out`. -/
structure Step where
  move : Move
  out : Ptr

namespace Planning

variable {env : Env} {job : Job env} (planning : Planning job)

/-- The steps follow each other from orientation `i` and buffer `ptr` on, with the placement that
was planned for. -/
def Legal : Fin 3 → Ptr → List Step → Prop
  | _, _, [] => True
  | i, ptr, s :: walk =>
    s.move.source = i ∧ planning.Placed ptr s.out ∧ Legal s.move.target s.out walk

/-- The buffers of the processes after a walk from the buffer `ptr`. -/
def walk (fftw : FftwMpi α) : Ptr → List Step → (Nat → Nat → Mem α) → Nat → Nat → Mem α
  | _, [], mem => mem
  | ptr, s :: walk, mem =>
    Planning.walk fftw s.out walk (planning.exchange fftw s.move ptr s.out mem)

end Planning

def lastOrientation : Fin 3 → List Step → Fin 3
  | i, [] => i
  | _, s :: walk => lastOrientation s.move.target walk

def lastBuffer : Ptr → List Step → Ptr
  | ptr, [] => ptr
  | _, s :: walk => lastBuffer s.out walk

/-! ## Local blocks -/

theorem TransposeArgs.outSize_of_trivial {t : TransposeArgs} (h : t.Trivial) (r : Nat) :
    t.shape.outSize r = 0 := by
  show Blocks.len t.d1 t.block1 r * t.d0 * t.howmany = 0
  rcases h with h | h | h <;> simp [h]

namespace Decomposition

variable {d : Decomposition}

theorem extent_source (move : Move) (a b : Nat) :
    (d.longN a b move.source).extent = (d.args move a b).shape.inSize (move.rank a b) := by
  cases move with
  | n2n1 => exact d.extent_longN2 a b
  | n1n0 => exact d.extent_longN1_B a b
  | n0n1 =>
    show _ = (d.stageB a).args.inverse.shape.inSize b
    rw [TransposeArgs.inverse_shape]
    exact d.extent_longN0 a b
  | n1n2 =>
    show _ = (d.stageA b).args.inverse.shape.inSize a
    rw [TransposeArgs.inverse_shape]
    exact d.extent_longN1_A a b

theorem extent_target (move : Move) (a b : Nat) :
    (d.longN a b move.target).extent = (d.args move a b).shape.outSize (move.rank a b) := by
  cases move with
  | n2n1 => exact d.extent_longN1_A a b
  | n1n0 => exact d.extent_longN0 a b
  | n0n1 =>
    show _ = (d.stageB a).args.inverse.shape.outSize b
    rw [TransposeArgs.inverse_shape]
    exact d.extent_longN1_B a b
  | n1n2 =>
    show _ = (d.stageA b).args.inverse.shape.outSize a
    rw [TransposeArgs.inverse_shape]
    exact d.extent_longN2 a b

/-! ## Linked contents -/

/-- Contents of the three orientations, process by process, each the transposition of the one
before. -/
structure Linked (d : Decomposition) (c : Fin 3 → Nat → Nat → Nat → α) : Prop where
  stageA : ∀ b, ¬ (d.stageA b).args.Trivial →
    Transposed (d.stageA b).args.shape (fun a => c 2 a b) fun a => c 1 a b
  stageB : ∀ a, ¬ (d.stageB a).args.Trivial →
    Transposed (d.stageB a).args.shape (fun b => c 1 a b) fun b => c 0 a b

theorem Linked.move {c : Fin 3 → Nat → Nat → Nat → α} (h : d.Linked c) (move : Move) (a b : Nat)
    (ht : ¬ (d.args move a b).Trivial) :
    Transposed (d.args move a b).shape
      (fun r => c move.source (move.place a b r).1 (move.place a b r).2)
      fun r => c move.target (move.place a b r).1 (move.place a b r).2 := by
  cases move with
  | n2n1 => exact h.stageA b ht
  | n1n0 => exact h.stageB a ht
  | n0n1 =>
    show Transposed (d.stageB a).args.inverse.shape _ _
    rw [TransposeArgs.inverse_shape]
    exact (h.stageB a fun h0 => ht ((TransposeArgs.inverse_trivial_iff _).mpr h0)).flip
  | n1n2 =>
    show Transposed (d.stageA b).args.inverse.shape _ _
    rw [TransposeArgs.inverse_shape]
    exact (h.stageA b fun h0 => ht ((TransposeArgs.inverse_trivial_iff _).mpr h0)).flip

theorem exists_linked (d : Decomposition) (i : Fin 3) (x : Nat → Nat → Nat → α) :
    ∃ c, d.Linked c ∧ c i = x := by
  let sA := fun b => (d.stageA b).args.shape
  let sB := fun a => (d.stageB a).args.shape
  have hA : ∀ b (y : Nat → Nat → α), Transposed (sA b) y (transpose (sA b) y) := fun b y =>
    transposed_transpose (d.stageA b).colBlock_pos y
  have hB : ∀ a (y : Nat → Nat → α), Transposed (sB a) y (transpose (sB a) y) := fun a y =>
    transposed_transpose (d.stageB a).colBlock_pos y
  have hA' : ∀ b (y : Nat → Nat → α), ¬ (d.stageA b).args.Trivial →
      Transposed (sA b) (transpose (sA b).flip y) y := fun b y ht =>
    (transposed_transpose (s := (sA b).flip) ((d.stageA b).accepted ht).block0_pos y).flip
  have hB' : ∀ a (y : Nat → Nat → α), ¬ (d.stageB a).args.Trivial →
      Transposed (sB a) (transpose (sB a).flip y) y := fun a y ht =>
    (transposed_transpose (s := (sB a).flip) ((d.stageB a).accepted ht).block0_pos y).flip
  fin_cases i
  · let x1 := fun a => transpose (sB a).flip fun b => x a b
    let x2 := fun a b => transpose (sA b).flip (fun a => x1 a b) a
    exact ⟨![x, x1, x2], ⟨fun b ht => hA' b (fun a => x1 a b) ht, fun a ht => hB' a _ ht⟩, rfl⟩
  · let x0 := fun a => transpose (sB a) fun b => x a b
    let x2 := fun a b => transpose (sA b).flip (fun a => x a b) a
    exact ⟨![x0, x, x2], ⟨fun b ht => hA' b (fun a => x a b) ht, fun a _ => hB a _⟩, rfl⟩
  · let x1 := fun a b => transpose (sA b) (fun a => x a b) a
    let x0 := fun a => transpose (sB a) fun b => x1 a b
    exact ⟨![x0, x1, x], ⟨fun b _ => hA b _, fun a _ => hB a _⟩, rfl⟩

end Decomposition

/-! ## Following a linked content -/

namespace Planning

variable {env : Env} {job : Job env} {planning : Planning job} {fftw : FftwMpi α}
  {c : Fin 3 → Nat → Nat → Nat → α} {mem : Nat → Nat → Mem α}

/-- Every process holds the content of orientation `i` in the buffer `ptr`, up to the extent of its
pencil. -/
def Follows (job : Job env) (c : Fin 3 → Nat → Nat → Nat → α) (i : Fin 3) (ptr : Ptr)
    (mem : Nat → Nat → Mem α) : Prop :=
  ∀ a b, a < job.pA → b < job.pB → ∀ k, k < ((job.problem a b).longN i).extent →
    mem a b ptr k = c i a b k

theorem step_follows (hc : job.decomp.Linked c) {ptr : Ptr} {s : Step}
    (hp : planning.Placed ptr s.out) (h : Follows job c s.move.source ptr mem) :
    Follows job c s.move.target s.out (planning.exchange fftw s.move ptr s.out mem) := by
  intro a b ha hb k hk
  obtain ⟨move, out⟩ := s
  rw [job.longN_eq ha hb, Decomposition.extent_target] at hk
  by_cases ht : (job.decomp.args move a b).Trivial
  · rw [TransposeArgs.outSize_of_trivial ht] at hk
    omega
  have hacc := job.decomp.accepted move a b ht
  have hself : move.place a b (move.rank a b) = (a, b) := by cases move <;> rfl
  -- before the step, every member holds the linked content up to its local block
  have hin : ∀ r k, r < job.decomp.procs move → k < (job.decomp.args move a b).shape.inSize r →
      mem (move.place a b r).1 (move.place a b r).2 ptr k =
        c move.source (move.place a b r).1 (move.place a b r).2 k := by
    intro r k hr hk
    have hplace : (move.place a b r).1 < job.pA ∧ (move.place a b r).2 < job.pB := by
      cases move <;> first | exact ⟨hr, hb⟩ | exact ⟨ha, hr⟩
    refine h _ _ hplace.1 hplace.2 k ?_
    rw [job.longN_eq hplace.1 hplace.2, Decomposition.extent_source]
    cases move <;> exact hk
  have hout := (exchange_transposed fftw hp ha hb move mem ht).unique hacc.block0_pos
    (hc.move move a b ht) (fun R hR => hacc.row_rank hR) hin (move.rank a b) k hk
  simp only [hself] at hout
  exact hout

theorem walk_follows (fftw : FftwMpi α) (hc : job.decomp.Linked c) :
    ∀ {i : Fin 3} {ptr : Ptr} {walk : List Step} {mem : Nat → Nat → Mem α},
      planning.Legal i ptr walk → Follows job c i ptr mem →
      Follows job c (lastOrientation i walk) (lastBuffer ptr walk)
        (planning.walk fftw ptr walk mem) := by
  intro i ptr walk
  induction walk generalizing i ptr with
  | nil => exact fun _ h => h
  | cons s walk ih =>
    rintro mem ⟨rfl, hp, hlegal⟩ h
    exact ih hlegal (step_follows hc hp h)

end Planning

/-- A walk that ends in the orientation it started in restores the data, up to the extent of the
pencil, on every process. -/
theorem closed_walk {env : Env} {job : Job env} (planning : Planning job) (fftw : FftwMpi α)
    {i : Fin 3} {ptr : Ptr} {walk : List Step} (hlegal : planning.Legal i ptr walk)
    (hclosed : lastOrientation i walk = i) (mem : Nat → Nat → Mem α) :
    ∀ a b, a < job.pA → b < job.pB → ∀ k, k < ((job.problem a b).longN i).extent →
      planning.walk fftw ptr walk mem a b (lastBuffer ptr walk) k = mem a b ptr k := by
  intro a b ha hb k hk
  obtain ⟨c, hc, hstart⟩ := job.decomp.exists_linked i fun a b => mem a b ptr
  have hbegin : Planning.Follows job c i ptr mem := by
    intro a b _ _ k _
    rw [hstart]
  have hend := Planning.walk_follows fftw hc hlegal hbegin
  rw [hclosed] at hend
  rw [hend a b ha hb k hk, hstart]

/-- There and back twice on `2 × 3` processes, in place, with both storage flags. -/
theorem closed_walk_twice :
    ∃ (job : Job .reference) (planning : Planning job),
      (job.n0 = 4 ∧ job.n1 = 5 ∧ job.n2 = 3) ∧ (job.pA = 2 ∧ job.pB = 3) ∧
        ∀ mem : Nat → Nat → Mem Nat, ∀ a b, a < job.pA → b < job.pB →
          ∀ k, k < ((job.problem a b).longN 1).extent →
            planning.walk FftwMpi.reference 0
              [⟨.n1n0, 0⟩, ⟨.n0n1, 0⟩, ⟨.n1n2, 0⟩, ⟨.n2n1, 0⟩] mem a b 0 k = mem a b 0 k := by
  obtain ⟨job, planning, hn, hp, -, -, hi, ho⟩ :=
    exists_planned 4 5 3 2 3 2 (TRANSPOSED_LONG_N2 ||| TRANSPOSED_LONG_N0) 0 0 (by decide)
  have hplaced : planning.Placed 0 0 := iff_of_true (hi.trans ho.symm) rfl
  have hlegal : planning.Legal 1 0 [⟨.n1n0, 0⟩, ⟨.n0n1, 0⟩, ⟨.n1n2, 0⟩, ⟨.n2n1, 0⟩] :=
    ⟨rfl, hplaced, rfl, hplaced, rfl, hplaced, rfl, hplaced, trivial⟩
  exact ⟨job, planning, hn, hp, closed_walk planning FftwMpi.reference hlegal rfl⟩

end Underling
