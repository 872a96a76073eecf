import Underling.Creators
import Underling.Ownership

/-!
# Underling.Wrappers

The C++ classes `grid`, `problem`, `plan` and `fftw::plan`. None can be copied, so an object is made
where it is declared and destroyed where its block is left, with or without an exception.
Constructors do not throw.

* `createInverse_owns`: what the creation of an inverse plan leaves behind.
* `block_owns`: what one block does to what the process owns.
* `wrappers_release`: a program that holds its handles in objects leaves nothing behind.
-/

namespace Underling

open Runs C Ledgers

section Inverse

variable {env : Env}

/-- An inverse that fails the comparison of the extents is destroyed again. -/
theorem rejected_owns (retval : FftPlan) (reason : String) :
    Owns (do report reason .esanity
             fftwPlanDestroy (some retval)
             return none) retval.owned fun o m => m = held FftPlan.owned o := by
  refine .skip (report_owns reason .esanity) fun _ => ?_
  rw [← add_zero retval.owned]
  exact (fftwPlanDestroy_owns (some retval)).discard fun _ => .pure rfl

theorem createInverse_owns (plan : Option FftPlan) (inp out : Option Ptr) (rigorFlags : Flags) :
    Owns (fftwPlanCreateInverse env plan inp out rigorFlags) 0
      fun o m => m = held FftPlan.owned o := by
  cases plan with
  | none => exact errorNull_owns rfl
  | some p =>
    by_cases htype : p.type = .unspecified
    · simp only [fftwPlanCreateInverse, htype]
      exact errorNull_owns rfl
    rw [fftwPlanCreateInverse_eq htype]
    refine .bind (planner_owns _ _ _ _ _ _ _) 0 rfl fun o m hm => ?_
    subst hm
    rw [add_zero]
    cases o with
    | none => exact .of_fault fun _ => ⟨_, rfl⟩
    | some retval =>
      exact .ite (fun _ => rejected_owns retval _) fun _ =>
        .ite (fun _ => rejected_owns retval _) fun _ => .pure rfl

end Inverse

/-! ## The classes -/

/-- An object, with the handle it wraps, which is `NULL` where the creator failed. -/
inductive Object where
  | grid (grid_ : Option Grid)
  | problem (problem_ : Option Problem)
  | plan (plan_ : Option Plan)
  | fftPlan (plan_ : Option FftPlan)

namespace Object

def owned : Object → Multiset Resource
  | grid g => held Grid.owned g
  | problem p => held Problem.owned p
  | plan p => held Plan.owned p
  | fftPlan p => held FftPlan.owned p

/-- The destructor. -/
def destroy : Object → C Unit
  | grid g => gridDestroy g
  | problem p => problemDestroy p
  | plan p => planDestroy p
  | fftPlan p => fftwPlanDestroy p

end Object

/-- A call of a constructor. Where it takes an object, the handle of that is passed on. -/
inductive Construction where
  | grid (coords : Nat × Nat) (comm : Option Comm) (n0 n1 n2 pA pB : Int)
  | problem (bcast : Comm → Nat × Nat → Nat × Nat) (g : Option Grid) (howmany : Int)
      (transposedFlags : Flags)
  | plan (p : Option Problem) (inp out : Option Ptr) (transposeFlags fftwRigorFlags : Flags)
  | fftPlan (tag : Creator) (p : Option Problem) (longNi : Int) (inp out : Option Ptr)
      (fftwRigorFlags packedFlags : Flags)
  | inverse (planToInvert : Option FftPlan) (inp out : Option Ptr) (fftwRigorFlags : Flags)

def Construction.run (env : Env) : Construction → C Object
  | grid coords comm n0 n1 n2 pA pB => .grid <$> gridCreate env coords comm n0 n1 n2 pA pB
  | problem bcast g howmany flags => .problem <$> problemCreate env bcast g howmany flags
  | plan p inp out transposeFlags rigorFlags =>
    .plan <$> planCreate env p inp out transposeFlags rigorFlags
  | fftPlan tag p longNi inp out rigorFlags packedFlags =>
    .fftPlan <$> tag.create env p longNi inp out rigorFlags packedFlags
  | inverse p inp out rigorFlags => .fftPlan <$> fftwPlanCreateInverse env p inp out rigorFlags

/-- What a block does, from some statement on. Constructors and conditions see the objects in scope,
the one declared last first. -/
inductive Block where
  | leave
  | throw
  | declare (construct : List Object → Construction) (rest : Block)
  | cond (test : List Object → Bool) (yes no : Block)
  | scope (inner rest : Block)
  | iterate (times : Nat) (inner rest : Block)

/-- Execute `x` until it has been done `times` times or an exception leaves it. -/
def repeatBlock (x : C Bool) : Nat → C Bool
  | 0 => return true
  | times + 1 => do
    if ← x then repeatBlock x times
    else return false

/-- The execution of a block in the scope of some objects; `false` is an exception on its way. -/
def Block.run (env : Env) : Block → List Object → C Bool
  | leave, _ => return true
  | throw, _ => return false
  | declare construct rest, objects => do
    let object ← (construct objects).run env
    let done ← rest.run env (object :: objects)
    object.destroy
    return done
  | cond test yes no, objects => if test objects then yes.run env objects else no.run env objects
  | scope inner rest, objects => do
    if ← inner.run env objects then rest.run env objects
    else return false
  | iterate times inner rest, objects => do
    if ← repeatBlock (inner.run env objects) times then rest.run env objects
    else return false

section Blocks

variable {env : Env}

theorem construction_owns (c : Construction) : Owns (c.run env) 0 fun o m => m = o.owned := by
  cases c with
  | grid => exact (gridCreate_owns _ _ _ _ _ _ _).map fun _ _ hm => hm
  | problem => exact (problemCreate_owns _ _ _ _).map fun _ _ hm => hm
  | plan => exact (planCreate_owns _ _ _ _ _).map fun _ _ hm => hm
  | fftPlan => exact (fftCreate_owns _ _ _ _ _ _ _).map fun _ _ hm => hm
  | inverse => exact (createInverse_owns _ _ _ _).map fun _ _ hm => hm

/-- A destructor releases what its object owns. -/
theorem destructor_owns (o : Object) : Owns o.destroy o.owned fun _ m => m = 0 := by
  cases o with
  | grid g => exact gridDestroy_owns g
  | problem p => exact problemDestroy_owns p
  | plan p => exact planDestroy_owns p
  | fftPlan p => exact fftwPlanDestroy_owns p

theorem repeatBlock_owns {x : C Bool} (hx : Owns x 0 fun _ m => m = 0) (times : Nat) :
    Owns (repeatBlock x times) 0 fun _ m => m = 0 := by
  induction times with
  | zero => exact .pure rfl
  | succ times ih => exact .skip hx fun _ => .ite (fun _ => ih) fun _ => .pure rfl

/-- However a block is left, nothing is owned that was not before. -/
theorem block_owns (b : Block) (objects : List Object) :
    Owns (b.run env objects) 0 fun _ m => m = 0 := by
  induction b generalizing objects with
  | leave => exact .pure rfl
  | throw => exact .pure rfl
  | declare construct rest ih =>
    refine .bind (construction_owns (construct objects)) 0 rfl fun object m hm => ?_
    subst hm
    rw [add_zero]
    -- the object stays owned beside the rest of the block
    refine .skip (ih (object :: objects)) fun done => ?_
    rw [← add_zero object.owned]
    exact (destructor_owns object).discard fun _ => .pure rfl
  | cond test yes no ihYes ihNo => exact .ite (fun _ => ihYes objects) fun _ => ihNo objects
  | scope inner rest ihInner ihRest =>
    exact .skip (ihInner objects) fun _ => .ite (fun _ => ihRest objects) fun _ => .pure rfl
  | iterate times inner rest ihInner ihRest =>
    exact .skip (repeatBlock_owns (ihInner objects) times) fun _ =>
      .ite (fun _ => ihRest objects) fun _ => .pure rfl

end Blocks

/-- Whatever a program declares in whatever blocks, which requests are refused and whether
exceptions are thrown: when it is over, nothing is live, and nothing was released that was not. -/
theorem wrappers_release {env : Env} {refuse : Nat → Bool} {program : Block} {done : Bool}
    {w : World} (h : program.run env [] (.init refuse) = .ok (done, w)) :
    w.live = [] ∧ w.badRelease = [] := by
  have hinit : (World.init refuse).ledger.Covers (0 + 0) :=
    ⟨rfl, Multiset.nodup_zero, rfl, fun r hr => absurd hr (Multiset.notMem_zero r)⟩
  obtain ⟨m, rfl, hc⟩ := block_owns program [] hinit h
  exact ⟨(Multiset.coe_eq_zero _).mp hc.live_eq, hc.clean⟩

/-- A grid and a problem, with an exception if there is no problem. -/
def gridAndProblem : Block :=
  .declare (fun _ => .grid (0, 0) (some (.world 2 0)) 4 4 2 2 1)
    (.declare (fun objects =>
      match objects with
      | .grid g :: _ => .problem (fun _ v => v) g 2 0
      | _ => .problem (fun _ v => v) none 2 0)
      (.cond (fun objects =>
        match objects with
        | .problem (some _) :: _ => true
        | _ => false) .leave .throw))

/-- The second transpose of the problem is refused. -/
theorem wrappers_release_refused :
    ∃ w, gridAndProblem.run .reference [] (.init fun k => k == 3) = .ok (false, w) ∧
      w.live = [] ∧ w.badRelease = [] := by
  have hdone : (gridAndProblem.run .reference [] (.init fun k => k == 3)).toOption.map Prod.fst =
      some false := by
    decide +kernel
  cases h : gridAndProblem.run .reference [] (.init fun k => k == 3) with
  | error e =>
    rw [h] at hdone
    cases hdone
  | ok r =>
    obtain ⟨done, w⟩ := r
    rw [h] at hdone
    cases hdone
    exact ⟨w, rfl, wrappers_release h⟩

end Underling
