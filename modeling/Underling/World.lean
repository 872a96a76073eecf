import Underling.Extern
import Underling.Lib.Runs

/-!
# Underling.World

The effects of the C code. A call of the library runs in `C`, over a `World` that answers each
allocation and each planner request (granted or refused), and records what is owned, which errors
were reported, which collective calls were made and which guru plans were requested. Errors go to
a handler that returns, so a function that reports one goes on to its `return`. MPI calls succeed.

A run ends with a result or with a `Fault`: a failed assertion, a loop that never ends, a read
through a null pointer, or an index outside an array.

The `_ends` lemmas say what each effect does to the log of the world, and when a request is
granted; the corresponding lemmas about the functions of the library are put together from them
with the rules of `Runs`.
-/

namespace Underling

open Runs

inductive Status where
  | success
  | efault
  | einval
  | efailed
  | esanity
  | enomem
deriving DecidableEq, Repr

/-- The `int` a status stands for. -/
def Status.code : Status → Nat
  | .success => 0
  | .efault => 3
  | .einval => 4
  | .efailed => 5
  | .esanity => 7
  | .enomem => 8

/-- One call of `underling_error`; the file and line it passes are left out. -/
structure Report where
  reason : String
  status : Status
deriving DecidableEq, Repr

inductive Fault where
  | assertion
  | diverges
  | nullRead
  | outOfBounds
deriving DecidableEq, Repr

/-- Something that has to be given back. -/
inductive Resource where
  | block (id : Nat)
  | comm (id : Nat)
  | plan (id : Nat)
deriving DecidableEq, Repr

/-- A collective call, with the arguments every member must agree on. -/
inductive Call where
  | cartCreate (pA pB : Nat)
  | cartSub (dir : Dir)
  | bcast (count root : Nat)
  | dup
  | localSizeTransposed (d0 d1 howmany block0 block1 : Nat)
  | planTranspose (t : TransposeArgs)
deriving DecidableEq, Repr

/-- What has been observed of a run so far. -/
structure Log where
  reports : List Report
  /-- Each collective call with the kind of communicator it was made on. -/
  calls : List (Dir × Call)
  /-- The guru plans requested. -/
  planned : List Guru

structure World where
  /-- Whether the `k`-th allocation or planner request is refused. -/
  refuse : Nat → Bool
  requests : Nat
  /-- The next unused resource number. -/
  fresh : Nat
  live : List Resource
  /-- Resources released while not live. -/
  badRelease : List Resource
  log : Log

def Log.empty : Log where
  reports := []
  calls := []
  planned := []

/-- A world in which nothing has happened yet. -/
def World.init (refuse : Nat → Bool) : World where
  refuse := refuse
  requests := 0
  fresh := 0
  live := []
  badRelease := []
  log := .empty

/-- Every allocation and every planner request will be granted. -/
def World.Granted (w : World) : Prop := ∀ k, w.refuse k = false

/-- The log of `w` is `l`; under the condition `G` nothing will be refused.
`G` is `False` where refusals are allowed. -/
def World.At (w : World) (l : Log) (G : Prop) : Prop := w.log = l ∧ (G → w.Granted)

/-- A run of C code. -/
abbrev C (α : Type) := StateT World (Except Fault) α

namespace C

/-- `UNDERLING_ERROR_REPORT`. -/
def report (reason : String) (status : Status) : C Unit :=
  modify fun w => { w with log := { w.log with reports := w.log.reports ++ [⟨reason, status⟩] } }

/-- `UNDERLING_ERROR_VAL`: report and return `value`. -/
def errorVal {α : Type} (reason : String) (status : Status) (value : α) : C α := do
  report reason status
  return value

def errorNull {α : Type} (reason : String) (status : Status) : C (Option α) :=
  errorVal reason status none

def assert (p : Prop) [Decidable p] : C Unit :=
  if p then pure () else throw .assertion

/-- A request that may be refused; a granted one yields a new resource. -/
def request (mk : Nat → Resource) : C (Option Nat) := do
  let w ← get
  if w.refuse w.requests then
    set { w with requests := w.requests + 1 }
    return none
  set { w with requests := w.requests + 1, fresh := w.fresh + 1, live := mk w.fresh :: w.live }
  return some w.fresh

/-- `malloc` and `calloc`. -/
def malloc : C (Option Nat) := request .block

/-- Give a resource back. -/
def release (r : Resource) : C Unit :=
  modify fun w =>
    if r ∈ w.live then { w with live := w.live.erase r }
    else { w with badRelease := r :: w.badRelease }

def free (addr : Nat) : C Unit := release (.block addr)

/-- Record a collective call. -/
def call (dir : Dir) (c : Call) : C Unit :=
  modify fun w => { w with log := { w.log with calls := w.log.calls ++ [(dir, c)] } }

/-- A new communicator. -/
def newComm (dir : Dir) (rank size : Nat) : C Comm := do
  let w ← get
  set { w with fresh := w.fresh + 1, live := .comm w.fresh :: w.live }
  return { id := w.fresh, dir := dir, rank := rank, size := size }

/-- `underling_MPI_Comm_dup_with_name`, the copy of the name left out. -/
def commDupWithName (comm : Comm) : C Comm := do
  call comm.dir .dup
  newComm comm.dir comm.rank comm.size

def commFree (comm : Comm) : C Unit := release (.comm comm.id)

/-- Call a guru planner. -/
def planGuru (g : Guru) : C (Option FftwPlan) := do
  modify fun w => { w with log := { w.log with planned := w.log.planned ++ [g] } }
  let some id ← request .plan | return none
  return some { id := id, desc := .guru g }

/-- `fftw_mpi_plan_many_transpose`. -/
def planManyTranspose (t : TransposeArgs) (comm : Comm) (inp out : Ptr) : C (Option FftwPlan) := do
  call comm.dir (.planTranspose t)
  let some id ← request .plan | return none
  return some { id := id, desc := .manyTranspose t comm inp out }

/-- `fftw_destroy_plan`. -/
def destroyPlan (p : FftwPlan) : C Unit := release (.plan p.id)

/-! ## What each effect does -/

section Effects

variable {w : World} {l : Log} {G : Prop}

theorem assert_ends {p : Prop} [Decidable p] (h : w.At l G) (hp : p) :
    Ends (assert p) w fun _ w' => w'.At l G := by
  rw [assert, if_pos hp]
  exact .pure h

theorem request_ends (h : w.At l G) (mk : Nat → Resource) :
    Ends (request mk) w fun o w' => (G → o.isSome) ∧ w'.At l G := by
  refine .get_bind ?_
  by_cases hr : w.refuse w.requests = true
  · rw [if_pos hr]
    refine .bind (.of_set h) fun _ w' h' => .pure ⟨fun hG => ?_, h'⟩
    rw [h.2 hG] at hr
    cases hr
  · rw [if_neg hr]
    exact .bind (.of_set h) fun _ w' h' => .pure ⟨fun _ => rfl, h'⟩

theorem malloc_ends (h : w.At l G) : Ends malloc w fun o w' => (G → o.isSome) ∧ w'.At l G :=
  request_ends h .block

theorem call_ends (h : w.At l G) (dir : Dir) (c : Call) :
    Ends (call dir c) w fun _ w' => w'.At { l with calls := l.calls ++ [(dir, c)] } G :=
  .of_modify ⟨by simp only [h.1], h.2⟩

theorem newComm_ends (h : w.At l G) (dir : Dir) (rank size : Nat) :
    Ends (newComm dir rank size) w
      fun c w' => (c.dir = dir ∧ c.rank = rank ∧ c.size = size) ∧ w'.At l G :=
  .get_bind (.bind (.of_set h) fun _ _ h' => .pure ⟨⟨rfl, rfl, rfl⟩, h'⟩)

theorem commDupWithName_ends (h : w.At l G) (comm : Comm) :
    Ends (commDupWithName comm) w
      fun c w' => (c.dir = comm.dir ∧ c.rank = comm.rank ∧ c.size = comm.size) ∧
        w'.At { l with calls := l.calls ++ [(comm.dir, .dup)] } G :=
  .bind (call_ends h _ _) fun _ _ h' => newComm_ends h' _ _ _

theorem planGuru_ends (h : w.At l G) (g : Guru) :
    Ends (planGuru g) w
      fun o w' => (G → o.isSome) ∧ (∀ p, o = some p → p.desc = .guru g) ∧
        w'.At { l with planned := l.planned ++ [g] } G := by
  refine .bind (.of_modify (Q := fun _ w' => w'.At { l with planned := l.planned ++ [g] } G)
    ⟨by simp only [h.1], h.2⟩) fun _ w1 h1 => ?_
  refine .bind (request_ends h1 .plan) ?_
  rintro (_ | id) w2 ⟨hG, h2⟩
  · exact .pure ⟨hG, fun p hp => (by cases hp), h2⟩
  · exact .pure ⟨fun _ => rfl, fun p hp => (by cases hp; rfl), h2⟩

theorem planManyTranspose_ends (h : w.At l G) (t : TransposeArgs) (comm : Comm) (inp out : Ptr) :
    Ends (planManyTranspose t comm inp out) w
      fun o w' => (G → o.isSome) ∧ (∀ p, o = some p → p.desc = .manyTranspose t comm inp out) ∧
        w'.At { l with calls := l.calls ++ [(comm.dir, .planTranspose t)] } G := by
  refine .bind (call_ends h _ _) fun _ w1 h1 => .bind (request_ends h1 .plan) ?_
  rintro (_ | id) w2 ⟨hG, h2⟩
  · exact .pure ⟨hG, fun p hp => (by cases hp), h2⟩
  · exact .pure ⟨fun _ => rfl, fun p hp => (by cases hp; rfl), h2⟩

/-! Failing exits: reporting and releasing never fault, whatever the world. -/

theorem errorNull_none {α : Type} {reason : String} {status : Status} {Q : Option α → World → Prop}
    (hQ : ∀ w', Q none w') : Ends (errorNull reason status) w Q :=
  .bind (.of_modify (Q := fun _ _ => True) trivial) fun _ w' _ => .pure (hQ w')

theorem release_bind {α : Type} {r : Resource} {f : Unit → C α} {Q : α → World → Prop}
    (hf : ∀ w', Ends (f ()) w' Q) : Ends (release r >>= f) w Q :=
  .bind (.of_modify (Q := fun _ _ => True) trivial) fun _ w' _ => hf w'

end Effects

end C

end Underling
