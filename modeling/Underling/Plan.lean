import Underling.Problem

/-!
# Underling.Plan

`underling_plan_create` and the four execute calls of one process. The dump of the transposes for
deadlock debugging is left out. What executing an FFTW plan does to the buffers of the
process is a parameter here (`Effect`); `Underling.Job` says what the processes compute together.

* `planCreate_ends`: which plans are returned and when one is. All four directions are always
  planned (`planner_guard`).
* `requested_only_iff`: a sequence of execute calls meets the documented contract exactly when it
  never calls a direction that was not requested.
-/

namespace Underling

open Runs C

def TRANSPOSE_LONG_N2_TO_LONG_N1 : Flags := 1 <<< 0
def TRANSPOSE_LONG_N1_TO_LONG_N0 : Flags := 1 <<< 1
def TRANSPOSE_LONG_N0_TO_LONG_N1 : Flags := 1 <<< 2
def TRANSPOSE_LONG_N1_TO_LONG_N2 : Flags := 1 <<< 3
def TRANSPOSE_NONE : Flags := 1 <<< 4

def TRANSPOSE_ALL : Flags :=
  TRANSPOSE_LONG_N2_TO_LONG_N1 ||| TRANSPOSE_LONG_N1_TO_LONG_N0 |||
    TRANSPOSE_LONG_N0_TO_LONG_N1 ||| TRANSPOSE_LONG_N1_TO_LONG_N2

structure Plan where
  addr : Nat
  inPlace : Bool
  planBackwardA : Option FftwPlan
  planBackwardB : Option FftwPlan
  planForwardA : Option FftwPlan
  planForwardB : Option FftwPlan

def Env.destroyFlags (env : Env) : Flags := if env.fftw33 then FFTW.DESTROY_INPUT else 0

/-- No direction given means all of them, and `TRANSPOSE_NONE` disables every one. -/
def normalise (transposeFlags : Flags) : Flags :=
  let f := if transposeFlags = 0 then TRANSPOSE_ALL else transposeFlags
  if f.has TRANSPOSE_NONE then f &&& ~~~TRANSPOSE_ALL else f

def destroyPlanOf (p : Option FftwPlan) : C Unit := do
  if let some p := p then destroyPlan p

def planDestroy (plan : Option Plan) : C Unit := do
  if let some plan := plan then
    destroyPlanOf plan.planBackwardA
    destroyPlanOf plan.planBackwardB
    destroyPlanOf plan.planForwardA
    destroyPlanOf plan.planForwardB
    free plan.addr

/-- One guarded planner call of `underling_plan_create`, for the field `field` of the plan. The
guard joins the flags where it would have to meet them. -/
def plannerBlock (env : Env) (transposeFlags flag : Flags) (t : Transpose) (inp out : Ptr)
    (fftwFlags : Flags) (field : String) (store : Plan → FftwPlan → Plan) (plan : Plan) :
    C (Option Plan) := do
  if transposeFlags ||| flag ≠ 0 then
    let some p ← transposeFftwPlan (some t) inp out fftwFlags
      | do planDestroy (some plan)
           let provider := env.libraryPath "fftw_mpi_plan_many_transpose"
           errorNull
             s!"fftw_mpi_plan_many_transpose (from {provider}) returned NULL plan: {field}" .efailed
    return some (store plan p)
  else return some plan

def planCreate (env : Env) (problem : Option Problem) (inp out : Option Ptr)
    (transposeFlags rigorFlags : Flags) : C (Option Plan) := do
  let some problem := problem | errorNull "problem == NULL" .einval
  let some inp := inp | errorNull "in == NULL" .einval
  let some out := out | errorNull "out == NULL" .einval
  if transposeFlags.has (~~~(TRANSPOSE_ALL ||| TRANSPOSE_NONE)) then
    return ← errorNull "transpose_flags contains non-direction bit" .einval
  if rigorFlags.has nonRigorMask then
    return ← errorNull "FFTW non-rigor bits disallowed" .einval
  let transposeFlags := normalise transposeFlags
  let some addr ← malloc | errorNull "failed to allocate space for plan" .enomem
  let p : Plan :=
    { addr := addr, inPlace := inp == out, planBackwardA := none, planBackwardB := none
      planForwardA := none, planForwardB := none }
  let fftwFlags := rigorFlags ||| env.destroyFlags
  let some p ← plannerBlock env transposeFlags TRANSPOSE_LONG_N2_TO_LONG_N1 problem.backwardA inp
    out fftwFlags "plan_backwardA" (fun p q => { p with planBackwardA := some q }) p | return none
  let some p ← plannerBlock env transposeFlags TRANSPOSE_LONG_N1_TO_LONG_N0 problem.backwardB inp
    out fftwFlags "plan_backwardB" (fun p q => { p with planBackwardB := some q }) p | return none
  let some p ← plannerBlock env transposeFlags TRANSPOSE_LONG_N0_TO_LONG_N1 problem.forwardB inp out
    fftwFlags "plan_forwardB" (fun p q => { p with planForwardB := some q }) p | return none
  let some p ← plannerBlock env transposeFlags TRANSPOSE_LONG_N1_TO_LONG_N2 problem.forwardA inp out
    fftwFlags "plan_forwardA" (fun p q => { p with planForwardA := some q }) p | return none
  return some p

/-! ## Executing -/

/-- The buffers of a process. -/
abbrev Mem (α : Type) := Ptr → Nat → α

/-- What executing an FFTW plan on two buffers does to the buffers of the process. -/
abbrev Effect (α : Type) := FftwPlan → Ptr → Ptr → Mem α → Mem α

variable {α : Type}

/-- The body of the four execute calls, for the field `field` of the plan, called `name`. The result
`none` stands for `UNDERLING_SUCCESS`, any other is the error reported and returned. -/
def executeField (effect : Effect α) (name : String) (field : Plan → Option FftwPlan)
    (plan : Option Plan) (inp out : Option Ptr) : StateM (Mem α) (Option Report) := do
  let some plan := plan | return some ⟨"plan == NULL", .einval⟩
  let some p := field plan | return some ⟨s!"plan->{name} == NULL", .einval⟩
  let some inp := inp | return some ⟨"in == NULL", .einval⟩
  let some out := out | return some ⟨"out == NULL", .einval⟩
  if plan.inPlace then
    if inp ≠ out then return some ⟨"in-place plan but in != out", .einval⟩
  else if inp = out then return some ⟨"out-of-place plan but in == out", .einval⟩
  modify (effect p inp out)
  return none

def executeLongN2ToLongN1 (effect : Effect α) : Option Plan → Option Ptr → Option Ptr →
    StateM (Mem α) (Option Report) :=
  executeField effect "plan_backwardA" (·.planBackwardA)

def executeLongN1ToLongN0 (effect : Effect α) : Option Plan → Option Ptr → Option Ptr →
    StateM (Mem α) (Option Report) :=
  executeField effect "plan_backwardB" (·.planBackwardB)

def executeLongN0ToLongN1 (effect : Effect α) : Option Plan → Option Ptr → Option Ptr →
    StateM (Mem α) (Option Report) :=
  executeField effect "plan_forwardB" (·.planForwardB)

def executeLongN1ToLongN2 (effect : Effect α) : Option Plan → Option Ptr → Option Ptr →
    StateM (Mem α) (Option Report) :=
  executeField effect "plan_forwardA" (·.planForwardA)

/-- The four directions. -/
inductive Move where
  | n2n1
  | n1n0
  | n0n1
  | n1n2
deriving DecidableEq, Repr

namespace Move

def flag : Move → Flags
  | n2n1 => TRANSPOSE_LONG_N2_TO_LONG_N1
  | n1n0 => TRANSPOSE_LONG_N1_TO_LONG_N0
  | n0n1 => TRANSPOSE_LONG_N0_TO_LONG_N1
  | n1n2 => TRANSPOSE_LONG_N1_TO_LONG_N2

def field : Move → Plan → Option FftwPlan
  | n2n1 => (·.planBackwardA)
  | n1n0 => (·.planBackwardB)
  | n0n1 => (·.planForwardB)
  | n1n2 => (·.planForwardA)

def transpose : Move → Problem → Transpose
  | n2n1 => (·.backwardA)
  | n1n0 => (·.backwardB)
  | n0n1 => (·.forwardB)
  | n1n2 => (·.forwardA)

def execute (effect : Effect α) : Move → Option Plan → Option Ptr → Option Ptr →
    StateM (Mem α) (Option Report)
  | n2n1 => executeLongN2ToLongN1 effect
  | n1n0 => executeLongN1ToLongN0 effect
  | n0n1 => executeLongN0ToLongN1 effect
  | n1n2 => executeLongN1ToLongN2 effect

end Move

/-! ## Specification -/

/-- The flag words `planCreate` accepts. -/
structure PlanWords (transposeFlags rigorFlags : Flags) : Prop where
  directions : transposeFlags.has (~~~(TRANSPOSE_ALL ||| TRANSPOSE_NONE)) = false
  rigor : rigorFlags.has nonRigorMask = false

/-- The plan made for a problem: every direction is planned. -/
structure PlanFor (env : Env) (problem : Problem) (inp out : Ptr) (rigorFlags : Flags)
    (plan : Plan) : Prop where
  inPlace_eq : plan.inPlace = (inp == out)
  planned : ∀ move : Move, ∃ p, move.field plan = some p ∧
    p.desc = (move.transpose problem).planned inp out (rigorFlags ||| env.destroyFlags)

/-- The log after planning the four transposes of a problem. -/
def planLog (env : Env) (problem : Problem) (rigorFlags : Flags) (l : Log) : Log :=
  let f := rigorFlags ||| env.destroyFlags
  problem.forwardA.planLog f (problem.forwardB.planLog f
    (problem.backwardB.planLog f (problem.backwardA.planLog f l)))

/-- What holds where `planCreate` ends. -/
structure PlanCreated (env : Env) (problem : Problem) (inp out : Ptr)
    (transposeFlags rigorFlags : Flags) (l : Log) (G : Prop) (o : Option Plan) (w' : World) :
    Prop where
  sound : ∀ plan, o = some plan → PlanWords transposeFlags rigorFlags ∧
    PlanFor env problem inp out rigorFlags plan ∧ w'.At (planLog env problem rigorFlags l) G
  complete : G → PlanWords transposeFlags rigorFlags → o.isSome

theorem PlanCreated.of_refused {env : Env} {problem : Problem} {inp out : Ptr}
    {transposeFlags rigorFlags : Flags} {l : Log} {G : Prop} {w' : World}
    (h : G → PlanWords transposeFlags rigorFlags → False) :
    PlanCreated env problem inp out transposeFlags rigorFlags l G none w' :=
  ⟨fun p hp => (by cases hp), fun hG hw => (h hG hw).elim⟩

/-- The guard of a planner block never blocks. -/
theorem planner_guard (f : Flags) (move : Move) : f ||| move.flag ≠ 0 := by
  intro h
  have hself : (f ||| move.flag) &&& move.flag = move.flag := by
    ext i hi
    simp only [BitVec.getElem_and, BitVec.getElem_or]
    cases f[i] <;> cases move.flag[i] <;> rfl
  rw [h] at hself
  cases move <;> exact absurd hself (by decide)

section Create

variable {env : Env} {problem : Problem} {inp out : Ptr} {w : World} {l : Log} {G : Prop}

theorem destroyPlanOf_bind {β : Type} {p : Option FftwPlan} {f : Unit → C β}
    {Q : β → World → Prop} (hf : ∀ w', Ends (f ()) w' Q) : Ends (destroyPlanOf p >>= f) w Q := by
  cases p with
  | none => exact .bind (.pure (Q := fun _ _ => True) trivial) fun _ w' _ => hf w'
  | some p => exact release_bind hf

theorem plannerBlock_ends (h : w.At l G) (transposeFlags : Flags) (move : Move) (t : Transpose)
    (fftwFlags : Flags) (field : String) (store : Plan → FftwPlan → Plan) (plan : Plan) :
    Ends (plannerBlock env transposeFlags move.flag t inp out fftwFlags field store plan) w
      fun o w' => (G → o.isSome) ∧ ∀ plan', o = some plan' →
        (∃ p, plan' = store plan p ∧ p.desc = t.planned inp out fftwFlags) ∧
          w'.At (t.planLog fftwFlags l) G := by
  rw [plannerBlock, if_pos (planner_guard transposeFlags move)]
  refine .bind (transposeFftwPlan_ends h t inp out fftwFlags) ?_
  rintro (_ | p) w1 ⟨hG, hdesc, h1⟩
  · refine .bind (Q := fun _ _ => True) ?_ fun _ w' _ =>
      errorNull_none fun _ => ⟨fun hg => absurd (hG hg) (by decide), fun _ hp => (by cases hp)⟩
    refine destroyPlanOf_bind fun w2 => destroyPlanOf_bind fun w3 => ?_
    exact destroyPlanOf_bind fun w4 => destroyPlanOf_bind fun w5 => .of_modify trivial
  · refine .pure ⟨fun _ => rfl, ?_⟩
    rintro _ ⟨⟩
    exact ⟨⟨p, rfl, hdesc p rfl⟩, h1⟩

theorem planCreate_ends (h : w.At l G) (transposeFlags rigorFlags : Flags) :
    Ends (planCreate env (some problem) (some inp) (some out) transposeFlags rigorFlags) w
      (PlanCreated env problem inp out transposeFlags rigorFlags l G) := by
  simp only [planCreate]
  by_cases hd : transposeFlags.has (~~~(TRANSPOSE_ALL ||| TRANSPOSE_NONE)) = true
  · rw [if_pos hd]
    exact errorNull_none fun _ => .of_refused fun _ hw => by rw [hw.directions] at hd; cases hd
  by_cases hr : rigorFlags.has nonRigorMask = true
  · rw [if_neg hd, if_pos hr]
    exact errorNull_none fun _ => .of_refused fun _ hw => by rw [hw.rigor] at hr; cases hr
  rw [if_neg hd, if_neg hr]
  refine .bind (malloc_ends h) ?_
  rintro (_ | addr) w1 ⟨hG, h1⟩
  · exact errorNull_none fun _ => .of_refused fun hg _ => by cases hG hg
  refine .bind (plannerBlock_ends h1 _ .n2n1 _ _ _ _ _) ?_
  rintro (_ | p1) w2 ⟨hG, hp⟩
  · exact .pure (.of_refused fun hg _ => by cases hG hg)
  obtain ⟨⟨q1, rfl, hq1⟩, h2⟩ := hp p1 rfl
  refine .bind (plannerBlock_ends h2 _ .n1n0 _ _ _ _ _) ?_
  rintro (_ | p2) w3 ⟨hG, hp⟩
  · exact .pure (.of_refused fun hg _ => by cases hG hg)
  obtain ⟨⟨q2, rfl, hq2⟩, h3⟩ := hp p2 rfl
  refine .bind (plannerBlock_ends h3 _ .n0n1 _ _ _ _ _) ?_
  rintro (_ | p3) w4 ⟨hG, hp⟩
  · exact .pure (.of_refused fun hg _ => by cases hG hg)
  obtain ⟨⟨q3, rfl, hq3⟩, h4⟩ := hp p3 rfl
  refine .bind (plannerBlock_ends h4 _ .n1n2 _ _ _ _ _) ?_
  rintro (_ | p4) w5 ⟨hG, hp⟩
  · exact .pure (.of_refused fun hg _ => by cases hG hg)
  obtain ⟨⟨q4, rfl, hq4⟩, h5⟩ := hp p4 rfl
  refine .pure ⟨?_, fun _ _ => rfl⟩
  rintro _ ⟨⟩
  refine ⟨⟨Bool.eq_false_iff.mpr hd, Bool.eq_false_iff.mpr hr⟩, ⟨rfl, ?_⟩, h5⟩
  rintro (_ | _ | _ | _)
  · exact ⟨q1, rfl, hq1⟩
  · exact ⟨q2, rfl, hq2⟩
  · exact ⟨q3, rfl, hq3⟩
  · exact ⟨q4, rfl, hq4⟩

end Create

/-! ## The contract of the execute calls -/

/-- An execute call on two buffers. -/
structure ExecCall where
  move : Move
  inp : Ptr
  out : Ptr

namespace ExecCall

/-- The buffers have the placement the plan was made for. -/
def Placed (c : ExecCall) (plan : Plan) : Prop := plan.inPlace = true ↔ c.inp = c.out

/-- Outcome of the call, and the buffers after it. -/
def run (effect : Effect α) (plan : Plan) (c : ExecCall) (m : Mem α) : Option Report × Mem α :=
  c.move.execute effect (some plan) (some c.inp) (some c.out) m

/-- The documented contract of a call on buffers `m`: it succeeds exactly when its direction was
requested, and otherwise it returns an error and leaves the buffers alone. -/
structure Contract (effect : Effect α) (transposeFlags : Flags) (plan : Plan) (c : ExecCall)
    (m : Mem α) : Prop where
  succeeds_iff : (c.run effect plan m).1 = none ↔ (normalise transposeFlags).has c.move.flag = true
  blocked : (normalise transposeFlags).has c.move.flag = false →
    (∃ e, (c.run effect plan m).1 = some e ∧ e.status.code ≠ 0) ∧ (c.run effect plan m).2 = m

end ExecCall

/-- The contract holds at every call of a sequence. -/
def MeetsContract (effect : Effect α) (transposeFlags : Flags) (plan : Plan) :
    List ExecCall → Mem α → Prop
  | [], _ => True
  | c :: cs, m => c.Contract effect transposeFlags plan m ∧
    MeetsContract effect transposeFlags plan cs (c.run effect plan m).2

theorem execute_planned (effect : Effect α) {plan : Plan} {c : ExecCall} {p : FftwPlan}
    (hp : c.move.field plan = some p) (hc : c.Placed plan) (m : Mem α) :
    c.run effect plan m = (none, effect p c.inp c.out m) := by
  have hbody : ∀ name,
      executeField effect name c.move.field (some plan) (some c.inp) (some c.out) m =
      (none, effect p c.inp c.out m) := by
    intro name
    simp only [executeField, hp]
    by_cases hi : plan.inPlace = true
    · have he : ¬ c.inp ≠ c.out := not_not.mpr (hc.mp hi)
      rw [if_pos hi, if_neg he]
      rfl
    · have he : ¬ c.inp = c.out := fun h => hi (hc.mpr h)
      rw [if_neg hi, if_neg he]
      rfl
  obtain ⟨move, inp, out⟩ := c
  cases move
  · exact hbody "plan_backwardA"
  · exact hbody "plan_backwardB"
  · exact hbody "plan_forwardB"
  · exact hbody "plan_forwardA"

/-- A call meets the contract exactly when its direction was requested. -/
theorem contract_iff {env : Env} {problem : Problem} {inp out : Ptr} {transposeFlags r : Flags}
    {plan : Plan} (hplan : PlanFor env problem inp out r plan) (effect : Effect α) {c : ExecCall}
    (hc : c.Placed plan) (m : Mem α) :
    c.Contract effect transposeFlags plan m ↔
      (normalise transposeFlags).has c.move.flag = true := by
  obtain ⟨p, hp, -⟩ := hplan.planned c.move
  have hrun := execute_planned effect hp hc m
  constructor
  · intro h
    rw [← h.succeeds_iff, hrun]
  · intro h
    refine ⟨?_, fun hf => ?_⟩
    · rw [hrun]
      exact ⟨fun _ => h, fun _ => rfl⟩
    · rw [h] at hf
      cases hf

theorem meetsContract_iff {env : Env} {problem : Problem} {inp out : Ptr}
    {transposeFlags r : Flags} {plan : Plan} (hplan : PlanFor env problem inp out r plan)
    (effect : Effect α) (calls : List ExecCall) (hc : ∀ c ∈ calls, c.Placed plan) :
    ∀ m, MeetsContract effect transposeFlags plan calls m ↔
      ∀ c ∈ calls, (normalise transposeFlags).has c.move.flag = true := by
  induction calls with
  | nil =>
    intro m
    simp [MeetsContract]
  | cons c cs ih =>
    intro m
    have hstep : c.Contract effect transposeFlags plan m ↔ _ :=
      contract_iff hplan effect (hc c (by simp)) m
    have hrest := ih (fun c' h' => hc c' (by simp [h'])) (c.run effect plan m).2
    rw [MeetsContract, hstep, hrest, List.forall_mem_cons]

/-- With every request granted, accepted flags give a plan, and a sequence of execute calls on it
meets the contract exactly when every direction it calls was requested. -/
theorem requested_only_iff {env : Env} {problem : Problem} {inp out : Ptr}
    {transposeFlags rigorFlags : Flags} {w : World} (hw : w.Granted)
    (hwords : PlanWords transposeFlags rigorFlags) :
    ∃ plan w', planCreate env (some problem) (some inp) (some out) transposeFlags rigorFlags w =
        .ok (some plan, w') ∧
      ∀ (effect : Effect α) (calls : List ExecCall) (m : Mem α), (∀ c ∈ calls, c.Placed plan) →
        (MeetsContract effect transposeFlags plan calls m ↔
          ∀ c ∈ calls, (normalise transposeFlags).has c.move.flag = true) := by
  have hends : Ends _ w (PlanCreated env problem inp out transposeFlags rigorFlags w.log True) :=
    planCreate_ends ⟨rfl, fun _ => hw⟩ transposeFlags rigorFlags
  obtain ⟨o, w', hrun, hcreated⟩ := hends
  obtain ⟨plan, rfl⟩ := Option.isSome_iff_exists.mp (hcreated.complete trivial hwords)
  refine ⟨plan, w', hrun, fun effect calls m hc => ?_⟩
  exact meetsContract_iff (hcreated.sound plan rfl).2.1 effect calls hc m

/-- A plan made with `TRANSPOSE_NONE` executes a direction all the same. -/
theorem requested_only_fails :
    ∃ g w1 p w2 plan w3,
      gridCreate .reference (0, 0) (some (.world 1 0)) 1 1 1 1 1 .granting = .ok (some g, w1) ∧
      problemCreate .reference (fun _ v => v) (some g) 1 0 w1 = .ok (some p, w2) ∧
      planCreate .reference (some p) (some 0) (some 1) TRANSPOSE_NONE FFTW.ESTIMATE w2 =
        .ok (some plan, w3) ∧
      ¬ MeetsContract (fun _ _ _ m => m) TRANSPOSE_NONE plan [⟨.n2n1, 0, 1⟩]
        (fun _ _ => 0 : Mem Nat) := by
  refine ⟨_, _, _, _, _, _, rfl, rfl, rfl, fun h => ?_⟩
  have hreq := h.1.succeeds_iff.mp rfl
  exact absurd hreq (by decide)

/-- Without flags every direction is requested. -/
theorem requested_only_all :
    ∃ g w1 p w2,
      gridCreate .reference (0, 0) (some (.world 1 0)) 1 1 1 1 1 .granting = .ok (some g, w1) ∧
      problemCreate .reference (fun _ v => v) (some g) 1 0 w1 = .ok (some p, w2) ∧
      ∃ plan w3, planCreate .reference (some p) (some 0) (some 1) 0 FFTW.ESTIMATE w2 =
          .ok (some plan, w3) ∧
        ∀ (effect : Effect Nat) (calls : List ExecCall) (m : Mem Nat),
          (∀ c ∈ calls, c.Placed plan) → (MeetsContract effect 0 plan calls m ↔
            ∀ c ∈ calls, (normalise 0).has c.move.flag = true) :=
  ⟨_, _, _, _, rfl, rfl, requested_only_iff (fun _ => rfl) ⟨by decide, by decide⟩⟩

end Underling
