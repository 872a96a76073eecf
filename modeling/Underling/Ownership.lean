import Underling.Creators
import Underling.Lib.Ledger

/-!
# Underling.Ownership

What the caller of each function owns: the heap blocks, the communicators and the FFTW plans behind
its handles. Nothing is assumed about the arguments or about which requests are refused.

* `gridCreate_owns`, `problemCreate_owns`, `planCreate_owns`, `fftCreate_owns`: a creator that
  returns `NULL` leaves nothing behind, else its caller owns what its handle owns.
* `gridDestroy_owns`, `problemDestroy_owns`, `planDestroy_owns`, `fftwPlanDestroy_owns`: the
  destructors release all of that.
-/

namespace Underling

open Runs C Ledgers

def Resource.id : Resource → Nat
  | .block id => id
  | .comm id => id
  | .plan id => id

def World.ledger (w : World) : Ledger Resource where
  live := w.live
  stray := w.badRelease
  unused := fun r => w.fresh ≤ r.id

/-- Where `x` ends, its caller owns resources with `Q` in place of `P`. -/
abbrev Owns {α : Type} (x : C α) (P : Multiset Resource) (Q : α → Multiset Resource → Prop) :
    Prop :=
  Turns World.ledger x P Q

/-! ## What a handle owns -/

def FftwPlan.owned (p : FftwPlan) : Multiset Resource := {.plan p.id}

def Transpose.owned (t : Transpose) : Multiset Resource := {.comm t.comm.id} + {.block t.addr}

def Grid.owned (g : Grid) : Multiset Resource :=
  {.comm g.gComm.id} + {.comm g.pAComm.id} + {.comm g.pBComm.id} + {.block g.addr}

def Problem.owned (p : Problem) : Multiset Resource :=
  p.backwardA.owned + p.backwardB.owned + p.forwardB.owned + p.forwardA.owned + {.block p.addr}

def Plan.owned (p : Plan) : Multiset Resource :=
  held FftwPlan.owned p.planBackwardA + held FftwPlan.owned p.planBackwardB +
    held FftwPlan.owned p.planForwardA + held FftwPlan.owned p.planForwardB + {.block p.addr}

def FftPlan.owned (f : FftPlan) : Multiset Resource :=
  held FftwPlan.owned f.planPreorder + held FftwPlan.owned f.planFftw +
    held FftwPlan.owned f.planPostorder + {.block f.addr}

/-! ## Effects -/

section Effects

variable {α : Type} {P : Multiset Resource}

theorem modify_owns {f : World → World} (h : ∀ w, (f w).ledger = w.ledger) :
    Owns (modify f) 0 fun _ m => m = 0 :=
  .of_view_eq fun w _ _ hrun =>
    (Ends.of_modify (Q := fun _ w' => w'.ledger = w.ledger) (h w)).of_run hrun

theorem report_owns (reason : String) (status : Status) :
    Owns (report reason status) 0 fun _ m => m = 0 :=
  modify_owns fun _ => rfl

theorem errorVal_owns {reason : String} {status : Status} {value : α}
    {Q : α → Multiset Resource → Prop} (h : Q value P) : Owns (errorVal reason status value) P Q :=
  .skip (report_owns reason status) fun _ => .pure h

theorem errorNull_owns {reason : String} {status : Status}
    {Q : Option α → Multiset Resource → Prop} (h : Q none P) :
    Owns (errorNull reason status) P Q :=
  errorVal_owns h

theorem assert_owns (p : Prop) [Decidable p] : Owns (assert p) 0 fun _ m => m = 0 :=
  .ite (fun _ => .pure rfl) fun _ => .of_fault fun _ => ⟨_, rfl⟩

theorem request_owns {mk : Nat → Resource} (hmk : ∀ id, (mk id).id = id) :
    Owns (request mk) 0 fun o m => m = held (fun id => {mk id}) o := by
  refine .of_acquired fun w o w' hrun => ?_
  have hends : Ends (request mk) w fun o w' =>
      w.ledger.Acquired (held (fun id => {mk id}) o) w'.ledger := by
    refine .get_bind ?_
    by_cases hr : w.refuse w.requests = true
    · rw [if_pos hr]
      exact .bind (.of_set (Q := fun _ w' => w'.ledger = w.ledger) rfl) fun _ w' h =>
        .pure (h ▸ Ledger.Acquired.refl _)
    · rw [if_neg hr]
      refine .bind (.of_set (Q := fun _ w' => w' = { w with
        requests := w.requests + 1, fresh := w.fresh + 1, live := mk w.fresh :: w.live }) rfl) ?_
      rintro _ w' rfl
      refine .pure ⟨rfl, rfl, Multiset.nodup_singleton _, ?_, fun r hr => Nat.le_of_succ_le hr⟩
      intro r hr
      rw [Multiset.mem_singleton.mp hr]
      simp [World.ledger, hmk]
  exact hends.of_run hrun

theorem malloc_owns : Owns malloc 0 fun o m => m = held (fun addr => {.block addr}) o :=
  request_owns fun _ => rfl

theorem release_owns (r : Resource) : Owns (release r) {r} fun _ m => m = 0 := by
  refine .of_released fun w _ w' hrun => ?_
  refine (Ends.of_modify (Q := fun _ w' => w.ledger.Released r w'.ledger) ?_).of_run hrun
  by_cases h : r ∈ w.live
  · rw [if_pos h]
    exact ⟨(Multiset.coe_erase _ _).symm, fun _ => rfl, rfl⟩
  · rw [if_neg h]
    refine ⟨?_, fun hl => absurd hl h, rfl⟩
    exact (Multiset.erase_of_notMem h).symm

theorem newComm_owns (dir : Dir) (rank size : Nat) :
    Owns (newComm dir rank size) 0 fun c m => m = {.comm c.id} := by
  refine .of_acquired fun w c w' hrun => ?_
  have hends : Ends (newComm dir rank size) w fun c w' =>
      w.ledger.Acquired {.comm c.id} w'.ledger := by
    refine .get_bind (.bind (.of_set (Q := fun _ w' => w' = { w with
      fresh := w.fresh + 1, live := .comm w.fresh :: w.live }) rfl) ?_)
    rintro _ w' rfl
    refine .pure ⟨rfl, rfl, Multiset.nodup_singleton _, ?_, fun r hr => Nat.le_of_succ_le hr⟩
    intro r hr
    rw [Multiset.mem_singleton.mp hr]
    simp [World.ledger, Resource.id]
  exact hends.of_run hrun

theorem call_owns (dir : Dir) (c : Call) : Owns (call dir c) 0 fun _ m => m = 0 :=
  modify_owns fun _ => rfl

theorem commDupWithName_owns (comm : Comm) :
    Owns (commDupWithName comm) 0 fun c m => m = {.comm c.id} :=
  .skip (call_owns _ _) fun _ => newComm_owns _ _ _

theorem plan_owns (desc : PlanDesc) :
    Owns (do let some id ← request .plan | return none
             return some ({ id := id, desc := desc } : FftwPlan)) 0
      fun o m => m = held FftwPlan.owned o := by
  refine .bind (request_owns fun _ => rfl) 0 rfl ?_
  rintro (_ | id) _ rfl
  · exact .pure rfl
  · exact .pure (add_zero _)

theorem planGuru_owns (g : Guru) : Owns (planGuru g) 0 fun o m => m = held FftwPlan.owned o :=
  .skip (modify_owns fun _ => rfl) fun _ => plan_owns _

theorem planManyTranspose_owns (t : TransposeArgs) (comm : Comm) (inp out : Ptr) :
    Owns (planManyTranspose t comm inp out) 0 fun o m => m = held FftwPlan.owned o :=
  .skip (call_owns _ _) fun _ => plan_owns _

theorem giveUp_owns {α : Type} {x : C Unit} {P' : Multiset Resource}
    (hx : Owns x P fun _ m => m = 0) (hP : P' = P) {reason : String} {status : Status}
    {Q : Option α → Multiset Resource → Prop} (h : Q none 0) :
    Owns (do x
             errorNull reason status) P' Q := by
  rw [hP, ← add_zero P]
  exact hx.discard fun _ => errorNull_owns h

end Effects

/-! ## Transposes and grids -/

section Transposes

variable {env : Env}

theorem localDetails_owns (t : TransposeArgs) (comm : Comm) :
    Owns (localDetails env t comm) 0 fun _ m => m = 0 :=
  .ite (fun _ => .pure rfl) fun _ => .skip (call_owns _ _) fun _ => .pure rfl

theorem transposeFill_owns (addr : Nat) (t : TransposeArgs) (comm : Comm) :
    Owns (do
        let comm ← commDupWithName comm
        let details ← localDetails env t comm
        return some ({ t with addr := addr, comm := comm, details := details } : Transpose))
      {.block addr} fun o m => m = held Transpose.owned o := by
  refine .bind (commDupWithName_owns comm) {.block addr} (zero_add _).symm ?_
  rintro c _ rfl
  exact .skip (localDetails_owns t c) fun _ => .pure rfl

theorem transposeCreate_owns (t : TransposeArgs) (comm : Comm) :
    Owns (transposeCreate env t comm) 0 fun o m => m = held Transpose.owned o := by
  refine .bind malloc_owns 0 rfl ?_
  rintro (_ | addr) _ rfl
  · exact errorNull_owns rfl
  · exact transposeFill_owns addr t comm

theorem transposeCreateInverse_owns (forward : Transpose) :
    Owns (transposeCreateInverse env (some forward)) 0 fun o m => m = held Transpose.owned o := by
  refine .ite (fun _ => errorNull_owns rfl) fun _ => .bind malloc_owns 0 rfl ?_
  rintro (_ | addr) _ rfl
  · exact errorNull_owns rfl
  · exact transposeFill_owns addr forward.inverse forward.comm

theorem transposeDestroy_owns (t : Option Transpose) :
    Owns (transposeDestroy t) (held Transpose.owned t) fun _ m => m = 0 := by
  cases t with
  | none => exact .pure rfl
  | some t => exact .discard (release_owns _) fun _ => release_owns _

theorem transposeFftwPlan_owns (t : Transpose) (inp out : Ptr) (fftwFlags : Flags) :
    Owns (transposeFftwPlan (some t) inp out fftwFlags) 0
      fun o m => m = held FftwPlan.owned o :=
  .ite (fun _ => planGuru_owns _) fun _ => planManyTranspose_owns _ _ _ _

theorem gridCreate_owns (coords : Nat × Nat) (comm : Option Comm) (n0 n1 n2 pA pB : Int) :
    Owns (gridCreate env coords comm n0 n1 n2 pA pB) 0 fun o m => m = held Grid.owned o := by
  cases comm with
  | none => exact errorNull_owns rfl
  | some comm =>
    refine .ite (fun _ => errorNull_owns rfl) fun _ => ?_
    refine .ite (fun _ => errorNull_owns rfl) fun _ => ?_
    refine .ite (fun _ => errorNull_owns rfl) fun _ => ?_
    refine .ite (fun _ => errorNull_owns rfl) fun _ => ?_
    refine .ite (fun _ => errorNull_owns rfl) fun _ => ?_
    refine .bind malloc_owns 0 rfl ?_
    rintro (_ | addr) _ rfl
    · exact errorNull_owns rfl
    rw [held_some, add_zero]
    dsimp only
    cases env.dimsCreate comm.size (pA, pB) with
    | error reason => exact giveUp_owns (release_owns _) rfl rfl
    | ok dims =>
      refine .ite (fun _ => giveUp_owns (release_owns _) rfl rfl) fun _ => ?_
      refine .ite (fun _ => giveUp_owns (release_owns _) rfl rfl) fun _ => ?_
      refine .ite (fun _ => giveUp_owns (release_owns _) rfl rfl) fun _ => ?_
      refine .ite (fun _ => giveUp_owns (release_owns _) rfl rfl) fun _ => ?_
      refine .skip (call_owns _ _) fun _ => .bind (newComm_owns _ _ _) _ (zero_add _).symm ?_
      rintro gComm _ rfl
      refine .skip (call_owns _ _) fun _ => .bind (newComm_owns _ _ _) _ (zero_add _).symm ?_
      rintro pAComm _ rfl
      refine .skip (call_owns _ _) fun _ => .bind (newComm_owns _ _ _) _ (zero_add _).symm ?_
      rintro pBComm _ rfl
      refine .pure ?_
      simp only [held_some, Grid.owned]
      abel

theorem gridDestroy_owns (g : Option Grid) :
    Owns (gridDestroy g) (held Grid.owned g) fun _ m => m = 0 := by
  cases g with
  | none => exact .pure rfl
  | some g =>
    rw [held_some, Grid.owned, add_assoc, add_assoc]
    exact .discard (release_owns _) fun _ => .discard (release_owns _) fun _ =>
      .discard (release_owns _) fun _ => release_owns _

end Transposes

/-! ## Problems -/

section Problems

variable {env : Env}

theorem decompose_owns (d0 d1 howmany : Nat) (comm : Comm) :
    Owns (decompose env d0 d1 howmany comm) 0 fun _ m => m = 0 := by
  refine .skip (call_owns _ _) fun _ => .skip (assert_owns _) fun _ => ?_
  refine .skip (assert_owns _) fun _ => .skip (assert_owns _) fun _ => ?_
  exact .skip (assert_owns _) fun _ => .pure rfl

theorem problemRelease_owns (addr : Nat)
    (backwardA backwardB forwardB forwardA : Option Transpose) :
    Owns (problemRelease addr backwardA backwardB forwardB forwardA)
      (held Transpose.owned backwardA + held Transpose.owned backwardB +
        held Transpose.owned forwardB + held Transpose.owned forwardA + {.block addr})
      fun _ m => m = 0 := by
  rw [add_assoc, add_assoc, add_assoc]
  refine .discard (transposeDestroy_owns _) fun _ => .discard (transposeDestroy_owns _) fun _ => ?_
  refine .discard (transposeDestroy_owns _) fun _ => .discard (transposeDestroy_owns _) fun _ => ?_
  exact release_owns _

theorem problemDestroy_owns (p : Option Problem) :
    Owns (problemDestroy p) (held Problem.owned p) fun _ m => m = 0 := by
  cases p with
  | none => exact .pure rfl
  | some p => exact problemRelease_owns _ _ _ _ _

theorem problemCreate_owns (bcast : Comm → Nat × Nat → Nat × Nat) (grid : Option Grid)
    (howmany : Int) (flags : Flags) :
    Owns (problemCreate env bcast grid howmany flags) 0 fun o m => m = held Problem.owned o := by
  cases grid with
  | none => exact errorNull_owns rfl
  | some grid =>
    refine .ite (fun _ => errorNull_owns rfl) fun _ => ?_
    refine .ite (fun _ => errorNull_owns rfl) fun _ => ?_
    refine .bind malloc_owns 0 rfl ?_
    rintro (_ | addr) _ rfl
    · exact errorNull_owns rfl
    refine .skip (decompose_owns _ _ _ _) fun dB => .skip (decompose_owns _ _ _ _) fun dA => ?_
    refine .skip (call_owns _ _) fun _ => .skip (call_owns _ _) fun _ => ?_
    refine .bind (transposeCreate_owns _ _) _ (zero_add _).symm ?_
    rintro (_ | backwardA) _ rfl
    · refine giveUp_owns (problemRelease_owns addr none none none none) ?_ rfl
      simp only [held_none, held_some]
      abel
    refine .bind (transposeCreate_owns _ _) _ (zero_add _).symm ?_
    rintro (_ | backwardB) _ rfl
    · refine giveUp_owns (problemRelease_owns addr (some backwardA) none none none) ?_ rfl
      simp only [held_none, held_some]
      abel
    refine .bind (transposeCreateInverse_owns _) _ (zero_add _).symm ?_
    rintro (_ | forwardB) _ rfl
    · refine giveUp_owns
        (problemRelease_owns addr (some backwardA) (some backwardB) none none) ?_ rfl
      simp only [held_none, held_some]
      abel
    refine .bind (transposeCreateInverse_owns _) _ (zero_add _).symm ?_
    rintro (_ | forwardA) _ rfl
    · refine giveUp_owns
        (problemRelease_owns addr (some backwardA) (some backwardB) (some forwardB) none) ?_ rfl
      simp only [held_none, held_some]
      abel
    refine .pure ?_
    simp only [held_some, Problem.owned]
    abel

end Problems

/-! ## Plans -/

section Plans

variable {env : Env}

theorem destroyPlanOf_owns (p : Option FftwPlan) :
    Owns (destroyPlanOf p) (held FftwPlan.owned p) fun _ m => m = 0 := by
  cases p with
  | none => exact .pure rfl
  | some p => exact release_owns _

theorem planDestroy_owns (plan : Option Plan) :
    Owns (planDestroy plan) (held Plan.owned plan) fun _ m => m = 0 := by
  cases plan with
  | none => exact .pure rfl
  | some plan =>
    rw [held_some, Plan.owned, add_assoc, add_assoc, add_assoc]
    refine .discard (destroyPlanOf_owns _) fun _ => .discard (destroyPlanOf_owns _) fun _ => ?_
    refine .discard (destroyPlanOf_owns _) fun _ => .discard (destroyPlanOf_owns _) fun _ => ?_
    exact release_owns _

/-- A planner block adds one FFTW plan to the plan, or destroys it. -/
theorem plannerBlock_owns (transposeFlags : Flags) (move : Move) (t : Transpose) (inp out : Ptr)
    (fftwFlags : Flags) (field : String) {store : Plan → FftwPlan → Plan} {plan : Plan}
    (hstore : ∀ q, (store plan q).owned = q.owned + plan.owned) :
    Owns (plannerBlock env transposeFlags move.flag t inp out fftwFlags field store plan) plan.owned
      fun o m => m = held Plan.owned o ∧ ∀ plan', o = some plan' → ∃ q, plan' = store plan q := by
  rw [plannerBlock, if_pos (planner_guard transposeFlags move)]
  refine .bind (transposeFftwPlan_owns t inp out fftwFlags) _ (zero_add _).symm ?_
  rintro (_ | q) _ rfl
  · exact giveUp_owns (planDestroy_owns (some plan)) (zero_add _) ⟨rfl, fun _ hp => (by cases hp)⟩
  · exact .pure ⟨(hstore q).symm, by rintro _ ⟨⟩; exact ⟨q, rfl⟩⟩

/-- A planner block with what follows it, whichever FFTW plan it adds. -/
theorem plannerBlock_then (move : Move) {transposeFlags : Flags} {t : Transpose} {inp out : Ptr}
    {fftwFlags : Flags} {field : String} {store : Plan → FftwPlan → Plan} {plan : Plan}
    {k : Option Plan → C (Option Plan)} {P : Multiset Resource} (hP : P = plan.owned)
    (hstore : ∀ q, (store plan q).owned = q.owned + plan.owned) (hnone : k none = pure none)
    (hsome : ∀ q, Owns (k (some (store plan q))) (store plan q).owned
      fun o m => m = held Plan.owned o) :
    Owns (plannerBlock env transposeFlags move.flag t inp out fftwFlags field store plan >>= k) P
      fun o m => m = held Plan.owned o := by
  rw [hP]
  refine .bind (plannerBlock_owns _ move _ _ _ _ _ hstore) 0 (add_zero _).symm ?_
  rintro (_ | plan') _ ⟨rfl, hp⟩
  · rw [hnone]
    exact .pure rfl
  · obtain ⟨q, rfl⟩ := hp _ rfl
    rw [held_some, add_zero]
    exact hsome q

theorem planCreate_owns (problem : Option Problem) (inp out : Option Ptr)
    (transposeFlags rigorFlags : Flags) :
    Owns (planCreate env problem inp out transposeFlags rigorFlags) 0
      fun o m => m = held Plan.owned o := by
  cases problem with
  | none => exact errorNull_owns rfl
  | some problem =>
  cases inp with
  | none => exact errorNull_owns rfl
  | some inp =>
  cases out with
  | none => exact errorNull_owns rfl
  | some out =>
    refine .ite (fun _ => errorNull_owns rfl) fun _ => ?_
    refine .ite (fun _ => errorNull_owns rfl) fun _ => ?_
    refine .bind malloc_owns 0 rfl ?_
    rintro (_ | addr) _ rfl
    · exact errorNull_owns rfl
    -- no field is set twice, so each block adds what it was granted
    refine plannerBlock_then .n2n1 ?_ (fun q => ?_) rfl fun q1 => ?_
    · simp [Plan.owned]
    · simp [Plan.owned]
    refine plannerBlock_then .n1n0 rfl (fun q => ?_) rfl fun q2 => ?_
    · simp [Plan.owned]
      abel
    refine plannerBlock_then .n0n1 rfl (fun q => ?_) rfl fun q3 => ?_
    · simp [Plan.owned]
      abel
    refine plannerBlock_then .n1n2 rfl (fun q => ?_) rfl fun q4 => .pure rfl
    simp [Plan.owned]
    abel

end Plans

/-! ## FFT plans -/

section FftPlans

variable {env : Env} {inp out : Ptr} {flags : Flags}

theorem fftwPlanDestroy_owns (f : Option FftPlan) :
    Owns (fftwPlanDestroy f) (held FftPlan.owned f) fun _ m => m = 0 := by
  cases f with
  | none => exact .pure rfl
  | some f =>
    rw [held_some, FftPlan.owned, add_assoc, add_assoc]
    refine .discard (destroyPlanOf_owns _) fun _ => .discard (destroyPlanOf_owns _) fun _ => ?_
    exact .discard (destroyPlanOf_owns _) fun _ => release_owns _

theorem planFor_owns (f : FftPlan) (g : Guru) (reason : String) :
    Owns (planFor f g reason) f.owned fun o m => m = held (fun p => p.owned + f.owned) o := by
  refine .bind (planGuru_owns g) _ (zero_add _).symm ?_
  rintro (_ | p) _ rfl
  · exact giveUp_owns (fftwPlanDestroy_owns (some f)) (zero_add _) rfl
  · exact .pure rfl

theorem planFor_then {f : FftPlan} {g : Guru} {reason : String}
    {k : Option FftwPlan → C (Option FftPlan)} {Q : Option FftPlan → Multiset Resource → Prop}
    (hnone : k none = pure none) (hQ : Q none 0)
    (hsome : ∀ p, ∃ f', k (some p) = pure (some f') ∧ Q (some f') (p.owned + f.owned)) :
    Owns (planFor f g reason >>= k) f.owned Q := by
  refine .bind (planFor_owns f g reason) 0 (add_zero _).symm ?_
  rintro (_ | p) _ rfl
  · rw [hnone]
    exact .pure hQ
  · obtain ⟨f', hk, hf'⟩ := hsome p
    rw [hk, add_zero]
    exact .pure hf'

theorem reorderComplex_owns (inp out : Ptr) (input output : FftwExtents) (flags : Flags) :
    Owns (fftwPlanReorderComplex env inp out input output flags) 0
      fun o m => m = held FftwPlan.owned o := by
  refine .bind (planGuru_owns _) 0 rfl ?_
  rintro (_ | p) _ rfl
  · exact errorNull_owns rfl
  · exact .pure (add_zero _)

theorem c2cReorder_owns {f : FftPlan} (hpre : f.planPreorder = none)
    (hpost : f.planPostorder = none)
    (hlong : f.input.order 2 = f.long ∨ f.output.order 2 = f.long) :
    Owns (c2cReorder env f inp out flags) f.owned fun o m =>
      m = held (fun r => r.1.owned) o ∧ ∀ r, o = some r → r.1.planFftw = f.planFftw := by
  have hmade : ∀ {k : Option FftwPlan → C (Option (FftPlan × FftwExtents × FftwExtents))}
      {store : FftwPlan → FftPlan × FftwExtents × FftwExtents} {reason : String},
      k none = (do fftwPlanDestroy (some f)
                   errorNull reason .esanity) →
      (∀ p, k (some p) = pure (some (store p))) →
      (∀ p, (store p).1.owned = p.owned + f.owned ∧ (store p).1.planFftw = f.planFftw) →
      Owns
        (fftwPlanReorderComplex env inp out f.input f.output (flags ||| FFTW.DESTROY_INPUT) >>= k)
        f.owned fun o m =>
        m = held (fun r => r.1.owned) o ∧ ∀ r, o = some r → r.1.planFftw = f.planFftw := by
    intro k store reason hnone hsome hstore
    refine .bind (reorderComplex_owns _ _ _ _ _) _ (zero_add _).symm ?_
    rintro (_ | p) _ rfl
    · rw [hnone]
      exact giveUp_owns (fftwPlanDestroy_owns (some f)) (zero_add _)
        ⟨rfl, fun _ hr => (by cases hr)⟩
    · rw [hsome]
      exact .pure ⟨(hstore p).1.symm, by rintro _ ⟨⟩; exact (hstore p).2⟩
  refine .ite (fun _ => ?_) fun _ => .pure ⟨rfl, by rintro _ ⟨⟩; rfl⟩
  refine .ite (fun _ => hmade rfl (fun _ => rfl) fun p => ⟨?_, rfl⟩) fun hin => ?_
  · simp [FftPlan.owned, hpost]
    abel
  refine .ite (fun _ => hmade rfl (fun _ => rfl) fun p => ⟨?_, rfl⟩) fun hout => ?_
  · simp [FftPlan.owned, hpre]
    abel
  · exact (hlong.elim hin hout).elim

theorem c2cInternal_owns (longNi : Int) (inp out : Option Ptr) (fftwSign : Int) (rigorFlags : Flags)
    (input output : FftwExtents) :
    Owns (fftwPlanCreateC2cInternal env longNi inp out fftwSign rigorFlags input output) 0
      fun o m => m = held FftPlan.owned o := by
  rw [fftwPlanCreateC2cInternal]
  cases direction? longNi with
  | none => exact errorNull_owns rfl
  | some i =>
  cases inp with
  | none => exact errorNull_owns rfl
  | some inp =>
  cases out with
  | none => exact errorNull_owns rfl
  | some out =>
    refine .ite (fun _ => errorNull_owns rfl) fun _ => ?_
    refine .ite (fun _ => errorNull_owns rfl) fun _ => ?_
    refine .ite (fun _ => errorNull_owns rfl) fun hlong => .bind malloc_owns 0 rfl ?_
    rintro (_ | addr) _ rfl
    · exact errorNull_owns rfl
    have hlong' : input.order 2 = i.castAdd 2 ∨ output.order 2 = i.castAdd 2 := by
      simpa only [not_and_or, not_not] using hlong
    refine .bind (c2cReorder_owns rfl rfl hlong') 0 ?_ ?_
    · simp [FftPlan.owned]
    rintro (_ | ⟨f, tin, tout⟩) _ ⟨rfl, hfftw⟩
    · exact .pure rfl
    have hnone : f.planFftw = none := hfftw _ rfl
    rw [held_some, add_zero]
    refine .skip (assert_owns _) fun _ => .skip (assert_owns _) fun _ => ?_
    refine planFor_then rfl rfl fun p => ⟨_, rfl, ?_⟩
    simp [FftPlan.owned, hnone]
    abel

/-- What a stage leaves to the stages after it. -/
structure Staged (f : FftPlan) (rest : FftPlan → FftPlan → Prop) (o : Option FftPlan)
    (m : Multiset Resource) : Prop where
  owned : m = held FftPlan.owned o
  rest : ∀ f', o = some f' → rest f' f

theorem Staged.none {f : FftPlan} {rest : FftPlan → FftPlan → Prop} : Staged f rest none 0 :=
  ⟨rfl, fun _ h => by cases h⟩

theorem Staged.some {f f' : FftPlan} {rest : FftPlan → FftPlan → Prop} {m : Multiset Resource}
    (hm : m = f'.owned) (h : rest f' f) : Staged f rest (some f') m :=
  ⟨hm, by rintro _ ⟨⟩; exact h⟩

theorem c2rPreorder_owns {f : FftPlan} (hpre : f.planPreorder = none) :
    Owns (c2rPreorder env f inp out flags) f.owned
      (Staged f fun f' f => f'.planFftw = f.planFftw ∧ f'.planPostorder = f.planPostorder) := by
  refine .ite (fun _ => .skip (assert_owns _) fun _ => ?_) fun _ => .pure (.some rfl ⟨rfl, rfl⟩)
  refine planFor_then rfl .none fun p => ⟨_, rfl, .some ?_ ⟨rfl, rfl⟩⟩
  simp [FftPlan.owned, hpre]
  abel

theorem c2rFft_owns {f : FftPlan} (hfftw : f.planFftw = none) :
    Owns (c2rFft env f inp out flags) f.owned
      (Staged f fun f' f => f'.planPostorder = f.planPostorder) := by
  refine .skip (assert_owns _) fun _ => .skip (assert_owns _) fun _ => ?_
  refine planFor_then rfl .none fun p => ⟨_, rfl, .some ?_ rfl⟩
  simp [FftPlan.owned, hfftw]
  abel

theorem c2rPostorder_owns {f : FftPlan} (hpost : f.planPostorder = none) :
    Owns (c2rPostorder env f inp out flags) f.owned fun o m => m = held FftPlan.owned o := by
  refine .ite (fun _ => .skip (assert_owns _) fun _ => .skip (assert_owns _) fun _ => ?_)
    fun _ => .pure rfl
  refine planFor_then rfl rfl fun p => ⟨_, rfl, ?_⟩
  simp [FftPlan.owned, hpost]
  abel

theorem c2rInternal_owns (longNi : Int) (inp out : Option Ptr) (rigorFlags : Flags)
    (input output : FftwExtents) :
    Owns (fftwPlanCreateC2rBackwardInternal env longNi inp out rigorFlags input output) 0
      fun o m => m = held FftPlan.owned o := by
  rw [fftwPlanCreateC2rBackwardInternal]
  cases direction? longNi with
  | none => exact errorNull_owns rfl
  | some i =>
  cases inp with
  | none => exact errorNull_owns rfl
  | some inp =>
  cases out with
  | none => exact errorNull_owns rfl
  | some out =>
    refine .ite (fun _ => errorNull_owns rfl) fun _ => .bind malloc_owns 0 rfl ?_
    rintro (_ | addr) _ rfl
    · exact errorNull_owns rfl
    refine .bind (c2rPreorder_owns rfl) 0 ?_ ?_
    · simp [FftPlan.owned]
    rintro (_ | f1) _ ⟨rfl, hrest⟩
    · exact .pure rfl
    obtain ⟨hfftw, hpost⟩ := hrest f1 rfl
    refine .bind (c2rFft_owns hfftw) 0 rfl ?_
    rintro (_ | f2) _ ⟨rfl, hrest⟩
    · exact .pure rfl
    rw [held_some, add_zero]
    exact c2rPostorder_owns ((hrest f2 rfl).trans hpost)

theorem r2cFft_owns {f : FftPlan} (hfftw : f.planFftw = none) :
    Owns (r2cFft env f inp out flags) f.owned
      (Staged f fun f' f => f'.planPostorder = f.planPostorder) := by
  refine .skip (assert_owns _) fun _ => ?_
  refine planFor_then rfl .none fun p => ⟨_, rfl, .some ?_ rfl⟩
  simp [FftPlan.owned, hfftw]
  abel

theorem r2cPostorder_owns {f : FftPlan} (hpost : f.planPostorder = none) :
    Owns (r2cPostorder env f inp out flags) f.owned fun o m => m = held FftPlan.owned o := by
  refine .ite (fun _ => ?_) fun _ => .pure rfl
  refine planFor_then rfl rfl fun p => ⟨_, rfl, ?_⟩
  simp [FftPlan.owned, hpost]
  abel

theorem r2cInternal_owns (longNi : Int) (inp out : Option Ptr) (rigorFlags : Flags)
    (input output : FftwExtents) :
    Owns (fftwPlanCreateR2cForwardInternal env longNi inp out rigorFlags input output) 0
      fun o m => m = held FftPlan.owned o := by
  rw [fftwPlanCreateR2cForwardInternal]
  cases direction? longNi with
  | none => exact errorNull_owns rfl
  | some i =>
  cases inp with
  | none => exact errorNull_owns rfl
  | some inp =>
  cases out with
  | none => exact errorNull_owns rfl
  | some out =>
    refine .ite (fun _ => errorNull_owns rfl) fun _ => .bind malloc_owns 0 rfl ?_
    rintro (_ | addr) _ rfl
    · exact errorNull_owns rfl
    refine .bind (r2cFft_owns rfl) 0 ?_ ?_
    · simp [FftPlan.owned]
    rintro (_ | f) _ ⟨rfl, hrest⟩
    · exact .pure rfl
    rw [held_some, add_zero]
    exact r2cPostorder_owns (hrest f rfl)

theorem rotateToLong_owns (longNi : Int) (left : Nat) (order : Fin 4 → Fin 4) :
    Owns (rotateToLong longNi left order) 0 fun _ m => m = 0 := by
  induction left generalizing order with
  | zero =>
    rw [rotateToLong]
    exact .ite (fun _ => .pure rfl) fun _ => .of_fault fun _ => ⟨_, rfl⟩
  | succ left ih =>
    rw [rotateToLong]
    exact .ite (fun _ => .pure rfl) fun _ => .skip (ih _) fun _ => .pure rfl

theorem adjust_owns (e : Extents) (longNi : Int) :
    Owns (adjustForFastStrideInLongDirection e longNi) 0 fun _ m => m = 0 :=
  .skip (rotateToLong_owns _ _ _) fun _ =>
    .ite (fun _ => .skip (assert_owns _) fun _ => .pure rfl) fun _ => .pure rfl

theorem localExtents_owns (problem : Option Problem) (i : Int) :
    Owns (localExtents problem i) 0 fun _ m => m = 0 := by
  rw [localExtents]
  by_cases hi : i < 0 ∨ i > 2
  · rw [dif_pos hi]
    exact errorVal_owns rfl
  · rw [dif_neg hi]
    cases problem with
    | none => exact errorVal_owns rfl
    | some p => exact .pure rfl

theorem index_owns (n : Nat) (i : Int) : Owns (index n i) 0 fun _ m => m = 0 := by
  rw [index]
  split
  · exact .pure rfl
  · exact .of_fault fun _ => ⟨_, rfl⟩

theorem createForComplex_owns (e : Extents) (longNi : Int) :
    Owns (createFftwExtentsForComplex e longNi) 0 fun _ m => m = 0 := by
  refine .ite (fun _ => errorVal_owns rfl) fun _ => .ite (fun _ => errorVal_owns rfl) fun _ => ?_
  exact .skip (index_owns _ _) fun _ => .ite (fun _ => errorVal_owns rfl) fun _ => .pure rfl

theorem createForReal_owns (e : Extents) (longNi : Int) :
    Owns (createFftwExtentsForReal e longNi) 0 fun _ m => m = 0 := by
  refine .ite (fun _ => errorVal_owns rfl) fun _ => .ite (fun _ => errorVal_owns rfl) fun _ => ?_
  refine .skip (index_owns _ _) fun _ => .ite (fun _ => errorVal_owns rfl) fun _ => ?_
  refine .ite (fun _ => errorVal_owns rfl) fun _ => ?_
  exact .ite (fun _ => .pure rfl) fun _ => errorVal_owns rfl

theorem fftwSides_owns (c : Creator) (problem : Option Problem) (longNi : Int)
    (inp out : Option Ptr) (packedFlags : Flags) :
    Owns (fftwSides c.createSide problem longNi inp out packedFlags) 0 fun _ m => m = 0 := by
  have hside : ∀ e, Owns (c.createSide e longNi) 0 fun _ m => m = 0 := by
    intro e
    cases c with
    | c2cForward | c2cBackward => exact createForComplex_owns e longNi
    | c2rBackward | r2cForward => exact createForReal_owns e longNi
  refine .skip (localExtents_owns _ _) fun _ => .skip (createForComplex_owns _ _) fun _ => ?_
  refine .skip (adjust_owns _ _) fun _ => .skip (hside _) fun _ => ?_
  exact .ite (fun _ => .ite (fun _ => errorNull_owns rfl) fun _ => .pure rfl) fun _ => .pure rfl

theorem planner_owns (type : TransformType) (longNi : Int) (inp out : Option Ptr)
    (rigorFlags : Flags) (input output : FftwExtents) :
    Owns (planner env type longNi inp out rigorFlags input output) 0
      fun o m => m = held FftPlan.owned o := by
  cases type with
  | unspecified => exact errorNull_owns rfl
  | c2cForward | c2cBackward => exact c2cInternal_owns _ _ _ _ _ _ _
  | c2rBackward => exact c2rInternal_owns _ _ _ _ _ _
  | r2cForward => exact r2cInternal_owns _ _ _ _ _ _

theorem fftCreate_owns (c : Creator) (problem : Option Problem) (longNi : Int)
    (inp out : Option Ptr) (rigorFlags packedFlags : Flags) :
    Owns (c.create env problem longNi inp out rigorFlags packedFlags) 0
      fun o m => m = held FftPlan.owned o := by
  rw [c.create_eq]
  refine .skip (fftwSides_owns _ _ _ _ _ _) fun o => ?_
  cases o with
  | none => exact .pure rfl
  | some sides => exact .ite (fun _ => errorNull_owns rfl) fun _ => planner_owns _ _ _ _ _ _ _

end FftPlans

end Underling
