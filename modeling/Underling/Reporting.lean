import Underling.InvalidExtents
import Underling.Lib.Messages
import Underling.Sessions

/-!
# Underling.Reporting

The errors a process hears of. Nothing is assumed about the arguments of a call or about which
requests are refused.

* `gridCreate_honest`, `problemCreate_honest`, `planCreate_honest`, `fftCreate_honest`,
  `createInverse_honest`: a call that returns `NULL` has reported an error, and one that returns a
  handle has reported none.
* `Client.run_told`, `failures_reported`: in a program that uses the library every call that fails
  reports an error itself, no other call does, and these are all reports.
-/

namespace Underling

open Runs C Messages

/-- What a world shows of its log. -/
def World.shown {μ : Type} (v : Log → List μ) (w : World) : List μ := v w.log

abbrev World.reports : World → List Report := World.shown Log.reports

/-! ## Effects -/

section Effects

variable {α μ : Type} {v : Log → List μ}

theorem modify_silent {f : World → World} (h : ∀ w, v (f w).log = v w.log) :
    Silent (World.shown v) (modify f : C Unit) :=
  .of_view_eq fun w _ _ hrun =>
    (Ends.of_modify (Q := fun _ w' => w'.shown v = w.shown v) (h w)).of_run hrun

theorem assert_silent (p : Prop) [Decidable p] : Silent (World.shown v) (assert p) :=
  .ite (fun _ => .pure rfl) fun _ => .of_fault fun _ => ⟨_, rfl⟩

theorem request_silent (mk : Nat → Resource) : Silent (World.shown v) (request mk) := by
  refine .of_view_eq fun w o w' hrun => ?_
  have hends : Ends (request mk) w fun _ w' => v w'.log = v w.log := by
    refine .get_bind ?_
    by_cases hr : w.refuse w.requests = true
    · rw [if_pos hr]
      exact .bind (.of_set (Q := fun _ w' => v w'.log = v w.log) rfl) fun _ _ h => .pure h
    · rw [if_neg hr]
      exact .bind (.of_set (Q := fun _ w' => v w'.log = v w.log) rfl) fun _ _ h => .pure h
  exact hends.of_run hrun

theorem malloc_silent : Silent (World.shown v) malloc := request_silent .block

theorem release_silent (r : Resource) : Silent (World.shown v) (release r) := by
  refine modify_silent fun w => ?_
  by_cases h : r ∈ w.live
  · rw [if_pos h]
  · rw [if_neg h]

theorem newComm_silent (dir : Dir) (rank size : Nat) :
    Silent (World.shown v) (newComm dir rank size) := by
  refine .of_view_eq fun w c w' hrun => ?_
  have hends : Ends (newComm dir rank size) w fun _ w' => v w'.log = v w.log :=
    .get_bind (.bind (.of_set (Q := fun _ w' => v w'.log = v w.log) rfl) fun _ _ h => .pure h)
  exact hends.of_run hrun

theorem plan_silent (desc : PlanDesc) :
    Silent (World.shown v) (do
      let some id ← request .plan | return none
      return some ({ id := id, desc := desc } : FftwPlan)) := by
  refine .skip (request_silent _) fun o => ?_
  cases o with
  | none => exact .pure rfl
  | some id => exact .pure rfl

theorem errorVal_sends (reason : String) (status : Status) (value : α) :
    Sends World.reports (errorVal reason status value) fun a sent => a = value ∧ sent ≠ [] := by
  intro w a w' hrun
  cases hrun
  exact ⟨[⟨reason, status⟩], ⟨rfl, List.cons_ne_nil _ _⟩, rfl⟩

theorem errorNull_fails (reason : String) (status : Status) :
    Fails World.reports (errorNull reason status : C (Option α)) :=
  errorVal_sends reason status none

theorem giveUp_fails {x : C Unit} (hx : Silent World.reports x) (reason : String)
    (status : Status) :
    Fails World.reports (do x
                            errorNull reason status : C (Option α)) :=
  .skip hx fun _ => errorNull_fails reason status

theorem call_silent (dir : Dir) (c : Call) : Silent World.reports (call dir c) :=
  modify_silent fun _ => rfl

theorem commDupWithName_silent (comm : Comm) : Silent World.reports (commDupWithName comm) :=
  .skip (call_silent _ _) fun _ => newComm_silent _ _ _

theorem planGuru_silent (g : Guru) : Silent World.reports (planGuru g) :=
  .skip (modify_silent fun _ => rfl) fun _ => plan_silent _

theorem planManyTranspose_silent (t : TransposeArgs) (comm : Comm) (inp out : Ptr) :
    Silent World.reports (planManyTranspose t comm inp out) :=
  .skip (call_silent _ _) fun _ => plan_silent _

end Effects

/-! ## Grids -/

section Grids

variable {μ : Type} {v : Log → List μ} {env : Env}

theorem gridCreate_honest (coords : Nat × Nat) (comm : Option Comm) (n0 n1 n2 pA pB : Int) :
    Honest World.reports (gridCreate env coords comm n0 n1 n2 pA pB) := by
  cases comm with
  | none => exact .of_fails (errorNull_fails _ _)
  | some comm =>
    refine .ite (fun _ => .of_fails (errorNull_fails _ _)) fun _ => ?_
    refine .ite (fun _ => .of_fails (errorNull_fails _ _)) fun _ => ?_
    refine .ite (fun _ => .of_fails (errorNull_fails _ _)) fun _ => ?_
    refine .ite (fun _ => .of_fails (errorNull_fails _ _)) fun _ => ?_
    refine .ite (fun _ => .of_fails (errorNull_fails _ _)) fun _ => ?_
    refine .bind_silent malloc_silent (errorNull_fails _ _) fun addr => ?_
    have hfree : ∀ reason status, Honest World.reports
        (do free addr
            errorNull reason status : C (Option Grid)) := fun reason status =>
      .of_fails (giveUp_fails (release_silent _) reason status)
    dsimp only
    cases env.dimsCreate comm.size (pA, pB) with
    | error reason => exact hfree _ _
    | ok dims =>
      refine .ite (fun _ => hfree _ _) fun _ => .ite (fun _ => hfree _ _) fun _ => ?_
      refine .ite (fun _ => hfree _ _) fun _ => .ite (fun _ => hfree _ _) fun _ => ?_
      refine .skip (call_silent _ _) fun _ => .skip (newComm_silent _ _ _) fun gComm => ?_
      refine .skip (call_silent _ _) fun _ => .skip (newComm_silent _ _ _) fun pAComm => ?_
      exact .skip (call_silent _ _) fun _ => .skip (newComm_silent _ _ _) fun pBComm => .made

theorem gridDestroy_silent (g : Option Grid) : Silent (World.shown v) (gridDestroy g) := by
  cases g with
  | none => exact .pure rfl
  | some g =>
    exact .skip (release_silent _) fun _ => .skip (release_silent _) fun _ =>
      .skip (release_silent _) fun _ => release_silent _

end Grids

/-! ## Problems -/

section Problems

variable {μ : Type} {v : Log → List μ} {env : Env}

theorem localDetails_silent (t : TransposeArgs) (comm : Comm) :
    Silent World.reports (localDetails env t comm) :=
  .ite (fun _ => .pure rfl) fun _ => .skip (call_silent _ _) fun _ => .pure rfl

theorem transposeFill_honest (addr : Nat) (t : TransposeArgs) (comm : Comm) :
    Honest World.reports (do
        let comm ← commDupWithName comm
        let details ← localDetails env t comm
        return some ({ t with addr := addr, comm := comm, details := details } : Transpose)) :=
  .skip (commDupWithName_silent comm) fun c => .skip (localDetails_silent t c) fun _ => .made

theorem transposeCreate_honest (t : TransposeArgs) (comm : Comm) :
    Honest World.reports (transposeCreate env t comm) :=
  .bind_silent malloc_silent (errorNull_fails _ _) fun addr => transposeFill_honest addr t comm

theorem transposeCreateInverse_honest (forward : Transpose) :
    Honest World.reports (transposeCreateInverse env (some forward)) :=
  .ite (fun _ => .of_fails (errorNull_fails _ _)) fun _ =>
    .bind_silent malloc_silent (errorNull_fails _ _) fun addr =>
      transposeFill_honest addr forward.inverse forward.comm

theorem transposeDestroy_silent (t : Option Transpose) :
    Silent (World.shown v) (transposeDestroy t) := by
  cases t with
  | none => exact .pure rfl
  | some t => exact .skip (release_silent _) fun _ => release_silent _

theorem decompose_silent (d0 d1 howmany : Nat) (comm : Comm) :
    Silent World.reports (decompose env d0 d1 howmany comm) := by
  refine .skip (call_silent _ _) fun _ => .skip (assert_silent _) fun _ => ?_
  refine .skip (assert_silent _) fun _ => .skip (assert_silent _) fun _ => ?_
  exact .skip (assert_silent _) fun _ => .pure rfl

theorem problemRelease_silent (addr : Nat)
    (backwardA backwardB forwardB forwardA : Option Transpose) :
    Silent (World.shown v) (problemRelease addr backwardA backwardB forwardB forwardA) := by
  refine .skip (transposeDestroy_silent _) fun _ => .skip (transposeDestroy_silent _) fun _ => ?_
  refine .skip (transposeDestroy_silent _) fun _ => .skip (transposeDestroy_silent _) fun _ => ?_
  exact release_silent _

theorem problemDestroy_silent (p : Option Problem) : Silent (World.shown v) (problemDestroy p) := by
  cases p with
  | none => exact .pure rfl
  | some p => exact problemRelease_silent _ _ _ _ _

/-- A transpose that cannot be made is reported where it is created, and once more here. -/
theorem problemCreate_honest (bcast : Comm → Nat × Nat → Nat × Nat) (grid : Option Grid)
    (howmany : Int) (flags : Flags) :
    Honest World.reports (problemCreate env bcast grid howmany flags) := by
  cases grid with
  | none => exact .of_fails (errorNull_fails _ _)
  | some grid =>
    refine .ite (fun _ => .of_fails (errorNull_fails _ _)) fun _ => ?_
    refine .ite (fun _ => .of_fails (errorNull_fails _ _)) fun _ => ?_
    refine .bind_silent malloc_silent (errorNull_fails _ _) fun addr => ?_
    refine .skip (decompose_silent _ _ _ _) fun dB => .skip (decompose_silent _ _ _ _) fun dA => ?_
    refine .skip (call_silent _ _) fun _ => .skip (call_silent _ _) fun _ => ?_
    have hnone : ∀ a b c d reason, Sends World.reports
        (do problemRelease addr a b c d
            errorNull reason .efailed : C (Option Problem)) fun o _ => o = none :=
      fun a b c d reason =>
        (giveUp_fails (problemRelease_silent addr a b c d) reason _).mono fun _ _ h => h.1
    refine .bind_honest (transposeCreate_honest _ _) (hnone _ _ _ _ _) fun backwardA => ?_
    refine .bind_honest (transposeCreate_honest _ _) (hnone _ _ _ _ _) fun backwardB => ?_
    refine .bind_honest (transposeCreateInverse_honest _) (hnone _ _ _ _ _) fun forwardB => ?_
    exact .bind_honest (transposeCreateInverse_honest _) (hnone _ _ _ _ _) fun _ => .made

end Problems

/-! ## Plans -/

section Plans

variable {μ : Type} {v : Log → List μ} {env : Env}

theorem transposeFftwPlan_silent (t : Transpose) (inp out : Ptr) (fftwFlags : Flags) :
    Silent World.reports (transposeFftwPlan (some t) inp out fftwFlags) :=
  .ite (fun _ => planGuru_silent _) fun _ => planManyTranspose_silent _ _ _ _

theorem destroyPlanOf_silent (p : Option FftwPlan) : Silent (World.shown v) (destroyPlanOf p) := by
  cases p with
  | none => exact .pure rfl
  | some p => exact release_silent _

theorem planDestroy_silent (plan : Option Plan) : Silent (World.shown v) (planDestroy plan) := by
  cases plan with
  | none => exact .pure rfl
  | some plan =>
    refine .skip (destroyPlanOf_silent _) fun _ => .skip (destroyPlanOf_silent _) fun _ => ?_
    refine .skip (destroyPlanOf_silent _) fun _ => .skip (destroyPlanOf_silent _) fun _ => ?_
    exact release_silent _

theorem plannerBlock_honest (transposeFlags : Flags) (move : Move) (t : Transpose) (inp out : Ptr)
    (fftwFlags : Flags) (field : String) (store : Plan → FftwPlan → Plan) (plan : Plan) :
    Honest World.reports
      (plannerBlock env transposeFlags move.flag t inp out fftwFlags field store plan) := by
  rw [plannerBlock, if_pos (planner_guard transposeFlags move)]
  exact .bind_silent (transposeFftwPlan_silent t inp out fftwFlags)
    (giveUp_fails (planDestroy_silent _) _ _) fun _ => .made

theorem planCreate_honest (problem : Option Problem) (inp out : Option Ptr)
    (transposeFlags rigorFlags : Flags) :
    Honest World.reports (planCreate env problem inp out transposeFlags rigorFlags) := by
  cases problem with
  | none => exact .of_fails (errorNull_fails _ _)
  | some problem =>
  cases inp with
  | none => exact .of_fails (errorNull_fails _ _)
  | some inp =>
  cases out with
  | none => exact .of_fails (errorNull_fails _ _)
  | some out =>
    refine .ite (fun _ => .of_fails (errorNull_fails _ _)) fun _ => ?_
    refine .ite (fun _ => .of_fails (errorNull_fails _ _)) fun _ => ?_
    refine .bind_silent malloc_silent (errorNull_fails _ _) fun addr => ?_
    refine .bind_honest (plannerBlock_honest _ .n2n1 _ _ _ _ _ _ _) (.pure rfl) fun p1 => ?_
    refine .bind_honest (plannerBlock_honest _ .n1n0 _ _ _ _ _ _ _) (.pure rfl) fun p2 => ?_
    refine .bind_honest (plannerBlock_honest _ .n0n1 _ _ _ _ _ _ _) (.pure rfl) fun p3 => ?_
    exact .bind_honest (plannerBlock_honest _ .n1n2 _ _ _ _ _ _ _) (.pure rfl) fun _ => .made

end Plans

/-! ## FFT plans -/

section FftPlans

variable {env : Env} {inp out : Ptr} {flags : Flags}

theorem fftwPlanDestroy_silent (f : Option FftPlan) :
    Silent World.reports (fftwPlanDestroy f) := by
  cases f with
  | none => exact .pure rfl
  | some f =>
    refine .skip (destroyPlanOf_silent _) fun _ => .skip (destroyPlanOf_silent _) fun _ => ?_
    exact .skip (destroyPlanOf_silent _) fun _ => release_silent _

theorem planFor_honest (f : FftPlan) (g : Guru) (reason : String) :
    Honest World.reports (planFor f g reason) :=
  .bind_silent (planGuru_silent g) (giveUp_fails (fftwPlanDestroy_silent _) reason _)
    fun _ => .made

theorem reorderComplex_honest (inp out : Ptr) (input output : FftwExtents) (flags : Flags) :
    Honest World.reports (fftwPlanReorderComplex env inp out input output flags) :=
  .bind_silent (planGuru_silent _) (errorNull_fails _ _) fun _ => .made

theorem c2cReorder_honest (f : FftPlan) :
    Honest World.reports (c2cReorder env f inp out flags) := by
  have hnone : ∀ reason, Sends World.reports
      (do fftwPlanDestroy (some f)
          errorNull reason .esanity : C (Option (FftPlan × FftwExtents × FftwExtents)))
      fun o _ => o = none :=
    fun reason => (giveUp_fails (fftwPlanDestroy_silent _) reason _).mono fun _ _ h => h.1
  refine .ite (fun _ => .ite (fun _ => ?_) fun _ => .ite (fun _ => ?_) fun _ => ?_) fun _ => .made
  · exact .bind_honest (reorderComplex_honest _ _ _ _ _) (hnone _) fun _ => .made
  · exact .bind_honest (reorderComplex_honest _ _ _ _ _) (hnone _) fun _ => .made
  · exact .of_fails (errorNull_fails _ _)

theorem c2cInternal_honest (longNi : Int) (inp out : Option Ptr) (fftwSign : Int)
    (rigorFlags : Flags) (input output : FftwExtents) :
    Honest World.reports
      (fftwPlanCreateC2cInternal env longNi inp out fftwSign rigorFlags input output) := by
  rw [fftwPlanCreateC2cInternal]
  cases direction? longNi with
  | none => exact .of_fails (errorNull_fails _ _)
  | some i =>
  cases inp with
  | none => exact .of_fails (errorNull_fails _ _)
  | some inp =>
  cases out with
  | none => exact .of_fails (errorNull_fails _ _)
  | some out =>
    refine .ite (fun _ => .of_fails (errorNull_fails _ _)) fun _ => ?_
    refine .ite (fun _ => .of_fails (errorNull_fails _ _)) fun _ => ?_
    refine .ite (fun _ => .of_fails (errorNull_fails _ _)) fun _ => ?_
    refine .bind_silent malloc_silent (errorNull_fails _ _) fun addr => ?_
    refine .bind_honest (c2cReorder_honest _) (.pure rfl) fun r => ?_
    refine .skip (assert_silent _) fun _ => .skip (assert_silent _) fun _ => ?_
    exact .bind_honest (planFor_honest _ _ _) (.pure rfl) fun _ => .made

theorem c2rPreorder_honest (f : FftPlan) :
    Honest World.reports (c2rPreorder env f inp out flags) :=
  .ite (fun _ => .skip (assert_silent _) fun _ =>
    .bind_honest (planFor_honest _ _ _) (.pure rfl) fun _ => .made) fun _ => .made

theorem c2rFft_honest (f : FftPlan) : Honest World.reports (c2rFft env f inp out flags) :=
  .skip (assert_silent _) fun _ => .skip (assert_silent _) fun _ =>
    .bind_honest (planFor_honest _ _ _) (.pure rfl) fun _ => .made

theorem c2rPostorder_honest (f : FftPlan) :
    Honest World.reports (c2rPostorder env f inp out flags) :=
  .ite (fun _ => .skip (assert_silent _) fun _ => .skip (assert_silent _) fun _ =>
    .bind_honest (planFor_honest _ _ _) (.pure rfl) fun _ => .made) fun _ => .made

theorem c2rInternal_honest (longNi : Int) (inp out : Option Ptr) (rigorFlags : Flags)
    (input output : FftwExtents) :
    Honest World.reports
      (fftwPlanCreateC2rBackwardInternal env longNi inp out rigorFlags input output) := by
  rw [fftwPlanCreateC2rBackwardInternal]
  cases direction? longNi with
  | none => exact .of_fails (errorNull_fails _ _)
  | some i =>
  cases inp with
  | none => exact .of_fails (errorNull_fails _ _)
  | some inp =>
  cases out with
  | none => exact .of_fails (errorNull_fails _ _)
  | some out =>
    refine .ite (fun _ => .of_fails (errorNull_fails _ _)) fun _ => ?_
    refine .bind_silent malloc_silent (errorNull_fails _ _) fun addr => ?_
    refine .bind_honest (c2rPreorder_honest _) (.pure rfl) fun f1 => ?_
    exact .bind_honest (c2rFft_honest _) (.pure rfl) fun f2 => c2rPostorder_honest _

theorem r2cFft_honest (f : FftPlan) : Honest World.reports (r2cFft env f inp out flags) :=
  .skip (assert_silent _) fun _ =>
    .bind_honest (planFor_honest _ _ _) (.pure rfl) fun _ => .made

theorem r2cPostorder_honest (f : FftPlan) :
    Honest World.reports (r2cPostorder env f inp out flags) :=
  .ite (fun _ => .bind_honest (planFor_honest _ _ _) (.pure rfl) fun _ => .made) fun _ => .made

theorem r2cInternal_honest (longNi : Int) (inp out : Option Ptr) (rigorFlags : Flags)
    (input output : FftwExtents) :
    Honest World.reports
      (fftwPlanCreateR2cForwardInternal env longNi inp out rigorFlags input output) := by
  rw [fftwPlanCreateR2cForwardInternal]
  cases direction? longNi with
  | none => exact .of_fails (errorNull_fails _ _)
  | some i =>
  cases inp with
  | none => exact .of_fails (errorNull_fails _ _)
  | some inp =>
  cases out with
  | none => exact .of_fails (errorNull_fails _ _)
  | some out =>
    refine .ite (fun _ => .of_fails (errorNull_fails _ _)) fun _ => ?_
    refine .bind_silent malloc_silent (errorNull_fails _ _) fun addr => ?_
    exact .bind_honest (r2cFft_honest _) (.pure rfl) fun f => r2cPostorder_honest _

theorem planner_honest (type : TransformType) (longNi : Int) (inp out : Option Ptr)
    (rigorFlags : Flags) (input output : FftwExtents) :
    Honest World.reports (planner env type longNi inp out rigorFlags input output) := by
  cases type with
  | unspecified => exact .of_fails (errorNull_fails _ _)
  | c2cForward | c2cBackward => exact c2cInternal_honest _ _ _ _ _ _ _
  | c2rBackward => exact c2rInternal_honest _ _ _ _ _ _
  | r2cForward => exact r2cInternal_honest _ _ _ _ _ _

end FftPlans

/-! ## The creators of FFT plans -/

section Creators

variable {env : Env}

/-- Extents that FFT extents of either kind are made of. -/
structure Extents.Fit (e : Extents) (longNi : Int) : Prop where
  even : e.size 3 % 2 = 0
  order_zero : e.order 0 = 3
  start_long : ∀ k : Fin 4, ((k : Nat) : Int) = longNi → e.start k = 0

/-- Invalid extents come with a report. -/
def Extents.Refused (e : Extents) (longNi : Int) (r : FftwExtents) (sent : List Report) : Prop :=
  (e.Fit longNi → sent = []) ∧ (¬ e.Fit longNi → r = .invalid ∧ sent ≠ [])

theorem Extents.not_fit_invalid (longNi : Int) : ¬ Extents.invalid.Fit longNi :=
  fun h => absurd h.order_zero (by decide)

theorem index_sends (n : Nat) (i : Int) :
    Sends World.reports (index n i) fun k sent => sent = [] ∧ ((k : Nat) : Int) = i := by
  rw [index]
  split
  · next h => exact .pure ⟨rfl, Int.toNat_of_nonneg h.1⟩
  · exact .of_fault fun _ => ⟨_, rfl⟩

theorem refused_sends {e : Extents} {longNi : Int} (h : ¬ e.Fit longNi) (reason : String)
    (status : Status) :
    Sends World.reports (errorVal reason status FftwExtents.invalid) (e.Refused longNi) :=
  (errorVal_sends reason status _).mono fun _ _ hr => ⟨fun hfit => absurd hfit h, fun _ => hr⟩

theorem Extents.fit_of {e : Extents} {k : Fin 4} (heven : ¬ e.size 3 % 2 ≠ 0)
    (horder : ¬ e.order 0 ≠ 3) (hstart : ¬ e.start k ≠ 0) : e.Fit (k : Nat) := by
  refine ⟨not_not.mp heven, not_not.mp horder, fun k' hk => ?_⟩
  rw [Fin.ext (Int.natCast_inj.mp hk)]
  exact not_not.mp hstart

theorem createForComplex_sends (e : Extents) (longNi : Int) :
    Sends World.reports (createFftwExtentsForComplex e longNi) (e.Refused longNi) := by
  refine .ite (fun hodd => refused_sends (fun h => hodd h.even) _ _) fun heven => ?_
  refine .ite (fun horder => refused_sends (fun h => horder h.order_zero) _ _) fun horder => ?_
  refine .bind (index_sends 4 longNi) ?_
  rintro k _ ⟨rfl, rfl⟩
  refine .ite (fun hs => refused_sends (fun h => hs (h.start_long k rfl)) _ _) fun hs => ?_
  exact .pure ⟨fun _ => rfl, fun hfit => absurd (Extents.fit_of heven horder hs) hfit⟩

theorem createForReal_sends {e : Extents} {longNi : Int} (hlong : (e.order 1 : Nat) = longNi) :
    Sends World.reports (createFftwExtentsForReal e longNi) (e.Refused longNi) := by
  refine .ite (fun hodd => refused_sends (fun h => hodd h.even) _ _) fun heven => ?_
  refine .ite (fun horder => refused_sends (fun h => horder h.order_zero) _ _) fun horder => ?_
  refine .bind (index_sends 4 longNi) ?_
  rintro k _ ⟨rfl, rfl⟩
  refine .ite (fun hs => refused_sends (fun h => hs (h.start_long k rfl)) _ _) fun hs => ?_
  -- the start is zero by now, so its parity is never the reason
  refine .ite (fun hpad => absurd (by rw [not_not.mp hs]) hpad) fun _ => ?_
  refine .ite (fun _ => ?_) fun hn => absurd hlong hn
  exact .pure ⟨fun _ => rfl, fun hfit => absurd (Extents.fit_of heven horder hs) hfit⟩

theorem rotateToLong_sends (longNi : Int) (left : Nat) (order : Fin 4 → Fin 4) :
    Sends World.reports (rotateToLong longNi left order) fun r sent => sent = [] ∧
      (r.1 1 : Nat) = longNi ∧ r.1 0 = order 0 ∧ (r.2 = 0 → r.1 = order) := by
  induction left generalizing order with
  | zero =>
    rw [rotateToLong]
    exact .ite (fun h => .pure ⟨rfl, h, rfl, fun _ => rfl⟩) fun _ => .of_fault fun _ => ⟨_, rfl⟩
  | succ left ih =>
    rw [rotateToLong]
    refine .ite (fun h => .pure ⟨rfl, h, rfl, fun _ => rfl⟩) fun _ => .bind (ih _) ?_
    rintro ⟨order', n⟩ _ ⟨rfl, hlong, hzero, -⟩
    exact .pure ⟨rfl, hlong, hzero, fun h => absurd h n.succ_ne_zero⟩

theorem adjust_sends (e : Extents) (longNi : Int) :
    Sends World.reports (adjustForFastStrideInLongDirection e longNi) fun r sent => sent = [] ∧
      (r.1.order 1 : Nat) = longNi ∧ (r.1.Fit longNi ↔ e.Fit longNi) := by
  refine .bind (rotateToLong_sends longNi 2 e.order) ?_
  rintro ⟨order, n⟩ _ ⟨rfl, hlong, hzero, hsame⟩
  refine .ite (fun _ => .skip (assert_silent _) fun _ => .pure ⟨rfl, hlong, ?_⟩) fun hn => ?_
  · exact ⟨fun h => ⟨h.even, hzero.symm.trans h.order_zero, h.start_long⟩,
      fun h => ⟨h.even, hzero.trans h.order_zero, h.start_long⟩⟩
  · rw [hsame (not_not.mp hn)] at hlong
    exact .pure ⟨rfl, hlong, Iff.rfl⟩

theorem localExtents_sends (problem : Option Problem) (longNi : Int) :
    Sends World.reports (localExtents problem longNi) fun e sent =>
      sent = [] ∨ e = .invalid := by
  rw [localExtents]
  by_cases hi : longNi < 0 ∨ longNi > 2
  · rw [dif_pos hi]
    exact (errorVal_sends _ _ _).mono fun _ _ h => .inr h.1
  · rw [dif_neg hi]
    cases problem with
    | none => exact (errorVal_sends _ _ _).mono fun _ _ h => .inr h.1
    | some p => exact .pure (.inl rfl)

theorem createSide_sends (c : Creator) {e : Extents} {longNi : Int}
    (hlong : (e.order 1 : Nat) = longNi) :
    Sends World.reports (c.createSide e longNi) (e.Refused longNi) := by
  cases c with
  | c2cForward | c2cBackward => exact createForComplex_sends e longNi
  | c2rBackward | r2cForward => exact createForReal_sends hlong

/-- What a creator hands to its planner: after a report only invalid extents, if any. -/
theorem fftwSides_sends (c : Creator) (problem : Option Problem) (longNi : Int)
    (inp out : Option Ptr) (packedFlags : Flags) :
    Sends World.reports (fftwSides c.createSide problem longNi inp out packedFlags) fun o sent =>
      (o = none → sent ≠ []) ∧
        ∀ sides, o = some sides → sent = [] ∨ sides.1.Void ∧ sides.2.Void := by
  refine .bind (localExtents_sends problem longNi) fun e sent hlocal => ?_
  refine .bind (createForComplex_sends e longNi) fun stored sent1 hstored => ?_
  refine .bind (adjust_sends e longNi) ?_
  rintro ⟨e', n⟩ _ ⟨rfl, hlong, hfit'⟩
  refine .bind (createSide_sends c hlong) fun adjusted sent2 hadjusted => ?_
  by_cases hfit : e.Fit longNi
  · have hsent : sent = [] := hlocal.resolve_right fun h =>
      Extents.not_fit_invalid longNi (h ▸ hfit)
    obtain rfl := hstored.1 hfit
    obtain rfl := hadjusted.1 (hfit'.mpr hfit)
    subst hsent
    refine .ite (fun _ => .ite (fun _ => ?_) fun _ => ?_) fun _ => ?_
    · exact (errorNull_fails _ _).mono fun o _ h => ⟨fun _ => h.2, fun _ ho => by simp [h.1] at ho⟩
    · exact .pure ⟨by simp, fun _ _ => .inl rfl⟩
    · exact .pure ⟨by simp, fun _ _ => .inl rfl⟩
  · obtain ⟨rfl, hsent1⟩ := hstored.2 hfit
    obtain ⟨rfl, -⟩ := hadjusted.2 (mt hfit'.mp hfit)
    refine .ite (fun _ => .ite (fun _ => ?_) fun _ => ?_) fun _ => ?_
    · exact (errorNull_fails _ _).mono fun o _ h =>
        ⟨fun _ => by simp [hsent1], fun _ ho => by simp [h.1] at ho⟩
    · exact .pure ⟨by simp, by rintro _ ⟨⟩; exact .inr ⟨void_invalid, void_invalid.pack⟩⟩
    · exact .pure ⟨by simp, by rintro _ ⟨⟩; exact .inr ⟨void_invalid, void_invalid⟩⟩

/-- A planner makes nothing of invalid extents. -/
theorem planner_void_none {input output : FftwExtents} (hin : input.Void) (hout : output.Void)
    (c : Creator) (longNi : Int) (inp out : Option Ptr) (rigorFlags : Flags) (w w' : World)
    (f : FftPlan) :
    planner env c.type longNi inp out rigorFlags input output w ≠ .ok (some f, w') := by
  by_cases hi : longNi < 0 ∨ longNi > 2
  · have hdir : direction? longNi = none := dif_pos hi
    intro hrun
    cases c <;>
      simp only [Creator.type, planner, fftwPlanCreateC2cInternal,
        fftwPlanCreateC2rBackwardInternal, fftwPlanCreateR2cForwardInternal, hdir] at hrun <;>
      cases hrun
  obtain ⟨i, rfl⟩ : ∃ i : Fin 3, longNi = (i : Nat) := ⟨⟨longNi.toNat, by omega⟩, by simp; omega⟩
  by_cases hbad : inp = none ∨ out = none ∨ rigorFlags.has nonRigorMask = true
  · exact (rejects_of_asked (planner_refused env hbad c.type input output w)).not_made f w'
  obtain ⟨hinp, hout', hr⟩ := not_or.mp hbad |>.imp_right not_or.mp
  obtain ⟨inp, rfl⟩ := Option.ne_none_iff_exists'.mp hinp
  obtain ⟨out, rfl⟩ := Option.ne_none_iff_exists'.mp hout'
  obtain ⟨hstalls, hrejects⟩ :=
    planner_void (i := i) env hin hout inp out (Bool.eq_false_iff.mpr hr) c w
  by_cases h : i = 0 ∨ c.real = true
  · exact (hstalls h).not_made f w'
  · obtain ⟨hi', hreal⟩ := not_or.mp h
    exact (hrejects ⟨hi', Bool.eq_false_iff.mpr hreal⟩).not_made f w'

theorem planSides_honest (c : Creator) (longNi : Int) (inp out : Option Ptr) (rigorFlags : Flags)
    (sides : FftwExtents × FftwExtents) :
    Honest World.reports (c.planSides env longNi inp out rigorFlags (some sides)) :=
  .ite (fun _ => .of_fails (errorNull_fails _ _)) fun _ => planner_honest _ _ _ _ _ _ _

theorem planSides_void {sides : FftwExtents × FftwExtents} (h : sides.1.Void ∧ sides.2.Void)
    (c : Creator) (longNi : Int) (inp out : Option Ptr) (rigorFlags : Flags) :
    Sends World.reports (c.planSides env longNi inp out rigorFlags (some sides))
      fun o _ => o = none := by
  have hordered : (c.ordered sides).1.Void ∧ (c.ordered sides).2.Void := by
    cases c with
    | r2cForward => exact h.symm
    | _ => exact h
  refine .ite (fun _ => (errorNull_fails _ _).mono fun _ _ h => h.1) fun _ => ?_
  intro w o w' hrun
  obtain ⟨sent, -, hview⟩ := planner_honest _ _ _ _ _ _ _ hrun
  cases o with
  | none => exact ⟨sent, rfl, hview⟩
  | some f =>
    exact absurd hrun (planner_void_none hordered.1 hordered.2 c longNi inp out rigorFlags w w' f)

theorem fftCreate_honest (c : Creator) (problem : Option Problem) (longNi : Int)
    (inp out : Option Ptr) (rigorFlags packedFlags : Flags) :
    Honest World.reports (c.create env problem longNi inp out rigorFlags packedFlags) := by
  rw [c.create_eq]
  refine .bind (fftwSides_sends c problem longNi inp out packedFlags) ?_
  rintro (_ | sides) sent ⟨hnone, hsome⟩
  · exact .pure (iff_of_true rfl (by simpa using hnone rfl))
  rcases hsome sides rfl with rfl | hvoid
  · exact planSides_honest c longNi inp out rigorFlags sides
  · by_cases hsent : sent = []
    · subst hsent
      exact planSides_honest c longNi inp out rigorFlags sides
    · refine (planSides_void hvoid c longNi inp out rigorFlags).mono fun o sent' ho => ?_
      exact iff_of_true ho fun h => hsent (List.append_eq_nil_iff.mp h).1

/-! ## Inverse plans -/

theorem inverseChecked_honest (p q : FftPlan) :
    Honest World.reports (inverseChecked p (some q)) := by
  have hfails : ∀ reason, Honest World.reports
      (do report reason .esanity
          fftwPlanDestroy (some q)
          return none : C (Option FftPlan)) := by
    intro reason
    refine .of_fails (.bind (errorVal_sends reason .esanity ()) fun _ sent h => ?_)
    refine .skip (fftwPlanDestroy_silent _) fun _ => .pure ⟨rfl, ?_⟩
    rw [List.append_nil]
    exact h.2
  exact .ite (fun _ => hfails _) fun _ => .ite (fun _ => hfails _) fun _ => .made

theorem createInverse_honest (planToInvert : Option FftPlan) (inp out : Option Ptr)
    (rigorFlags : Flags) :
    Honest World.reports (fftwPlanCreateInverse env planToInvert inp out rigorFlags) := by
  cases planToInvert with
  | none => exact .of_fails (errorNull_fails _ _)
  | some p =>
    by_cases htype : p.type = .unspecified
    · rw [fftwPlanCreateInverse]
      dsimp only
      rw [htype]
      exact .of_fails (errorNull_fails _ _)
    · rw [fftwPlanCreateInverse_eq htype]
      exact .bind_honest (planner_honest _ _ _ _ _ _ _) (.of_fault fun _ => ⟨_, rfl⟩)
        fun q => inverseChecked_honest p q

end Creators

/-! ## Programs that use the library -/

section Clients

variable {env : Env}

theorem create_honest (c : Creation) : Honest World.reports (c.run env) := by
  cases c with
  | grid => exact .map_honest (gridCreate_honest _ _ _ _ _ _ _)
  | problem => exact .map_honest (problemCreate_honest _ _ _ _)
  | plan => exact .map_honest (planCreate_honest _ _ _ _ _)
  | fft => exact .map_honest (fftCreate_honest _ _ _ _ _ _ _)

theorem destroy_silent (h : Handle) : Silent World.reports h.destroy := by
  cases h with
  | grid g => exact gridDestroy_silent (some g)
  | problem p => exact problemDestroy_silent (some p)
  | plan p => exact planDestroy_silent (some p)
  | fft f => exact fftwPlanDestroy_silent (some f)

/-- A program that uses the library: its calls, each with arguments of any kind, that may depend on
what the calls before it returned. -/
inductive Client where
  | stop
  | create (c : Creation) (next : Option Handle → Client)
  | inverse (planToInvert : Option FftPlan) (inp out : Option Ptr) (rigorFlags : Flags)
      (next : Option FftPlan → Client)
  | destroy (h : Handle) (next : Client)

/-- What became of a call: whether it returned what it was to create, and the errors it reported. -/
inductive Outcome where
  | created (made : Bool) (reports : List Report)
  | destroyed (reports : List Report)

namespace Outcome

def reports : Outcome → List Report
  | created _ reports => reports
  | destroyed reports => reports

/-- An error is reported if and only if the call failed; destroying does not fail. -/
def Honest : Outcome → Prop
  | created made reports => made = true ↔ reports = []
  | destroyed reports => reports = []

end Outcome

/-- The program, with the outcome of each of its calls. -/
def Client.run (env : Env) : Client → C (List Outcome)
  | stop => return []
  | create c next => do
    let (o, reports) ← heard World.reports (c.run env)
    let outcomes ← (next o).run env
    return .created o.isSome reports :: outcomes
  | inverse planToInvert inp out rigorFlags next => do
    let (o, reports) ← heard World.reports
      (fftwPlanCreateInverse env planToInvert inp out rigorFlags)
    let outcomes ← (next o).run env
    return .created o.isSome reports :: outcomes
  | destroy h next => do
    let (_, reports) ← heard World.reports h.destroy
    let outcomes ← next.run env
    return .destroyed reports :: outcomes

/-- The reports are those of the calls, one call after the other, and every call is honest. -/
def AllTold (outcomes : List Outcome) (reports : List Report) : Prop :=
  reports = outcomes.flatMap Outcome.reports ∧ ∀ outcome ∈ outcomes, outcome.Honest

theorem AllTold.cons {outcome : Outcome} {outcomes : List Outcome} {sent : List Report}
    (h : outcome.Honest) (hr : AllTold outcomes sent) :
    AllTold (outcome :: outcomes) (outcome.reports ++ sent) := by
  refine ⟨?_, List.forall_mem_cons.mpr ⟨h, hr.2⟩⟩
  rw [List.flatMap_cons, ← hr.1]

/-- One call, and what the program does with its result. -/
theorem call_told {α : Type} {x : C α} {next : α → C (List Outcome)}
    (outcome : α → List Report → Outcome) (hreports : ∀ a sent, (outcome a sent).reports = sent)
    (hx : Sends World.reports x fun a sent => (outcome a sent).Honest)
    (hnext : ∀ a, Sends World.reports (next a) AllTold) :
    Sends World.reports (do
        let (a, reports) ← heard World.reports x
        let outcomes ← next a
        return outcome a reports :: outcomes) AllTold := by
  refine .bind hx.heard ?_
  rintro ⟨a, reports⟩ sent ⟨hhonest, rfl⟩
  refine .bind (hnext a) fun outcomes sent' hr => .pure ?_
  have htold := hr.cons hhonest
  rw [hreports] at htold
  rwa [List.append_nil]

theorem created_honest {α : Type} {x : C (Option α)} (hx : Honest World.reports x) :
    Sends World.reports x fun o sent => (Outcome.created o.isSome sent).Honest := by
  refine hx.mono fun o sent h => ?_
  rw [Outcome.Honest, Option.isSome_iff_ne_none, ne_eq, h, not_not]

theorem Client.run_told (client : Client) : Sends World.reports (client.run env) AllTold := by
  induction client with
  | stop => exact .pure ⟨rfl, fun _ h => by cases h⟩
  | create c next ih =>
    exact call_told (fun o => .created o.isSome) (fun _ _ => rfl)
      (created_honest (create_honest c)) ih
  | inverse p inp out rigorFlags next ih =>
    exact call_told (fun o => .created o.isSome) (fun _ _ => rfl)
      (created_honest (createInverse_honest p inp out rigorFlags)) ih
  | destroy h next ih =>
    exact call_told (fun _ => .destroyed) (fun _ _ => rfl) (destroy_silent h) fun _ => ih

end Clients

/-- Whichever requests are refused, an error is reported by each call that returns `NULL`, and by no
other. -/
theorem failures_reported (env : Env) (client : Client) {refuse : Nat → Bool}
    {outcomes : List Outcome} {w : World}
    (h : client.run env (.init refuse) = .ok (outcomes, w)) : AllTold outcomes w.reports := by
  obtain ⟨sent, htold, hview⟩ := client.run_told h
  rw [hview]
  exact htold

/-- Without a grid, without space for one, and with both; then it is destroyed. -/
theorem failures_reported_refused : ∃ client outcomes w,
    Client.run .reference client (.init fun k => k == 0) = .ok (outcomes, w) ∧
      outcomes = [.created false [⟨"grid == NULL", .einval⟩],
        .created false [⟨"failed to allocate space for grid", .enomem⟩], .created true [],
        .destroyed []] ∧
      AllTold outcomes w.reports := by
  let grid : Creation := .grid (0, 0) (some (.world 2 0)) 4 4 2 2 1
  let client : Client := .create (.problem (fun _ v => v) none 1 0) fun _ =>
    .create grid fun _ => .create grid fun o =>
      match o with
      | some g => .destroy g .stop
      | none => .stop
  obtain ⟨outcomes, w, hrun, houtcomes⟩ : ∃ outcomes w,
      client.run .reference (.init fun k => k == 0) = .ok (outcomes, w) ∧ outcomes =
        [.created false [⟨"grid == NULL", .einval⟩],
          .created false [⟨"failed to allocate space for grid", .enomem⟩], .created true [],
          .destroyed []] := ⟨_, _, rfl, rfl⟩
  exact ⟨client, outcomes, w, hrun, houtcomes, failures_reported .reference client hrun⟩

end Underling
