import Underling.PencilPlans
import Underling.Termination

/-!
# Underling.Inverses

The plans a caller can hold: those the public creators return, and the inverses made from them.

* `Obtained.known`: such a plan lies between the sides of its origin, in one direction or the other.
* `inverse_reported_iff`: the calls of `underling_fftw_plan_create_inverse` that report a failure.
-/

namespace Underling

open Runs C

/-! ## What a caller holds -/

/-- What a creator is asked for, apart from the buffers and the rigor flags. -/
structure Origin where
  creator : Creator
  problem : Option Problem
  longNi : Int
  packedFlags : Flags

/-- A plan that a creator returned, or an inverse of a plan obtained before; the buffers are
those of the last call. -/
inductive Obtained (env : Env) (o : Origin) : Option Ptr → Option Ptr → FftPlan → Prop where
  | created {inp out : Option Ptr} {rigorFlags : Flags} {f : FftPlan} {w w' : World} :
      (∀ p, o.problem = some p → IsProblem env p) →
      o.creator.create env o.problem o.longNi inp out rigorFlags o.packedFlags w =
        .ok (some f, w') → Obtained env o inp out f
  | inverse {inp out inp' out' : Option Ptr} {rigorFlags : Flags} {f g : FftPlan} {w w' : World} :
      Obtained env o inp out f →
      fftwPlanCreateInverse env (some f) inp' out' rigorFlags w = .ok (some g, w') →
      Obtained env o inp' out' g

/-- What is known of a plan obtained: the sides it lies between. -/
structure Known (env : Env) (o : Origin) (p : Problem) (i : Fin 3) (a b : Ptr) (f : FftPlan) :
    Prop where
  problem_eq : o.problem = some p
  longNi_eq : o.longNi = (i : Nat)
  isProblem : IsProblem env p
  even : (p.longN i).size 3 % 2 = 0
  between : ∃ rigorFlags,
    PlanBetween o.creator.type i a b (o.creator.input (p.longN i) i o.packedFlags)
        (o.creator.output (p.longN i) i o.packedFlags) rigorFlags f ∨
      PlanBetween o.creator.type.inverse i a b (o.creator.output (p.longN i) i o.packedFlags)
        (o.creator.input (p.longN i) i o.packedFlags) rigorFlags f

section Known

variable {env : Env} {o : Origin} {inp out : Option Ptr} {f : FftPlan}

theorem Creator.known_of_run {c : Creator} {problem : Option Problem} {longNi : Int}
    {rigorFlags packedFlags : Flags} {w w' : World}
    (hp : ∀ p, problem = some p → IsProblem env p)
    (h : c.create env problem longNi inp out rigorFlags packedFlags w = .ok (some f, w')) :
    ∃ p i a b, inp = some a ∧ out = some b ∧
      Known env ⟨c, problem, longNi, packedFlags⟩ p i a b f := by
  by_cases hmissing : problem = none ∨ longNi < 0 ∨ 2 < longNi
  · by_cases h0 : longNi = 0
    · have hnone : problem = none := hmissing.resolve_right (by omega)
      subst h0 hnone
      exact absurd h (c.unusable_not_made env .null inp out rigorFlags packedFlags w w' f)
    · rw [c.create_diverges hmissing h0] at h
      cases h
  obtain ⟨hne, hrange⟩ := not_or.mp hmissing
  obtain ⟨p, rfl⟩ := Option.ne_none_iff_exists'.mp hne
  obtain ⟨i, rfl⟩ : ∃ i : Fin 3, longNi = (i : Nat) := ⟨⟨longNi.toNat, by omega⟩, by simp; omega⟩
  have hproblem := hp p rfl
  have he := hproblem.pencil i
  by_cases heven : (p.longN i).size 3 % 2 = 0
  · by_cases hacc : inp = out → c.Accepts (p.longN i) i packedFlags
    · rw [c.create_accepted he heven env hacc] at h
      have hs : Sides i c.type False (c.input (p.longN i) i packedFlags)
          (c.output (p.longN i) i packedFlags) :=
        c.sides he heven (hproblem.size_long_pos i) False.elim
      obtain ⟨a, b, hinp, hout, hplan⟩ := planner_of_run hs h
      exact ⟨p, i, a, b, hinp, hout, rfl, rfl, hproblem, heven, _, .inl hplan⟩
    · obtain ⟨hio, hn⟩ := Classical.not_imp.mp hacc
      obtain ⟨reason, status, hrun⟩ := c.create_rejected he heven env hio hn rigorFlags
      rw [hrun] at h
      obtain ⟨ho, -⟩ := (errorNull_asked reason status).of_run h
      cases ho
  · exact absurd h (c.unusable_not_made env (.odd he heven) inp out rigorFlags packedFlags w w' f)

theorem Known.sides {p : Problem} {i : Fin 3} {a b : Ptr} (h : Known env o p i a b f) :
    f.longNi = i ∧ Sides i f.type False f.input f.output := by
  have hs : Sides i o.creator.type False (o.creator.input (p.longN i) i o.packedFlags)
      (o.creator.output (p.longN i) i o.packedFlags) :=
    o.creator.sides (h.isProblem.pencil i) h.even (h.isProblem.size_long_pos i) False.elim
  obtain ⟨_, ⟨_, _, -, hf⟩ | ⟨_, _, -, hf⟩⟩ := h.between
  · rw [hf.type_eq, hf.input_eq, hf.output_eq]
    exact ⟨hf.longNi_eq, hs⟩
  · rw [hf.type_eq, hf.input_eq, hf.output_eq]
    exact ⟨hf.longNi_eq, hs.inverse⟩

theorem inverse_of_run {inPlace : Prop} {rigorFlags : Flags} {g : FftPlan} {w w' : World}
    (hs : Sides f.longNi f.type inPlace f.input f.output)
    (h : fftwPlanCreateInverse env (some f) inp out rigorFlags w = .ok (some g, w')) :
    ∃ a b, inp = some a ∧ out = some b ∧
      PlanBetween f.type.inverse f.longNi a b f.output f.input rigorFlags g := by
  rw [inverse_run env hs] at h
  cases hrun :
      planner env f.type.inverse (f.longNi : Nat) inp out rigorFlags f.output f.input w with
  | error e =>
    rw [hrun] at h
    cases h
  | ok r =>
    rw [hrun] at h
    obtain ⟨_ | q, w''⟩ := r
    · cases h
    · cases h
      exact planner_of_run hs.inverse hrun

theorem Obtained.known (h : Obtained env o inp out f) :
    ∃ p i a b, inp = some a ∧ out = some b ∧ Known env o p i a b f := by
  induction h with
  | created hp hrun => exact Creator.known_of_run hp hrun
  | @inverse inp out inp' out' rigorFlags f g w w' _ hrun ih =>
    obtain ⟨p, i, a, b, -, -, hk⟩ := ih
    obtain ⟨hlong, hs⟩ := hk.sides
    obtain ⟨a', b', hinp, hout, hg⟩ := inverse_of_run (hlong ▸ hs) hrun
    refine ⟨p, i, a', b', hinp, hout, hk.problem_eq, hk.longNi_eq, hk.isProblem, hk.even,
      rigorFlags, ?_⟩
    obtain ⟨_, ⟨_, _, -, hf⟩ | ⟨_, _, -, hf⟩⟩ := hk.between
    · rw [hf.type_eq, hf.longNi_eq, hf.input_eq, hf.output_eq] at hg
      exact .inr hg
    · rw [hf.type_eq, hf.longNi_eq, hf.input_eq, hf.output_eq,
        TransformType.inverse_inverse] at hg
      exact .inl hg

end Known

theorem Job.exists_obtained {env : Env} (job : Job env) {a b : Nat} (ha : a < job.pA)
    (hb : b < job.pB) (heven : job.howmany % 2 = 0) (c : Creator) (i : Fin 3) (inp out : Ptr)
    (packedFlags : Flags)
    (haccepts : inp = out → c.Accepts ((job.problem a b).longN i) i packedFlags) :
    ∃ f, Obtained env ⟨c, some (job.problem a b), (i : Nat), packedFlags⟩ (some inp) (some out)
      f := by
  obtain ⟨f, w, hrun⟩ := job.exists_fftCreate ha hb heven c i inp out
    (show FFTW.ESTIMATE.has nonRigorMask = false by decide) packedFlags haccepts
  refine ⟨f, .created (fun p hp => ?_) hrun⟩
  cases hp
  exact job.isProblem ha hb

theorem Obtained.exists_inverse {env : Env} {o : Origin} {inp out : Option Ptr} {f : FftPlan}
    (h : Obtained env o inp out f) (a b : Ptr) :
    ∃ g w, fftwPlanCreateInverse env (some f) (some a) (some b) FFTW.ESTIMATE .granting =
      .ok (some g, w) := by
  obtain ⟨p, i, _, _, -, -, hk⟩ := h.known
  obtain ⟨hlong, hs⟩ := hk.sides
  rw [← hlong] at hs
  have hends : Ends (planner env f.type.inverse (f.longNi : Nat) (some a) (some b) FFTW.ESTIMATE
      f.output f.input) .granting _ :=
    planner_ends env (fun _ : True => World.granting_granted) hs.inverse FFTW.ESTIMATE
  obtain ⟨o, w, hrun, hc⟩ := hends
  obtain ⟨g, rfl⟩ := Option.isSome_iff_exists.mp (hc.complete trivial (by decide))
  exact ⟨g, w, by rw [inverse_run env hs, hrun]⟩

/-! ## Inverses -/

def TransformType.requestCount (type : TransformType) (inPlace : Prop) [Decidable inPlace] : Nat :=
  if inPlace then (if type = .c2rBackward then 4 else 3) else 2

theorem requests_length {i : Fin 3} {type : TransformType} {inPlace : Prop}
    {input output : FftwExtents} (hs : Sides i type inPlace input output) (k1 k2 : Fin 3)
    (inp out : Ptr) (flags : Flags) :
    ((stagesOf type i k1 k2 inp out input output flags).requests type).length =
      type.requestCount (inp = out) := by
  by_cases hio : inp = out
  · by_cases hi : input.order 2 = i.castAdd 2 <;> cases type <;>
      first
        | exact hs.elim
        | simp [Stages.requests, stagesOf, c2cStages, c2rStages, r2cStages,
            TransformType.requestCount, hio, hi]
  · have hapart : (inp == out) = false := by simpa using hio
    cases type <;>
      simp [Stages.requests, stagesOf, c2cStages, c2rStages, r2cStages,
        TransformType.requestCount, hio, hapart]

/-- A failure of the planner is reported: the call does not read through a null pointer, it returns
`NULL` when the planner does, and otherwise a plan with the extents of `f` exchanged. -/
structure Reported (env : Env) (f : FftPlan) (inp out : Option Ptr) (rigorFlags : Flags)
    (w : World) : Prop where
  no_nullRead : fftwPlanCreateInverse env (some f) inp out rigorFlags w ≠ .error .nullRead
  none : ∀ w1, planner env f.type.inverse (f.longNi : Nat) inp out rigorFlags f.output f.input w =
    .ok (none, w1) → ∃ w2, fftwPlanCreateInverse env (some f) inp out rigorFlags w = .ok (none, w2)
  some : ∀ q w1, planner env f.type.inverse (f.longNi : Nat) inp out rigorFlags f.output f.input w =
    .ok (some q, w1) → ∃ q' w2, fftwPlanCreateInverse env (some f) inp out rigorFlags w =
      .ok (some q', w2) ∧ q'.input = f.output ∧ q'.output = f.input

theorem planner_made_iff (env : Env) {i : Fin 3} {type : TransformType} {inPlace : Prop}
    {input output : FftwExtents} (hs : Sides i type inPlace input output) (inp out : Option Ptr)
    (rigorFlags : Flags) (w : World) :
    Ends (planner env type (i : Nat) inp out rigorFlags input output) w fun made _ =>
      (made.isSome ↔ inp ≠ none ∧ out ≠ none ∧ rigorFlags.has nonRigorMask = false ∧
        w.Grants (type.requestCount (inp = out))) ∧
      ∀ q, made = some q → q.input = input ∧ q.output = output := by
  by_cases hbad : inp = none ∨ out = none ∨ rigorFlags.has nonRigorMask = true
  · refine (planner_refused env hbad type input output w).mono fun made _ ⟨hnone, _, _⟩ => ?_
    subst hnone
    refine ⟨iff_of_false Bool.false_ne_true fun ⟨h1, h2, h3, _⟩ => ?_, fun _ hq => (by cases hq)⟩
    rcases hbad with hbad | hbad | hbad
    · exact h1 hbad
    · exact h2 hbad
    · rw [h3] at hbad
      cases hbad
  · obtain ⟨hinp, hout, hr⟩ := not_or.mp hbad |>.imp_right not_or.mp
    obtain ⟨a, rfl⟩ := Option.ne_none_iff_exists'.mp hinp
    obtain ⟨b, rfl⟩ := Option.ne_none_iff_exists'.mp hout
    have hrigor := Bool.eq_false_iff.mpr hr
    obtain ⟨k1, k2, ho, hends⟩ := planner_served env a b hs hrigor
    refine (hends w).mono fun made _ hserved => ⟨?_, fun q hq => ?_⟩
    · rw [hserved.isSome_iff, requests_length hs]
      simp only [TransformType.requestCount, Option.some.injEq]
      exact ⟨fun hgrants => ⟨hinp, hout, hrigor, hgrants⟩, fun h => h.2.2.2⟩
    · have hmade := (hserved.made q hq).1
      exact ⟨hmade.input_eq, hmade.output_eq⟩

/-- The creation of an inverse reports failures exactly when there are none: with two buffers and
rigor flags, when everything it asks for is granted. -/
theorem inverse_reported_iff {env : Env} {o : Origin} {inp out : Option Ptr} {f : FftPlan}
    (h : Obtained env o inp out f) (inp' out' : Option Ptr) (rigorFlags : Flags) (w : World) :
    Reported env f inp' out' rigorFlags w ↔ inp' ≠ none ∧ out' ≠ none ∧
      rigorFlags.has nonRigorMask = false ∧
      w.Grants (f.type.inverse.requestCount (inp' = out')) := by
  obtain ⟨p, i, a, b, -, -, hk⟩ := h.known
  obtain ⟨hlong, hs⟩ := hk.sides
  rw [← hlong] at hs
  have hrun := inverse_run env hs inp' out' rigorFlags w
  obtain ⟨made, w', hplanner, hmade, hextents⟩ :=
    planner_made_iff env hs.inverse inp' out' rigorFlags w
  rw [← hmade]
  rw [hplanner] at hrun
  cases made with
  | none => exact iff_of_false (fun hr => hr.no_nullRead hrun) Bool.false_ne_true
  | some q =>
    refine iff_of_true ⟨?_, ?_, ?_⟩ rfl
    · rw [hrun]
      exact nofun
    · intro w1 hnone
      rw [hplanner] at hnone
      cases hnone
    · intro q' w1 hsome
      exact ⟨q, w', hrun, hextents q rfl⟩

/-- Without an input buffer the inverse of a plan is read through a null pointer. -/
theorem inverse_reported_fails :
    ∃ (job : Job .reference) (f : FftPlan), (job.n0 = 4 ∧ job.n1 = 5 ∧ job.n2 = 3) ∧
      (job.pA = 2 ∧ job.pB = 3) ∧
      Obtained .reference ⟨.c2cForward, some (job.problem 1 1), 1, 0⟩ (some 0) (some 1) f ∧
      fftwPlanCreateInverse .reference (some f) none (some 0) FFTW.ESTIMATE .granting =
        .error .nullRead ∧
      ¬ Reported .reference f none (some 0) FFTW.ESTIMATE .granting := by
  obtain ⟨job, hn, hp, hhow, -, -⟩ := exists_admitted 4 5 3 2 3 2 0 (by decide)
  have ha : 1 < job.pA := by omega
  have hb : 1 < job.pB := by omega
  obtain ⟨f, hf⟩ := job.exists_obtained ha hb (by omega) .c2cForward 1 0 1 0
    fun _ => job.accepts_longN1 ha hb _ _
  obtain ⟨p, i, a, b, -, -, hk⟩ := hf.known
  obtain ⟨hlong, hs⟩ := hk.sides
  rw [← hlong] at hs
  have hends : Ends (planner .reference f.type.inverse (f.longNi : Nat) none (some 0) FFTW.ESTIMATE
      f.output f.input) .granting _ := planner_refused .reference (.inl rfl) _ _ _ _
  obtain ⟨_, w', hnone, rfl, -, -⟩ := hends
  have hrun : fftwPlanCreateInverse .reference (some f) none (some 0) FFTW.ESTIMATE .granting =
      .error .nullRead := by
    rw [inverse_run .reference hs, hnone]
  exact ⟨job, f, hn, hp, hf, hrun, fun hr => hr.no_nullRead hrun⟩

/-- The inverse of an in-place real transform, with all it asks for. -/
theorem inverse_reported_c2r :
    ∃ (job : Job .reference) (f : FftPlan), (job.n0 = 4 ∧ job.n1 = 5 ∧ job.n2 = 3) ∧
      (job.pA = 2 ∧ job.pB = 3) ∧
      Obtained .reference ⟨.r2cForward, some (job.problem 1 1), 1, 0⟩ (some 0) (some 0) f ∧
      (Reported .reference f (some 0) (some 0) FFTW.ESTIMATE .granting ↔
        some (0 : Ptr) ≠ none ∧ some (0 : Ptr) ≠ none ∧ FFTW.ESTIMATE.has nonRigorMask = false ∧
          World.granting.Grants
            (f.type.inverse.requestCount (some (0 : Ptr) = some (0 : Ptr)))) := by
  obtain ⟨job, hn, hp, hhow, -, -⟩ := exists_admitted 4 5 3 2 3 2 0 (by decide)
  have ha : 1 < job.pA := by omega
  have hb : 1 < job.pB := by omega
  obtain ⟨f, hf⟩ := job.exists_obtained ha hb (by omega) .r2cForward 1 0 0 0
    fun _ => job.accepts_longN1 ha hb _ _
  exact ⟨job, f, hn, hp, hf, inverse_reported_iff hf (some 0) (some 0) FFTW.ESTIMATE .granting⟩

end Underling
