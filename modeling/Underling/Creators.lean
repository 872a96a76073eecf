import Underling.FftwCreate
import Underling.SplitExtents

/-!
# Underling.Creators

The four public creators of FFT plans, and the creation of inverse plans.

* `planner_served`: what a planner asks for between extents it can work between.
* `Creator.sides`, `creator_ends`: the extents a creator hands to its planner, and the plan it
  returns.
* `inverse_run`: the plan the way back; it is made between the same extents.
-/

namespace Underling

open Runs C Strided

/-! ## The planners, by type -/

def TransformType.inverse : TransformType → TransformType
  | .c2cForward => .c2cBackward
  | .c2cBackward => .c2cForward
  | .c2rBackward => .r2cForward
  | .r2cForward => .c2rBackward
  | .unspecified => .unspecified

theorem TransformType.inverse_inverse (type : TransformType) : type.inverse.inverse = type := by
  cases type <;> rfl

/-- The extents a planner of the given type can work between. -/
def Sides (i : Fin 3) (type : TransformType) (inPlace : Prop) (input output : FftwExtents) : Prop :=
  match type with
  | .c2cForward | .c2cBackward => ComplexSide input ∧ ComplexSide output ∧
      output.size = input.size ∧ (input.order 2 = i.castAdd 2 ∨ output.order 2 = i.castAdd 2)
  | .c2rBackward => ComplexSide input ∧ RealSide i output ∧ Halves i input output ∧
      (inPlace → SamePlace i input output)
  | .r2cForward => RealSide i input ∧ ComplexSide output ∧ Halves i output input ∧
      (inPlace → SamePlace i output input)
  | .unspecified => False

theorem Sides.inverse {i : Fin 3} {type : TransformType} {inPlace : Prop}
    {input output : FftwExtents} (h : Sides i type inPlace input output) :
    Sides i type.inverse inPlace output input := by
  cases type with
  | unspecified => exact h
  | c2cForward => exact ⟨h.2.1, h.1, h.2.2.1.symm, h.2.2.2.symm⟩
  | c2cBackward => exact ⟨h.2.1, h.1, h.2.2.1.symm, h.2.2.2.symm⟩
  | c2rBackward => exact ⟨h.2.1, h.1, h.2.2.1, h.2.2.2⟩
  | r2cForward => exact ⟨h.2.1, h.1, h.2.2.1, h.2.2.2⟩

theorem Sides.imp {i : Fin 3} {type : TransformType} {p q : Prop} {input output : FftwExtents}
    (h : Sides i type p input output) (hq : q → p) : Sides i type q input output := by
  cases type with
  | unspecified => exact h
  | c2cForward => exact h
  | c2cBackward => exact h
  | c2rBackward => exact ⟨h.1, h.2.1, h.2.2.1, fun hp => h.2.2.2 (hq hp)⟩
  | r2cForward => exact ⟨h.1, h.2.1, h.2.2.1, fun hp => h.2.2.2 (hq hp)⟩

/-- The planner of each type. -/
def planner (env : Env) (type : TransformType) (longNi : Int) (inp out : Option Ptr)
    (rigorFlags : Flags) (input output : FftwExtents) : C (Option FftPlan) :=
  match type with
  | .c2cForward =>
    fftwPlanCreateC2cInternal env longNi inp out FFTW.FORWARD rigorFlags input output
  | .c2cBackward =>
    fftwPlanCreateC2cInternal env longNi inp out FFTW.BACKWARD rigorFlags input output
  | .c2rBackward => fftwPlanCreateC2rBackwardInternal env longNi inp out rigorFlags input output
  | .r2cForward => fftwPlanCreateR2cForwardInternal env longNi inp out rigorFlags input output
  | .unspecified => errorNull "Unrecognized plan_to_invert->type" .esanity

theorem planner_served (env : Env) {i : Fin 3} (inp out : Ptr) {input output : FftwExtents}
    {type : TransformType} {inPlace : Prop} (hs : Sides i type inPlace input output)
    {rigorFlags : Flags} (hr : rigorFlags.has nonRigorMask = false) :
    ∃ k1 k2, Others i k1 k2 ∧
      let s := stagesOf type i k1 k2 inp out input output (rigorFlags ||| FFTW.DESTROY_INPUT)
      ∀ w, Ends (planner env type (i : Nat) (some inp) (some out) rigorFlags input output) w
        (Served w (s.requests type) (FftPlanFor i type inp out input output s)) := by
  cases type with
  | unspecified => exact hs.elim
  | c2cForward =>
    exact c2cInternal_served inp out hs.1.toInterleaved hs.2.1.toInterleaved hs.2.2.2 (.inl rfl) hr
      rfl
  | c2cBackward =>
    exact c2cInternal_served inp out hs.1.toInterleaved hs.2.1.toInterleaved hs.2.2.2 (.inr rfl) hr
      rfl
  | c2rBackward =>
    have hsize := hs.2.2.1.size_eq 3 (three_ne_long i) (by decide)
    exact c2rInternal_served inp out hs.1.toInterleaved hs.2.1.toInterleaved hsize.symm hr
  | r2cForward => exact r2cInternal_served inp out hs.1.toInterleaved hr

theorem planner_refused (env : Env) {i : Fin 3} {inp out : Option Ptr} {rigorFlags : Flags}
    (hbad : inp = none ∨ out = none ∨ rigorFlags.has nonRigorMask = true) (type : TransformType)
    (input output : FftwExtents) (w : World) :
    Ends (planner env type (i : Nat) inp out rigorFlags input output) w fun o w' =>
      o = none ∧ w.Asked [] w' ∧ w.log.reports.length < w'.log.reports.length := by
  cases inp with
  | none =>
    cases type <;>
      simp only [planner, fftwPlanCreateC2cInternal, fftwPlanCreateC2rBackwardInternal,
        fftwPlanCreateR2cForwardInternal, direction?_of] <;> exact errorNull_asked _ _
  | some inp =>
    cases out with
    | none =>
      cases type <;>
        simp only [planner, fftwPlanCreateC2cInternal, fftwPlanCreateC2rBackwardInternal,
          fftwPlanCreateR2cForwardInternal, direction?_of] <;> exact errorNull_asked _ _
    | some out =>
      have hr : rigorFlags.has nonRigorMask = true := by simpa using hbad
      cases type with
      | unspecified => exact errorNull_asked _ _
      | c2cForward | c2cBackward =>
        simp only [planner, fftwPlanCreateC2cInternal, direction?_of]
        rw [if_neg (by decide), if_pos hr]
        exact errorNull_asked _ _
      | c2rBackward =>
        simp only [planner, fftwPlanCreateC2rBackwardInternal, direction?_of]
        rw [if_pos hr]
        exact errorNull_asked _ _
      | r2cForward =>
        simp only [planner, fftwPlanCreateR2cForwardInternal, direction?_of]
        rw [if_pos hr]
        exact errorNull_asked _ _

theorem planner_of_run {env : Env} {i : Fin 3} {type : TransformType} {inPlace : Prop}
    {input output : FftwExtents} (hs : Sides i type inPlace input output) {inp out : Option Ptr}
    {rigorFlags : Flags} {f : FftPlan} {w w' : World}
    (h : planner env type (i : Nat) inp out rigorFlags input output w = .ok (some f, w')) :
    ∃ a b, inp = some a ∧ out = some b ∧ PlanBetween type i a b input output rigorFlags f := by
  by_cases hbad : inp = none ∨ out = none ∨ rigorFlags.has nonRigorMask = true
  · obtain ⟨ho, -⟩ := (planner_refused env hbad type input output w).of_run h
    cases ho
  obtain ⟨hinp, hout, hr⟩ := not_or.mp hbad |>.imp_right not_or.mp
  obtain ⟨a, rfl⟩ := Option.ne_none_iff_exists'.mp hinp
  obtain ⟨b, rfl⟩ := Option.ne_none_iff_exists'.mp hout
  obtain ⟨k1, k2, ho, hends⟩ := planner_served env a b hs (Bool.eq_false_iff.mpr hr)
  exact ⟨a, b, rfl, rfl, k1, k2, ho, (((hends w).of_run h).made f rfl).1⟩

theorem planner_ends (env : Env) {w : World} {G : Prop} {i : Fin 3} {inp out : Ptr}
    {input output : FftwExtents} {type : TransformType} {inPlace : Prop} (h : G → w.Granted)
    (hs : Sides i type inPlace input output) (rigorFlags : Flags) :
    Ends (planner env type (i : Nat) (some inp) (some out) rigorFlags input output) w
      (FftCreated rigorFlags (PlanBetween type i inp out input output rigorFlags) G) := by
  by_cases hr : rigorFlags.has nonRigorMask = true
  · refine (planner_refused env (.inr (.inr hr)) type input output w).mono ?_
    rintro _ w' ⟨rfl, -, -⟩
    exact .of_refused fun _ hr' => by rw [hr'] at hr; cases hr
  · obtain ⟨k1, k2, ho, hends⟩ :=
      planner_served env inp out hs (Bool.eq_false_iff.mpr hr)
    refine (hends w).mono fun o w' hserved => ?_
    exact ((hserved.mono fun f hf => ⟨k1, k2, ho, hf⟩).stepDone h).created

/-! ## The public creators -/

/-- The four public creators. -/
inductive Creator where
  | c2cForward
  | c2cBackward
  | c2rBackward
  | r2cForward
deriving DecidableEq, Repr

/-- The caller asked for the adjusted side to be packed. -/
def Packs (i : Fin 3) (packedFlags : Flags) : Prop :=
  let packedFlags := if packedFlags = 0 then FFTW_PACKED_NONE else packedFlags
  ((i : Nat) : Int) = 2 ∧ packedFlags.has FFTW_PACKED_LONG_N2 ∨
    ((i : Nat) : Int) = 0 ∧ packedFlags.has FFTW_PACKED_LONG_N0

instance (i : Fin 3) (packedFlags : Flags) : Decidable (Packs i packedFlags) :=
  inferInstanceAs (Decidable (_ ∨ _))

namespace Creator

def type : Creator → TransformType
  | c2cForward => .c2cForward
  | c2cBackward => .c2cBackward
  | c2rBackward => .c2rBackward
  | r2cForward => .r2cForward

def create (env : Env) : Creator → Option Problem → Int → Option Ptr → Option Ptr → Flags → Flags →
    C (Option FftPlan)
  | c2cForward => fftwPlanCreateC2cForward env
  | c2cBackward => fftwPlanCreateC2cBackward env
  | c2rBackward => fftwPlanCreateC2rBackward env
  | r2cForward => fftwPlanCreateR2cForward env

/-- One side of the transform is real. -/
def real : Creator → Bool
  | c2cForward | c2cBackward => false
  | c2rBackward | r2cForward => true

/-- The side that is made from the adjusted pencil. -/
def side (c : Creator) (e : Extents) (i : Fin 3) : FftwExtents :=
  if c.real then realExtents (e.adjusted i) (i.castAdd 1) else complexExtents (e.adjusted i)

def packedSide (c : Creator) (e : Extents) (i : Fin 3) (packedFlags : Flags) : FftwExtents :=
  if Packs i packedFlags then packStridesAccordingToOrder (c.side e i) else c.side e i

def input (c : Creator) (e : Extents) (i : Fin 3) (packedFlags : Flags) : FftwExtents :=
  match c with
  | r2cForward => c.packedSide e i packedFlags
  | _ => complexExtents e

def output (c : Creator) (e : Extents) (i : Fin 3) (packedFlags : Flags) : FftwExtents :=
  match c with
  | r2cForward => complexExtents e
  | _ => c.packedSide e i packedFlags

def createSide : Creator → Extents → Int → C FftwExtents
  | c2cForward | c2cBackward => createFftwExtentsForComplex
  | c2rBackward | r2cForward => createFftwExtentsForReal

/-- The sides in the order of the transform. -/
def ordered : Creator → FftwExtents × FftwExtents → FftwExtents × FftwExtents
  | r2cForward, (stored, adjusted) => (adjusted, stored)
  | _, sides => sides

def unimplemented : Creator → String
  | c2rBackward =>
    "Creation of in-place c2r_backward plans for non-stride one directions is currently unimplemented"
  | _ =>
    "Creation of in-place r2c_forward plans for non-stride one directions is currently unimplemented."

/-- What a creator does with the sides it made. -/
def planSides (env : Env) (c : Creator) (longNi : Int) (inp out : Option Ptr)
    (rigorFlags : Flags) : Option (FftwExtents × FftwExtents) → C (Option FftPlan)
  | none => pure none
  | some sides =>
    if c.real = true ∧ inp = out ∧ (sides.1.order 2 : Nat) ≠ longNi then
      errorNull c.unimplemented .esanity
    else
      planner env c.type longNi inp out rigorFlags (c.ordered sides).1 (c.ordered sides).2

/-- What a creator accepts in place: no packing, and for a real transform the long direction next to
the fields. -/
def Accepts (c : Creator) (e : Extents) (i : Fin 3) (packedFlags : Flags) : Prop :=
  ¬ Packs i packedFlags ∧ (c.real = true → e.order 1 = i.castAdd 1)

end Creator

section Sides

variable {e : Extents} {i : Fin 3} {inPlace : Prop}

theorem adjusted_of_eq (h : e.order 1 = i.castAdd 1) : e.adjusted i = e := if_pos h

theorem complexSides (he : e.Pencil i) (heven : e.size 3 % 2 = 0) {type : TransformType}
    (htype : type = .c2cForward ∨ type = .c2cBackward) :
    Sides i type inPlace (complexExtents e) (complexExtents (e.adjusted i)) := by
  obtain ⟨hp, hlong, hsize⟩ := adjusted_spec he
  have hsides : ComplexSide (complexExtents e) ∧ ComplexSide (complexExtents (e.adjusted i)) ∧
      (complexExtents (e.adjusted i)).size = (complexExtents e).size ∧
      ((complexExtents e).order 2 = i.castAdd 2 ∨
        (complexExtents (e.adjusted i)).order 2 = i.castAdd 2) := by
    refine ⟨complexSide he heven, complexSide hp (hsize ▸ heven), ?_,
      .inr (congrArg Fin.castSucc hlong)⟩
    simp only [complexExtents, hsize]
  rcases htype with rfl | rfl <;> exact hsides

theorem realSides (he : e.Pencil i) (heven : e.size 3 % 2 = 0) (hpos : 0 < e.size (i.castAdd 1)) :
    RealSide i (realExtents (e.adjusted i) (i.castAdd 1)) ∧
      Halves i (complexExtents e) (realExtents (e.adjusted i) (i.castAdd 1)) := by
  obtain ⟨hp, hlong, hsize⟩ := adjusted_spec he
  exact ⟨realSide hp (hsize ▸ heven) hlong, halves_of hsize hpos⟩

theorem realSides_packed (he : e.Pencil i) (heven : e.size 3 % 2 = 0)
    (hpos : 0 < e.size (i.castAdd 1)) {c : Creator} (hreal : c.real = true) {packedFlags : Flags}
    (haccepts : inPlace → c.Accepts e i packedFlags) :
    RealSide i (c.packedSide e i packedFlags) ∧
      Halves i (complexExtents e) (c.packedSide e i packedFlags) ∧
      (inPlace → SamePlace i (complexExtents e) (c.packedSide e i packedFlags)) := by
  obtain ⟨hr, hh⟩ := realSides he heven hpos
  rw [Creator.packedSide, Creator.side, if_pos hreal]
  by_cases hp : Packs i packedFlags
  · rw [if_pos hp]
    exact ⟨hr.pack, hh.pack, fun hin => absurd hp (haccepts hin).1⟩
  · rw [if_neg hp]
    refine ⟨hr, hh, fun hin => ?_⟩
    rw [adjusted_of_eq ((haccepts hin).2 hreal)]
    exact samePlace_of i e

theorem Creator.sides (c : Creator) (he : e.Pencil i) (heven : e.size 3 % 2 = 0)
    (hpos : 0 < e.size (i.castAdd 1)) {packedFlags : Flags}
    (haccepts : inPlace → c.Accepts e i packedFlags) :
    Sides i c.type inPlace (c.input e i packedFlags) (c.output e i packedFlags) := by
  have hcomplex : c.real = false →
      c.packedSide e i packedFlags = complexExtents (e.adjusted i) := by
    intro hreal
    obtain ⟨hp, -, hsize⟩ := adjusted_spec he
    have hside : c.side e i = complexExtents (e.adjusted i) := if_neg (by simp [hreal])
    rw [packedSide, hside, (complexSide hp (hsize ▸ heven)).pack_eq, ite_self]
  cases c with
  | c2cForward =>
    show Sides i .c2cForward inPlace (complexExtents e) (packedSide .c2cForward e i packedFlags)
    rw [hcomplex rfl]
    exact complexSides he heven (.inl rfl)
  | c2cBackward =>
    show Sides i .c2cBackward inPlace (complexExtents e) (packedSide .c2cBackward e i packedFlags)
    rw [hcomplex rfl]
    exact complexSides he heven (.inr rfl)
  | c2rBackward =>
    obtain ⟨hr, hh, hp⟩ := realSides_packed he heven hpos (c := .c2rBackward) rfl haccepts
    exact ⟨complexSide he heven, hr, hh, hp⟩
  | r2cForward =>
    obtain ⟨hr, hh, hp⟩ := realSides_packed he heven hpos (c := .r2cForward) rfl haccepts
    exact ⟨hr, complexSide he heven, hh, hp⟩

end Sides

section Creation

variable {env : Env} {w : World} {G : Prop} {i : Fin 3} {problem : Problem}

theorem Creator.create_eq (c : Creator) (problem : Option Problem) (longNi : Int)
    (inp out : Option Ptr) (rigorFlags packedFlags : Flags) :
    c.create env problem longNi inp out rigorFlags packedFlags =
      fftwSides c.createSide problem longNi inp out packedFlags >>=
        c.planSides env longNi inp out rigorFlags := by
  cases c <;> refine bind_congr fun o => ?_ <;> rcases o with _ | ⟨stored, adjusted⟩ <;>
    simp only [planSides, real, Bool.false_eq_true, false_and, true_and, if_false] <;> rfl

theorem fftwSides_pencil {create : Extents → Int → C FftwExtents}
    (he : (problem.longN i).Pencil i) (heven : (problem.longN i).size 3 % 2 = 0)
    {side : FftwExtents}
    (hcreate : create ((problem.longN i).adjusted i) (i : Nat) = pure side)
    (inp out : Option Ptr) (packedFlags : Flags) :
    fftwSides create (some problem) (i : Nat) inp out packedFlags =
      if Packs i packedFlags then
        if inp = out then errorNull "invalid packed_flags for in-place transform" .einval
        else pure (some (complexExtents (problem.longN i), packStridesAccordingToOrder side))
      else pure (some (complexExtents (problem.longN i), side)) := by
  obtain ⟨n, hadjust⟩ := adjust_pencil he
  rw [fftwSides, localExtents_some, pure_bind, createForComplex_pencil he heven, pure_bind, hadjust,
    pure_bind]
  dsimp only
  rw [hcreate, pure_bind]
  rfl

theorem errorNull_bind {β γ : Type} (reason : String) (status : Status)
    {k : Option β → C (Option γ)} (hk : k none = pure none) :
    (errorNull reason status : C (Option β)) >>= k = errorNull reason status := by
  simp only [errorNull, errorVal, bind_assoc, pure_bind, hk]

theorem rejected_iff {inp out : Option Ptr} {e : Extents} :
    (inp = out ∧ ((complexExtents e).order 2 : Nat) ≠ ((i : Nat) : Int)) ↔
      ¬ (inp = out → e.order 1 = i.castAdd 1) := by
  have hval : (((complexExtents e).order 2 : Nat) : Int) = (i : Nat) ↔ e.order 1 = i.castAdd 1 :=
    Int.natCast_inj.trans ⟨fun h => Fin.ext h, fun h => congrArg Fin.val h⟩
  rw [ne_eq, hval, Classical.not_imp]

section Sides

variable {inp out : Option Ptr} {packedFlags : Flags} (c : Creator)
  (he : (problem.longN i).Pencil i) (heven : (problem.longN i).size 3 % 2 = 0)
include he heven

theorem Creator.side_eq :
    c.createSide ((problem.longN i).adjusted i) (i : Nat) = pure (c.side (problem.longN i) i) := by
  obtain ⟨hp, hlong, hsize⟩ := adjusted_spec he
  have heven' : ((problem.longN i).adjusted i).size 3 % 2 = 0 := hsize ▸ heven
  cases c with
  | c2cForward | c2cBackward => exact createForComplex_pencil hp heven'
  | c2rBackward | r2cForward => exact createForReal_pencil hp heven' hlong

theorem Creator.create_accepted (env : Env)
    (hacc : inp = out → c.Accepts (problem.longN i) i packedFlags) (rigorFlags : Flags) :
    c.create env (some problem) (i : Nat) inp out rigorFlags packedFlags =
      planner env c.type (i : Nat) inp out rigorFlags (c.input (problem.longN i) i packedFlags)
        (c.output (problem.longN i) i packedFlags) := by
  have hpacked : fftwSides c.createSide (some problem) (i : Nat) inp out packedFlags =
      pure (some (complexExtents (problem.longN i),
        c.packedSide (problem.longN i) i packedFlags)) := by
    rw [fftwSides_pencil he heven (c.side_eq he heven), packedSide]
    by_cases hp : Packs i packedFlags
    · rw [if_pos hp, if_pos hp, if_neg fun hio => (hacc hio).1 hp]
    · rw [if_neg hp, if_neg hp]
  have hreal : ¬ (c.real = true ∧ inp = out ∧
      ((complexExtents (problem.longN i)).order 2 : Nat) ≠ ((i : Nat) : Int)) :=
    fun ⟨hr, hrej⟩ => rejected_iff.mp hrej fun hio => (hacc hio).2 hr
  rw [create_eq, hpacked, pure_bind, planSides, if_neg hreal]
  cases c <;> rfl

theorem Creator.create_rejected (env : Env) (hio : inp = out)
    (hn : ¬ c.Accepts (problem.longN i) i packedFlags) (rigorFlags : Flags) :
    ∃ reason status, c.create env (some problem) (i : Nat) inp out rigorFlags packedFlags =
      errorNull reason status := by
  rw [create_eq, fftwSides_pencil he heven (c.side_eq he heven)]
  by_cases hp : Packs i packedFlags
  · rw [if_pos hp, if_pos hio]
    exact ⟨_, _, errorNull_bind _ _ rfl⟩
  · have hreal : c.real = true ∧ (problem.longN i).order 1 ≠ i.castAdd 1 := by
      by_contra hcon
      exact hn ⟨hp, fun hr => by_contra fun ho => hcon ⟨hr, ho⟩⟩
    rw [if_neg hp, pure_bind, planSides,
      if_pos ⟨hreal.1, rejected_iff.mpr fun h => hreal.2 (h hio)⟩]
    exact ⟨_, _, rfl⟩

end Sides

theorem Creator.create_ends (c : Creator) (he : (problem.longN i).Pencil i)
    (heven : (problem.longN i).size 3 % 2 = 0) (hpos : 0 < (problem.longN i).size (i.castAdd 1))
    (env : Env) (inp out : Option Ptr) (rigorFlags packedFlags : Flags) (w : World) :
    Ends (c.create env (some problem) (i : Nat) inp out rigorFlags packedFlags) w
      fun _ _ => True := by
  by_cases hacc : inp = out → c.Accepts (problem.longN i) i packedFlags
  · rw [c.create_accepted he heven env hacc]
    by_cases hbad : inp = none ∨ out = none ∨ rigorFlags.has nonRigorMask = true
    · exact (planner_refused env hbad _ _ _ w).mono fun _ _ _ => trivial
    obtain ⟨hinp, hout, hr⟩ := not_or.mp hbad |>.imp_right not_or.mp
    obtain ⟨inp, rfl⟩ := Option.ne_none_iff_exists'.mp hinp
    obtain ⟨out, rfl⟩ := Option.ne_none_iff_exists'.mp hout
    have hs : Sides i c.type (inp = out) (c.input (problem.longN i) i packedFlags)
        (c.output (problem.longN i) i packedFlags) :=
      c.sides he heven hpos fun hio => hacc (congrArg some hio)
    obtain ⟨_, _, -, hends⟩ := planner_served env inp out hs (Bool.eq_false_iff.mpr hr)
    exact (hends w).mono fun _ _ _ => trivial
  · obtain ⟨hio, hn⟩ := Classical.not_imp.mp hacc
    obtain ⟨reason, status, hrun⟩ := c.create_rejected he heven env hio hn rigorFlags
    rw [hrun]
    exact errorNull_none fun _ => trivial

/-- What a creator ends with: the plan its planner makes between its extents. -/
theorem creator_ends (h : G → w.Granted) (c : Creator) (he : (problem.longN i).Pencil i)
    (heven : (problem.longN i).size 3 % 2 = 0) (hpos : 0 < (problem.longN i).size (i.castAdd 1))
    (inp out : Ptr) (rigorFlags packedFlags : Flags) :
    Ends (c.create env (some problem) (i : Nat) (some inp) (some out) rigorFlags packedFlags) w
      (FftCreated rigorFlags
        (fun f => (inp = out → c.Accepts (problem.longN i) i packedFlags) ∧
          PlanBetween c.type i inp out (c.input (problem.longN i) i packedFlags)
            (c.output (problem.longN i) i packedFlags) rigorFlags f)
        (G ∧ (inp = out → c.Accepts (problem.longN i) i packedFlags))) := by
  by_cases hacc : inp = out → c.Accepts (problem.longN i) i packedFlags
  · rw [c.create_accepted he heven env (fun hio => hacc (Option.some.inj hio)) rigorFlags]
    refine (planner_ends env h (c.sides he heven hpos hacc) rigorFlags).mono fun o w' hc => ?_
    exact ⟨fun f hf => ⟨⟨hacc, (hc.sound f hf).1⟩, fun hg => (hc.sound f hf).2 hg.1⟩,
      fun hg => hc.complete hg.1⟩
  · obtain ⟨hio, hn⟩ := Classical.not_imp.mp hacc
    obtain ⟨reason, status, hrun⟩ :=
      c.create_rejected he heven env (congrArg some hio) hn rigorFlags
    rw [hrun]
    exact errorNull_none fun _ => .of_refused fun hg _ => hacc hg.2

/-! ## Inverse plans -/

/-- What the creation of an inverse does with the plan made. -/
def inverseChecked (p : FftPlan) : Option FftPlan → C (Option FftPlan)
  | none => throw .nullRead
  | some retval => do
    if fftwExtentsCmp p.input retval.output ≠ 0 then
      report "plan_to_invert->input != retval->output" .esanity
      fftwPlanDestroy (some retval)
      return none
    if fftwExtentsCmp p.output retval.input ≠ 0 then
      report "plan_to_invert->output != retval->input" .esanity
      fftwPlanDestroy (some retval)
      return none
    return some retval

theorem fftwPlanCreateInverse_eq {p : FftPlan} (h : p.type ≠ .unspecified) (inp out : Option Ptr)
    (rigorFlags : Flags) :
    fftwPlanCreateInverse env (some p) inp out rigorFlags =
      planner env p.type.inverse (p.longNi : Nat) inp out rigorFlags p.output p.input >>=
        inverseChecked p := by
  rw [fftwPlanCreateInverse]
  cases htype : p.type with
  | unspecified => exact absurd htype h
  | c2cForward => exact bind_congr fun o => (by cases o <;> rfl)
  | c2cBackward => exact bind_congr fun o => (by cases o <;> rfl)
  | c2rBackward => exact bind_congr fun o => (by cases o <;> rfl)
  | r2cForward => exact bind_congr fun o => (by cases o <;> rfl)

/-- The plan the way back is what the planner makes: the extents it is made between are those it is
checked against. Where the planner makes none, they are read through a null pointer. -/
theorem inverse_run (env : Env) {p : FftPlan} {inPlace : Prop}
    (hs : Sides p.longNi p.type inPlace p.input p.output) (inp out : Option Ptr)
    (rigorFlags : Flags) (w : World) :
    fftwPlanCreateInverse env (some p) inp out rigorFlags w =
      match planner env p.type.inverse (p.longNi : Nat) inp out rigorFlags p.output p.input w with
      | .ok (some q, w') => .ok (some q, w')
      | .ok (none, _) => .error .nullRead
      | .error e => .error e := by
  have htype : p.type ≠ .unspecified := fun ht => by
    rw [ht] at hs
    exact hs
  rw [fftwPlanCreateInverse_eq htype]
  cases hrun :
      planner env p.type.inverse (p.longNi : Nat) inp out rigorFlags p.output p.input w with
  | error e => rw [fault_bind hrun]
  | ok r =>
    obtain ⟨o, w'⟩ := r
    rw [run_bind hrun]
    cases o with
    | none => rfl
    | some q =>
      obtain ⟨_, _, -, -, _, _, -, hq⟩ := planner_of_run hs.inverse hrun
      rw [inverseChecked, hq.input_eq, hq.output_eq, fftwExtentsCmp_self, fftwExtentsCmp_self]
      rfl

theorem inverse_ends (env : Env) (h : G → w.Granted) {p : FftPlan} {inp out : Ptr}
    (hs : Sides p.longNi p.type (inp = out) p.input p.output) (rigorFlags : Flags) :
    ∃ o w', FftCreated rigorFlags (PlanBetween p.type.inverse p.longNi inp out p.output p.input
        rigorFlags) G o w' ∧
      fftwPlanCreateInverse env (some p) (some inp) (some out) rigorFlags w =
        match o with
        | some q => .ok (some q, w')
        | none => .error .nullRead := by
  obtain ⟨o, w', hrun, hc⟩ := planner_ends env h hs.inverse rigorFlags
  refine ⟨o, w', hc, ?_⟩
  rw [inverse_run env hs, hrun]
  cases o <;> rfl

end Creation

end Underling
