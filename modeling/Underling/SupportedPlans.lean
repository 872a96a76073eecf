import Underling.Inverses
import Underling.Passes

/-!
# Underling.SupportedPlans

Real transforms in place. The library supports them where the long direction follows the fields on
the complex side and the real side is not packed, and the public creators check that.

* `inPlaceSides_iff`: the pencils for which the two sides take the same places.
* `in_place_supported_iff`: which of the plans a caller can hold are supported. Inverses are not
  checked.
-/

namespace Underling

open Runs C Strided Sweep

/-- The long direction follows the fields on the complex side, and the pencils take the same
places on both sides. -/
structure InPlaceSides (i : Fin 3) (c r : FftwExtents) : Prop where
  fast : c.order 2 = i.castAdd 2
  same : ∀ k : Fin 3, k ≠ i → r.stride (k.castAdd 2) = c.stride (k.castAdd 2)

/-- Executed in any one buffer, the FFT of the plan works on lines that share no address. -/
def FftPlan.LinesApart (f : FftPlan) : Prop :=
  ∃ g, f.planFftw.map (·.desc) = some (.guru g) ∧
    ∀ x, ∃ p, g.pass? (fftPointers f.type f.offset x x) = some p ∧ p.pass.Separate

/-- The plan is no real transform in place, or a supported one. -/
def FftPlan.Supported (f : FftPlan) : Prop :=
  f.inPlace = true →
    match f.type with
    | .c2rBackward => InPlaceSides f.longNi f.input f.output ∧ f.LinesApart
    | .r2cForward => InPlaceSides f.longNi f.output f.input ∧ f.LinesApart
    | _ => True

section Sides

variable {e : Extents} {i : Fin 3} {packedFlags : Flags}

theorem SamePlace.inPlaceSides {c r : FftwExtents} (hr : RealSide i r) (hs : SamePlace i c r) :
    InPlaceSides i c r := by
  refine ⟨by rw [hs.order_eq, hr.order_two], fun k hk => ?_⟩
  exact hs.stride_eq _ (castAdd_ne hk) (three_ne_long k).symm (four_ne_long k).symm

theorem order_one_iff : (complexExtents e).order 2 = i.castAdd 2 ↔ e.order 1 = i.castAdd 1 :=
  ⟨fun h => Fin.castSucc_injective 4 h, fun h => congrArg Fin.castSucc h⟩

section Packed

variable (he : e.Pencil i) (heven : e.size 3 % 2 = 0) (hlong : e.order 1 = i.castAdd 1)
include he heven hlong

theorem packed_stride : (realExtents e (i.castAdd 1)).packed (e.order 2).castSucc =
    e.size 3 / 2 * (realExtents e (i.castAdd 1)).size (i.castAdd 2) := by
  have hr := realSide he heven hlong
  have h3 : (realExtents e (i.castAdd 1)).packed ((realExtents e (i.castAdd 1)).order 3) = _ :=
    Layout.packed_order hr.order_injective 3
  refine h3.trans ?_
  show 1 * (realExtents e (i.castAdd 1)).size ((realExtents e (i.castAdd 1)).order 0) *
    (realExtents e (i.castAdd 1)).size ((realExtents e (i.castAdd 1)).order 1) *
    (realExtents e (i.castAdd 1)).size ((realExtents e (i.castAdd 1)).order 2) = _
  rw [hr.order_zero, hr.order_one, hr.order_two, hr.size_four, Nat.mul_one, Nat.one_mul]
  rfl

theorem packed_samePlace (hzero : e.size 3 = 0) :
    SamePlace i (complexExtents e)
      (packStridesAccordingToOrder (realExtents e (i.castAdd 1))) := by
  have hc := complexSide he heven
  have hr := realSide he heven hlong
  refine ⟨rfl, fun k _ h3 h4 => ?_⟩
  obtain ⟨m, rfl⟩ := Finite.injective_iff_surjective.mp hc.order_injective k
  have hm : ((1 : Fin 5) : Nat) < m := by
    have h0 : m ≠ 0 := fun h => h4 (h ▸ hc.order_zero)
    have h1 : m ≠ 1 := fun h => h3 (h ▸ hc.order_one)
    simp only [ne_eq, Fin.ext_iff] at h0 h1
    simp at h0 h1 ⊢
    omega
  have hfields : ∀ size : Fin 5 → Nat, size 3 = e.size 3 / 2 →
      size ((complexExtents e).order 1) = 0 := fun size hsize => by
    rw [hc.order_one, hsize, hzero]
  rw [hc.packed, Layout.below_eq_zero (hfields _ (complexExtents_three e)) hm]
  show (realExtents e (i.castAdd 1)).packed ((realExtents e (i.castAdd 1)).order m) = 0
  rw [Layout.packed_order hr.order_injective]
  exact Layout.below_eq_zero (hfields _ rfl) hm

end Packed

theorem samePlace_of_allowed (he : e.Pencil i) (heven : e.size 3 % 2 = 0) {c : Creator}
    (hreal : c.real = true)
    (h : e.order 1 = i.castAdd 1 ∧ (¬ Packs i packedFlags ∨ e.size 3 = 0)) :
    SamePlace i (complexExtents e) (c.packedSide e i packedFlags) := by
  rw [Creator.packedSide, Creator.side, if_pos hreal, adjusted_of_eq h.1]
  by_cases hp : Packs i packedFlags
  · rw [if_pos hp]
    exact packed_samePlace he heven h.1 (h.2.resolve_left (not_not.mpr hp))
  · rw [if_neg hp]
    exact samePlace_of i e

/-- Pencils whose complex and real side take the same places. -/
theorem inPlaceSides_iff (he : e.Pencil i) (heven : e.size 3 % 2 = 0)
    (hpos : 0 < e.size (i.castAdd 1)) {c : Creator} (hreal : c.real = true) :
    InPlaceSides i (complexExtents e) (c.packedSide e i packedFlags) ↔
      e.order 1 = i.castAdd 1 ∧ (¬ Packs i packedFlags ∨ e.size 3 = 0) := by
  have hreals : RealSide i (c.packedSide e i packedFlags) ∧
      Halves i (complexExtents e) (c.packedSide e i packedFlags) ∧ (False → _) :=
    realSides_packed he heven hpos hreal False.elim
  obtain ⟨hr, hh, -⟩ := hreals
  constructor
  · intro h
    have hlong : e.order 1 = i.castAdd 1 := order_one_iff.mp h.fast
    refine ⟨hlong, or_iff_not_imp_left.mpr fun hp => ?_⟩
    rw [not_not] at hp
    -- the next direction, which comes at once after the lines when they are packed
    obtain ⟨k, hk⟩ : ∃ k : Fin 3, e.order 2 = k.castAdd 1 := by
      refine ⟨(e.order 2).castPred (he.order_ne (by decide)), ?_⟩
      exact (Fin.castSucc_castPred _ _).symm
    have hne : k ≠ i := by
      rintro rfl
      exact absurd (he.order_injective (hk.trans hlong.symm)) (by decide)
    have hsame := h.same k hne
    rw [Creator.packedSide, if_pos hp, Creator.side, if_pos hreal, adjusted_of_eq hlong] at hsame hh
    have hstride := packed_stride he heven hlong
    rw [hk] at hstride
    have hcomplex : (complexExtents e).stride (k.castAdd 2) = e.size 3 * e.size (i.castAdd 1) := by
      rw [castAdd_two, complexExtents_stride (Extents.Pencil.long_ne k), ← hk, he.strides.2.2.1,
        hlong]
    rw [hcomplex] at hsame
    have hhalf : e.size (i.castAdd 1) =
        (realExtents e (i.castAdd 1)).size (i.castAdd 2) / 2 + 1 := by
      rw [← complexExtents_domain]
      exact hh.half
    have hpacked := hstride.symm.trans hsame
    generalize (realExtents e (i.castAdd 1)).size (i.castAdd 2) = n at hpacked hhalf
    have htwice : e.size 3 = 2 * (e.size 3 / 2) := by omega
    by_contra hzero
    rw [htwice, Nat.mul_comm 2, Nat.mul_assoc,
      show e.size 3 / 2 * 2 / 2 = e.size 3 / 2 by omega] at hpacked
    have := Nat.eq_of_mul_eq_mul_left (by omega) hpacked
    omega
  · intro h
    exact (samePlace_of_allowed he heven hreal h).inPlaceSides hr

end Sides

/-! ## The plans a caller can hold -/

section Plans

variable {i k1 k2 : Fin 3} {c r : FftwExtents} {a : Ptr} {rigorFlags : Flags} {f : FftPlan}

/-- The FFT of an in-place complex-to-real plan, where the sides take the same places. -/
theorem linesApart_c2r (hc : ComplexSide c) (hr : RealSide i r) (hh : Halves i c r)
    (hs : SamePlace i c r) (hf : PlanBetween .c2rBackward i a a c r rigorFlags f) :
    f.LinesApart := by
  obtain ⟨k1, k2, ho, hf⟩ := hf
  refine ⟨_, hf.fft_desc, fun x => ?_⟩
  rw [hf.type_eq, hf.offset_eq]
  have hbeq : (a == a) = true := beq_self_eq_true a
  simp only [stagesOf, c2rStages, hbeq, if_true]
  exact ⟨_, rfl, c2r_separate_within ho hc hr hh hs x x⟩

theorem linesApart_r2c (hc : ComplexSide c) (hr : RealSide i r) (hh : Halves i c r)
    (hs : SamePlace i c r) (hf : PlanBetween .r2cForward i a a r c rigorFlags f) :
    f.LinesApart := by
  obtain ⟨k1, k2, ho, hf⟩ := hf
  refine ⟨_, hf.fft_desc, fun x => ?_⟩
  rw [hf.type_eq, hf.offset_eq]
  have hbeq : (a == a) = true := beq_self_eq_true a
  simp only [stagesOf, r2cStages, hbeq, if_true]
  exact ⟨_, rfl, r2c_separate_within ho hr hc hh hs x x⟩

end Plans

/-- What the public creators check of a real transform in place: the long direction follows the
fields, and the real side is not packed, unless there are no fields. -/
def Origin.Allows (o : Origin) : Prop :=
  ∀ (p : Problem) (i : Fin 3), o.problem = some p → o.longNi = (i : Nat) →
    (p.longN i).order 1 = i.castAdd 1 ∧ (¬ Packs i o.packedFlags ∨ p.howmany = 0)

theorem Known.allows_iff {env : Env} {o : Origin} {p : Problem} {i : Fin 3} {a b : Ptr}
    {f : FftPlan} (h : Known env o p i a b f) : o.Allows ↔
      (p.longN i).order 1 = i.castAdd 1 ∧ (¬ Packs i o.packedFlags ∨ (p.longN i).size 3 = 0) := by
  rw [h.isProblem.size_three]
  constructor
  · intro hall
    exact hall p i h.problem_eq h.longNi_eq
  · intro hi p' i' hp hlong
    have hp' : some p' = some p := hp.symm.trans h.problem_eq
    have hi' : ((i' : Nat) : Int) = (i : Nat) := hlong.symm.trans h.longNi_eq
    cases hp'
    obtain rfl : i' = i := Fin.ext (Int.natCast_inj.mp hi')
    exact hi

theorem Known.real {env : Env} {o : Origin} {p : Problem} {i : Fin 3} {a b : Ptr} {f : FftPlan}
    (h : Known env o p i a b f) (hreal : o.creator.real = true) :
    let c := complexExtents (p.longN i)
    let r := o.creator.packedSide (p.longN i) i o.packedFlags
    ∃ rigorFlags, PlanBetween .c2rBackward i a b c r rigorFlags f ∨
      PlanBetween .r2cForward i a b r c rigorFlags f := by
  obtain ⟨rigorFlags, hb⟩ := h.between
  refine ⟨rigorFlags, ?_⟩
  generalize o.creator = c at hb hreal ⊢
  cases c with
  | c2cForward => cases hreal
  | c2cBackward => cases hreal
  | c2rBackward => exact hb
  | r2cForward => exact hb.symm

theorem Known.complex {env : Env} {o : Origin} {p : Problem} {i : Fin 3} {a b : Ptr} {f : FftPlan}
    (h : Known env o p i a b f) (hreal : o.creator.real = false) : f.Supported := by
  have htype : f.type = .c2cForward ∨ f.type = .c2cBackward := by
    obtain ⟨_, ⟨_, _, -, hf⟩ | ⟨_, _, -, hf⟩⟩ := h.between
    all_goals
      rw [hf.type_eq]
      generalize o.creator = c at hreal ⊢
      cases c with
      | c2cForward => simp [Creator.type, TransformType.inverse]
      | c2cBackward => simp [Creator.type, TransformType.inverse]
      | c2rBackward => cases hreal
      | r2cForward => cases hreal
  intro _
  rcases htype with ht | ht <;> rw [ht] <;> exact trivial

theorem Known.supported {env : Env} {o : Origin} {p : Problem} {i : Fin 3} {a b : Ptr} {f : FftPlan}
    (hk : Known env o p i a b f) :
    f.Supported ↔ (some a = some b ∧ o.creator.real = true → o.Allows) := by
  by_cases hreal : o.creator.real = true
  swap
  · exact iff_of_true (hk.complex (Bool.eq_false_iff.mpr hreal)) fun hr => absurd hr.2 hreal
  have he := hk.isProblem.pencil i
  have hpos := hk.isProblem.size_long_pos i
  have hc := complexSide he hk.even
  have hreals : RealSide i (o.creator.packedSide (p.longN i) i o.packedFlags) ∧
      Halves i (complexExtents (p.longN i)) (o.creator.packedSide (p.longN i) i o.packedFlags) ∧
      (False → _) :=
    realSides_packed he hk.even hpos hreal False.elim
  obtain ⟨hr, hh, -⟩ := hreals
  have hsides : InPlaceSides i _ (o.creator.packedSide (p.longN i) i o.packedFlags) ↔ _ :=
    inPlaceSides_iff he hk.even hpos hreal
  rw [hk.allows_iff, ← hsides]
  have hplace : InPlaceSides i (complexExtents (p.longN i))
      (o.creator.packedSide (p.longN i) i o.packedFlags) → SamePlace i (complexExtents (p.longN i))
        (o.creator.packedSide (p.longN i) i o.packedFlags) :=
    fun hin => samePlace_of_allowed he hk.even hreal (hsides.mp hin)
  have hin : ∀ {type input output rigorFlags}, PlanBetween type i a b input output rigorFlags f →
      (f.inPlace = true ↔ some a = some b ∧ o.creator.real = true) := by
    rintro _ _ _ _ ⟨_, _, -, hf⟩
    rw [hf.inPlace_eq]
    simp [hreal]
  obtain ⟨rigorFlags, hf | hf⟩ := hk.real hreal
  · rw [FftPlan.Supported, hin hf]
    refine forall_congr' fun hio => ?_
    obtain rfl : a = b := Option.some.inj hio.1
    have hlines := fun h => linesApart_c2r hc hr hh (hplace h) hf
    obtain ⟨_, _, -, hf⟩ := hf
    rw [hf.type_eq, hf.longNi_eq, hf.input_eq, hf.output_eq]
    exact ⟨And.left, fun h => ⟨h, hlines h⟩⟩
  · rw [FftPlan.Supported, hin hf]
    refine forall_congr' fun hio => ?_
    obtain rfl : a = b := Option.some.inj hio.1
    have hlines := fun h => linesApart_r2c hc hr hh (hplace h) hf
    obtain ⟨_, _, -, hf⟩ := hf
    rw [hf.type_eq, hf.longNi_eq, hf.input_eq, hf.output_eq]
    exact ⟨And.left, fun h => ⟨h, hlines h⟩⟩

/-- Of the plans a caller can hold, those in place and of real transforms are supported exactly when
the public creators would have allowed them in place. -/
theorem in_place_supported_iff {env : Env} {o : Origin} {inp out : Option Ptr} {f : FftPlan}
    (h : Obtained env o inp out f) :
    f.Supported ↔ (inp = out ∧ o.creator.real = true → o.Allows) := by
  obtain ⟨p, i, a, b, rfl, rfl, hk⟩ := h.known
  exact hk.supported

/-- A real transform out of place, long in `n2` where that direction is the slowest: its inverse in
place is handed out and not supported. -/
theorem in_place_supported_fails :
    ∃ (job : Job .reference) (f g : FftPlan), (job.n0 = 4 ∧ job.n1 = 5 ∧ job.n2 = 3) ∧
      (job.pA = 2 ∧ job.pB = 3) ∧ job.flags = TRANSPOSED_LONG_N2 ∧
      Obtained .reference ⟨.c2rBackward, some (job.problem 1 1), 2, 0⟩ (some 0) (some 1) f ∧
      Obtained .reference ⟨.c2rBackward, some (job.problem 1 1), 2, 0⟩ (some 0) (some 0) g ∧
      (∃ w, fftwPlanCreateInverse .reference (some f) (some 0) (some 0) FFTW.ESTIMATE .granting =
        .ok (some g, w)) ∧ ¬ g.Supported := by
  obtain ⟨job, hn, hp, hhow, hflags, -⟩ :=
    exists_admitted 4 5 3 2 3 2 TRANSPOSED_LONG_N2 (by decide)
  have ha : 1 < job.pA := by omega
  have hb : 1 < job.pB := by omega
  obtain ⟨f, hf⟩ := job.exists_obtained ha hb (by omega) .c2rBackward 2 0 1 0
    fun h => absurd h (by decide)
  obtain ⟨g, w, hrun⟩ := hf.exists_inverse 0 0
  have hg := hf.inverse hrun
  refine ⟨job, f, g, hn, hp, hflags, hf, hg, ⟨w, hrun⟩, ?_⟩
  obtain ⟨p, i, a, b, hinp, hout, hk⟩ := hg.known
  rw [hk.supported]
  intro hall
  obtain ⟨horder, -⟩ := hall ⟨hinp.symm.trans hout, rfl⟩ (job.problem 1 1) 2 rfl rfl
  rw [job.longN_eq ha hb] at horder
  have hstorage : (job.decomp.longN 1 1 2).order 1 = storageOrder job.flags 2 1 := rfl
  rw [hstorage, hflags] at horder
  exact absurd horder (by decide)

/-- Long in `n1`, every real transform is supported in place. -/
theorem in_place_supported_longN1 :
    ∃ (job : Job .reference) (f : FftPlan), (job.n0 = 4 ∧ job.n1 = 5 ∧ job.n2 = 3) ∧
      (job.pA = 2 ∧ job.pB = 3) ∧
      Obtained .reference ⟨.c2rBackward, some (job.problem 1 1), 1, 0⟩ (some 0) (some 0) f ∧
      (f.Supported ↔ (some (0 : Ptr) = some 0 ∧ Creator.c2rBackward.real = true →
        Origin.Allows ⟨.c2rBackward, some (job.problem 1 1), 1, 0⟩)) := by
  obtain ⟨job, hn, hp, hhow, -, -⟩ := exists_admitted 4 5 3 2 3 2 0 (by decide)
  have ha : 1 < job.pA := by omega
  have hb : 1 < job.pB := by omega
  obtain ⟨f, hf⟩ := job.exists_obtained ha hb (by omega) .c2rBackward 1 0 0 0
    fun _ => job.accepts_longN1 ha hb _ _
  exact ⟨job, f, hn, hp, hf, in_place_supported_iff hf⟩

end Underling
