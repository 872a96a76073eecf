import Underling.FftMemory
import Underling.PencilStorage

/-!
# Underling.FftAddressing

How the two sides of an FFT plan address memory.

* `Collisionless`: no two indices of a side share an address, and all addresses lie in the pencil.
* `OfPencil`: a complex side uses every address of the pencil, two real fields for each of its own.
* `fft_addressing`: the sides of a plan do, and packed real sides leave no address out.
-/

namespace Underling

open Runs C Strided

/-- Components and fields are the fastest directions, and different indices of the side have
different addresses below `n`. -/
structure Collisionless (s : FftwExtents) (n : Nat) : Prop where
  order_bijective : Function.Bijective s.order
  order_zero : s.order 0 = 4
  order_one : s.order 1 = 3
  injOn : Set.InjOn s.addr {j | s.InBox j}
  mapsTo : Set.MapsTo s.addr {j | s.InBox j} (Set.Iio n)

/-- The index of a pencil at which a component of a complex field is stored. -/
def realField (j : Fin 5 → Nat) : Fin 4 → Nat := ![j 0, j 1, j 2, 2 * j 3 + j 4]

/-- A complex side stored in the place of a pencil. -/
structure OfPencil (s : FftwExtents) (e : Extents) : Prop where
  bijOn : Set.BijOn s.addr {j | s.InBox j} (Set.Iio e.extent)
  inBox : ∀ j, s.InBox j → e.InBox (realField j)
  addr_eq : ∀ j, s.addr j = e.addr (realField j)
  pack_eq : packStridesAccordingToOrder s = s

/-- The sides of a plan: which is made of the adjusted pencil `e'`, and what they look like. -/
def Creator.Addresses (c : Creator) (e e' : Extents) (i : Fin 3) (packedFlags : Flags)
    (input output : FftwExtents) : Prop :=
  match c with
  | c2cForward | c2cBackward =>
    OfPencil input e ∧ OfPencil output e' ∧ output.order 2 = i.castAdd 2
  | c2rBackward =>
    OfPencil input e ∧ output.order 2 = i.castAdd 2 ∧
      (Packs i packedFlags →
        Set.BijOn output.addr {j | output.InBox j} (Set.Iio (∏ k, output.size k)))
  | r2cForward =>
    OfPencil output e ∧ input.order 2 = i.castAdd 2 ∧
      (Packs i packedFlags →
        Set.BijOn input.addr {j | input.InBox j} (Set.Iio (∏ k, input.size k)))

section Sides

variable {i : Fin 3} {e : Extents} {s : FftwExtents} {n : Nat}

theorem Interleaved.collisionless {parts : Nat} (h : Interleaved s parts) (hn : s.Nested)
    (hroom : s.room ≤ n) : Collisionless s n := by
  refine ⟨Finite.injective_iff_bijective.mp h.order_injective, h.order_zero, h.order_one, ?_, ?_⟩
  · intro j hj j' hj'
    exact hn.addr_inj hj hj'
  · intro j hj
    exact (hn.addr_lt hj).trans_le hroom

theorem complexExtents_addr (e : Extents) (j : Fin 5 → Nat) :
    (complexExtents e).addr j = e.addr (realField j) := by
  have h0 : (complexExtents e).stride 0 = e.stride 0 := complexExtents_stride (k := 0) (by decide)
  have h1 : (complexExtents e).stride 1 = e.stride 1 := complexExtents_stride (k := 1) (by decide)
  have h2 : (complexExtents e).stride 2 = e.stride 2 := complexExtents_stride (k := 2) (by decide)
  have h3 : (complexExtents e).stride 3 = e.stride 3 * 2 := rfl
  have h4 : (complexExtents e).stride 4 = e.stride 3 := rfl
  rw [Layout.addr, Layout.addr, Fin.sum_univ_five, Fin.sum_univ_four, h0, h1, h2, h3, h4]
  show _ = j 0 * e.stride 0 + j 1 * e.stride 1 + j 2 * e.stride 2 + (2 * j 3 + j 4) * e.stride 3
  ring

theorem complexExtents_inBox (heven : e.size 3 % 2 = 0) {j : Fin 5 → Nat}
    (hj : (complexExtents e).InBox j) : e.InBox (realField j) := by
  have h3 : j 3 < e.size 3 / 2 := hj 3
  have h4 : j 4 < 2 := hj 4
  intro k
  fin_cases k
  · exact hj 0
  · exact hj 1
  · exact hj 2
  · show 2 * j 3 + j 4 < e.size 3
    omega

theorem Extents.Pencil.ofPencil (he : e.Pencil i) (heven : e.size 3 % 2 = 0)
    (hextent : e.extent = ∏ k, e.size k) : OfPencil (complexExtents e) e := by
  have hc := complexSide he heven
  refine ⟨?_, fun j => complexExtents_inBox heven, complexExtents_addr e, hc.pack_eq⟩
  rw [hextent, ← complex_room he, Layout.room_packed hc.order_injective hc.packed]
  exact Layout.addr_bijOn hc.nested (Layout.room_packed hc.order_injective hc.packed)

theorem pack_bijOn (h : RealSide i s) :
    Set.BijOn (packStridesAccordingToOrder s).addr {j | (packStridesAccordingToOrder s).InBox j}
      (Set.Iio (∏ k, (packStridesAccordingToOrder s).size k)) := by
  have hp : ∀ k, (packStridesAccordingToOrder s).stride ((packStridesAccordingToOrder s).order k) =
      Layout.below s.size s.order k := Layout.packed_order h.order_injective
  exact Layout.addr_bijOn h.pack.nested (Layout.room_packed h.order_injective hp)

theorem Creator.addresses (c : Creator) (he : e.Pencil i) (heven : e.size 3 % 2 = 0)
    (hextent : e.extent = ∏ k, e.size k) (packedFlags : Flags) :
    c.Addresses e (e.adjusted i) i packedFlags (c.input e i packedFlags)
      (c.output e i packedFlags) := by
  obtain ⟨hp, hlong, hsize⟩ := adjusted_spec he
  have heven' : (e.adjusted i).size 3 % 2 = 0 := hsize ▸ heven
  have hstored := he.ofPencil heven hextent
  have hcomplex : c.real = false → OfPencil (c.packedSide e i packedFlags) (e.adjusted i) ∧
      (c.packedSide e i packedFlags).order 2 = i.castAdd 2 := by
    intro hreal
    have hside : c.side e i = complexExtents (e.adjusted i) := if_neg (by simp [hreal])
    rw [packedSide, hside, (complexSide hp heven').pack_eq, ite_self]
    refine ⟨hp.ofPencil heven' ?_, congrArg Fin.castSucc hlong⟩
    rw [(e.adjusted_parts i).2.2.2, hsize, hextent]
  have hreal : c.real = true → (c.packedSide e i packedFlags).order 2 = i.castAdd 2 ∧
      (Packs i packedFlags → Set.BijOn (c.packedSide e i packedFlags).addr
        {j | (c.packedSide e i packedFlags).InBox j}
        (Set.Iio (∏ k, (c.packedSide e i packedFlags).size k))) := by
    intro hreal
    have hr := realSide hp heven' hlong
    refine ⟨?_, fun hpacks => ?_⟩
    · rw [packedSide, side, if_pos hreal]
      split
      · exact hr.pack.order_two
      · exact hr.order_two
    · rw [packedSide, if_pos hpacks, side, if_pos hreal]
      exact pack_bijOn hr
  cases c with
  | c2cForward => exact ⟨hstored, hcomplex rfl⟩
  | c2cBackward => exact ⟨hstored, hcomplex rfl⟩
  | c2rBackward => exact ⟨hstored, hreal rfl⟩
  | r2cForward => exact ⟨hstored, hreal rfl⟩

theorem Sides.collisionless {type : TransformType} {inPlace : Prop} {input output : FftwExtents}
    (h : Sides i type inPlace input output) (hin : input.room ≤ n) (hout : output.room ≤ n) :
    Collisionless input n ∧ Collisionless output n := by
  have hcomplex : ∀ {s}, ComplexSide s → s.room ≤ n → Collisionless s n := fun hs hroom =>
    hs.toInterleaved.collisionless hs.nested hroom
  have hreal : ∀ {s}, RealSide i s → s.room ≤ n → Collisionless s n := fun hs hroom =>
    hs.toInterleaved.collisionless hs.nested hroom
  cases type with
  | unspecified => exact h.elim
  | c2cForward => exact ⟨hcomplex h.1 hin, hcomplex h.2.1 hout⟩
  | c2cBackward => exact ⟨hcomplex h.1 hin, hcomplex h.2.1 hout⟩
  | c2rBackward => exact ⟨hcomplex h.1 hin, hreal h.2.1 hout⟩
  | r2cForward => exact ⟨hreal h.1 hin, hcomplex h.2.1 hout⟩

end Sides

/-- On every process, the sides of a plan address the pencil without collision. The adjusted pencil
`e'` is what `adjust_for_fast_stride_in_long_direction` makes of the pencil. -/
theorem fft_addressing {env : Env} (job : Job env) {a b : Nat} (ha : a < job.pA) (hb : b < job.pB)
    (heven : job.howmany % 2 = 0) (c : Creator) (i : Fin 3) {inp out : Ptr}
    {rigorFlags packedFlags : Flags} {f : FftPlan} {w w' : World}
    (hf : job.fftCreate c a b i inp out rigorFlags packedFlags w = .ok (some f, w')) :
    (Collisionless f.input ((job.problem a b).longN i).extent ∧
      Collisionless f.output ((job.problem a b).longN i).extent) ∧
      ∃ e' nrotate, adjustForFastStrideInLongDirection ((job.problem a b).longN i) (i : Nat) =
          pure (e', nrotate) ∧
        c.Addresses ((job.problem a b).longN i) e' i packedFlags f.input f.output := by
  have hmade := Made.of_run ha hb heven hf
  have he := job.pencil ha hb i
  have heven' := job.size_three_even ha hb i heven
  have hextent := (job.isProblem ha hb).extent_eq i
  obtain ⟨hin, hout⟩ := c.rooms he heven' packedFlags
  rw [← hextent, ← hmade.input_eq] at hin
  rw [← hextent, ← hmade.output_eq] at hout
  obtain ⟨nrotate, hadjust⟩ := adjust_pencil he
  refine ⟨hmade.sides.collisionless hin hout, _, nrotate, hadjust, ?_⟩
  rw [hmade.input_eq, hmade.output_eq]
  exact c.addresses he heven' hextent packedFlags

/-- A packed complex-to-real plan of a transposed pencil. -/
theorem fft_addressing_packed :
    ∃ (job : Job .reference) (f : FftPlan) (e' : Extents), (job.n0 = 4 ∧ job.n1 = 5 ∧ job.n2 = 3) ∧
      (job.pA = 2 ∧ job.pB = 3) ∧ job.howmany = 4 ∧ job.flags = TRANSPOSED_LONG_N2 ∧
      (∃ w, job.fftCreate .c2rBackward 1 0 2 0 1 FFTW.ESTIMATE FFTW_PACKED_LONG_N2 .granting =
        .ok (some f, w)) ∧
      Collisionless f.output ((job.problem 1 0).longN 2).extent ∧
      Creator.c2rBackward.Addresses ((job.problem 1 0).longN 2) e' 2 FFTW_PACKED_LONG_N2 f.input
        f.output := by
  obtain ⟨job, hn, hp, hhow, hflags, -⟩ :=
    exists_admitted 4 5 3 2 3 4 TRANSPOSED_LONG_N2 (by decide)
  have ha : 1 < job.pA := by omega
  have hb : 0 < job.pB := by omega
  have heven : job.howmany % 2 = 0 := by omega
  obtain ⟨f, w, hrun⟩ := job.exists_fftCreate ha hb heven .c2rBackward 2 0 1
    (show FFTW.ESTIMATE.has nonRigorMask = false by decide) FFTW_PACKED_LONG_N2
    fun h => absurd h (by decide)
  obtain ⟨⟨-, hout⟩, e', -, -, haddr⟩ := fft_addressing job ha hb heven .c2rBackward 2 hrun
  exact ⟨job, f, e', hn, hp, hhow, hflags, ⟨w, hrun⟩, hout, haddr⟩

end Underling
