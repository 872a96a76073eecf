import Underling.LocalMemory
import Underling.Passes
import Underling.RoundTrip

/-!
# Underling.FftMemory

The memory FFT plans touch.

* `stages_within`: the stages of a plan stay in the rooms of its two sides.
* `Creator.rooms`: the sides a creator makes of a pencil need no more room than the pencil.
* `fft_memory_suffices`: plans and their inverses stay in the memory asked for.
-/

namespace Underling

open Runs C Strided Sweep

/-- Executed on the given arrays of the buffers `x` and `y`, the plan touches only their first `n`
values. -/
def Guru.Within (g : Guru) (ptrs : List Pointer) (x y : Ptr) (n : Nat) : Prop :=
  ∃ p, g.pass? ptrs = some p ∧ ∀ loc, p.pass.Touches loc → (loc.1 = x ∨ loc.1 = y) ∧ loc.2 < n

/-- All stages of the plan do. -/
structure Stages.Within (s : Stages) (type : TransformType) (x y : Ptr) (n : Nat) : Prop where
  preorder : ∀ g, s.preorder = some g → g.Within [⟨x, 0⟩, ⟨y, 0⟩] x y n
  fft : s.fft.Within (fftPointers type s.offset x y) x y n
  postorder : ∀ g, s.postorder = some g → g.Within [⟨x, 0⟩, ⟨y, 0⟩] x y n

theorem within_of_box {ι κ : Type} {p : Pass Ptr ι κ} {g : Guru} {ptrs : List Pointer} {x y : Ptr}
    {n : Nat} (hp : g.pass? ptrs = some ⟨p⟩) {size : Fin 5 → Nat} {L L' H H' : FftwExtents}
    {ks : List (Fin 5)} {inPos inPos' : ι → Fin 5 → Nat} {outPos outPos' : κ → Fin 5 → Nat}
    (h : BoxPass p size L L' ks x y inPos outPos) (hin : BoxPass.Slots H size ks inPos')
    (hout : BoxPass.Slots H' size ks outPos')
    (hread : ∀ j s, L.addr (merge ks j (inPos s)) = H.addr (merge ks j (inPos' s)))
    (hwrite : ∀ j o, L'.addr (merge ks j (outPos o)) = H'.addr (merge ks j (outPos' o)))
    (hn : H.room ≤ n) (hn' : H'.room ≤ n) : g.Within ptrs x y n := by
  refine ⟨⟨p⟩, hp, fun loc ht => ?_⟩
  rcases h.touches_lt hin hout hread hwrite ht with ⟨hb, hlt⟩ | ⟨hb, hlt⟩
  · exact ⟨.inl hb, hlt.trans_le hn⟩
  · exact ⟨.inr hb, hlt.trans_le hn'⟩

/-! ## Rooms -/

section Rooms

variable {i : Fin 3} {c r : FftwExtents} {e : Extents}

theorem split_room (hc : ComplexSide c) : (splitExtents c).room = c.room := by
  show (splitExtents c).size (c.order 4) * (splitExtents c).stride (c.order 4) = _
  rw [splitExtents_stride (hc.order_ne_three (by decide)) (hc.order_ne_four (by decide))]
  rfl

theorem padded_room (hr : RealSide i r) : (paddedExtents i c r).room = r.room := by
  show (paddedExtents i c r).size (r.order 4) * (paddedExtents i c r).stride (r.order 4) = _
  rw [paddedExtents_size (hr.order_ne_long (by decide)),
    paddedExtents_stride (hr.order_ne_four (by decide))]
  rfl

theorem pencil_room (he : e.Pencil i) : e.room = ∏ k, e.size k :=
  Layout.room_packed he.order_injective he.stride_order

theorem complex_room (he : e.Pencil i) : (complexExtents e).room = ∏ k, e.size k := by
  have h3 := he.order_ne (k := 3) (by decide)
  rw [← pencil_room he]
  show (complexExtents e).size (e.order 3).castSucc *
    (complexExtents e).stride (e.order 3).castSucc = _
  rw [complexExtents_size h3, complexExtents_stride h3]
  rfl

theorem real_room (he : e.Pencil i) (hlong : e.order 1 = i.castAdd 1) :
    (realExtents e (i.castAdd 1)).room = ∏ k, e.size k := by
  have h3 := he.order_ne (k := 3) (by decide)
  have hne : e.order 3 ≠ i.castAdd 1 := fun h =>
    absurd (he.order_injective (h.trans hlong.symm)) (by decide)
  rw [← pencil_room he]
  show (realExtents e (i.castAdd 1)).size (e.order 3).castSucc *
    (realExtents e (i.castAdd 1)).stride (e.order 3).castSucc = _
  rw [realExtents_size h3, realExtents_stride h3, if_neg hne, if_neg hne]
  rfl

theorem pack_room (hr : RealSide i r) : (packStridesAccordingToOrder r).room ≤ r.room := by
  show r.size (r.order 4) * Layout.packed r (r.order 4) ≤ r.size (r.order 4) * r.stride (r.order 4)
  rw [Layout.packed_order hr.order_injective]
  exact Nat.mul_le_mul_left _ (hr.nested.below_le 4 (by decide))

theorem Creator.rooms (c : Creator) (he : e.Pencil i) (heven : e.size 3 % 2 = 0)
    (packedFlags : Flags) : (c.input e i packedFlags).room ≤ ∏ k, e.size k ∧
      (c.output e i packedFlags).room ≤ ∏ k, e.size k := by
  obtain ⟨hp, hlong, hsize⟩ := adjusted_spec he
  have heven' : (e.adjusted i).size 3 % 2 = 0 := hsize ▸ heven
  have hstored : (complexExtents e).room ≤ ∏ k, e.size k := (complex_room he).le
  have hside : (c.packedSide e i packedFlags).room ≤ ∏ k, e.size k := by
    rw [packedSide, side, ← hsize]
    by_cases hreal : c.real = true
    · have hr := realSide hp heven' hlong
      rw [if_pos hreal, ← real_room hp hlong]
      split
      · exact pack_room hr
      · exact Nat.le_refl _
    · rw [if_neg hreal, (complexSide hp heven').pack_eq, ite_self]
      exact (complex_room hp).le
  cases c with
  | r2cForward => exact ⟨hside, hstored⟩
  | c2cForward | c2cBackward | c2rBackward => exact ⟨hstored, hside⟩

end Rooms

/-! ## The stages -/

section Stages

variable {i k1 k2 : Fin 3} {inp out x y : Ptr} {input output c r : FftwExtents} {flags : Flags}
  {n : Nat}

theorem move_within {L L' : FftwExtents} {size : Fin 5 → Nat} {order : Fin 5 → Fin 5}
    {loops : List IoDim} (horder : Function.Injective order)
    (hloops : loops = boxLoops size L L' (([4, 3, 2, 1, 0] : List (Fin 5)).map order))
    (hL : L.Nested) (hL' : L'.Nested) (hsize : ∀ k, size k = L.size k)
    (hsize' : ∀ k, size k = L'.size k) (hn : L.room ≤ n) (hn' : L'.room ≤ n) :
    (moveGuru inp out loops flags).Within [⟨x, 0⟩, ⟨y, 0⟩] x y n := by
  have hks := mem_order horder
  exact within_of_box rfl (move_box x y (order_nodup horder) hks hloops)
    (slots_all hks hL hsize) (slots_all hks hL' hsize') (fun _ _ => rfl) (fun _ _ => rfl) hn hn'

theorem c2cGuru_within (ho : Others i k1 k2) (hin : ComplexSide input) (hout : ComplexSide output)
    (hsize : output.size = input.size) (flip : Bool) (hn : input.room ≤ n) (hn' : output.room ≤ n) :
    let o : Offset := ⟨partOffset input flip, partOffset input !flip, partOffset output flip,
      partOffset output !flip⟩
    (c2cGuru (i.castAdd 2) [k1.castAdd 2, k2.castAdd 2] o inp out input output flags).Within
      [⟨x, o.ri⟩, ⟨x, o.ii⟩, ⟨y, o.ro⟩, ⟨y, o.io⟩] x y n :=
  within_of_box rfl
    (dft_box ho x y (input.size (i.castAdd 2)) flip (c2cLoops_eq k1 k2 hin hout))
    (slots_complex ho hin.nested (fun _ _ _ => rfl) rfl hin.size_four)
    (slots_complex ho hout.nested (fun k _ _ => by rw [hsize]) (by rw [hsize]) hout.size_four)
    (fun _ _ => rfl) (fun _ _ => rfl) hn hn'

theorem c2cStages_within (ho : Others i k1 k2) (hin : ComplexSide input) (hout : ComplexSide output)
    (hsize : output.size = input.size) (flip : Bool) (hn : input.room ≤ n) (hn' : output.room ≤ n) :
    (stagesOf (c2cType flip) i k1 k2 inp out input output flags).Within (c2cType flip) x y n := by
  have hmove : (moveGuru inp out (reorderLoops input output) flags).Within [⟨x, 0⟩, ⟨y, 0⟩] x y n :=
    move_within hin.order_injective (reorderLoops_eq input output) hin.nested hout.nested
      (fun _ => rfl) (fun k => by rw [hsize]) hn hn'
  have hstages : stagesOf (c2cType flip) i k1 k2 inp out input output flags =
      c2cStages i k1 k2 (c2cSign flip) inp out input output flags := by cases flip <;> rfl
  have hpointers : ∀ o, fftPointers (c2cType flip) o x y =
      [⟨x, o.ri⟩, ⟨x, o.ii⟩, ⟨y, o.ro⟩, ⟨y, o.io⟩] := fun o => by cases flip <;> rfl
  rw [hstages, c2cStages]
  by_cases hio : inp = out
  · simp only [if_pos hio, c2cOffset_within]
    by_cases hi : input.order 2 = i.castAdd 2
    · simp only [if_pos hi]
      refine ⟨fun _ hg => (by cases hg), ?_, fun g hg => ?_⟩
      · rw [hpointers]
        exact c2cGuru_within ho hin hin rfl flip hn hn
      · cases hg
        exact hmove
    · simp only [if_neg hi]
      refine ⟨fun g hg => ?_, ?_, fun _ hg => (by cases hg)⟩
      · cases hg
        exact hmove
      · rw [hpointers]
        exact c2cGuru_within ho hout hout rfl flip hn' hn'
  · simp only [if_neg hio, c2cOffset_apart]
    refine ⟨fun _ hg => (by cases hg), ?_, fun _ hg => (by cases hg)⟩
    rw [hpointers]
    exact c2cGuru_within ho hin hout hsize flip hn hn'

theorem c2rStages_within (ho : Others i k1 k2) (hc : ComplexSide c) (hr : RealSide i r)
    (hh : Halves i c r) (hs : inp = out → SamePlace i c r) (hn : c.room ≤ n) (hn' : r.room ≤ n) :
    (c2rStages i k1 k2 inp out c r flags).Within .c2rBackward x y n := by
  have hsplit : (splitExtents c).room ≤ n := (split_room hc).trans_le hn
  have hpadded : (paddedExtents i c r).room ≤ n := (padded_room hr).trans_le hn'
  by_cases hio : inp = out
  · have hs := hs hio
    have hbeq : (inp == out) = true := beq_iff_eq.mpr hio
    have hnested := padded_nested hc hr hh hs
    simp only [c2rStages, hbeq, if_true]
    refine ⟨fun g hg => ?_, ?_, fun g hg => ?_⟩
    · cases hg
      exact move_within hc.order_injective (c2rPreorderLoops_eq hc) hc.nested hc.split_nested
        (fun _ => rfl) (fun _ => rfl) hn hsplit
    · have hin := inPadded ho hc hr hh hs fun k hl h4 => (hh.size_eq k hl h4).symm
      exact within_of_box rfl (c2r_box_within ho hr hh hs x y) hin.splitSlots hin.realSlots
        hin.splitAddr hin.realAddr hpadded hpadded
    · cases hg
      exact move_within hr.order_injective (c2rPostorderLoops_eq hc hr hh hs) hnested hnested
        (fun _ => rfl) (fun _ => rfl) hpadded hpadded
  · have hbeq : (inp == out) = false := beq_eq_false_iff_ne.mpr hio
    simp only [c2rStages, hbeq, if_neg Bool.false_ne_true]
    refine ⟨fun _ hg => (by cases hg), ?_, fun _ hg => (by cases hg)⟩
    have hloops : _ = boxLoops c.size c r (across k1 k2) := rfl
    have hbox := c2r_box ho x y (r.size (i.castAdd 2)) hloops
    rw [hc.stride_four] at hbox
    exact within_of_box rfl hbox
      (slots_complex ho hc.nested (fun _ _ _ => rfl) hh.half.symm hc.size_four)
      (slots_real ho hr.nested (fun k hl h4 => (hh.size_eq k hl h4).symm) rfl hr.size_four)
      (fun _ _ => rfl) (fun _ _ => rfl) hn hn'

theorem r2cStages_within (ho : Others i k1 k2) (hr : RealSide i r) (hc : ComplexSide c)
    (hh : Halves i c r) (hs : inp = out → SamePlace i c r) (hn : r.room ≤ n) (hn' : c.room ≤ n) :
    (r2cStages i k1 k2 inp out r c flags).Within .r2cForward x y n := by
  have hsplit : (splitExtents c).room ≤ n := (split_room hc).trans_le hn'
  have hpadded : (paddedExtents i c r).room ≤ n := (padded_room hr).trans_le hn
  by_cases hio : inp = out
  · have hs := hs hio
    have hbeq : (inp == out) = true := beq_iff_eq.mpr hio
    simp only [r2cStages, hbeq, if_true]
    refine ⟨fun _ hg => (by cases hg), ?_, fun g hg => ?_⟩
    · have hin := inPadded ho hc hr hh hs fun _ _ _ => rfl
      exact within_of_box rfl (r2c_box_within ho hr hc hh hs x y) hin.realSlots hin.splitSlots
        hin.realAddr hin.splitAddr hpadded hpadded
    · cases hg
      exact move_within hc.order_injective (r2cPostorderLoops_eq hc hr hh hs) hc.split_nested
        hc.nested (fun _ => rfl) (fun _ => rfl) hsplit hn'
  · have hbeq : (inp == out) = false := beq_eq_false_iff_ne.mpr hio
    simp only [r2cStages, hbeq, if_neg Bool.false_ne_true]
    refine ⟨fun _ hg => (by cases hg), ?_, fun _ hg => (by cases hg)⟩
    have hloops : _ = boxLoops r.size r c (across k1 k2) := rfl
    have hbox := r2c_box ho x y (r.size (i.castAdd 2)) hloops
    rw [hc.stride_four] at hbox
    exact within_of_box rfl hbox
      (slots_real ho hr.nested (fun _ _ _ => rfl) rfl hr.size_four)
      (slots_complex ho hc.nested hh.size_eq hh.half.symm hc.size_four)
      (fun _ _ => rfl) (fun _ _ => rfl) hn hn'

theorem stages_within {type : TransformType} (ho : Others i k1 k2)
    (hs : Sides i type (inp = out) input output) (hn : input.room ≤ n) (hn' : output.room ≤ n) :
    (stagesOf type i k1 k2 inp out input output flags).Within type x y n := by
  cases type with
  | unspecified => exact hs.elim
  | c2cForward => exact c2cStages_within ho hs.1 hs.2.1 hs.2.2.1 false hn hn'
  | c2cBackward => exact c2cStages_within ho hs.1 hs.2.1 hs.2.2.1 true hn hn'
  | c2rBackward => exact c2rStages_within ho hs.1 hs.2.1 hs.2.2.1 hs.2.2.2 hn hn'
  | r2cForward => exact r2cStages_within ho hs.1 hs.2.1 hs.2.2.1 hs.2.2.2 hn hn'

end Stages

/-! ## Plans -/

/-- Executed on `x` and `y`, what the plan runs touches only their first `n` values. -/
structure FftPlan.Within (f : FftPlan) (x y : Ptr) (n : Nat) : Prop where
  preorder : ∀ p, f.planPreorder = some p →
    ∃ g, p.desc = .guru g ∧ g.Within [⟨x, 0⟩, ⟨y, 0⟩] x y n
  fft : ∃ p g, f.planFftw = some p ∧ p.desc = .guru g ∧
    g.Within (fftPointers f.type f.offset x y) x y n
  postorder : ∀ p, f.planPostorder = some p →
    ∃ g, p.desc = .guru g ∧ g.Within [⟨x, 0⟩, ⟨y, 0⟩] x y n

theorem FftPlanFor.within {i : Fin 3} {type : TransformType} {inp out : Ptr}
    {input output : FftwExtents} {s : Stages} {f : FftPlan} {x y : Ptr} {n : Nat}
    (hf : FftPlanFor i type inp out input output s f) (hs : s.Within type x y n) :
    f.Within x y n := by
  have hmove : ∀ {q : Option FftwPlan} {g : Option Guru}, q.map (·.desc) = g.map .guru →
      (∀ g', g = some g' → g'.Within [⟨x, 0⟩, ⟨y, 0⟩] x y n) →
      ∀ p, q = some p → ∃ g, p.desc = .guru g ∧ g.Within [⟨x, 0⟩, ⟨y, 0⟩] x y n := by
    rintro _ g hdesc hg p rfl
    obtain ⟨g, rfl, hp⟩ := Option.map_eq_some_iff.mp hdesc.symm
    exact ⟨g, hp.symm, hg g rfl⟩
  obtain ⟨p, hp, hdesc⟩ := Option.map_eq_some_iff.mp hf.fft_desc
  refine ⟨hmove hf.preorder_desc hs.preorder, ⟨p, _, hp, hdesc, ?_⟩,
    hmove hf.postorder_desc hs.postorder⟩
  rw [hf.type_eq, hf.offset_eq]
  exact hs.fft

theorem MadeBetween.within {type : TransformType} {i : Fin 3} {inp out x y : Ptr}
    {input output : FftwExtents} {f : FftPlan} {n : Nat}
    (h : MadeBetween type i inp out input output f) (hn : input.room ≤ n) (hn' : output.room ≤ n) :
    f.Within x y n := by
  obtain ⟨_, k1, k2, ho, hf⟩ := h.between
  exact hf.within (stages_within ho h.sides hn hn')

/-- Whatever its storage flags, the memory asked for a problem is enough for its FFT plans and their
inverses: what they touch lies in the pencil they transform. -/
theorem fft_memory_suffices {env : Env} (job : Job env) {a b : Nat} (ha : a < job.pA)
    (hb : b < job.pB) (heven : job.howmany % 2 = 0) (c : Creator) (i : Fin 3) {inp out : Ptr}
    {rigorFlags packedFlags : Flags} {p : FftPlan} {w w' : World}
    (hp : job.fftCreate c a b i inp out rigorFlags packedFlags w = .ok (some p, w')) :
    (∀ x y, p.Within x y ((job.problem a b).longN i).extent) ∧
      (∀ (inp' out' : Ptr) (rigorFlags' : Flags) (q : FftPlan) (w1 w1' : World),
        (inp' = out' ↔ inp = out) →
        fftwPlanCreateInverse env (some p) (some inp') (some out') rigorFlags' w1 =
          .ok (some q, w1') →
        ∀ x y, q.Within x y ((job.problem a b).longN i).extent) ∧
      ((job.problem a b).longN i).extent ≤ (job.problem a b).localMemory := by
  have hmade := Made.of_run ha hb heven hp
  obtain ⟨hin, hout⟩ := c.rooms (job.pencil ha hb i) (job.size_three_even ha hb i heven) packedFlags
  rw [← (job.isProblem ha hb).extent_eq i] at hin hout
  rw [← hmade.input_eq] at hin
  rw [← hmade.output_eq] at hout
  have hbetween := hmade.madeBetween
  refine ⟨fun x y => hbetween.within hin hout, ?_, job.extent_le ha hb i⟩
  intro inp' out' rigorFlags' q w1 w1' hplace hq x y
  exact (hbetween.inverse_of_run hplace hq).within hout hin

/-- A complex-to-real plan in one buffer, with all its three stages. -/
theorem fft_memory_suffices_c2r :
    ∃ (job : Job .reference) (p : FftPlan), (job.n0 = 4 ∧ job.n1 = 5 ∧ job.n2 = 3) ∧
      (job.pA = 2 ∧ job.pB = 3) ∧ job.howmany = 4 ∧
      (∃ w, job.fftCreate .c2rBackward 1 0 1 0 0 FFTW.ESTIMATE 0 .granting = .ok (some p, w)) ∧
      (∀ x y, p.Within x y ((job.problem 1 0).longN 1).extent) ∧
      (∀ (inp' out' : Ptr) (rigorFlags' : Flags) (q : FftPlan) (w1 w1' : World),
        (inp' = out' ↔ (0 : Ptr) = 0) →
        fftwPlanCreateInverse .reference (some p) (some inp') (some out') rigorFlags' w1 =
          .ok (some q, w1') →
        ∀ x y, q.Within x y ((job.problem 1 0).longN 1).extent) ∧
      ((job.problem 1 0).longN 1).extent ≤ (job.problem 1 0).localMemory := by
  obtain ⟨job, hn, hp, hhow, -, -⟩ := exists_admitted 4 5 3 2 3 4 0 (by decide)
  have ha : 1 < job.pA := by omega
  have hb : 0 < job.pB := by omega
  have heven : job.howmany % 2 = 0 := by omega
  obtain ⟨p, w, hrun⟩ := job.exists_fftCreate ha hb heven .c2rBackward 1 0 0
    (show FFTW.ESTIMATE.has nonRigorMask = false by decide) 0 fun _ => job.accepts_longN1 ha hb _ _
  exact ⟨job, p, hn, hp, hhow, ⟨w, hrun⟩,
    fft_memory_suffices job ha hb heven .c2rBackward 1 hrun⟩

end Underling
