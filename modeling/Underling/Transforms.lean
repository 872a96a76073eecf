import Underling.Creators
import Underling.Passes

/-!
# Underling.Transforms

What the execution of an FFT plan does to the lines of its two sides.

* `execute_eq`: an execution runs the stages of the plan.
* `stages_transforms`, `execute_transforms`: the output lines are the transforms of the input lines,
  in place or not.
-/

namespace Underling

open Strided Sweep

variable {α : Type}

/-! ## Running the stages -/

/-- Run a reordering, if there is one. -/
def runMove (fftw : FftwExec α) (reorder : Option Guru) (inp out : Ptr) (m : Mem α) : Mem α :=
  match reorder with
  | some g => fftw.run (.guru g) [⟨inp, 0⟩, ⟨out, 0⟩] m
  | none => m

def Stages.run (s : Stages) (type : TransformType) (fftw : FftwExec α) (inp out : Ptr) (m : Mem α) :
    Mem α :=
  runMove fftw s.postorder inp out
    (fftw.run (.guru s.fft) (fftPointers type s.offset inp out) (runMove fftw s.preorder inp out m))

theorem stagesOf_moves (type : TransformType) (i k1 k2 : Fin 3) {inp out : Ptr} (h : inp ≠ out)
    (input output : FftwExtents) (flags : Flags) :
    (stagesOf type i k1 k2 inp out input output flags).preorder = none ∧
      (stagesOf type i k1 k2 inp out input output flags).postorder = none := by
  have hbeq : (inp == out) = false := beq_eq_false_iff_ne.mpr h
  cases type <;> simp [stagesOf, c2cStages, c2rStages, r2cStages, h, hbeq]

section Execute

variable {i k1 k2 : Fin 3} {type : TransformType} {inp out inp' out' : Ptr}
  {input output : FftwExtents} {flags : Flags} {f : FftPlan}

theorem executeReorder_eq (fftw : FftwExec α) {p : Option FftwPlan} {g : Option Guru}
    (hdesc : p.map (·.desc) = g.map .guru) (hplace : inp' = out' ↔ inp = out)
    (hf : f.inPlace = (inp == out)) (hg : inp ≠ out → g = none) (m : Mem α) :
    executeReorder fftw f p inp' out' m = .ok ((), runMove fftw g inp' out' m) := by
  cases g with
  | none =>
    obtain rfl := Option.map_eq_none_iff.mp hdesc
    rfl
  | some g =>
    obtain ⟨p, rfl, hp⟩ := Option.map_eq_some_iff.mp hdesc
    have hio : inp = out := Decidable.byContradiction fun h => absurd (hg h) (by simp)
    have hcond : f.inPlace = true ∧ inp' = out' := ⟨by rw [hf, beq_iff_eq, hio], hplace.mpr hio⟩
    simp only [executeReorder]
    rw [if_pos hcond, hp]
    rfl

theorem execute_eq (fftw : FftwExec α) (htype : type ≠ .unspecified)
    (hf : FftPlanFor i type inp out input output
      (stagesOf type i k1 k2 inp out input output flags) f)
    (hplace : inp' = out' ↔ inp = out) (m : Mem α) :
    fftwPlanExecute fftw (some f) (some inp') (some out') m =
      .ok (none, (stagesOf type i k1 k2 inp out input output flags).run type fftw inp' out' m) := by
  generalize hs : stagesOf type i k1 k2 inp out input output flags = s at hf ⊢
  have hmoves : inp ≠ out → s.preorder = none ∧ s.postorder = none := fun h =>
    hs ▸ stagesOf_moves type i k1 k2 h input output flags
  obtain ⟨p, hp, hdesc⟩ := Option.map_eq_some_iff.mp hf.fft_desc
  have hpre := executeReorder_eq fftw hf.preorder_desc hplace hf.inPlace_eq
    (fun h => (hmoves h).1) m
  have hpost := fun m => executeReorder_eq fftw hf.postorder_desc hplace hf.inPlace_eq
    (fun h => (hmoves h).2) m
  have hrest : ∀ ptrs m, (do
        modify (fftw.run p.desc ptrs)
        executeReorder fftw f f.planPostorder inp' out'
        return none : StateT (Mem α) (Except Fault) (Option Report)) m =
      .ok (none, runMove fftw s.postorder inp' out' (fftw.run (.guru s.fft) ptrs m)) := by
    intro ptrs m
    have hfft : (modify (fftw.run p.desc ptrs) : StateT (Mem α) (Except Fault) PUnit) m =
        .ok ((), fftw.run p.desc ptrs m) := rfl
    rw [Runs.run_bind hfft, Runs.run_bind (hpost _), hdesc]
    rfl
  -- the placement is the planned one, so neither check fails
  have hin : f.inPlace = true ↔ inp' = out' := by rw [hf.inPlace_eq, beq_iff_eq, hplace]
  have hguards : ∀ a b c : StateT (Mem α) (Except Fault) (Option Report),
      (if f.inPlace = true then if inp' ≠ out' then a else c
        else if inp' = out' then b else c) = c := by
    intro a b c
    by_cases hio : inp' = out'
    · rw [if_pos (hin.mpr hio), if_neg (not_not.mpr hio)]
    · rw [if_neg fun h => hio (hin.mp h), if_neg hio]
  simp only [fftwPlanExecute, hp]
  rw [hguards, Runs.run_bind hpre, hf.type_eq, hf.offset_eq]
  cases type with
  | unspecified => exact absurd rfl htype
  | c2cForward => exact hrest _ _
  | c2cBackward => exact hrest _ _
  | c2rBackward => exact hrest _ _
  | r2cForward => exact hrest _ _

theorem suits_of (hplace : inp' = out' ↔ inp = out) (l : List (Bool × Nat)) :
    Suits (l.map fun p => some ⟨if p.1 then out else inp, p.2⟩)
      (l.map fun p => ⟨if p.1 then out' else inp', p.2⟩) := by
  let f : Ptr → Ptr := fun b => if b = out then out' else inp'
  have hout : f out = out' := if_pos rfl
  have hinp : f inp = inp' := by
    by_cases h : inp = out
    · rw [h, hout, hplace.mpr h]
    · exact if_neg h
  refine ⟨l.map fun p => ⟨if p.1 then out else inp, p.2⟩, f, ?_, ?_, ?_⟩
  · rw [List.map_map]
    rfl
  · rw [List.map_map]
    refine List.map_congr_left fun p _ => ?_
    show _ = Pointer.mk (f (if p.1 = true then out else inp)) p.2
    split
    · rw [hout]
    · rw [hinp]
  · have hinj : ∀ b b' : Bool, f (if b then out else inp) = f (if b' then out else inp) →
        (if b then out else inp) = if b' then out else inp := by
      intro b b' hb
      cases b <;> cases b' <;> simp [hout, hinp] at hb ⊢
      · exact hplace.mp hb
      · exact (hplace.mp hb.symm).symm
    intro p hp q hq hpq
    obtain ⟨a, -, rfl⟩ := List.mem_map.mp hp
    obtain ⟨b, -, rfl⟩ := List.mem_map.mp hq
    exact hinj _ _ hpq

end Execute

/-! ## The stages -/

/-- The index is one of the box: its line is one of the lines. -/
theorem complexLine_eq {L L' : FftwExtents} {i : Fin 3} {x y : Nat → α} {size : Fin 5 → Nat}
    (h : ∀ j, (∀ k, j k < size k) → y (L'.addr j) = x (L.addr j)) {j : Fin 5 → Nat}
    (hj : ∀ k, k ≠ i.castAdd 2 → k ≠ 4 → j k < size k) {m : Nat} (hm : m < size (i.castAdd 2))
    (hfour : size 4 = 2) : complexLine L' i y j m = complexLine L i x j m := by
  have hbox : ∀ c, c < 2 → ∀ k, onLine i j m c k < size k := fun c hc =>
    inBox_onLine (e := ⟨fun _ => 0, size, fun _ => 0, id⟩) hj hm (hc.trans_eq hfour.symm)
  exact Prod.ext (h _ (hbox 0 (by decide))) (h _ (hbox 1 (by decide)))

theorem realLine_eq {L L' : FftwExtents} {i : Fin 3} {x y : Nat → α} {size : Fin 5 → Nat}
    (h : ∀ j, (∀ k, j k < size k) → y (L'.addr j) = x (L.addr j)) {j : Fin 5 → Nat}
    (hj : ∀ k, k ≠ i.castAdd 2 → k ≠ 4 → j k < size k) {m : Nat} (hm : m < size (i.castAdd 2))
    (hfour : 0 < size 4) : realLine L' i y j m = realLine L i x j m :=
  h _ (inBox_onLine (e := ⟨fun _ => 0, size, fun _ => 0, id⟩) hj hm hfour)

section Runs

variable {i k1 k2 : Fin 3} {inp out inp' out' : Ptr} {input output c r : FftwExtents}
  (fftw : FftwExec α) (flags : Flags) {m : Mem α} {j : Fin 5 → Nat}

/-- A plan that only moves data, all directions in some order, by the indices of the box. -/
theorem moveGuru_at (hplace : inp' = out' ↔ inp = out) {L L' : FftwExtents} {size : Fin 5 → Nat}
    {order : Fin 5 → Fin 5} {loops : List IoDim} (horder : Function.Injective order)
    (hloops : loops = boxLoops size L L' (([4, 3, 2, 1, 0] : List (Fin 5)).map order))
    (hn : L'.Nested) (hsize : ∀ k, size k = L'.size k) (hj : ∀ k, j k < size k) :
    fftw.run (.guru (moveGuru inp out loops flags)) [⟨inp', 0⟩, ⟨out', 0⟩] m out' (L'.addr j) =
      m inp' (L.addr j) := by
  have hks := mem_order horder
  have hbox := move_box inp' out' (order_nodup horder) hks hloops
  have hp := fftw.r2r loops _ flags ⟨inp', 0⟩ ⟨out', 0⟩ m
    (suits_of hplace [(false, 0), (true, 0)]) (move_once hks hbox hn hsize)
  exact move_at hks hbox hp hj

theorem c2cGuru_lines (ho : Others i k1 k2) (hplace : inp' = out' ↔ inp = out)
    (hin : ComplexSide input) (hout : ComplexSide output) (hsize : output.size = input.size)
    (hsame : inp = out → input = output) (flip : Bool) (hj : Lines input i j)
    (n : Fin (input.size (i.castAdd 2))) :
    let o : Offset := ⟨partOffset input flip, partOffset input !flip, partOffset output flip,
      partOffset output !flip⟩
    complexLine output i (fftw.run
        (.guru (c2cGuru (i.castAdd 2) [k1.castAdd 2, k2.castAdd 2] o inp out input output flags))
        [⟨inp', o.ri⟩, ⟨inp', o.ii⟩, ⟨out', o.ro⟩, ⟨out', o.io⟩] m out') j n = flipped flip
      (fftw.kernel.dft _ (fun n => flipped flip (complexLine input i (m inp') j n)) n) := by
  intro o
  have hbox := dft_box ho inp' out' (input.size (i.castAdd 2)) flip (c2cLoops_eq k1 k2 hin hout)
  have hsep := c2c_separate ho hin hout hsize (fun h => hsame (hplace.mp h)) rfl hbox
  have hp := fftw.splitDft _ _ _ flags _ _ _ _ m (suits_of hplace
    [(false, o.ri), (false, o.ii), (true, o.ro), (true, o.io)]) hsep
  exact dft_lines ho hbox hp (ho.within hj) n

theorem r2cGuru_lines (ho : Others i k1 k2) (hplace : inp' = out' ↔ inp = out) (hne : inp ≠ out)
    (hr : RealSide i r) (hc : ComplexSide c) (hh : Halves i c r) (hj : Lines r i j)
    (n : Fin (r.size (i.castAdd 2) / 2 + 1)) :
    complexLine c i (fftw.run (.guru (r2cGuru false (i.castAdd 2)
        [k1.castAdd 2, k2.castAdd 2, 3] ⟨0, 0, 0, 1⟩ inp out r c flags))
        [⟨inp', 0⟩, ⟨out', 0⟩, ⟨out', 1⟩] m out') j n =
      fftw.kernel.r2c _ (fun n => realLine r i (m inp') j n) n := by
  have hloops : _ = boxLoops r.size r c (across k1 k2) := rfl
  have hbox := r2c_box ho inp' out' (r.size (i.castAdd 2)) hloops
  rw [hc.stride_four] at hbox
  have hsep := hbox.separate (fun h => hne (hplace.mp h))
    (slots_real ho hr.nested (fun _ _ _ => rfl) rfl hr.size_four)
    (slots_complex ho hc.nested hh.size_eq hh.half.symm hc.size_four) (apart_complex ho)
  have hp := fftw.splitDftR2c _ _ _ flags _ _ _ m
    (suits_of hplace [(false, 0), (true, 0), (true, 1)]) hsep
  exact r2c_lines ho hbox hp (ho.within hj) n

/-- The FFT of a real-to-complex transform within one buffer, to parts that are apart. -/
theorem r2cGuru_lines_within (ho : Others i k1 k2) (hplace : inp' = out' ↔ inp = out)
    (hr : RealSide i r) (hc : ComplexSide c) (hh : Halves i c r) (hs : SamePlace i c r)
    (hj : Lines r i j) (n : Fin (r.size (i.castAdd 2) / 2 + 1)) :
    let io := r.stride (i.castAdd 2)
    complexLine (splitExtents c) i (fftw.run (.guru (r2cGuru true (i.castAdd 2)
        [k1.castAdd 2, k2.castAdd 2, 3] ⟨0, 0, 0, io⟩ inp out r c flags))
        [⟨inp', 0⟩, ⟨out', 0⟩, ⟨out', io⟩] m out') j n =
      fftw.kernel.r2c _ (fun n => realLine r i (m inp') j n) n := by
  intro io
  have hbox := r2c_box_within ho hr hc hh hs inp' out'
  have hsep := r2c_separate_within ho hr hc hh hs inp' out'
  have hp := fftw.splitDftR2c _ _ _ flags _ _ _ m
    (suits_of hplace [(false, 0), (true, 0), (true, io)]) hsep
  exact r2c_lines ho hbox hp (ho.within hj) n

theorem c2rGuru_lines (ho : Others i k1 k2) (hplace : inp' = out' ↔ inp = out) (hne : inp ≠ out)
    (hc : ComplexSide c) (hr : RealSide i r) (hh : Halves i c r) (hj : Lines c i j)
    (n : Fin (r.size (i.castAdd 2))) :
    realLine r i (fftw.run (.guru (c2rGuru false (i.castAdd 2) [k1.castAdd 2, k2.castAdd 2]
        ⟨0, 1, 0, 0⟩ inp out c r flags)) [⟨inp', 0⟩, ⟨inp', 1⟩, ⟨out', 0⟩] m out') j n =
      fftw.kernel.c2r _ (fun n => complexLine c i (m inp') j n) n := by
  have hloops : _ = boxLoops c.size c r (across k1 k2) := rfl
  have hbox := c2r_box ho inp' out' (r.size (i.castAdd 2)) hloops
  rw [hc.stride_four] at hbox
  have hsep := hbox.separate (fun h => hne (hplace.mp h))
    (slots_complex ho hc.nested (fun _ _ _ => rfl) hh.half.symm hc.size_four)
    (slots_real ho hr.nested (fun k hl h4 => (hh.size_eq k hl h4).symm) rfl hr.size_four)
    (apart_real ho)
  have hp := fftw.splitDftC2r _ _ _ flags _ _ _ m
    (suits_of hplace [(false, 0), (false, 1), (true, 0)]) hsep
  exact c2r_lines ho hbox hp (ho.within hj) n

/-- The FFT of a complex-to-real transform within one buffer, from parts that are apart. -/
theorem c2rGuru_lines_within (ho : Others i k1 k2) (hplace : inp' = out' ↔ inp = out)
    (hc : ComplexSide c) (hr : RealSide i r) (hh : Halves i c r) (hs : SamePlace i c r)
    (hj : Lines c i j) (n : Fin (r.size (i.castAdd 2))) :
    realLine r i (fftw.run (.guru (c2rGuru true (i.castAdd 2) [k1.castAdd 2, k2.castAdd 2]
        ⟨0, c.size 3, 0, 0⟩ inp out c r flags))
        [⟨inp', 0⟩, ⟨inp', c.size 3⟩, ⟨out', 0⟩] m out') j n =
      fftw.kernel.c2r _ (fun n => complexLine (splitExtents c) i (m inp') j n) n := by
  have hbox := c2r_box_within ho hr hh hs inp' out'
  have hsep := c2r_separate_within ho hc hr hh hs inp' out'
  have hp := fftw.splitDftC2r _ _ _ flags _ _ _ m
    (suits_of hplace [(false, 0), (false, c.size 3), (true, 0)]) hsep
  exact c2r_lines ho hbox hp (ho.within hj) n

end Runs

/-! ## Plans -/

/-- The output, read through the output extents, holds the transforms of the lines of the input. -/
def Transforms (K : Kernel α) (type : TransformType) (i : Fin 3) (input output : FftwExtents)
    (x y : Nat → α) : Prop :=
  match type with
  | .c2cForward => ∀ j, Lines input i j → ∀ n : Fin (input.size (i.castAdd 2)),
      complexLine output i y j n = K.dft _ (fun n => complexLine input i x j n) n
  | .c2cBackward => ∀ j, Lines input i j → ∀ n : Fin (input.size (i.castAdd 2)),
      complexLine output i y j n = (K.dft _ (fun n => (complexLine input i x j n).swap) n).swap
  | .c2rBackward => ∀ j, Lines input i j → ∀ n : Fin (output.size (i.castAdd 2)),
      realLine output i y j n = K.c2r _ (fun n => complexLine input i x j n) n
  | .r2cForward => ∀ j, Lines input i j → ∀ n : Fin (input.size (i.castAdd 2) / 2 + 1),
      complexLine output i y j n = K.r2c _ (fun n => realLine input i x j n) n
  | .unspecified => False

section Plans

variable {i k1 k2 : Fin 3} {inp out inp' out' : Ptr} {input output : FftwExtents} {flags : Flags}
  (fftw : FftwExec α) (m : Mem α)

/-- The type and the sign of a complex transform. -/
def c2cType (flip : Bool) : TransformType := if flip then .c2cBackward else .c2cForward

def c2cSign (flip : Bool) : Int := if flip then FFTW.BACKWARD else FFTW.FORWARD

theorem c2cOffset_within (flip : Bool) (t input output : FftwExtents) :
    c2cOffset true (c2cSign flip) t input output =
      ⟨partOffset t flip, partOffset t !flip, partOffset t flip, partOffset t !flip⟩ := by
  cases flip <;> rfl

theorem c2cOffset_apart (flip : Bool) (t input output : FftwExtents) :
    c2cOffset false (c2cSign flip) t input output =
      ⟨partOffset input flip, partOffset input !flip, partOffset output flip,
        partOffset output !flip⟩ := by
  cases flip <;> rfl

theorem c2cStages_run (flip : Bool) (s : Stages)
    (hs : c2cStages i k1 k2 (c2cSign flip) inp out input output flags = s) :
    (stagesOf (c2cType flip) i k1 k2 inp out input output flags).run (c2cType flip) fftw inp' out'
        m =
      runMove fftw s.postorder inp' out' (fftw.run (.guru s.fft)
        [⟨inp', s.offset.ri⟩, ⟨inp', s.offset.ii⟩, ⟨out', s.offset.ro⟩, ⟨out', s.offset.io⟩]
        (runMove fftw s.preorder inp' out' m)) := by
  subst hs
  cases flip <;> rfl

theorem c2cStages_lines (ho : Others i k1 k2) (hplace : inp' = out' ↔ inp = out)
    (hin : ComplexSide input) (hout : ComplexSide output) (hsize : output.size = input.size)
    (flip : Bool) {j : Fin 5 → Nat} (hj : Lines input i j) (n : Fin (input.size (i.castAdd 2))) :
    complexLine output i ((stagesOf (c2cType flip) i k1 k2 inp out input output flags).run
        (c2cType flip) fftw inp' out' m out') j n = flipped flip
      (fftw.kernel.dft _ (fun n => flipped flip (complexLine input i (m inp') j n)) n) := by
  rw [c2cStages_run fftw m flip _ rfl, c2cStages]
  by_cases hio : inp = out
  · have hio' := hplace.mpr hio
    have hreorder : ∀ m : Mem α, ∀ j, (∀ k, j k < input.size k) →
        runMove fftw (some (moveGuru inp out (reorderLoops input output) flags)) inp' out' m out'
          (output.addr j) = m inp' (input.addr j) := fun m j hj =>
      moveGuru_at fftw flags hplace hin.order_injective (reorderLoops_eq input output) hout.nested
        (fun k => by rw [hsize]) hj
    simp only [if_pos hio, c2cOffset_within]
    by_cases hi : input.order 2 = i.castAdd 2
    · -- the FFT at the input extents, then the data to the output extents
      simp only [if_pos hi]
      rw [complexLine_eq (hreorder _) hj n.isLt hin.size_four]
      subst hio'
      exact c2cGuru_lines fftw flags ho hplace hin hin rfl (fun _ => rfl) flip hj n
    · -- first the data to the output extents, then the FFT there
      simp only [if_neg hi]
      have hmoved := hreorder m
      generalize runMove fftw (some _) inp' out' m = m' at hmoved ⊢
      have hfft := c2cGuru_lines fftw flags (m := m') ho hplace hout hout rfl (fun _ => rfl) flip
        (j := j) (by rwa [Lines, hsize])
      rw [hsize] at hfft
      refine (hfft n).trans ?_
      congr 2
      funext n
      rw [hio', complexLine_eq (hio' ▸ hmoved) hj n.isLt hin.size_four]
  · simp only [if_neg hio, c2cOffset_apart]
    exact c2cGuru_lines fftw flags ho hplace hin hout hsize (fun h => absurd h hio) flip hj n

theorem c2rPostorder_lines (ho : Others i k1 k2) (hplace : inp' = out' ↔ inp = out)
    (hc : ComplexSide input) (hr : RealSide i output) (hh : Halves i input output)
    (hs : SamePlace i input output) {j : Fin 5 → Nat} (hj : Lines input i j) {n : Nat}
    (hn : n < output.size (i.castAdd 2)) :
    realLine output i (runMove fftw (some (moveGuru inp out (c2rPostorderLoops (i.castAdd 2)
        (([4, 3, 2] : List (Fin 5)).map output.order) input output) flags)) inp' out' m out') j n =
      realLine output i (m inp') j n := by
  have hmoved := fun j hj => moveGuru_at fftw flags (j := j) (m := m) hplace
    hr.order_injective
    (c2rPostorderLoops_eq hc hr hh hs) (padded_nested hc hr hh hs) (fun _ => rfl) hj
  have hline := realLine_eq hmoved (i := i) (j := j) (m := n)
    (fun k hl h4 => by rw [paddedExtents_size hl, hh.size_eq k hl h4]; exact hj k hl h4)
    (by rw [paddedExtents_long, hh.half]; omega)
    (by rw [paddedExtents_size (four_ne_long i), hr.size_four]; exact Nat.one_pos)
  simp only [realLine, padded_addr ho] at hline ⊢
  exact hline

theorem c2rStages_lines (ho : Others i k1 k2) (hplace : inp' = out' ↔ inp = out)
    (hc : ComplexSide input) (hr : RealSide i output) (hh : Halves i input output)
    (hs : inp = out → SamePlace i input output) {j : Fin 5 → Nat} (hj : Lines input i j)
    (n : Fin (output.size (i.castAdd 2))) :
    realLine output i ((c2rStages i k1 k2 inp out input output flags).run .c2rBackward fftw inp'
        out' m out') j n =
      fftw.kernel.c2r _ (fun n => complexLine input i (m inp') j n) n := by
  by_cases hio : inp = out
  · have hs := hs hio
    obtain rfl := hplace.mpr hio
    have hbeq : (inp == out) = true := beq_iff_eq.mpr hio
    simp only [c2rStages, Stages.run, hbeq, if_true]
    rw [c2rPostorder_lines fftw _ ho hplace hc hr hh hs hj n.isLt]
    refine (c2rGuru_lines_within fftw flags ho hplace hc hr hh hs hj n).trans ?_
    congr 1
    funext n
    refine complexLine_eq (fun j hj => ?_) hj (n.isLt.trans_eq hh.half.symm) hc.size_four
    exact moveGuru_at fftw flags hplace hc.order_injective
      (c2rPreorderLoops_eq hc) hc.split_nested (fun _ => rfl) hj
  · have hbeq : (inp == out) = false := beq_eq_false_iff_ne.mpr hio
    simp only [c2rStages, Stages.run, hbeq, if_neg Bool.false_ne_true]
    exact c2rGuru_lines fftw flags ho hplace hio hc hr hh hj n

theorem r2cStages_lines (ho : Others i k1 k2) (hplace : inp' = out' ↔ inp = out)
    (hr : RealSide i input) (hc : ComplexSide output) (hh : Halves i output input)
    (hs : inp = out → SamePlace i output input) {j : Fin 5 → Nat} (hj : Lines input i j)
    (n : Fin (input.size (i.castAdd 2) / 2 + 1)) :
    complexLine output i ((r2cStages i k1 k2 inp out input output flags).run .r2cForward fftw inp'
        out' m out') j n =
      fftw.kernel.r2c _ (fun n => realLine input i (m inp') j n) n := by
  by_cases hio : inp = out
  · have hs := hs hio
    obtain rfl := hplace.mpr hio
    have hbeq : (inp == out) = true := beq_iff_eq.mpr hio
    simp only [r2cStages, Stages.run, hbeq, if_true]
    refine Eq.trans ?_ (r2cGuru_lines_within fftw flags ho hplace hr hc hh hs hj n)
    refine complexLine_eq (fun j hj => ?_) (fun k hl h4 => ?_) (n.isLt.trans_eq hh.half.symm)
      hc.size_four
    · exact moveGuru_at fftw flags hplace hc.order_injective
        (r2cPostorderLoops_eq hc hr hh hs) hc.nested (fun _ => rfl) hj
    · rw [← hh.size_eq k hl h4]
      exact hj k hl h4
  · have hbeq : (inp == out) = false := beq_eq_false_iff_ne.mpr hio
    simp only [r2cStages, Stages.run, hbeq, if_neg Bool.false_ne_true]
    exact r2cGuru_lines fftw flags ho hplace hio hr hc hh hj n

/-- The stages of a plan take the input lines to their transforms. -/
theorem stages_transforms {type : TransformType} (ho : Others i k1 k2)
    (hplace : inp' = out' ↔ inp = out) (hs : Sides i type (inp = out) input output) :
    Transforms fftw.kernel type i input output (m inp')
      ((stagesOf type i k1 k2 inp out input output flags).run type fftw inp' out' m out') := by
  cases type with
  | unspecified => exact hs
  | c2cForward =>
    exact fun j hj n => c2cStages_lines fftw m ho hplace hs.1 hs.2.1 hs.2.2.1 false hj n
  | c2cBackward =>
    exact fun j hj n => c2cStages_lines fftw m ho hplace hs.1 hs.2.1 hs.2.2.1 true hj n
  | c2rBackward =>
    exact fun j hj n => c2rStages_lines fftw m ho hplace hs.1 hs.2.1 hs.2.2.1 hs.2.2.2 hj n
  | r2cForward =>
    exact fun j hj n => r2cStages_lines fftw m ho hplace hs.1 hs.2.1 hs.2.2.1 hs.2.2.2 hj n

end Plans

/-- The execution of a plan, with the placement it was made for, ends without a fault and leaves the
transforms of the input lines in the output. -/
theorem execute_transforms (fftw : FftwExec α) {i : Fin 3} {type : TransformType}
    {inp out inp' out' : Ptr} {input output : FftwExtents} {rigorFlags : Flags} {f : FftPlan}
    (hs : Sides i type (inp = out) input output)
    (hf : PlanBetween type i inp out input output rigorFlags f) (hplace : inp' = out' ↔ inp = out)
    (m : Mem α) :
    ∃ m', fftwPlanExecute fftw (some f) (some inp') (some out') m = .ok (none, m') ∧
      Transforms fftw.kernel type i input output (m inp') (m' out') := by
  obtain ⟨k1, k2, ho, hfor⟩ := hf
  have htype : type ≠ .unspecified := by
    rintro rfl
    exact hs
  exact ⟨_, execute_eq fftw htype hfor hplace m, stages_transforms fftw m ho hplace hs⟩

end Underling
