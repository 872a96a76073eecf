import Underling.FftwPlan
import Underling.Requests

/-!
# Underling.FftwCreate

What the creators of FFT plans return.

* `c2cInternal_served`, `c2rInternal_served`, `r2cInternal_served`: what each planner asks for, and
  the stages of the plan it makes when all of that is granted.
-/

namespace Underling

open Runs C Strided

/-! ## The directions of the loops -/

/-- The two directions of the domain besides `i`. -/
structure Others (i k1 k2 : Fin 3) : Prop where
  first : k1 ≠ i
  second : k2 ≠ i
  distinct : k1 ≠ k2

theorem Interleaved.domain {e : FftwExtents} {parts : Nat} (h : Interleaved e parts) :
    ∃ a b c : Fin 3, ([4, 3, 2] : List (Fin 5)).map e.order = [a, b, c].map (·.castAdd 2) ∧
      [a, b, c].Nodup := by
  have hlt : ∀ k : Fin 5, k ≠ 0 → k ≠ 1 → ∃ a : Fin 3, e.order k = a.castAdd 2 := by
    intro k h0 h1
    have h4 : e.order k ≠ 4 := fun heq => h0 (h.order_injective (heq.trans h.order_zero.symm))
    have h3 : e.order k ≠ 3 := fun heq => h1 (h.order_injective (heq.trans h.order_one.symm))
    refine ⟨⟨e.order k, ?_⟩, rfl⟩
    have := (e.order k).isLt
    simp only [ne_eq, Fin.ext_iff] at h3 h4
    simp at h3 h4
    omega
  obtain ⟨a, ha⟩ := hlt 4 (by decide) (by decide)
  obtain ⟨b, hb⟩ := hlt 3 (by decide) (by decide)
  obtain ⟨c, hc⟩ := hlt 2 (by decide) (by decide)
  refine ⟨a, b, c, by simp only [List.map_cons, List.map_nil, ha, hb, hc], ?_⟩
  have hne : ∀ {k k' : Fin 5} {x y : Fin 3}, k ≠ k' → e.order k = x.castAdd 2 →
      e.order k' = y.castAdd 2 → x ≠ y := by
    rintro k k' x _ hk hx hy rfl
    exact hk (h.order_injective (hx.trans hy.symm))
  simp only [List.nodup_cons, List.mem_cons, List.not_mem_nil, or_false, not_or, not_false_eq_true,
    List.nodup_nil, and_true]
  exact ⟨⟨hne (by decide) ha hb, hne (by decide) ha hc⟩, hne (by decide) hb hc⟩

theorem Interleaved.loopDirections {e : FftwExtents} {parts : Nat} (h : Interleaved e parts)
    (i : Fin 3) : ∃ k1 k2 : Fin 3, Others i k1 k2 ∧
      loopDirections e.order [4, 3, 2] (i.castAdd 2) = [k1.castAdd 2, k2.castAdd 2] := by
  obtain ⟨a, b, c, hmap, hnodup⟩ := h.domain
  have hfilter : ∀ i a b c : Fin 3, [a, b, c].Nodup → ∃ k1 k2 : Fin 3, (k1 ≠ i ∧ k2 ≠ i ∧ k1 ≠ k2) ∧
      ([a, b, c].map (·.castAdd 2)).filter (· ≠ (i.castAdd 2 : Fin 5)) =
        [k1.castAdd 2, k2.castAdd 2] := by decide
  obtain ⟨k1, k2, ⟨h1, h2, h12⟩, heq⟩ := hfilter i a b c hnodup
  exact ⟨k1, k2, ⟨h1, h2, h12⟩, by rw [Underling.loopDirections, hmap, heq]⟩

/-! ## Specification of the planners -/

/-- What a plan executes: the reorderings, the FFT between them, and the offsets of its parts. -/
structure Stages where
  preorder : Option Guru
  fft : Guru
  postorder : Option Guru
  offset : Offset

/-- The plan made between the given extents, with the given stages. -/
structure FftPlanFor (i : Fin 3) (type : TransformType) (inp out : Ptr) (input output : FftwExtents)
    (s : Stages) (f : FftPlan) : Prop where
  longNi_eq : f.longNi = i
  type_eq : f.type = type
  input_eq : f.input = input
  output_eq : f.output = output
  inPlace_eq : f.inPlace = (inp == out)
  offset_eq : f.offset = s.offset
  preorder_desc : f.planPreorder.map (·.desc) = s.preorder.map .guru
  fft_desc : f.planFftw.map (·.desc) = some (.guru s.fft)
  postorder_desc : f.planPostorder.map (·.desc) = s.postorder.map .guru

/-- What holds where a planner ends: it made the plan described by `P`, and it did make one when the
rigor flags are accepted and nothing is refused. -/
structure FftCreated (rigorFlags : Flags) (P : FftPlan → Prop) (G : Prop) (o : Option FftPlan)
    (w' : World) : Prop where
  sound : ∀ f, o = some f → P f ∧ (G → w'.Granted)
  complete : G → rigorFlags.has nonRigorMask = false → o.isSome

theorem FftCreated.of_refused {rigorFlags : Flags} {P : FftPlan → Prop} {G : Prop} {w' : World}
    (h : G → rigorFlags.has nonRigorMask = false → False) : FftCreated rigorFlags P G none w' :=
  ⟨fun f hf => (by cases hf), fun hG hr => (h hG hr).elim⟩

/-- What holds where one step of a planner ends: what it made satisfies `P`, and it did make it when
nothing is refused. -/
structure StepDone {β : Type} (P : β → Prop) (G : Prop) (o : Option β) (w' : World) : Prop where
  complete : G → o.isSome
  sound : ∀ b, o = some b → P b
  granted : G → w'.Granted

theorem Served.stepDone {β : Type} {w : World} {rs : List Request} {P : β → Prop} {G : Prop}
    {o : Option β} {w' : World} (h : Served w rs P o w') (hG : G → w.Granted) :
    StepDone P G o w' := by
  refine ⟨fun hg => h.isSome_iff.mpr ((hG hg).grants _), fun b hb => (h.made b hb).1, fun hg => ?_⟩
  obtain ⟨_, -, ha⟩ := h.asked
  exact ha.granted (hG hg)

theorem StepDone.created {rigorFlags : Flags} {P : FftPlan → Prop} {G : Prop} {o : Option FftPlan}
    {w' : World} (h : StepDone P G o w') : FftCreated rigorFlags P G o w' :=
  ⟨fun f hf => ⟨h.sound f hf, h.granted⟩, fun hg _ => h.complete hg⟩

/-- The stages of a complex transform. In place the data is reordered after an FFT at the input
extents, or before one at the output extents. -/
def c2cStages (i k1 k2 : Fin 3) (fftwSign : Int) (inp out : Ptr) (input output : FftwExtents)
    (flags : Flags) : Stages :=
  let dirs : List (Fin 5) := [k1.castAdd 2, k2.castAdd 2]
  let reorder := moveGuru inp out (reorderLoops input output) flags
  let fft := fun o tin tout => c2cGuru (i.castAdd 2) dirs o inp out tin tout flags
  if inp = out then
    if input.order 2 = i.castAdd 2 then
      let o := c2cOffset true fftwSign input input output
      { preorder := none, fft := fft o input input, postorder := some reorder, offset := o }
    else
      let o := c2cOffset true fftwSign output input output
      { preorder := some reorder, fft := fft o output output, postorder := none, offset := o }
  else
    let o := c2cOffset false fftwSign input input output
    { preorder := none, fft := fft o input output, postorder := none, offset := o }

/-- The stages of a complex-to-real transform. -/
def c2rStages (i k1 k2 : Fin 3) (inp out : Ptr) (input output : FftwExtents) (flags : Flags) :
    Stages :=
  let inPlace := inp == out
  let o : Offset := { ri := 0, ii := if inPlace then input.size 3 else 1, ro := 0, io := 0 }
  let move := fun loops => if inPlace then some (moveGuru inp out loops flags) else none
  { preorder := move (c2rPreorderLoops (([4, 3, 2] : List (Fin 5)).map input.order) input)
    fft := c2rGuru inPlace (i.castAdd 2) [k1.castAdd 2, k2.castAdd 2] o inp out input output flags
    postorder := move (c2rPostorderLoops (i.castAdd 2) (([4, 3, 2] : List (Fin 5)).map output.order)
      input output)
    offset := o }

/-- The stages of a real-to-complex transform. -/
def r2cStages (i k1 k2 : Fin 3) (inp out : Ptr) (input output : FftwExtents) (flags : Flags) :
    Stages :=
  let inPlace := inp == out
  let o : Offset :=
    { ri := 0, ii := 0, ro := 0, io := if inPlace then input.stride (i.castAdd 2) else 1 }
  { preorder := none
    fft := r2cGuru inPlace (i.castAdd 2) [k1.castAdd 2, k2.castAdd 2, 3] o inp out input output
      flags
    postorder := if inPlace then
        some (moveGuru inp out (r2cPostorderLoops (i.castAdd 2)
          (([4, 3, 2] : List (Fin 5)).map input.order) input output) flags)
      else none
    offset := o }

/-- The stages of a transform of the given type; there is none of an unspecified type. -/
def stagesOf (type : TransformType) (i k1 k2 : Fin 3) (inp out : Ptr) (input output : FftwExtents)
    (flags : Flags) : Stages :=
  match type with
  | .c2cForward => c2cStages i k1 k2 FFTW.FORWARD inp out input output flags
  | .c2cBackward => c2cStages i k1 k2 FFTW.BACKWARD inp out input output flags
  | .c2rBackward => c2rStages i k1 k2 inp out input output flags
  | .r2cForward => r2cStages i k1 k2 inp out input output flags
  | .unspecified =>
    { preorder := none, fft := nopGuru, postorder := none
      offset := { ri := 0, ii := 0, ro := 0, io := 0 } }

/-- What a planner of the given type needs for its stages, in the order of its requests. -/
def Stages.requests (s : Stages) (type : TransformType) : List Request :=
  .space :: (match type with
    | .c2rBackward => s.preorder.toList ++ s.fft :: s.postorder.toList
    | .r2cForward => s.fft :: s.postorder.toList
    | _ => s.preorder.toList ++ s.postorder.toList ++ [s.fft]).map .guru

/-- The plan the planner of the given type makes between the given extents. -/
def PlanBetween (type : TransformType) (i : Fin 3) (inp out : Ptr) (input output : FftwExtents)
    (rigorFlags : Flags) (f : FftPlan) : Prop :=
  ∃ k1 k2, Others i k1 k2 ∧ FftPlanFor i type inp out input output
    (stagesOf type i k1 k2 inp out input output (rigorFlags ||| FFTW.DESTROY_INPUT)) f

section Planners

variable {env : Env} {w : World} {i : Fin 3} {inp out : Ptr} {input output : FftwExtents}
  {rigorFlags : Flags}

theorem direction?_of (i : Fin 3) : direction? (i : Nat) = some i := by
  rw [direction?, dif_neg (not_outside i)]
  rfl

theorem destroyPlanOf_asked (p : Option FftwPlan) :
    Ends (destroyPlanOf p) w fun _ w' => w.Asked [] w' := by
  cases p with
  | none => exact .pure (.refl w)
  | some p => exact release_asked _

theorem fftwPlanDestroy_asked (f : FftPlan) :
    Ends (fftwPlanDestroy (some f)) w fun _ w' => w.Asked [] w' := by
  refine .bind (destroyPlanOf_asked _) fun _ w1 h1 => ?_
  refine .bind (destroyPlanOf_asked _) fun _ w2 h2 => ?_
  refine .bind (destroyPlanOf_asked _) fun _ w3 h3 => ?_
  exact (release_asked _).mono fun _ w4 h4 => ((h1.trans h2).trans h3).trans h4

theorem destroyed_asked {β : Type} (f : FftPlan) (reason : String) (w : World) :
    Ends (do fftwPlanDestroy (some f)
             (errorNull reason .esanity : C (Option β))) w fun o w' => o = none ∧
      w.Asked [] w' ∧ w.log.reports.length < w'.log.reports.length := by
  refine .bind (fftwPlanDestroy_asked f) fun _ w1 h1 => ?_
  refine (errorNull_asked reason .esanity).mono ?_
  rintro _ w2 ⟨rfl, h2, hlt⟩
  exact ⟨rfl, h1.trans h2, Nat.lt_of_le_of_lt h1.reports hlt⟩

theorem planFor_served (f : FftPlan) (g : Guru) (reason : String) :
    Ends (planFor f g reason) w (Served w [.guru g] fun p => p.desc = .guru g) :=
  served_of_request (planGuru_asked g) (destroyed_asked f reason) fun _ => rfl

theorem planFor_store (f : FftPlan) (g : Guru) (reason : String)
    {k : Option FftwPlan → C (Option FftPlan)} {P : FftPlan → Prop} (hnone : k none = pure none)
    (hsome : ∀ p, p.desc = .guru g → ∃ f', k (some p) = pure (some f') ∧ P f') :
    Ends (planFor f g reason >>= k) w (Served w [.guru g] P) := by
  refine Served.bind_pure (planFor_served f g reason) (fun w1 => ?_) hsome
  rw [hnone]
  exact Served.none_asked w1

theorem reorderComplex_served (inp out : Ptr) (input output : FftwExtents) (flags : Flags) :
    Ends (fftwPlanReorderComplex env inp out input output flags) w
      (Served w [.guru (moveGuru inp out (reorderLoops input output) flags)]
        fun p => p.desc = .guru (moveGuru inp out (reorderLoops input output) flags)) :=
  served_of_request (planGuru_asked _) (fun _ => errorNull_asked _ _) fun _ => rfl

/-- The plan and the extents `c2cReorder` goes on with. -/
inductive Reordered (f : FftPlan) (inp out : Ptr) (flags : Flags) :
    FftPlan × FftwExtents × FftwExtents → Prop where
  | apart : f.inPlace = false → Reordered f inp out flags (f, f.input, f.output)
  | after (p : FftwPlan) : f.inPlace = true → f.input.order 2 = f.long →
      p.desc = .guru (moveGuru inp out (reorderLoops f.input f.output) flags) →
      Reordered f inp out flags ({ f with planPostorder := some p }, f.input, f.input)
  | before (p : FftwPlan) : f.inPlace = true → f.input.order 2 ≠ f.long →
      p.desc = .guru (moveGuru inp out (reorderLoops f.input f.output) flags) →
      Reordered f inp out flags ({ f with planPreorder := some p }, f.output, f.output)

/-- The guru plan of an optional stage. -/
def moveFor (f : FftPlan) (inp out : Ptr) (loops : List IoDim) (flags : Flags) : Option Guru :=
  if f.inPlace then some (moveGuru inp out loops flags) else none

theorem c2cReorder_served (f : FftPlan)
    (hlong : f.input.order 2 = f.long ∨ f.output.order 2 = f.long) :
    Ends (c2cReorder env f inp out rigorFlags) w
      (Served w ((moveFor f inp out (reorderLoops f.input f.output)
          (rigorFlags ||| FFTW.DESTROY_INPUT)).toList.map .guru)
        (Reordered f inp out (rigorFlags ||| FFTW.DESTROY_INPUT))) := by
  have hfail : ∀ (reason : String) (w1 : World),
      Ends (do fftwPlanDestroy (some f)
               (errorNull reason .esanity : C (Option (FftPlan × FftwExtents × FftwExtents)))) w1
        fun r w2 => r = none ∧ w1.Asked [] w2 :=
    fun reason w1 => (destroyed_asked f reason w1).mono fun _ _ h => ⟨h.1, h.2.1⟩
  rw [c2cReorder, moveFor]
  by_cases hin : f.inPlace = true
  · rw [if_pos hin, if_pos hin]
    by_cases hi : f.input.order 2 = f.long
    · rw [if_pos hi]
      exact Served.bind_pure (reorderComplex_served inp out _ _ _) (hfail _) fun p hp =>
        ⟨_, rfl, .after p hin hi hp⟩
    · rw [if_neg hi, if_pos (hlong.resolve_left hi)]
      exact Served.bind_pure (reorderComplex_served inp out _ _ _) (hfail _) fun p hp =>
        ⟨_, rfl, .before p hin hi hp⟩
  · rw [if_neg hin, if_neg hin]
    exact .pure (.of_made (.apart (Bool.eq_false_iff.mpr hin)))

theorem others_lt (k1 k2 : Fin 3) :
    ∀ io ∈ ([k1.castAdd 2, k2.castAdd 2] : List (Fin 5)), io < 3 := by
  revert k1 k2
  decide

theorem assert_bind {β : Type} {p : Prop} [Decidable p] (hp : p) {k : Unit → C β}
    {Q : β → World → Prop} (hk : Ends (k ()) w Q) : Ends (assert p >>= k) w Q := by
  rw [assert, if_pos hp]
  exact hk

/-! ## The planners -/

/-- Between which extents the FFT of a complex transform works. -/
def c2cBetween (i : Fin 3) (inPlace : Bool) (input output : FftwExtents) :
    FftwExtents × FftwExtents :=
  let tin := if inPlace = true ∧ input.order 2 ≠ i.castAdd 2 then output else input
  (tin, if inPlace = true then tin else output)

theorem c2cStages_eq (i k1 k2 : Fin 3) (fftwSign : Int) (inp out : Ptr)
    (input output : FftwExtents) (flags : Flags) :
    c2cStages i k1 k2 fftwSign inp out input output flags =
      let t := c2cBetween i (inp == out) input output
      let o := c2cOffset (inp == out) fftwSign t.1 input output
      let reorder := moveGuru inp out (reorderLoops input output) flags
      { preorder :=
          if (inp == out) = true ∧ input.order 2 ≠ i.castAdd 2 then some reorder else none
        fft := c2cGuru (i.castAdd 2) [k1.castAdd 2, k2.castAdd 2] o inp out t.1 t.2 flags
        postorder :=
          if (inp == out) = true ∧ input.order 2 = i.castAdd 2 then some reorder else none
        offset := o } := by
  by_cases hio : inp = out
  · by_cases hi : input.order 2 = i.castAdd 2 <;> simp [c2cStages, c2cBetween, hio, hi]
  · have hapart : (inp == out) = false := by simpa using hio
    simp [c2cStages, c2cBetween, hio, hapart]

theorem Reordered.extents {f : FftPlan} {inp out : Ptr} {flags : Flags}
    {r : FftPlan × FftwExtents × FftwExtents} (h : Reordered f inp out flags r) :
    r.1.longNi = f.longNi ∧ r.1.type = f.type ∧ r.1.inPlace = f.inPlace ∧ r.1.input = f.input ∧
      r.1.output = f.output ∧ r.2 = c2cBetween f.longNi f.inPlace f.input f.output := by
  cases h with
  | apart hp => simp [c2cBetween, hp]
  | after p hp hi => simp [c2cBetween, hp, show f.input.order 2 = f.longNi.castAdd 2 from hi]
  | before p hp hi => simp [c2cBetween, hp, show f.input.order 2 ≠ f.longNi.castAdd 2 from hi]

theorem Reordered.planned {f : FftPlan} {inp out : Ptr} {flags : Flags}
    {r : FftPlan × FftwExtents × FftwExtents} (h : Reordered f inp out flags r)
    (hpre : f.planPreorder = none) (hpost : f.planPostorder = none) :
    let reorder := moveGuru inp out (reorderLoops f.input f.output) flags
    r.1.planPreorder.map (·.desc) =
        (if f.inPlace = true ∧ f.input.order 2 ≠ f.longNi.castAdd 2 then some reorder
          else none).map .guru ∧
      r.1.planPostorder.map (·.desc) =
        (if f.inPlace = true ∧ f.input.order 2 = f.longNi.castAdd 2 then some reorder
          else none).map .guru := by
  cases h with
  | apart hp => simp [hp, hpre, hpost]
  | after p hp hi hdesc => simp [hp, show f.input.order 2 = f.longNi.castAdd 2 from hi, hpre, hdesc]
  | before p hp hi hdesc =>
    simp [hp, show f.input.order 2 ≠ f.longNi.castAdd 2 from hi, hpost, hdesc]

theorem c2cStages_requests (i k1 k2 : Fin 3) {fftwSign : Int}
    (hsign : fftwSign = FFTW.FORWARD ∨ fftwSign = FFTW.BACKWARD) (inp out : Ptr)
    (input output : FftwExtents) (flags : Flags) {type : TransformType}
    (htype : type = if fftwSign = FFTW.FORWARD then .c2cForward else .c2cBackward) :
    let s := c2cStages i k1 k2 fftwSign inp out input output flags
    s.requests type = .space ::
      ((if (inp == out) = true then some (moveGuru inp out (reorderLoops input output) flags)
        else none).toList.map .guru ++ [.guru s.fft]) := by
  rw [htype]
  by_cases hio : inp = out
  · by_cases hi : input.order 2 = i.castAdd 2 <;>
      rcases hsign with rfl | rfl <;>
        simp [Stages.requests, c2cStages, hio, hi, FFTW.FORWARD, FFTW.BACKWARD]
  · rcases hsign with rfl | rfl <;>
      simp [Stages.requests, c2cStages, hio, FFTW.FORWARD, FFTW.BACKWARD]

theorem c2cInternal_served (inp out : Ptr) (hin : Interleaved input 2) (hout : Interleaved output 2)
    (hlong : input.order 2 = i.castAdd 2 ∨ output.order 2 = i.castAdd 2) {fftwSign : Int}
    (hsign : fftwSign = FFTW.FORWARD ∨ fftwSign = FFTW.BACKWARD)
    (hr : rigorFlags.has nonRigorMask = false) {type : TransformType}
    (htype : type = if fftwSign = FFTW.FORWARD then .c2cForward else .c2cBackward) :
    ∃ k1 k2, Others i k1 k2 ∧
      let s := c2cStages i k1 k2 fftwSign inp out input output (rigorFlags ||| FFTW.DESTROY_INPUT)
      ∀ w, Ends (fftwPlanCreateC2cInternal env (i : Nat) (some inp) (some out) fftwSign rigorFlags
        input output) w
          (Served w (s.requests type) (FftPlanFor i type inp out input output s)) := by
  have hinter : Interleaved (c2cBetween i (inp == out) input output).1 2 := by
    rw [c2cBetween]
    split
    · exact hout
    · exact hin
  obtain ⟨k1, k2, ho, hdirs⟩ := hinter.loopDirections i
  refine ⟨k1, k2, ho, fun w => ?_⟩
  have hs : ¬ (fftwSign ≠ FFTW.FORWARD ∧ fftwSign ≠ FFTW.BACKWARD) := by
    rcases hsign with h | h <;> simp [h]
  have hl : ¬ (input.order 2 ≠ i.castAdd 2 ∧ output.order 2 ≠ i.castAdd 2) := by
    rcases hlong with h | h <;> simp [h]
  simp only [fftwPlanCreateC2cInternal, direction?_of]
  rw [if_neg hs, if_neg (by rw [hr]; exact Bool.false_ne_true), if_neg hl]
  refine space_bind (fun w1 => errorNull_asked _ _) fun addr w1 h1 => ?_
  dsimp only
  generalize hf : FftPlan.mk .. = f0
  have hlong0 : f0.longNi = i := hf ▸ rfl
  have hinput : f0.input = input := hf ▸ rfl
  have houtput : f0.output = output := hf ▸ rfl
  have hplace : f0.inPlace = (inp == out) := hf ▸ rfl
  generalize hflags : rigorFlags ||| FFTW.DESTROY_INPUT = flags
  generalize hstages : c2cStages i k1 k2 fftwSign inp out input output flags = s
  have hreq : s.requests type = .space ::
      ((moveFor f0 inp out (reorderLoops f0.input f0.output) flags).toList.map .guru ++
        [.guru s.fft]) := by
    rw [← hstages, moveFor, hplace, hinput, houtput]
    exact c2cStages_requests i k1 k2 hsign inp out input output flags htype
  rw [c2cStages_eq] at hstages
  show Ends _ w1 (Served w1 (s.requests type).tail _)
  rw [hreq, ← hflags]
  refine Served.bind (c2cReorder_served f0 (by rwa [hinput, houtput, FftPlan.long, hlong0]))
    Served.none_asked ?_
  rintro ⟨f, t⟩ w2 hre h2
  obtain ⟨hpre, hpost⟩ := hre.planned (hf ▸ rfl) (hf ▸ rfl)
  obtain ⟨e1, e2, e3, e4, e5, e6⟩ := hre.extents
  dsimp only at hpre hpost e1 e2 e3 e4 e5 e6 ⊢
  rw [hlong0, hplace, hinput, houtput] at e6
  rw [hlong0, hplace, hinput, houtput, hflags] at hpre hpost
  have hlongf : f.long = i.castAdd 2 := by rw [FftPlan.long, e1, hlong0]
  have ho : c2cOffset f.inPlace fftwSign t.1 f.input f.output = s.offset := by
    rw [e3, e4, e5, hplace, hinput, houtput, e6, ← hstages]
  have hfft : c2cGuru (i.castAdd 2) [k1.castAdd 2, k2.castAdd 2] s.offset inp out t.1 t.2 flags =
      s.fft := by
    rw [e6, ← hstages]
  rw [← e6] at hdirs
  rw [hlongf, hdirs, hflags, ho,
    show FftPlan.long { f with offset := s.offset } = i.castAdd 2 from hlongf, hfft]
  refine assert_bind (others_lt k1 k2) (assert_bind rfl ?_)
  refine planFor_store _ _ _ rfl fun p hp => ⟨_, rfl, ?_⟩
  have htype0 : f0.type = type := htype ▸ hf ▸ rfl
  subst hstages
  exact ⟨e1.trans hlong0, e2.trans htype0, e4.trans hinput, e5.trans houtput, e3.trans hplace, rfl,
    hpre, congrArg some hp, hpost⟩

theorem interleaved_lt {e : FftwExtents} {parts : Nat} (h : Interleaved e parts) :
    ∀ io ∈ ([4, 3, 2] : List (Fin 5)).map e.order, io < 3 := by
  obtain ⟨a, b, c, hmap, -⟩ := h.domain
  have hlt : ∀ a b c : Fin 3, ∀ io ∈ [a, b, c].map (·.castAdd 2), io < (3 : Fin 5) := by decide
  rw [hmap]
  exact hlt a b c

theorem c2rPreorder_served {f : FftPlan}
    (hlt : ∀ io ∈ ([4, 3, 2] : List (Fin 5)).map f.input.order, io < 3)
    (hnone : f.planPreorder = none) (inp out : Ptr) (flags : Flags) :
    let move := moveFor f inp out
      (c2rPreorderLoops (([4, 3, 2] : List (Fin 5)).map f.input.order) f.input) flags
    Ends (c2rPreorder env f inp out flags) w (Served w (move.toList.map .guru) fun f' => ∃ q,
      f' = { f with planPreorder := q } ∧ q.map (·.desc) = move.map .guru) := by
  rw [c2rPreorder, moveFor]
  by_cases hp : f.inPlace = true
  · rw [if_pos hp, if_pos hp]
    refine assert_bind hlt ?_
    exact planFor_store _ _ _ rfl fun p hdesc => ⟨_, rfl, some p, rfl, congrArg some hdesc⟩
  · rw [if_neg hp, if_neg hp]
    exact .pure (.of_made ⟨none, by rw [← hnone], rfl⟩)

theorem c2rFft_served {f : FftPlan} {k1 k2 : Fin 3}
    (hdirs : loopDirections f.output.order [4, 3, 2] f.long = [k1.castAdd 2, k2.castAdd 2])
    (inp out : Ptr) (flags : Flags) :
    let o : Offset := { ri := 0, ii := if f.inPlace then f.input.size 3 else 1, ro := 0, io := 0 }
    let g := c2rGuru f.inPlace f.long [k1.castAdd 2, k2.castAdd 2] o inp out f.input f.output flags
    Ends (c2rFft env f inp out flags) w (Served w [.guru g] fun f' => ∃ p,
      f' = { f with offset := o, planFftw := some p } ∧ p.desc = .guru g) := by
  rw [c2rFft, hdirs]
  refine assert_bind (others_lt k1 k2) (assert_bind rfl ?_)
  exact planFor_store _ _ _ rfl fun p hdesc => ⟨_, rfl, p, rfl, hdesc⟩

theorem c2rPostorder_served {f : FftPlan} (hout : Interleaved f.output 1)
    (hsize : f.input.size 3 = f.output.size 3) (hnone : f.planPostorder = none) (inp out : Ptr)
    (flags : Flags) :
    let move := moveFor f inp out
      (c2rPostorderLoops f.long (([4, 3, 2] : List (Fin 5)).map f.output.order) f.input f.output)
      flags
    Ends (c2rPostorder env f inp out flags) w (Served w (move.toList.map .guru) fun f' => ∃ q,
      f' = { f with planPostorder := q } ∧ q.map (·.desc) = move.map .guru) := by
  rw [c2rPostorder, moveFor]
  by_cases hp : f.inPlace = true
  · rw [if_pos hp, if_pos hp]
    refine assert_bind (interleaved_lt hout) (assert_bind hsize ?_)
    exact planFor_store _ _ _ rfl fun p hdesc => ⟨_, rfl, some p, rfl, congrArg some hdesc⟩
  · rw [if_neg hp, if_neg hp]
    exact .pure (.of_made ⟨none, by rw [← hnone], rfl⟩)

theorem c2rInternal_served (inp out : Ptr) (hin : Interleaved input 2) (hout : Interleaved output 1)
    (hsize : input.size 3 = output.size 3) (hr : rigorFlags.has nonRigorMask = false) :
    ∃ k1 k2, Others i k1 k2 ∧
      let s := c2rStages i k1 k2 inp out input output (rigorFlags ||| FFTW.DESTROY_INPUT)
      ∀ w, Ends (fftwPlanCreateC2rBackwardInternal env (i : Nat) (some inp) (some out) rigorFlags
        input output) w (Served w (s.requests .c2rBackward)
          (FftPlanFor i .c2rBackward inp out input output s)) := by
  obtain ⟨k1, k2, ho, hdirs⟩ := hout.loopDirections i
  refine ⟨k1, k2, ho, fun w => ?_⟩
  simp only [fftwPlanCreateC2rBackwardInternal, direction?_of]
  rw [if_neg (by rw [hr]; exact Bool.false_ne_true)]
  refine space_bind (fun w1 => errorNull_asked _ _) fun addr w1 h1 => ?_
  dsimp only
  rw [List.map_append]
  refine Served.bind (c2rPreorder_served (interleaved_lt hin) rfl inp out _) Served.none_asked ?_
  rintro f1 w2 ⟨q1, rfl, hq1⟩ -
  refine Served.bind_cons (c2rFft_served hdirs inp out _) Served.none_asked ?_
  rintro f2 w3 ⟨p, rfl, hp⟩ -
  refine (c2rPostorder_served hout hsize rfl inp out _).mono fun _ _ hs => hs.mono ?_
  rintro f3 ⟨q2, rfl, hq2⟩
  exact ⟨rfl, rfl, rfl, rfl, rfl, rfl, hq1, congrArg some hp, hq2⟩

theorem r2cFft_served {f : FftPlan} {k1 k2 : Fin 3} (hin : Interleaved f.input 1)
    (hdirs : loopDirections f.input.order [4, 3, 2] f.long = [k1.castAdd 2, k2.castAdd 2])
    (inp out : Ptr) (flags : Flags) :
    let o : Offset :=
      { ri := 0, ii := 0, ro := 0, io := if f.inPlace then f.input.stride f.long else 1 }
    let g := r2cGuru f.inPlace f.long [k1.castAdd 2, k2.castAdd 2, 3] o inp out f.input f.output
      flags
    Ends (r2cFft env f inp out flags) w (Served w [.guru g] fun f' => ∃ p,
      f' = { f with offset := o, planFftw := some p } ∧ p.desc = .guru g) := by
  have hfields : loopDirections f.input.order [4, 3, 2, 1] f.long =
      [k1.castAdd 2, k2.castAdd 2, 3] := by
    have hsplit : loopDirections f.input.order [4, 3, 2, 1] f.long =
        loopDirections f.input.order [4, 3, 2] f.long ++ loopDirections f.input.order [1] f.long :=
      List.filter_append ([4, 3, 2].map f.input.order) ([1].map f.input.order)
    have hne : (3 : Fin 5) ≠ f.long := by
      rw [FftPlan.long]
      generalize f.longNi = i
      revert i
      decide
    rw [hsplit, hdirs]
    simp [Underling.loopDirections, hin.order_one, hne]
  rw [r2cFft, hfields]
  refine assert_bind rfl ?_
  exact planFor_store _ _ _ rfl fun p hdesc => ⟨_, rfl, p, rfl, hdesc⟩

theorem r2cPostorder_served {f : FftPlan} (hnone : f.planPostorder = none) (inp out : Ptr)
    (flags : Flags) :
    let move := moveFor f inp out
      (r2cPostorderLoops f.long (([4, 3, 2] : List (Fin 5)).map f.input.order) f.input f.output)
      flags
    Ends (r2cPostorder env f inp out flags) w (Served w (move.toList.map .guru) fun f' => ∃ q,
      f' = { f with planPostorder := q } ∧ q.map (·.desc) = move.map .guru) := by
  rw [r2cPostorder, moveFor]
  by_cases hp : f.inPlace = true
  · rw [if_pos hp, if_pos hp]
    exact planFor_store _ _ _ rfl fun p hdesc => ⟨_, rfl, some p, rfl, congrArg some hdesc⟩
  · rw [if_neg hp, if_neg hp]
    exact .pure (.of_made ⟨none, by rw [← hnone], rfl⟩)

theorem r2cInternal_served (inp out : Ptr) (hin : Interleaved input 1)
    (hr : rigorFlags.has nonRigorMask = false) :
    ∃ k1 k2, Others i k1 k2 ∧
      let s := r2cStages i k1 k2 inp out input output (rigorFlags ||| FFTW.DESTROY_INPUT)
      ∀ w, Ends (fftwPlanCreateR2cForwardInternal env (i : Nat) (some inp) (some out) rigorFlags
        input output) w (Served w (s.requests .r2cForward)
          (FftPlanFor i .r2cForward inp out input output s)) := by
  obtain ⟨k1, k2, ho, hdirs⟩ := hin.loopDirections i
  refine ⟨k1, k2, ho, fun w => ?_⟩
  simp only [fftwPlanCreateR2cForwardInternal, direction?_of]
  rw [if_neg (by rw [hr]; exact Bool.false_ne_true)]
  refine space_bind (fun w1 => errorNull_asked _ _) fun addr w1 h1 => ?_
  dsimp only
  refine Served.bind_cons (r2cFft_served hin hdirs inp out _) Served.none_asked ?_
  rintro f1 w2 ⟨p, rfl, hp⟩ -
  refine (r2cPostorder_served rfl inp out _).mono fun _ _ hs => hs.mono ?_
  rintro f2 ⟨q, rfl, hq⟩
  exact ⟨rfl, rfl, rfl, rfl, rfl, rfl, rfl, congrArg some hp, hq⟩

end Planners

end Underling
