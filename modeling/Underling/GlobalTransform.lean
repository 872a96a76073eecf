import Underling.Cover
import Underling.Lib.Axes
import Underling.Spectral
import Underling.StorageFlags

/-!
# Underling.GlobalTransform

The transform of a field that is distributed over the processes: what the way from long in `n2` to
long in `n0` computes of it, with transforms in all three directions.

* `FieldIn.fft`: a transform takes the declared input of a field to the declared output of the field
  transformed along one direction.
* `fieldIn_iff_loaded`: the complex side of a plan is the pencil.
* `distributed_transform`: so, on the grids whose storage is as declared, the way computes the
  three-dimensional transform, however the processes interleave.
-/

namespace Underling

open Axes Schedule Strided

variable {α : Type}

/-! ## Fields of complex numbers -/

/-- A part of a complex number. -/
def part (c : Nat) (v : α × α) : α := if c = 0 then v.1 else v.2

/-- Every process holds the field `z` in the buffer `ptr` as the extents declare; of real fields the
first parts only. -/
def FieldIn {env : Env} (job : Job env) (e : Nat → Nat → FftwExtents) (ptr : Ptr)
    (z : (Fin 4 → Nat) → α × α) (mem : Nat → Nat → Mem α) : Prop :=
  ∀ a b, a < job.pA → b < job.pB →
    (e a b).LaidOut (fun g => part (g 4) (z ![g 0, g 1, g 2, g 3])) (mem a b ptr)

/-- The forward transform of a line of length `n`, of real or of complex values. -/
def forwardLine (K : Kernel α) (real : Bool) (n : Nat) (v : Nat → α × α) (k : Nat) : α × α :=
  if real then
    if h : k < n / 2 + 1 then K.r2c n (fun j => (v j).1) ⟨k, h⟩ else v k
  else if h : k < n then K.dft n (fun j => v j) ⟨k, h⟩ else v k

/-! ## Starts -/

theorem Creator.start_eq (c : Creator) (e : Extents) (i : Fin 3) (packedFlags : Flags) :
    (c.input e i packedFlags).start = extend e.start 0 ∧
      (c.output e i packedFlags).start = extend e.start 0 := by
  have hstored : (complexExtents e).start = extend e.start 0 := rfl
  have hside : (c.packedSide e i packedFlags).start = extend e.start 0 := by
    have hadjusted : (c.side e i).start = extend e.start 0 := by
      rw [← (e.adjusted_parts i).1, side]
      split <;> rfl
    rw [packedSide]
    split
    · exact hadjusted
    · exact hadjusted
  cases c with
  | c2cForward => exact ⟨hstored, hside⟩
  | c2cBackward => exact ⟨hstored, hside⟩
  | c2rBackward => exact ⟨hstored, hside⟩
  | r2cForward => exact ⟨hside, hstored⟩

/-! ## One transform -/

/-- The index in the field of the local index `j`, the components left out. -/
def FftwExtents.globe (e : FftwExtents) (j : Fin 5 → Nat) : Fin 4 → Nat :=
  ![e.start 0 + j 0, e.start 1 + j 1, e.start 2 + j 2, e.start 3 + j 3]

theorem fieldLaidOut_iff {e : FftwExtents} (he : e.start 4 = 0) {z : (Fin 4 → Nat) → α × α}
    {x : Nat → α} : e.LaidOut (fun g => part (g 4) (z ![g 0, g 1, g 2, g 3])) x ↔
      ∀ j, e.InBox j → x (e.addr j) = part (j 4) (z (e.globe j)) := by
  rw [Layout.laidOut_iff]
  have hpart : ∀ j : Fin 5 → Nat, e.start 4 + j 4 = j 4 := fun j => by rw [he, Nat.zero_add]
  simp only [hpart]
  rfl

section Made

variable {c : Creator} {e : Extents} {i : Fin 3} {inp out : Ptr} {rigorFlags packedFlags : Flags}
  {f : FftPlan} {K : Kernel α} {x y : Nat → α} {z : (Fin 4 → Nat) → α × α} {j : Fin 5 → Nat}

theorem Made.starts (hf : Made c e i inp out rigorFlags packedFlags f) (he : e.Pencil i) :
    f.output.start = f.input.start ∧ f.input.start (i.castAdd 2) = 0 ∧ f.input.start 4 = 0 := by
  obtain ⟨hin, hout⟩ := c.start_eq e i packedFlags
  rw [hf.input_eq, hf.output_eq, hin, hout]
  refine ⟨rfl, ?_, rfl⟩
  rw [← he.start_long]
  fin_cases i <;> rfl

theorem Made.globe_onLine (hf : Made c e i inp out rigorFlags packedFlags f) (he : e.Pencil i)
    (j : Fin 5 → Nat) (m c : Nat) : f.input.globe (onLine i j m c) =
      Function.update (f.output.globe j) (i.castAdd 1) m := by
  obtain ⟨hstart, hlong, -⟩ := hf.starts he
  funext k
  fin_cases i <;> fin_cases k <;> simp_all [FftwExtents.globe, onLine]

/-- The lines of the output are the transforms of those of the input. -/
theorem Made.laidOut (hc : c = .c2cForward ∨ c = .r2cForward)
    (hf : Made c e i inp out rigorFlags packedFlags f) (he : e.Pencil i)
    (ht : Transforms K c.type i f.input f.output x y)
    (hx : f.input.LaidOut (fun g => part (g 4) (z ![g 0, g 1, g 2, g 3])) x) :
    f.output.LaidOut (fun g => part (g 4)
      (onAxis (forwardLine K c.real (f.input.size (i.castAdd 2))) (i.castAdd 1) z
        ![g 0, g 1, g 2, g 3])) y := by
  obtain ⟨hstart, hlong, hfour⟩ := hf.starts he
  have hshape := hf.shaped
  rw [fieldLaidOut_iff hfour] at hx
  rw [fieldLaidOut_iff (hstart ▸ hfour)]
  intro j hj
  have hlines : Lines f.input i j := by
    have hcases : ∀ k : Fin 5, k = 4 ∨ k = 3 ∨ ∃ k' : Fin 3, k = k'.castAdd 2 := by decide
    intro k hl h4
    rcases hcases k with rfl | rfl | ⟨k, rfl⟩
    · exact absurd rfl h4
    · rw [hshape.fields.1, ← hshape.fields.2]
      exact hj 3
    · have hk := hshape.across k fun hk => hl (congrArg _ hk)
      rw [hk.1, ← hk.2]
      exact hj _
  -- the parts of the input on the line through `j`
  have hread : ∀ m p, f.input.InBox (onLine i j m p) → x (f.input.addr (onLine i j m p)) =
      part p (z (Function.update (f.output.globe j) (i.castAdd 1) m)) := by
    intro m p hin
    rw [hx _ hin, hf.globe_onLine he, onLine_four]
  have hpoint : f.output.globe j (i.castAdd 1) = j (i.castAdd 2) := by
    rw [← hstart] at hlong
    fin_cases i <;> simp_all [FftwExtents.globe]
  have hself : onLine i j (j (i.castAdd 2)) (j 4) = j := by
    funext k
    rw [onLine]
    split
    · next h => rw [h]
    · split
      · next h => rw [h]
      · rfl
  have hwrite : y (f.output.addr j) =
      part (j 4) (complexLine f.output i y j (j (i.castAdd 2))) := by
    have h4 : j 4 < 2 := by
      have h4 := hj 4
      rcases hc with rfl | rfl
      · rwa [hf.sides.2.1.size_four] at h4
      · rwa [hf.sides.2.1.size_four] at h4
    nth_rewrite 1 [← hself]
    rw [part, complexLine]
    split
    · next h => rw [h]
    · rw [show j 4 = 1 by omega]
  rw [hwrite, onAxis, hpoint]
  congr 1
  rcases hc with rfl | rfl
  · have hn : j (i.castAdd 2) < f.input.size (i.castAdd 2) := by
      rw [← hf.sides.2.2.1]
      exact hj _
    have hline : ∀ m : Fin (f.input.size (i.castAdd 2)), complexLine f.input i x j m =
        z (Function.update (f.output.globe j) (i.castAdd 1) m) := by
      intro m
      have hbox : ∀ p, p < 2 → f.input.InBox (onLine i j m p) := fun p hp =>
        inBox_onLine hlines m.isLt (by rwa [hf.sides.1.size_four])
      exact Prod.ext (hread m 0 (hbox 0 (by decide))) (hread m 1 (hbox 1 (by decide)))
    refine (ht j hlines ⟨_, hn⟩).trans ?_
    rw [forwardLine, if_neg (by decide), dif_pos hn, funext hline]
  · have hn : j (i.castAdd 2) < f.input.size (i.castAdd 2) / 2 + 1 := by
      rw [← hf.sides.2.2.1.half]
      exact hj _
    have hline : ∀ m : Fin (f.input.size (i.castAdd 2)), realLine f.input i x j m =
        (z (Function.update (f.output.globe j) (i.castAdd 1) m)).1 := fun m =>
      hread m 0 (inBox_onLine hlines m.isLt (by rw [hf.sides.1.size_four]; exact Nat.one_pos))
    refine (ht j hlines ⟨_, hn⟩).trans ?_
    rw [forwardLine, if_pos (by decide), dif_pos hn, funext hline]

end Made

section Fields

variable {env : Env} {job : Job env} (planning : Planning job) (mpi : FftwMpi α)
  (fftw : FftwExec α) {c : Creator} {i : Fin 3} {inp out x y : Ptr} {p : Nat → Nat → FftPlan}
  {z : (Fin 4 → Nat) → α × α} {mem : Nat → Nat → Mem α}

theorem FieldIn.congr {e e' : Nat → Nat → FftwExtents} (hz : FieldIn job e x z mem)
    (he : ∀ a b, a < job.pA → b < job.pB → e a b = e' a b) : FieldIn job e' x z mem :=
  fun a b ha hb => he a b ha hb ▸ hz a b ha hb

/-- All processes execute their plans: the field is transformed along `i`. -/
theorem FieldIn.fft (hc : c = .c2cForward ∨ c = .r2cForward) (h : FftPlanned job c i inp out p)
    (hplace : x = y ↔ inp = out) (hz : FieldIn job (fun a b => (p a b).input) x z mem) :
    FieldIn job (fun a b => (p a b).output) y
      (onAxis (forwardLine fftw.kernel c.real (c.logical (job.points i))) (i.castAdd 1) z)
      (planning.perform mpi (fftTask fftw p x y) mem) := by
  intro a b ha hb
  obtain ⟨rigorFlags, packedFlags, w, w', hrun⟩ := h.forward a b ha hb
  have hmade := Made.of_run ha hb h.even hrun
  have he := job.pencil ha hb i
  obtain ⟨m', hexec, ht⟩ := hmade.madeBetween.execute fftw hplace (mem a b)
  have hlen : c.type.length i (p a b).input (p a b).output = (p a b).input.size (i.castAdd 2) := by
    rcases hc with rfl | rfl <;> rfl
  rw [perform_fftTask fftw ha hb hexec, ← job.size_long ha hb, ← hmade.length_eq he, hlen]
  exact hmade.laidOut hc he ht (hz a b ha hb)

/-! ## Complex sides -/

/-- The real values of a field of complex numbers, two for each. -/
def reals (z : (Fin 4 → Nat) → α × α) (g : Fin 4 → Nat) : α :=
  part (g 3 % 2) (z ![g 0, g 1, g 2, g 3 / 2])

omit env job in
theorem reals_realField {e : Extents} (h3 : e.start 3 = 0) {j : Fin 5 → Nat} (hj : j 4 < 2) :
    reals z (fun k => e.start k + realField j k) = part (j 4) (z ((complexExtents e).globe j)) := by
  have hthree : e.start 3 + realField j 3 = 2 * j 3 + j 4 := by rw [h3, Nat.zero_add]; rfl
  have hpart : (2 * j 3 + j 4) % 2 = j 4 := by omega
  have hfield : (2 * j 3 + j 4) / 2 = e.start 3 + j 3 := by omega
  rw [reals, hthree, hpart, hfield]
  rfl

omit env job in
theorem complexExtents_laidOut {e : Extents} (heven : e.size 3 % 2 = 0) (h3 : e.start 3 = 0)
    {x : Nat → α} :
    (complexExtents e).LaidOut (fun g => part (g 4) (z ![g 0, g 1, g 2, g 3])) x ↔
      e.LaidOut (reals z) x := by
  rw [fieldLaidOut_iff rfl, Layout.laidOut_iff]
  constructor
  · intro h j hj
    let j' : Fin 5 → Nat := ![j 0, j 1, j 2, j 3 / 2, j 3 % 2]
    have hfield : realField j' = j := by
      funext k
      fin_cases k
      · rfl
      · rfl
      · rfl
      · exact Nat.div_add_mod (j 3) 2
    have hin : (complexExtents e).InBox j' := by
      have h := hj 3
      intro k
      fin_cases k
      · exact hj 0
      · exact hj 1
      · exact hj 2
      · show j 3 / 2 < e.size 3 / 2
        omega
      · exact Nat.mod_lt _ (by decide)
    have hval := h j' hin
    rw [complexExtents_addr, ← reals_realField h3 (hin 4), hfield] at hval
    exact hval
  · intro h j hj
    rw [complexExtents_addr, h _ (complexExtents_inBox heven hj), reals_realField h3 (hj 4)]

/-- The complex extents of its pencils hold a field exactly if the pencils hold its real values. -/
theorem fieldIn_iff_loaded (heven : job.howmany % 2 = 0) :
    FieldIn job (fun a b => complexExtents ((job.problem a b).longN i)) x z mem ↔
      job.Loaded i x (reals z) mem := by
  have hstart : ∀ {a b}, a < job.pA → b < job.pB → ((job.problem a b).longN i).start 3 = 0 := by
    intro a b ha hb
    rw [job.longN_eq ha hb]
    fin_cases i <;> rfl
  constructor
  · intro h a b ha hb
    have hfield := h a b ha hb
    exact (complexExtents_laidOut (job.size_three_even ha hb i heven) (hstart ha hb)).mp hfield
  · intro h a b ha hb
    exact (complexExtents_laidOut (job.size_three_even ha hb i heven) (hstart ha hb)).mpr
      (h a b ha hb)

/-! ## Sides on the way -/

/-- Both sides of a complex plan are the pencil, and so is the output of a plan of real fields. -/
theorem FftPlanned.sides_eq (hc : c = .c2cForward ∨ c = .r2cForward)
    (h : FftPlanned job c i inp out p) {a b : Nat} (ha : a < job.pA) (hb : b < job.pB)
    (hlong : c.real = true ∨ ((job.problem a b).longN i).order 1 = i.castAdd 1) :
    (c.real = false → (p a b).input = complexExtents ((job.problem a b).longN i)) ∧
      (p a b).output = complexExtents ((job.problem a b).longN i) := by
  obtain ⟨rigorFlags, packedFlags, w, w', hrun⟩ := h.forward a b ha hb
  have hmade := Made.of_run ha hb h.even hrun
  have he := job.pencil ha hb i
  have heven := job.size_three_even ha hb i h.even
  rw [hmade.input_eq, hmade.output_eq]
  rcases hc with rfl | rfl
  · have hadjusted := adjusted_of_eq (hlong.resolve_left (by decide))
    have hpack : packStridesAccordingToOrder (complexExtents ((job.problem a b).longN i)) =
        complexExtents ((job.problem a b).longN i) := (complexSide he heven).pack_eq
    have hside : Creator.c2cForward.side ((job.problem a b).longN i) i =
        complexExtents ((job.problem a b).longN i) := by
      rw [Creator.side, if_neg (by decide), hadjusted]
    refine ⟨fun _ => rfl, ?_⟩
    show (Creator.c2cForward.packedSide _ i packedFlags) = _
    rw [Creator.packedSide, hside, hpack, ite_self]
  · exact ⟨fun hr => absurd hr (by decide), rfl⟩

/-- The pencils without a flag for their direction are stored with it next to the fields. -/
theorem order_one {a b : Nat} (ha : a < job.pA) (hb : b < job.pB)
    (hi : i = 1 ∨ (i = 2 ∧ job.flags.has TRANSPOSED_LONG_N2 = false) ∨
      (i = 0 ∧ job.flags.has TRANSPOSED_LONG_N0 = false)) :
    ((job.problem a b).longN i).order 1 = i.castAdd 1 := by
  rw [job.longN_eq ha hb, Decomposition.order_longN]
  show storageOrder job.flags i 1 = _
  rcases hi with rfl | ⟨rfl, hf⟩ | ⟨rfl, hf⟩
  · rfl
  · simp only [storageOrder, hf]
    rfl
  · simp only [storageOrder, hf]
    rfl

/-! ## Directions -/

variable {planning mpi} {u : (Fin 4 → Nat) → α}

/-- What the processes hold after executing a direction together. -/
theorem loaded_perform (move : Move) (hp : planning.Placed x y)
    (h : job.Loaded move.target y u (planning.exchange mpi move x y mem)) :
    job.Loaded move.target y u (planning.perform mpi (.execute ⟨move, x, y⟩) mem) := by
  intro a b ha hb
  by_cases ht : (job.decomp.args move a b).Trivial
  · -- there is no data
    have hextent : ((job.problem a b).longN move.target).extent = 0 := by
      rw [job.longN_eq ha hb, Decomposition.extent_target, TransposeArgs.outSize_of_trivial ht]
    rw [(job.isProblem ha hb).extent_eq, Finset.prod_eq_zero_iff] at hextent
    obtain ⟨k, -, hk⟩ := hextent
    rw [Layout.laidOut_iff]
    intro j hj
    exact absurd (hj k) (by omega)
  · have hj : planning.Joint ⟨move, x, y⟩ a b := ⟨ht, hp⟩
    rw [planning.perform_joint ha hb hj, ← Planning.exchange_eq mpi hp ha hb]
    exact h a b ha hb

theorem loaded_of_no_fields (hh : ¬ 0 < job.howmany) : job.Loaded i y u mem := by
  intro a b ha hb
  rw [Layout.laidOut_iff]
  intro j hj
  have h3 := hj 3
  rw [job.size_three ha hb] at h3
  omega

variable (mpi)

/-- Where each process has one plane of `n0` or there is one process along `n1`, long in `n2` leads
to long in `n1`. -/
theorem Job.Loaded.n2n1 [Nontrivial α] (h : job.Loaded 2 x u mem) (hp : planning.Placed x y)
    (hgrid : job.pA = 1 ∨ job.n0 ≤ job.pB) :
    job.Loaded 1 y u (planning.perform mpi (.execute ⟨.n2n1, x, y⟩) mem) := by
  by_cases hh : 0 < job.howmany
  · have hplanes : job.pA = 1 ∨ job.decomp.n0 ≤ job.pB := by
      show _ ∨ job.n0.toNat ≤ job.pB
      omega
    exact loaded_perform .n2n1 hp ((storage_n2n1_iff mpi hh).mpr hplanes x y u mem hp h)
  · exact loaded_of_no_fields hh

/-- Where each process has one plane of `n2` or there is one process along `n0`, long in `n1` leads
to long in `n0`. -/
theorem Job.Loaded.n1n0 [Nontrivial α] (h : job.Loaded 1 x u mem) (hp : planning.Placed x y)
    (hf : job.flags.has TRANSPOSED_LONG_N0 = false) (hgrid : job.pB = 1 ∨ job.n2 ≤ job.pA) :
    job.Loaded 0 y u (planning.perform mpi (.execute ⟨.n1n0, x, y⟩) mem) := by
  by_cases hh : 0 < job.howmany
  · have hplanes : job.pB = 1 ∨ job.decomp.n2 ≤ job.pA := by
      show _ ∨ job.n2.toNat ≤ job.pA
      omega
    exact loaded_perform .n1n0 hp
      ((storage_n1n0_iff mpi hh hf).mpr hplanes x y u mem hp h)
  · exact loaded_of_no_fields hh

/-! ## Stages on the way -/

variable (planning)

theorem FieldIn.first (hc : c = .c2cForward ∨ c = .r2cForward) (h : FftPlanned job c 2 inp out p)
    (hplace : x = y ↔ inp = out)
    (hflag : c = .c2cForward → job.flags.has TRANSPOSED_LONG_N2 = false)
    (hz : FieldIn job (fun a b => (p a b).input) x z mem) :
    job.Loaded 2 y
      (reals (onAxis (forwardLine fftw.kernel c.real (c.logical (job.points 2))) 2 z))
      (planning.perform mpi (fftTask fftw p x y) mem) := by
  refine (fieldIn_iff_loaded h.even).mp ?_
  refine (hz.fft planning mpi fftw hc h hplace).congr fun a b ha hb => ?_
  have hlong : c.real = true ∨ ((job.problem a b).longN 2).order 1 = Fin.castAdd 1 2 := by
    rcases hc with rfl | rfl
    · exact .inr (order_one ha hb (.inr (.inl ⟨rfl, hflag rfl⟩)))
    · exact .inl rfl
  exact (h.sides_eq hc ha hb hlong).2

/-- A transform of complex fields in a pencil stored with its long direction next to the fields. -/
theorem Job.Loaded.fft (h : FftPlanned job .c2cForward i inp out p) (hplace : x = y ↔ inp = out)
    (hi : i = 1 ∨ (i = 2 ∧ job.flags.has TRANSPOSED_LONG_N2 = false) ∨
      (i = 0 ∧ job.flags.has TRANSPOSED_LONG_N0 = false))
    (hz : job.Loaded i x (reals z) mem) :
    job.Loaded i y (reals (onAxis (forwardLine fftw.kernel false (job.points i)) (i.castAdd 1) z))
      (planning.perform mpi (fftTask fftw p x y) mem) := by
  have hsides : ∀ {a b}, a < job.pA → b < job.pB →
      (p a b).input = complexExtents ((job.problem a b).longN i) ∧
        (p a b).output = complexExtents ((job.problem a b).longN i) := by
    intro a b ha hb
    obtain ⟨hin, hout⟩ := h.sides_eq (.inl rfl) ha hb (.inr (order_one ha hb hi))
    exact ⟨hin rfl, hout⟩
  have hz' : FieldIn job (fun a b => (p a b).input) x z mem :=
    ((fieldIn_iff_loaded h.even).mpr hz).congr fun a b ha hb => (hsides ha hb).1.symm
  refine (fieldIn_iff_loaded h.even).mp ?_
  exact (hz'.fft planning mpi fftw (.inl rfl) h hplace).congr fun a b ha hb => (hsides ha hb).2

end Fields

/-! ## The way there -/

/-- The plans and the buffers of the way from long in `n2` to long in `n0`. -/
structure WayThere {env : Env} {job : Job env} (planning : Planning job) (c : Creator) where
  buffer : Fin 6 → Ptr
  plan : Fin 3 → Nat → Nat → FftPlan
  /-- The buffers the transform plans were made for. -/
  inp : Fin 3 → Ptr
  out : Fin 3 → Ptr
  planned2 : FftPlanned job c 2 (inp 2) (out 2) (plan 2)
  planned1 : FftPlanned job .c2cForward 1 (inp 1) (out 1) (plan 1)
  planned0 : FftPlanned job .c2cForward 0 (inp 0) (out 0) (plan 0)
  place2 : buffer 0 = buffer 1 ↔ inp 2 = out 2
  place_n2n1 : planning.Placed (buffer 1) (buffer 2)
  place1 : buffer 2 = buffer 3 ↔ inp 1 = out 1
  place_n1n0 : planning.Placed (buffer 3) (buffer 4)
  place0 : buffer 4 = buffer 5 ↔ inp 0 = out 0

def WayThere.tasks {env : Env} {job : Job env} {planning : Planning job} {c : Creator}
    (way : WayThere planning c) (fftw : FftwExec α) : List (Task α) :=
  [fftTask fftw (way.plan 2) (way.buffer 0) (way.buffer 1),
    .execute ⟨.n2n1, way.buffer 1, way.buffer 2⟩,
    fftTask fftw (way.plan 1) (way.buffer 2) (way.buffer 3),
    .execute ⟨.n1n0, way.buffer 3, way.buffer 4⟩,
    fftTask fftw (way.plan 0) (way.buffer 4) (way.buffer 5)]

/-- The transform of a field of complex numbers in three directions. -/
noncomputable def spectrum (n0 n1 n2 : Nat) (z : (Fin 4 → Nat) → ℝ × ℝ) (k : Fin 4 → Nat) : ℝ × ℝ :=
  Fourier.ofComplex (∑ j0 : Fin n0, ∑ j1 : Fin n1, ∑ j2 : Fin n2,
    Fourier.phase n0 j0 (k 0) * Fourier.phase n1 j1 (k 1) * Fourier.phase n2 j2 (k 2) *
      Fourier.toComplex (z ![j0, j1, j2, k 3]))

theorem logical_complex (n : Nat) : Creator.c2cForward.logical n = n := if_neg (by decide)

/-- Along one direction, of complex or of real fields. -/
theorem forwardLine_summed {c : Creator} (hc : c = .c2cForward ∨ c = .r2cForward) {n : Nat}
    (hn : 0 < n) (i : Fin 4) {z : (Fin 4 → Nat) → ℝ × ℝ}
    (hz : c.real = true → ∀ g, (z g).2 = 0) :
    Summed Fourier.toComplex i (c.logical n) n (Fourier.phase (c.logical n)) z
      (onAxis (forwardLine .fourier c.real (c.logical n)) i z) := by
  intro g hg
  rcases hc with rfl | rfl
  · rw [logical_complex, onAxis, forwardLine, if_neg (by decide), dif_pos hg]
    exact Fourier.toComplex_dft _ _
  · have hhalf : g i < Creator.r2cForward.logical n / 2 + 1 := by
      simp only [Creator.logical, Creator.real, if_true]
      split <;> omega
    have hpos : 0 < Creator.r2cForward.logical n := by
      simp only [Creator.logical, Creator.real, if_true]
      split <;> omega
    rw [onAxis, forwardLine, if_pos (by decide), dif_pos hhalf]
    refine (Fourier.toComplex_r2c _ _ hpos).trans (Finset.sum_congr rfl fun j _ => ?_)
    rw [← hz rfl (Function.update g i j)]

/-- On the grids whose storage is as declared, the way from long in `n2` to long in `n0` leaves the
transform of the field in all three directions, however the processes interleave. -/
theorem distributed_transform {env : Env} {job : Job env} (planning : Planning job) {c : Creator}
    (hc : c = .c2cForward ∨ c = .r2cForward) (way : WayThere planning c)
    (hn2 : c = .c2cForward → job.flags.has TRANSPOSED_LONG_N2 = false)
    (hn0 : job.flags.has TRANSPOSED_LONG_N0 = false)
    (hgrid : (job.pA = 1 ∨ job.n0 = job.pB) ∧ (job.pB = 1 ∨ job.n2 ≤ job.pA))
    (mpi : FftwMpi ℝ) (fftw : FftwExec ℝ) (hkernel : fftw.kernel = .fourier)
    {z : (Fin 4 → Nat) → ℝ × ℝ} (hreal : c.real = true → ∀ g, (z g).2 = 0)
    {mem : Nat → Nat → Mem ℝ}
    (hz : FieldIn job (fun a b => (way.plan 2 a b).input) (way.buffer 0) z mem)
    {fired : List (Event ℝ)} {s : Collectives.State job.Proc (Event ℝ) (Mem ℝ)}
    (hrun : (planning.system mpi mem).Run (planning.launch (way.tasks fftw) mem) fired s)
    (hs : s.Finished) (r : job.Proc) :
    ((job.problem r.1 r.2).longN 0).LaidOut (reals (spectrum (job.points 0) (job.points 1)
      (c.logical (job.points 2)) z)) (s.data r (way.buffer 5)) := by
  have hplanes : job.pA = 1 ∨ job.n0 ≤ job.pB := hgrid.1.imp_right le_of_eq
  have h1 := hz.first planning mpi fftw hc way.planned2 way.place2 hn2
  have h2 := h1.n2n1 mpi way.place_n2n1 hplanes
  have h3 := h2.fft planning mpi fftw way.planned1 way.place1 (.inl rfl)
  have h4 := h3.n1n0 mpi way.place_n1n0 hn0 hgrid.2
  have h5 := h4.fft planning mpi fftw way.planned0 way.place0 (.inr (.inr ⟨rfl, hn0⟩))
  -- the three transforms, as sums over the lines
  have hcomplex : ∀ (i : Fin 3) (k : Fin 4) (z : (Fin 4 → Nat) → ℝ × ℝ),
      Summed Fourier.toComplex k (job.points i) (job.points i) (Fourier.phase (job.points i)) z
        (onAxis (forwardLine .fourier false (job.points i)) k z) := by
    intro i k z
    have h := forwardLine_summed (c := .c2cForward) (.inl rfl) (job.points_pos i) k (z := z)
      fun h => absurd h (by decide)
    rwa [logical_complex] at h
  rw [hkernel] at h5
  rw [planning.run_settles hrun hs r]
  intro g hg
  refine (h5 r.1 r.2 r.1.isLt r.2.isLt g hg).trans (congrArg (part (g 3 % 2)) ?_)
  rw [job.longN_eq r.1.isLt r.2.isLt] at hg
  obtain ⟨⟨hg0, hg1, hg2, -⟩, -⟩ := (job.decomp.holds_longN_iff 0 r.1 r.2 g).mp hg
  apply Fourier.toComplex_injective
  have hfirst := forwardLine_summed hc (job.points_pos 2) 2 hreal
  have hsum := hfirst.three (hcomplex 1 1 _) (hcomplex 0 0 _)
    (by decide) (by decide) (by decide) (g := ![g 0, g 1, g 2, g 3 / 2]) hg2 hg1 hg0
  refine hsum.trans (Finset.sum_congr rfl fun j0 _ => Finset.sum_congr rfl fun j1 _ =>
    Finset.sum_congr rfl fun j2 _ => ?_)
  have hplace : Function.update (Function.update (Function.update ![g 0, g 1, g 2, g 3 / 2] 0 ↑j0)
      1 ↑j1) 2 ↑j2 = ![(j0 : Nat), j1, j2, g 3 / 2] := by
    funext k
    fin_cases k <;> rfl
  rw [hplace]
  rfl

/-- Real fields on `2 × 2` processes of a `2 × 4 × 2` grid, with the rows of `n2` stored transposed
and packed. -/
theorem distributed_transform_thin :
    ∃ (job : Job .reference) (planning : Planning job) (way : WayThere planning .r2cForward),
      (job.n0 = 2 ∧ job.n1 = 4 ∧ job.n2 = 2) ∧ (job.pA = 2 ∧ job.pB = 2) ∧ job.howmany = 2 ∧
      ∃ mem : Nat → Nat → Mem ℝ,
        let z : (Fin 4 → Nat) → ℝ × ℝ := fun g => ((g 0 + g 1 * g 2 : Nat), 0)
        FieldIn job (fun a b => (way.plan 2 a b).input) (way.buffer 0) z mem ∧
        ∃ fired s, (planning.system FftwMpi.reference mem).Run
            (planning.launch (way.tasks (.reference .fourier)) mem) fired s ∧
          ∀ r : job.Proc, ((job.problem r.1 r.2).longN 0).LaidOut
            (reals (spectrum (job.points 0) (job.points 1)
              (Creator.r2cForward.logical (job.points 2)) z)) (s.data r (way.buffer 5)) := by
  obtain ⟨job, planning, hn, hp, hhow, hflags, hi, ho⟩ :=
    exists_planned 2 4 2 2 2 2 TRANSPOSED_LONG_N2 0 1 (by decide)
  have heven : job.howmany % 2 = 0 := by omega
  have hapart : ∀ {c : Creator} {i : Fin 3} {flags : Flags} a b, a < job.pA → b < job.pB →
      (0 : Ptr) = 1 → c.Accepts ((job.problem a b).longN i) i flags :=
    fun _ _ _ _ h => absurd h (by decide)
  obtain ⟨p2, q2, h2⟩ := exists_plannedPair job heven .r2cForward 2 0 1 FFTW_PACKED_LONG_N2 hapart
  obtain ⟨p1, q1, h1⟩ := exists_plannedPair job heven .c2cForward 1 0 1 0 hapart
  obtain ⟨p0, q0, h0⟩ := exists_plannedPair job heven .c2cForward 0 0 1 0 hapart
  have hmoves : planning.Placed 1 0 := by
    unfold Planning.Placed
    rw [hi, ho]
    decide
  let way : WayThere planning .r2cForward :=
    { buffer := ![0, 1, 0, 1, 0, 1]
      plan := ![p0, p1, p2]
      inp := fun _ => 0
      out := fun _ => 1
      planned2 := h2.toFftPlanned
      planned1 := h1.toFftPlanned
      planned0 := h0.toFftPlanned
      place2 := Iff.rfl
      place_n2n1 := hmoves
      place1 := Iff.rfl
      place_n1n0 := hmoves
      place0 := Iff.rfl }
  let z : (Fin 4 → Nat) → ℝ × ℝ := fun g => ((g 0 + g 1 * g 2 : Nat), 0)
  have hmem : ∀ a b, ∃ x : Nat → ℝ, a < job.pA → b < job.pB →
      (p2 a b).input.LaidOut (fun g => part (g 4) (z ![g 0, g 1, g 2, g 3])) x := by
    intro a b
    by_cases hab : a < job.pA ∧ b < job.pB
    · obtain ⟨⟨_, _, hmade⟩, -⟩ := h2.at hab.1 hab.2
      obtain ⟨x, hx⟩ := hmade.sides.1.nested.exists_laidOut
        fun g => part (g 4) (z ![g 0, g 1, g 2, g 3])
      exact ⟨x, fun _ _ => hx⟩
    · exact ⟨fun _ => 0, fun ha hb => absurd ⟨ha, hb⟩ hab⟩
  choose x hx using hmem
  have hz : FieldIn job (fun a b => (way.plan 2 a b).input) (way.buffer 0) z fun a b _ => x a b :=
    hx
  obtain ⟨fired, s, hrun, hs⟩ := planning.exists_run FftwMpi.reference
    (way.tasks (.reference .fourier)) fun a b _ => x a b
  refine ⟨job, planning, way, hn, hp, hhow, fun a b _ => x a b, hz, fired, s, hrun, fun r => ?_⟩
  have hn0 : job.flags.has TRANSPOSED_LONG_N0 = false := by
    rw [hflags]
    decide
  exact distributed_transform planning (.inr rfl) way (fun h => absurd h (by decide)) hn0
    ⟨.inr (by omega), .inr (by omega)⟩ FftwMpi.reference (.reference .fourier) rfl
    (fun _ _ => rfl) hz hrun hs r

end Underling
