import Underling.PencilPlans

/-!
# Underling.FftLengths

The lengths a creator called with two buffers hands to the guru planners. FFTW refuses a length
that is not positive.

* `Job.fftCreate_served`: such a call asks for space and for one plan, that of the FFT.
* `lengths_positive_iff`: the lengths are positive exactly on the processes whose pencil has data.
  The blocks of the decomposition leave some processes without.
-/

namespace Underling

open Runs Strided

/-- The transform and every loop have at least one item. -/
def Guru.Positive (g : Guru) : Prop := ∀ l ∈ g.dims ++ g.howmany, 1 ≤ l.n

/-- The blocks of the process at `(a, b)` begin inside the domain. -/
def Decomposition.HasData (d : Decomposition) (i : Fin 3) (a b : Nat) : Prop :=
  match i with
  | 2 => b * d.blockB0 < d.n0 ∧ a * d.blockA1 < d.n1
  | 1 => b * d.blockB0 < d.n0 ∧ a * d.blockA2 < d.n2
  | 0 => b * d.blockB1 < d.n1 ∧ a * d.blockA2 < d.n2

theorem Decomposition.hasData_iff (d : Decomposition) {i k1 k2 : Fin 3} (ho : Others i k1 k2)
    (a b : Nat) : d.HasData i a b ↔ 0 < (d.longN a b i).size (k1.castAdd 1) ∧
      0 < (d.longN a b i).size (k2.castAdd 1) := by
  have hB0 : 0 < d.lenB0 b ↔ b * d.blockB0 < d.n0 :=
    Blocks.len_pos_iff (Blocks.ceilDiv_pos d.pB_pos d.n0_pos)
  have hB1 : 0 < d.lenB1 b ↔ b * d.blockB1 < d.n1 :=
    Blocks.len_pos_iff (Blocks.ceilDiv_pos d.pB_pos d.n1_pos)
  have hA1 : 0 < d.lenA1 a ↔ a * d.blockA1 < d.n1 :=
    Blocks.len_pos_iff (Blocks.ceilDiv_pos d.pA_pos d.n1_pos)
  have hA2 : 0 < d.lenA2 a ↔ a * d.blockA2 < d.n2 :=
    Blocks.len_pos_iff (Blocks.ceilDiv_pos d.pA_pos d.n2_pos)
  -- the two directions are the others, in one order or the other
  have hcases : ∀ i k1 k2 : Fin 3, k1 ≠ i → k2 ≠ i → k1 ≠ k2 →
      (k1, k2) = (i + 1, i + 2) ∨ (k1, k2) = (i + 2, i + 1) := by decide
  have hgoal : ∀ k1 k2, (k1, k2) = (i + 1, i + 2) → (d.HasData i a b ↔
      0 < (d.longN a b i).size (k1.castAdd 1) ∧ 0 < (d.longN a b i).size (k2.castAdd 1)) := by
    rintro _ _ ⟨⟩
    match i with
    | 0 => exact and_congr hB1.symm hA2.symm
    | 1 => exact and_comm.trans (and_congr hA2.symm hB0.symm)
    | 2 => exact and_congr hB0.symm hA1.symm
  rcases hcases i k1 k2 ho.first ho.second ho.distinct with h | h
  · exact hgoal k1 k2 h
  · obtain ⟨rfl, rfl⟩ := Prod.mk.inj h
    exact (hgoal _ _ rfl).trans and_comm

theorem fft_positive_iff {type : TransformType} {i k1 k2 : Fin 3} {inPlace : Prop}
    (ho : Others i k1 k2) {inp out : Ptr} (hne : inp ≠ out) {e : Extents}
    {input output : FftwExtents} {flags : Flags} (hs : Sides i type inPlace input output)
    (hshape : Shaped type i e input output) (hlong : 0 < e.size (i.castAdd 1))
    (hfields : 2 ≤ e.size 3) :
    (stagesOf type i k1 k2 inp out input output flags).fft.Positive ↔
      0 < e.size (k1.castAdd 1) ∧ 0 < e.size (k2.castAdd 1) := by
  have h1 := (hshape.across k1 ho.first).1
  have h2 := (hshape.across k2 ho.second).1
  have h3 : 1 ≤ input.size 3 := by
    rw [hshape.fields.1]
    omega
  have hapart : (inp == out) = false := by simpa using hne
  cases type with
  | unspecified => exact hs.elim
  | c2cForward | c2cBackward =>
    have hn : 1 ≤ input.size (i.castAdd 2) := hshape.along.1 ▸ hlong
    simp [stagesOf, c2cStages, if_neg hne, Guru.Positive, c2cGuru, c2cLoops, h1, h2, h3, hn]
    omega
  | c2rBackward =>
    have hn : 1 ≤ output.size (i.castAdd 2) := hs.2.2.1.pos
    simp [stagesOf, c2rStages, hapart, Guru.Positive, c2rGuru, h1, h2, h3, hn]
    omega
  | r2cForward =>
    have hn : 1 ≤ input.size (i.castAdd 2) := hs.2.2.1.pos
    simp [stagesOf, r2cStages, hapart, Guru.Positive, r2cGuru, h1, h2, h3, hn]
    omega

theorem requests_apart (type : TransformType) (i k1 k2 : Fin 3) {inp out : Ptr} (hne : inp ≠ out)
    (input output : FftwExtents) (flags : Flags) :
    let s := stagesOf type i k1 k2 inp out input output flags
    s.requests type = [.space, .guru s.fft] := by
  have hapart : (inp == out) = false := by simpa using hne
  cases type <;>
    simp [Stages.requests, stagesOf, c2cStages, c2rStages, r2cStages, if_neg hne, hapart]

namespace Job

variable {env : Env} (job : Job env) {a b : Nat}

/-- Whatever is refused, the call ends without a fault, and the guru plans it asks for have positive
lengths. -/
def AsksPositive (c : Creator) (a b : Nat) (i : Fin 3) (inp out : Ptr)
    (rigorFlags packedFlags : Flags) : Prop :=
  ∀ w, Ends (job.fftCreate c a b i inp out rigorFlags packedFlags) w fun _ w' =>
    ∃ gs, w'.log.planned = w.log.planned ++ gs ∧ ∀ g ∈ gs, g.Positive

theorem fftCreate_served (ha : a < job.pA) (hb : b < job.pB) (heven : job.howmany % 2 = 0)
    (hpos : 2 ≤ job.howmany) (c : Creator) (i : Fin 3) {inp out : Ptr} (hne : inp ≠ out)
    {rigorFlags : Flags} (hr : rigorFlags.has nonRigorMask = false) (packedFlags : Flags) :
    ∃ (fft : Guru) (P : FftPlan → Prop), (fft.Positive ↔ job.decomp.HasData i a b) ∧
      ∀ w, Ends (job.fftCreate c a b i inp out rigorFlags packedFlags) w
        (Served w [.space, .guru fft] P) := by
  have he := job.pencil ha hb i
  have heven' := job.size_three_even ha hb i heven
  have hlong := job.size_long_pos ha hb i
  let e := (job.problem a b).longN i
  have hs : Sides i c.type (inp = out) (c.input e i packedFlags) (c.output e i packedFlags) :=
    c.sides he heven' hlong fun h => absurd h hne
  obtain ⟨k1, k2, ho, hends⟩ := planner_served env inp out hs hr
  dsimp only at hends
  rw [requests_apart _ _ _ _ hne] at hends
  have hrun : job.fftCreate c a b i inp out rigorFlags packedFlags = _ :=
    c.create_accepted he heven' env (fun h => absurd (Option.some.inj h) hne) rigorFlags
  rw [← hrun] at hends
  refine ⟨_, _, ?_, hends⟩
  rw [fft_positive_iff ho hne hs (c.shaped hs) hlong (by rw [job.size_three ha hb]; omega),
    job.decomp.hasData_iff ho, ← job.longN_eq ha hb]

theorem asksPositive_iff {c : Creator} {i : Fin 3} {inp out : Ptr} {rigorFlags packedFlags : Flags}
    {fft : Guru} {P : FftPlan → Prop}
    (hends : ∀ w, Ends (job.fftCreate c a b i inp out rigorFlags packedFlags) w
      (Served w [.space, .guru fft] P)) :
    job.AsksPositive c a b i inp out rigorFlags packedFlags ↔ fft.Positive := by
  constructor
  · intro h
    obtain ⟨o, w', hrun, hserved⟩ := hends .granting
    obtain ⟨f, rfl⟩ := Option.isSome_iff_exists.mp
      (hserved.isSome_iff.mpr (World.granting_granted.grants _))
    obtain ⟨gs, hplanned, hgs⟩ : ∃ gs, w'.log.planned = World.granting.log.planned ++ gs ∧
      ∀ g ∈ gs, g.Positive := (h .granting).of_run hrun
    have hmade := (hserved.made f rfl).2.2.planned_eq
    rw [hplanned] at hmade
    exact hgs fft (by rw [List.append_cancel_left hmade]; simp)
  · intro h w
    refine (hends w).mono fun o w' hserved => ?_
    obtain ⟨asked, hpre, hasked⟩ := hserved.asked
    refine ⟨gurus asked, hasked.planned_eq, fun g hg => ?_⟩
    obtain ⟨rest, hrest⟩ := hpre
    have hmem : g ∈ gurus [.space, .guru fft] := by
      rw [← hrest, gurus_append]
      exact List.mem_append_left _ hg
    rw [show g = fft by simpa using hmem]
    exact h

end Job

/-- The guru planners are handed positive lengths exactly on the processes whose pencil has data. -/
theorem lengths_positive_iff {env : Env} (job : Job env) {a b : Nat} (ha : a < job.pA)
    (hb : b < job.pB) (heven : job.howmany % 2 = 0) (hpos : 2 ≤ job.howmany) (c : Creator)
    (i : Fin 3) {inp out : Ptr} (hne : inp ≠ out) {rigorFlags : Flags}
    (hr : rigorFlags.has nonRigorMask = false) (packedFlags : Flags) :
    job.AsksPositive c a b i inp out rigorFlags packedFlags ↔ job.decomp.HasData i a b := by
  obtain ⟨fft, P, hfft, hends⟩ := job.fftCreate_served ha hb heven hpos c i hne hr packedFlags
  rw [job.asksPositive_iff hends, hfft]

/-- Four planes over three processes: the last one has none, and plans a loop of length zero. -/
theorem lengths_positive_fails :
    ∃ job : Job .reference, (job.n0 = 4 ∧ job.n1 = 5 ∧ job.n2 = 3) ∧
      (job.pA = 2 ∧ job.pB = 3) ∧ job.howmany = 2 ∧
      ¬ job.AsksPositive .c2cForward 0 2 2 0 1 FFTW.ESTIMATE 0 := by
  obtain ⟨job, hn, hp, hhow, -, -⟩ := exists_admitted 4 5 3 2 3 2 0 (by decide)
  obtain ⟨fft, P, hfft, hends⟩ := job.fftCreate_served (a := 0) (b := 2) (by omega) (by omega)
    (by omega) (by omega) .c2cForward 2 (show (0 : Ptr) ≠ 1 by decide)
    (show FFTW.ESTIMATE.has nonRigorMask = false by decide) 0
  refine ⟨job, hn, hp, hhow, ?_⟩
  rw [job.asksPositive_iff hends, hfft]
  rintro ⟨h, -⟩
  have hn0 : job.decomp.n0 = 4 := congrArg Int.toNat hn.1
  have hpB : job.decomp.pB = 3 := hp.2
  rw [Decomposition.blockB0, hn0, hpB] at h
  exact absurd h (by decide)

/-- The process before it has data. -/
theorem lengths_positive_first :
    ∃ job : Job .reference, (job.n0 = 4 ∧ job.n1 = 5 ∧ job.n2 = 3) ∧
      (job.pA = 2 ∧ job.pB = 3) ∧ job.howmany = 2 ∧
      (job.AsksPositive .r2cForward 1 1 2 0 1 FFTW.ESTIMATE 0 ↔ job.decomp.HasData 2 1 1) := by
  obtain ⟨job, hn, hp, hhow, -, -⟩ := exists_admitted 4 5 3 2 3 2 0 (by decide)
  exact ⟨job, hn, hp, hhow, lengths_positive_iff job (by omega) (by omega) (by omega) (by omega)
    .r2cForward 2 (by decide) (by decide) 0⟩

end Underling
