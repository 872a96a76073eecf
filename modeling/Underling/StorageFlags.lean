import Underling.Storage

/-!
# Underling.StorageFlags

Two jobs on the same grid, one with storage flags and one without, that start from the same data.

* `sameData_longN2_iff`, `sameData_longN1`, `sameData_longN0`: the jobs read the same data when the
  stages of both hold one field.
* `Decomposition.declaresRows_of`, `exists_wrong_row`: when the pencils long in `n0` are declared as
  FFTW stores the rows.
* `storage_flags_iff`: every index reads the same value in both jobs, in every orientation, exactly
  when `TRANSPOSED_LONG_N0` is not set or its declared order makes no difference.
-/

namespace Underling

open Strided RowTranspose

variable {α : Type}

/-- The same decomposition without storage flags. -/
def Decomposition.unflagged (d : Decomposition) : Decomposition := { d with flags := 0 }

/-- `job'` is on the same grid as `job`, with the same fields and no storage flags. -/
structure Unflagged {env : Env} (job job' : Job env) : Prop where
  n0_eq : job'.n0 = job.n0
  n1_eq : job'.n1 = job.n1
  n2_eq : job'.n2 = job.n2
  pA_eq : job'.pA = job.pA
  pB_eq : job'.pB = job.pB
  howmany_eq : job'.howmany = job.howmany
  flags_eq : job'.flags = 0

/-- Every process reads the same value at the same local index in both jobs, each through its own
pencil long in `i`. -/
def SameData {env : Env} (job job' : Job env) (i : Fin 3) (ptr ptr' : Ptr)
    (mem mem' : Nat → Nat → Mem α) : Prop :=
  ∀ a b, a < job.pA → b < job.pB → ∀ j, ((job.problem a b).longN i).InBox j →
    mem a b ptr (((job.problem a b).longN i).addr j) =
      mem' a b ptr' (((job'.problem a b).longN i).addr j)

/-- The flags change only where the data sits: from the same data in the pencils long in `n2`, both
jobs reach the same data in the pencils long in `n1` and then long in `n0`. -/
def FlagsOnlyMove {env : Env} {job job' : Job env} (planning : Planning job)
    (planning' : Planning job') (fftw : FftwMpi α) : Prop :=
  ∀ buf0 buf1 buf2 buf0' buf1' buf2' mem mem', planning.Placed buf0 buf1 →
    planning.Placed buf1 buf2 → planning'.Placed buf0' buf1' → planning'.Placed buf1' buf2' →
    SameData job job' 2 buf0 buf0' mem mem' →
    let mem1 := planning.exchange fftw .n2n1 buf0 buf1 mem
    let mem1' := planning'.exchange fftw .n2n1 buf0' buf1' mem'
    SameData job job' 1 buf1 buf1' mem1 mem1' ∧
      SameData job job' 0 buf2 buf2' (planning.exchange fftw .n1n0 buf1 buf2 mem1)
        (planning'.exchange fftw .n1n0 buf1' buf2' mem1')

namespace Decomposition

variable {d : Decomposition}

theorem declaresRows_of (hd : d.flags.has TRANSPOSED_LONG_N0 = false ∨ d.n2 ≤ d.pA ∨
    (d.n0 = 1 ∧ d.n1 = 1)) (a : Nat) : d.DeclaresRows a := by
  by_cases hf : d.flags.has TRANSPOSED_LONG_N0 = false
  · exact declaresRows hf
  have hf' : d.flags.has TRANSPOSED_LONG_N0 = true := Bool.eq_true_of_not_eq_false hf
  intro b j hin
  rw [addr_longN0_transposed hf', outAddr_longN0_transposed hf' hin]
  obtain ⟨h0, h1, h2, -⟩ := inBox_iff.mp hin
  simp only [size_longN0, Matrix.cons_val] at h0 h1 h2
  rcases hd with h | h | ⟨hn0, hn1⟩
  · exact absurd h hf
  · have hlen := d.lenA2_le_one h a
    rw [show d.lenA2 a = 1 by omega, show j 2 = 0 by omega, Nat.zero_mul, Nat.zero_add,
      Nat.mul_one, Nat.add_zero]
  · have hlen : d.lenB1 b ≤ 1 := by
      have h := Blocks.start_add_len_le d.n1 d.blockB1 b
      rw [hn1] at h
      have hdef : d.lenB1 b = Blocks.len 1 d.blockB1 b := by rw [lenB1, hn1]
      omega
    rw [show d.lenB1 b = 1 by omega, show j 0 = 0 by omega, show j 1 = 0 by omega, hn0]
    ring

/-- Where it makes a difference, the process at `(0, 0)` reads a wrong row for the second plane. -/
theorem exists_wrong_row (hf : d.flags.has TRANSPOSED_LONG_N0 = true) (h2 : d.pA < d.n2)
    (hn : ¬ (d.n0 = 1 ∧ d.n1 = 1)) : (d.longN 0 0 0).size 2 ≥ 2 ∧
    ∃ i C, i < d.n0 ∧ C < d.lenB1 0 ∧ (d.longN 0 0 0).addr ![0, 0, 1, 0] =
      (d.stageB 0).args.shape.outAddr i C 0 := by
  have hlenA : ¬ d.lenA2 0 ≤ 1 := fun h => by
    have := d.lenA2_zero_le_one_iff.mp h
    omega
  have hpB := d.pB_pos
  have hge := d.n0_ge
  have hge1 := d.n1_ge_pB
  have hlen : d.lenB1 0 = d.blockB1 := by
    rw [lenB1, Blocks.len_zero, blockB1, Nat.min_eq_right (Blocks.ceilDiv_le_self hpB)]
  have hpos : 0 < d.lenB1 0 := hlen ▸ Blocks.ceilDiv_pos hpB d.n1_pos
  refine ⟨by simp only [size_longN0, Matrix.cons_val]; omega,
    1 / d.lenB1 0, 1 % d.lenB1 0, ?_, Nat.mod_lt _ hpos, ?_⟩
  · -- one row of `n0` leaves one process, which then has all of `n1`
    rcases Nat.lt_or_ge 1 d.n0 with h | h
    · exact Nat.lt_of_le_of_lt (Nat.div_le_self _ _) h
    · have hn1 : d.lenB1 0 = d.n1 := by
        rw [hlen, blockB1, show d.pB = 1 by omega]
        exact ceilDiv_one _
      rw [Nat.div_eq_of_lt (by omega)]
      omega
  · rw [addr_longN0_transposed hf]
    have hcol := Stage.outAddr_col (t := d.stageB 0) (k := 0) (R := 1 / d.lenB1 0)
      (r := 0) (j := 1 % d.lenB1 0) (Nat.mod_lt _ hpos)
    rw [Nat.zero_mul, Nat.zero_add, if_pos (by simp only [stageB, hf]; decide)] at hcol
    rw [hcol]
    show ((0 * d.lenB1 0 + 0) * d.lenA2 0 + 1) * d.howmany + 0 =
      (1 / d.lenB1 0 * d.lenB1 0 + 1 % d.lenB1 0) * d.howmany + 0
    rw [Nat.div_add_mod', Nat.zero_mul, Nat.zero_add, Nat.zero_mul, Nat.zero_add]

end Decomposition

section Same

variable {env : Env} {job job' : Job env} {planning : Planning job} {planning' : Planning job'}
  {ptr ptr' : Ptr} {mem mem' : Nat → Nat → Mem α}

theorem Unflagged.decomp_eq (h : Unflagged job job') : job'.decomp = job.decomp.unflagged := by
  simp only [Job.decomp, Decomposition.unflagged, h.n0_eq, h.n1_eq, h.n2_eq, h.pA_eq, h.pB_eq,
    h.howmany_eq, h.flags_eq]

theorem Unflagged.longN_eq (h : Unflagged job job') {a b : Nat} (ha : a < job.pA)
    (hb : b < job.pB) : (job'.problem a b).longN = job.decomp.unflagged.longN a b := by
  rw [job'.longN_eq (h.pA_eq ▸ ha) (h.pB_eq ▸ hb), h.decomp_eq]

theorem sameData_iff (h : Unflagged job job') (i : Fin 3) :
    SameData job job' i ptr ptr' mem mem' ↔ ∀ a b, a < job.pA → b < job.pB → ∀ j,
      (job.decomp.longN a b i).InBox j → mem a b ptr ((job.decomp.longN a b i).addr j) =
        mem' a b ptr' ((job.decomp.unflagged.longN a b i).addr j) := by
  constructor
  · intro hs a b ha hb
    rw [← job.longN_eq ha hb, ← h.longN_eq ha hb]
    exact hs a b ha hb
  · intro hs a b ha hb
    rw [job.longN_eq ha hb, h.longN_eq ha hb]
    exact hs a b ha hb

/-- Same data long in `n2`: on each column of processes both jobs start from one field. -/
theorem sameData_longN2_iff (h : Unflagged job job') :
    SameData job job' 2 ptr ptr' mem mem' ↔ ∀ b, b < job.pB → ∃ f,
      (job.decomp.stageA b).Laid (fun a => mem a b ptr) f ∧
        (job.decomp.unflagged.stageA b).Laid (fun a => mem' a b ptr') f := by
  rw [sameData_iff h]
  constructor
  · intro hs b hb
    let t' := job.decomp.unflagged.stageA b
    let f : Nat → Nat → Nat → Nat → α := fun s i C k =>
      mem' (i / t'.rowBlock) b ptr' (t'.args.shape.inAddr (t'.row s i) C k)
    have hf : t'.Laid (fun a => mem' a b ptr') f := fun _ _ _ _ _ _ _ _ => rfl
    refine ⟨f, Decomposition.reads_longN2.mp fun a j ha hj => ?_, hf⟩
    exact (hs a b ha hb j hj).trans (Decomposition.reads_longN2.mpr hf a j ha hj)
  · intro hf a b ha hb j hj
    obtain ⟨f, hx, hx'⟩ := hf b hb
    have e := Decomposition.reads_longN2.mpr hx a j ha hj
    have e' := Decomposition.reads_longN2.mpr hx' a j ha hj
    exact e.trans e'.symm

/-- Data long in `n1` that is read the same: on each row of processes it is one field. -/
theorem sameData_longN1 (h : Unflagged job job') (hs : SameData job job' 1 ptr ptr' mem mem')
    {a : Nat} (ha : a < job.pA) : ∃ f, (job.decomp.stageB a).Laid (fun b => mem a b ptr) f ∧
      (job.decomp.unflagged.stageB a).Laid (fun b => mem' a b ptr') f := by
  rw [sameData_iff h] at hs
  let t' := job.decomp.unflagged.stageB a
  let f : Nat → Nat → Nat → Nat → α := fun s i C k =>
    mem' a (i / t'.rowBlock) ptr' (t'.args.shape.inAddr (t'.row s i) C k)
  have hf : t'.Laid (fun b => mem' a b ptr') f := fun _ _ _ _ _ _ _ _ => rfl
  refine ⟨f, Decomposition.reads_longN1_B.mp fun b j hb hj => ?_, hf⟩
  exact (hs a b ha hb j hj).trans (Decomposition.reads_longN1_B.mpr hf b j hb hj)

/-- Where the rows are declared as FFTW puts them, data delivered by one field is read the same. -/
theorem sameData_longN0 (h : Unflagged job job') (hrows : ∀ a, job.decomp.DeclaresRows a)
    (hf : ∀ a, a < job.pA → ∃ f, (job.decomp.stageB a).Delivered (fun b => mem a b ptr) f ∧
      (job.decomp.unflagged.stageB a).Delivered (fun b => mem' a b ptr') f) :
    SameData job job' 0 ptr ptr' mem mem' := by
  rw [sameData_iff h]
  intro a b ha hb j hj
  obtain ⟨f, hy, hy'⟩ := hf a ha
  have hrows' : job.decomp.unflagged.DeclaresRows a :=
    Decomposition.declaresRows (show Flags.has 0 TRANSPOSED_LONG_N0 = false by decide)
  have e := (Decomposition.reads_longN0 (hrows a)).mpr hy b j hb hj
  have e' := (Decomposition.reads_longN0 hrows').mpr hy' b j hb hj
  exact e.trans e'.symm

theorem sameData_longN1_of (h : Unflagged job job')
    (hf : ∀ b, b < job.pB → ∃ f, (job.decomp.stageA b).Delivered (fun a => mem a b ptr) f ∧
      (job.decomp.unflagged.stageA b).Delivered (fun a => mem' a b ptr') f) :
    SameData job job' 1 ptr ptr' mem mem' := by
  rw [sameData_iff h]
  intro a b ha hb j hj
  obtain ⟨f, hy, hy'⟩ := hf b hb
  have e := Decomposition.reads_longN1_A.mpr hy a j ha hj
  have e' := Decomposition.reads_longN1_A.mpr hy' a j ha hj
  exact e.trans e'.symm

theorem sameData_n2n1 (h : Unflagged job job') (fftw : FftwMpi α) {inp out inp' out' : Ptr}
    (hp : planning.Placed inp out) (hp' : planning'.Placed inp' out')
    (hs : SameData job job' 2 inp inp' mem mem') :
    SameData job job' 1 out out' (planning.exchange fftw .n2n1 inp out mem)
      (planning'.exchange fftw .n2n1 inp' out' mem') := by
  refine sameData_longN1_of h fun b hb => ?_
  obtain ⟨f, hx, hx'⟩ := (sameData_longN2_iff h).mp hs b hb
  have hy := delivered_A fftw hp hb hx
  rw [← h.decomp_eq] at hx'
  have hy' := delivered_A fftw hp' (h.pB_eq ▸ hb) hx'
  rw [h.decomp_eq] at hy'
  exact ⟨_, hy, hy'⟩

theorem sameData_n1n0 (h : Unflagged job job') (fftw : FftwMpi α)
    (hrows : ∀ a, job.decomp.DeclaresRows a) {inp out inp' out' : Ptr}
    (hp : planning.Placed inp out) (hp' : planning'.Placed inp' out')
    (hs : SameData job job' 1 inp inp' mem mem') :
    SameData job job' 0 out out' (planning.exchange fftw .n1n0 inp out mem)
      (planning'.exchange fftw .n1n0 inp' out' mem') := by
  refine sameData_longN0 h hrows fun a ha => ?_
  obtain ⟨f, hx, hx'⟩ := sameData_longN1 h hs ha
  have hy := delivered_B fftw hp ha hx
  rw [← h.decomp_eq] at hx'
  have hy' := delivered_B fftw hp' (h.pA_eq ▸ ha) hx'
  rw [h.decomp_eq] at hy'
  exact ⟨_, hy, hy'⟩

theorem exists_reaching [Nonempty α] (h : Unflagged job job') (fftw : FftwMpi α)
    {inp out inp' out' : Ptr} (hp : planning.Placed inp out) (hp' : planning'.Placed inp' out')
    (u : (Fin 4 → Nat) → α) :
    ∃ mem mem', SameData job job' 2 inp inp' mem mem' ∧
      job.Loaded 1 out u (planning.exchange fftw .n2n1 inp out mem) ∧
      job'.Loaded 1 out' u (planning'.exchange fftw .n2n1 inp' out' mem') := by
  let f : Nat → Nat → Nat → Nat → Nat → α := fun b =>
    (job.decomp.stageA b).unlabel fun s i C k => u ![job.decomp.startB0 b + s, i, C, k]
  choose x hx using fun b => Stage.exists_laid (job.decomp.stageA b) (f b)
  choose x' hx' using fun b => Stage.exists_laid (job.decomp.unflagged.stageA b) (f b)
  refine ⟨fun a b _ => x b a, fun a b _ => x' b a,
    (sameData_longN2_iff h).mpr fun b _ => ⟨f b, hx b, hx' b⟩, ?_, ?_⟩
  · refine loaded_iff_A.mpr fun b hb => Decomposition.laid_longN1_A.mpr ?_
    exact Stage.Delivered.congr (delivered_A fftw hp hb (hx b))
      fun _ _ hs hi => Stage.relabel_unlabel hs hi
  · refine loaded_iff_A.mpr fun b hb => Decomposition.laid_longN1_A.mpr ?_
    have hlaid := hx' b
    rw [← h.decomp_eq] at hlaid
    refine Stage.Delivered.congr (delivered_A fftw hp' hb hlaid) fun _ _ hs hi => ?_
    rw [h.decomp_eq] at hs hi ⊢
    exact Stage.relabel_unlabel (t := job.decomp.stageA b) hs hi

/-- With a declared order that makes a difference, some data is read differently. -/
theorem not_flagsOnlyMove [Nontrivial α] (h : Unflagged job job') (fftw : FftwMpi α)
    (hh : 0 < job.decomp.howmany) (hf : job.flags.has TRANSPOSED_LONG_N0 = true)
    (h2 : job.decomp.pA < job.decomp.n2) (hn : ¬ (job.decomp.n0 = 1 ∧ job.decomp.n1 = 1)) :
    ¬ FlagsOnlyMove planning planning' fftw := by
  intro hall
  let t := job.decomp.stageB 0
  obtain ⟨hsize, i, C, hi, hC, haddr⟩ := Decomposition.exists_wrong_row hf h2 hn
  have hm : 2 ≤ t.m := hsize
  obtain ⟨p, q, hpq⟩ := exists_pair_ne α
  -- mark the pair that arrives in the first row of the second plane
  let R := 1 * t.n + 0
  let u : (Fin 4 → Nat) → α :=
    mark 2 0 (Blocks.outer t.m t.n t.rowBlock R) (Blocks.inner t.m t.n t.rowBlock R) p q
  have hthere : planning.Placed planning.inp planning.out := Iff.rfl
  have hthere' : planning'.Placed planning'.inp planning'.out := Iff.rfl
  obtain ⟨mem, mem', hsame, hu, hu'⟩ := exists_reaching h fftw hthere hthere' u
  have hback : planning.Placed planning.out planning.inp := eq_comm
  have hback' : planning'.Placed planning'.out planning'.inp := eq_comm
  have hread := (hall _ _ _ _ _ _ mem mem' Iff.rfl hback Iff.rfl hback' hsame).2
  let j : Fin 4 → Nat := ![0, 0, 1, 0]
  have hin : (job.decomp.longN 0 0 0).InBox j :=
    inBox_iff.mpr ⟨job.decomp.n0_pos, Nat.lt_of_le_of_lt (Nat.zero_le _) hC, hsize, hh⟩
  have hval := (sameData_iff h 0).mp hread 0 0 job.pA_pos job.pB_pos j hin
  -- the flagged job reads row `i` of the first plane
  have hy := Stage.delivered_iff.mp (hu.delivered_B fftw hback job.pA_pos) 0 i 0 C 0
    (show 0 < t.m by omega) hi job.pB_pos hC hh
  rw [Nat.zero_mul, Nat.zero_mul, Nat.zero_add, Nat.zero_add, ← haddr] at hy
  -- the other job reads the marked row
  have hrows' : job'.decomp.DeclaresRows 0 := Decomposition.declaresRows
    (show job'.flags.has TRANSPOSED_LONG_N0 = false by rw [h.flags_eq]; decide)
  have hy' := (Decomposition.reads_longN0 hrows').mpr (hu'.delivered_B fftw hback' job'.pA_pos) 0 j
    job'.pB_pos
  rw [h.decomp_eq] at hy'
  rw [hy, hy' hin] at hval
  have hmark : t.relabel (fun s i C k => u ![i, C, job.decomp.startA2 0 + s, k]) 1 0 0 0 = p :=
    (mark_eq_iff hpq).mpr ⟨by simp [R], rfl⟩
  obtain ⟨hout, hinn⟩ := (mark_eq_iff hpq).mp (hval.trans hmark)
  have hrow : 0 * t.n + i = R := by
    refine Blocks.decode_inj t.rowBlock_pos (Stage.rowMajor_lt (by omega) hi)
      (Stage.rowMajor_lt hm t.n_pos) ?_ hinn
    rw [← hout, Decomposition.startA2_zero, Nat.zero_add]
    rfl
  have hn0 : t.n = job.decomp.n0 := rfl
  omega

/-- The storage flags change only where the data sits exactly when `TRANSPOSED_LONG_N0` is not set
or the order it declares makes no difference. -/
theorem storage_flags_iff [Nontrivial α] (planning : Planning job) (planning' : Planning job')
    (h : Unflagged job job') (fftw : FftwMpi α) (hh : 1 ≤ job.howmany) :
    FlagsOnlyMove planning planning' fftw ↔ job.flags.has TRANSPOSED_LONG_N0 = false ∨
      job.n2 ≤ job.pA ∨ (job.n0 = 1 ∧ job.n1 = 1) := by
  have hd := job.documented job.pA_pos job.pB_pos
  have h0 := hd.n0_pos
  have h1 := hd.n1_pos
  have h2 := hd.n2_pos
  have hn2 : job.decomp.n2 ≤ job.decomp.pA ↔ job.n2 ≤ job.pA := by
    show job.n2.toNat ≤ job.pA ↔ _
    omega
  have hn : (job.decomp.n0 = 1 ∧ job.decomp.n1 = 1) ↔ (job.n0 = 1 ∧ job.n1 = 1) := by
    show (job.n0.toNat = 1 ∧ job.n1.toNat = 1) ↔ _
    omega
  rw [← hn2, ← hn]
  constructor
  · intro hall
    by_contra hne
    simp only [not_or, Bool.not_eq_false, Nat.not_le] at hne
    exact not_flagsOnlyMove h fftw (show 0 < job.howmany.toNat by omega) hne.1 hne.2.1 hne.2.2 hall
  · intro hcond buf0 buf1 buf2 buf0' buf1' buf2' mem mem' hp01 hp12 hp01' hp12' hs
    have hs1 := sameData_n2n1 h fftw hp01 hp01' hs
    exact ⟨hs1, sameData_n1n0 h fftw (Decomposition.declaresRows_of hcond) hp12 hp12' hs1⟩

end Same

/-- A domain of `2 × 2 × 2` on one process with `TRANSPOSED_LONG_N0` is read differently. -/
theorem storage_flags_fails :
    ∃ (job job' : Job .reference) (planning : Planning job) (planning' : Planning job'),
      (job.n0 = 2 ∧ job.n1 = 2 ∧ job.n2 = 2) ∧ (job.pA = 1 ∧ job.pB = 1) ∧ job.howmany = 1 ∧
        job.flags = TRANSPOSED_LONG_N0 ∧ Unflagged job job' ∧
        ¬ FlagsOnlyMove planning planning' (FftwMpi.reference : FftwMpi Nat) := by
  obtain ⟨job, planning, hn, hp, hh, hf, -, -⟩ :=
    exists_planned 2 2 2 1 1 1 TRANSPOSED_LONG_N0 0 1 (by decide)
  obtain ⟨job', planning', hn', hp', hh', hf', -, -⟩ := exists_planned 2 2 2 1 1 1 0 0 1 (by decide)
  have h : Unflagged job job' := ⟨by omega, by omega, by omega, by omega, by omega, by omega, hf'⟩
  refine ⟨job, job', planning, planning', hn, hp, hh, hf, h, ?_⟩
  have hn2 : job.decomp.n2 = job.n2.toNat := rfl
  have hn0 : job.decomp.n0 = job.n0.toNat := rfl
  have hpA : job.decomp.pA = job.pA := rfl
  refine not_flagsOnlyMove h _ (show 0 < job.howmany.toNat by omega) ?_ (by omega) (by omega)
  rw [hf]
  decide

/-- With `TRANSPOSED_LONG_N2` it is read the same. -/
theorem storage_flags_longN2 :
    ∃ (job job' : Job .reference) (planning : Planning job) (planning' : Planning job'),
      (job.n0 = 2 ∧ job.n1 = 2 ∧ job.n2 = 2) ∧ job.flags = TRANSPOSED_LONG_N2 ∧
        Unflagged job job' ∧
        FlagsOnlyMove planning planning' (FftwMpi.reference : FftwMpi Nat) := by
  obtain ⟨job, planning, hn, hp, hh, hf, -, -⟩ :=
    exists_planned 2 2 2 1 1 1 TRANSPOSED_LONG_N2 0 1 (by decide)
  obtain ⟨job', planning', hn', hp', hh', hf', -, -⟩ := exists_planned 2 2 2 1 1 1 0 0 1 (by decide)
  have h : Unflagged job job' := ⟨by omega, by omega, by omega, by omega, by omega, by omega, hf'⟩
  refine ⟨job, job', planning, planning', hn, hf, h, ?_⟩
  refine (storage_flags_iff planning planning' h _ (by omega)).mpr (.inl ?_)
  rw [hf]
  decide

end Underling
