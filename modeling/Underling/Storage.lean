import Underling.Exchange

/-!
# Underling.Storage

What the pencils declare about the data between two directions.

* `Decomposition.laid_longN2` and its three companions: a buffer laid out as a pencil declares holds
  the rows or columns of a stage in a given order.
* `default_storage_iff`: without storage flags, when the transposed data sits where the pencils say.
-/

namespace Underling

open Strided RowTranspose

variable {α : Type}

theorem inBox_iff {e : Extents} {j : Fin 4 → Nat} :
    e.InBox j ↔ j 0 < e.size 0 ∧ j 1 < e.size 1 ∧ j 2 < e.size 2 ∧ j 3 < e.size 3 := by
  rw [Layout.InBox, Fin.forall_fin_succ, Fin.forall_fin_succ, Fin.forall_fin_two]
  rfl

theorem add_index (s0 s1 s2 s3 : Nat) (j : Fin 4 → Nat) :
    (fun k => ![s0, s1, s2, s3] k + j k) = ![s0 + j 0, s1 + j 1, s2 + j 2, s3 + j 3] := by
  funext k
  fin_cases k <;> rfl

namespace Decomposition

variable {d : Decomposition} {u : (Fin 4 → Nat) → α} {x : Nat → Nat → α}
  {f : Nat → Nat → Nat → Nat → α} {a b : Nat}

/-! Reading every local index of a pencil is reading every entry of a stage. -/

theorem reads_longN2 : (∀ a j, a < d.pA → (d.longN a b 2).InBox j →
      x a ((d.longN a b 2).addr j) = f (j 0) (d.startA1 a + j 1) (j 2) (j 3)) ↔
    (d.stageA b).Laid x f := by
  rw [Stage.laid_iff]
  constructor
  · intro h s r j C k hs hr hj hC hk
    have hin : (d.longN r b 2).InBox ![s, j, C, k] := inBox_iff.mpr ⟨hs, hj, hC, hk⟩
    have hst : d.startA1 r = r * d.blockA1 := Blocks.start_of_lt_len hj
    have hval := h r _ hr hin
    rw [addr_longN2 hin, hst] at hval
    exact hval
  · intro h a j ha hin
    obtain ⟨hs, hj, hC, hk⟩ := inBox_iff.mp hin
    have hst : d.startA1 a = a * d.blockA1 := Blocks.start_of_lt_len hj
    rw [addr_longN2 hin, hst]
    exact h _ a _ _ _ hs ha hj hC hk

theorem reads_longN1_A : (∀ a j, a < d.pA → (d.longN a b 1).InBox j →
      x a ((d.longN a b 1).addr j) = f (j 0) (j 1) (d.startA2 a + j 2) (j 3)) ↔
    (d.stageA b).Delivered x f := by
  rw [Stage.delivered_iff]
  constructor
  · intro h s i r j k hs hi hr hj hk
    have hin : (d.longN r b 1).InBox ![s, i, j, k] := inBox_iff.mpr ⟨hs, hi, hj, hk⟩
    have hst : d.startA2 r = r * d.blockA2 := Blocks.start_of_lt_len hj
    have hval := h r _ hr hin
    rw [addr_longN1_A hin, hst] at hval
    exact hval
  · intro h a j ha hin
    obtain ⟨hs, hi, hj, hk⟩ := inBox_iff.mp hin
    have hst : d.startA2 a = a * d.blockA2 := Blocks.start_of_lt_len hj
    rw [addr_longN1_A hin, hst]
    exact h _ _ a _ _ hs hi ha hj hk

theorem reads_longN1_B : (∀ b j, b < d.pB → (d.longN a b 1).InBox j →
      x b ((d.longN a b 1).addr j) = f (j 2) (d.startB0 b + j 0) (j 1) (j 3)) ↔
    (d.stageB a).Laid x f := by
  rw [Stage.laid_iff]
  constructor
  · intro h s r j C k hs hr hj hC hk
    have hin : (d.longN a r 1).InBox ![j, C, s, k] := inBox_iff.mpr ⟨hj, hC, hs, hk⟩
    have hst : d.startB0 r = r * d.blockB0 := Blocks.start_of_lt_len hj
    have hval := h r _ hr hin
    rw [addr_longN1_B hin, hst] at hval
    exact hval
  · intro h b j hb hin
    obtain ⟨hj, hC, hs, hk⟩ := inBox_iff.mp hin
    have hst : d.startB0 b = b * d.blockB0 := Blocks.start_of_lt_len hj
    rw [addr_longN1_B hin, hst]
    exact h _ b _ _ _ hs hb hj hC hk

/-- The pencils long in `n0` of the processes with coordinate `a` declare the rows where FFTW puts
them. -/
def DeclaresRows (d : Decomposition) (a : Nat) : Prop :=
  ∀ b j, (d.longN a b 0).InBox j → (d.longN a b 0).addr j =
    (d.stageB a).args.shape.outAddr (j 2 * d.n0 + j 0) (b * d.blockB1 + j 1) (j 3)

theorem declaresRows (hf : d.flags.has TRANSPOSED_LONG_N0 = false) : d.DeclaresRows a :=
  fun _ _ hin => addr_longN0 hf hin

theorem reads_longN0 (hrows : d.DeclaresRows a) :
    (∀ b j, b < d.pB → (d.longN a b 0).InBox j →
      x b ((d.longN a b 0).addr j) = f (j 2) (j 0) (d.startB1 b + j 1) (j 3)) ↔
    (d.stageB a).Delivered x f := by
  rw [Stage.delivered_iff]
  constructor
  · intro h s i r j k hs hi hr hj hk
    have hin : (d.longN a r 0).InBox ![i, j, s, k] := inBox_iff.mpr ⟨hi, hj, hs, hk⟩
    have hst : d.startB1 r = r * d.blockB1 := Blocks.start_of_lt_len hj
    have hval := h r _ hr hin
    rw [hrows _ _ hin, hst] at hval
    exact hval
  · intro h b j hb hin
    obtain ⟨hi, hj, hs, hk⟩ := inBox_iff.mp hin
    have hst : d.startB1 b = b * d.blockB1 := Blocks.start_of_lt_len hj
    rw [hrows _ _ hin, hst]
    exact h _ _ b _ _ hs hi hb hj hk

/-! So a field laid out as the pencils declare is a stage laid out, or delivered, in row-major
order. -/

/-- Every process with coordinate `b` holds the field `u` as its pencil long in `i` declares. -/
def LaidA (d : Decomposition) (i : Fin 3) (b : Nat) (u : (Fin 4 → Nat) → α) (x : Nat → Nat → α) :
    Prop :=
  ∀ a, a < d.pA → (d.longN a b i).LaidOut u (x a)

/-- Every process with coordinate `a` holds the field `u` as its pencil long in `i` declares. -/
def LaidB (d : Decomposition) (i : Fin 3) (a : Nat) (u : (Fin 4 → Nat) → α) (x : Nat → Nat → α) :
    Prop :=
  ∀ b, b < d.pB → (d.longN a b i).LaidOut u (x b)

theorem laid_longN2 : d.LaidA 2 b u x ↔
    (d.stageA b).Laid x fun s i C k => u ![d.startB0 b + s, i, C, k] := by
  rw [← reads_longN2]
  simp only [LaidA, Layout.laidOut_iff, start_longN2, add_index, Nat.zero_add]
  exact ⟨fun h a j ha => h a ha j, fun h a ha j => h a j ha⟩

theorem laid_longN1_A : d.LaidA 1 b u x ↔
    (d.stageA b).Delivered x fun s i C k => u ![d.startB0 b + s, i, C, k] := by
  rw [← reads_longN1_A]
  simp only [LaidA, Layout.laidOut_iff, start_longN1, add_index, Nat.zero_add]
  exact ⟨fun h a j ha => h a ha j, fun h a ha j => h a j ha⟩

theorem laid_longN1_B : d.LaidB 1 a u x ↔
    (d.stageB a).Laid x fun s i C k => u ![i, C, d.startA2 a + s, k] := by
  rw [← reads_longN1_B]
  simp only [LaidB, Layout.laidOut_iff, start_longN1, add_index, Nat.zero_add]
  exact ⟨fun h b j hb => h b hb j, fun h b hb j => h b j hb⟩

theorem laid_longN0 (hrows : d.DeclaresRows a) : d.LaidB 0 a u x ↔
    (d.stageB a).Delivered x fun s i C k => u ![i, C, d.startA2 a + s, k] := by
  rw [← reads_longN0 hrows]
  simp only [LaidB, Layout.laidOut_iff, start_longN0, add_index, Nat.zero_add]
  exact ⟨fun h b j hb => h b hb j, fun h b hb j => h b j hb⟩

end Decomposition

/-! ## Storage without flags -/

/-- Every process holds the field `u` in the buffer `ptr` as its pencil long in `i` declares. -/
def Job.Loaded {env : Env} (job : Job env) (i : Fin 3) (ptr : Ptr) (u : (Fin 4 → Nat) → α)
    (mem : Nat → Nat → Mem α) : Prop :=
  ∀ a b, a < job.pA → b < job.pB → ((job.problem a b).longN i).LaidOut u (mem a b ptr)

/-- The declared storage is that of the data: executing a direction on data laid out as declared
leaves data laid out as declared. -/
structure DefaultStorage {env : Env} {job : Job env} (planning : Planning job) (fftw : FftwMpi α) :
    Prop where
  n2n1 : ∀ inp out u mem, planning.Placed inp out → job.Loaded 2 inp u mem →
    job.Loaded 1 out u (planning.exchange fftw .n2n1 inp out mem)
  n1n0 : ∀ inp out u mem, planning.Placed inp out → job.Loaded 1 inp u mem →
    job.Loaded 0 out u (planning.exchange fftw .n1n0 inp out mem)

section Default

variable {env : Env} {job : Job env} {planning : Planning job} {i : Fin 3} {ptr : Ptr}
  {u : (Fin 4 → Nat) → α} {mem : Nat → Nat → Mem α} {inp out : Ptr}

theorem loaded_iff_A : job.Loaded i ptr u mem ↔
    ∀ b, b < job.pB → job.decomp.LaidA i b u fun a => mem a b ptr := by
  constructor
  · intro h b hb a ha
    rw [← job.longN_eq ha hb]
    exact h a b ha hb
  · intro h a b ha hb
    rw [job.longN_eq ha hb]
    exact h b hb a ha

theorem loaded_iff_B : job.Loaded i ptr u mem ↔
    ∀ a, a < job.pA → job.decomp.LaidB i a u fun b => mem a b ptr := by
  constructor
  · intro h a ha b hb
    rw [← job.longN_eq ha hb]
    exact h a b ha hb
  · intro h a b ha hb
    rw [job.longN_eq ha hb]
    exact h a ha b hb

theorem exists_loaded_longN2 [Nonempty α] (ptr : Ptr) (u : (Fin 4 → Nat) → α) :
    ∃ mem, job.Loaded 2 ptr u mem := by
  have hx : ∀ b, ∃ x, job.decomp.LaidA 2 b u x := by
    intro b
    simp only [Decomposition.laid_longN2]
    exact Stage.exists_laid _ _
  choose x hx using hx
  exact ⟨fun a b _ => x b a, loaded_iff_A.mpr fun b _ => hx b⟩

theorem exists_loaded_longN1 [Nonempty α] (ptr : Ptr) (u : (Fin 4 → Nat) → α) :
    ∃ mem, job.Loaded 1 ptr u mem := by
  have hx : ∀ a, ∃ x, job.decomp.LaidB 1 a u x := by
    intro a
    simp only [Decomposition.laid_longN1_B]
    exact Stage.exists_laid _ _
  choose x hx using hx
  exact ⟨fun a b _ => x a b, loaded_iff_B.mpr fun a _ => hx a⟩

theorem delivered_A (fftw : FftwMpi α) (hp : planning.Placed inp out) {b : Nat}
    (hb : b < job.pB) {f : Nat → Nat → Nat → Nat → α}
    (hx : (job.decomp.stageA b).Laid (fun a => mem a b inp) f) :
    (job.decomp.stageA b).Delivered (fun a => planning.exchange fftw .n2n1 inp out mem a b out)
      ((job.decomp.stageA b).relabel f) := by
  by_cases ht : (job.decomp.stageA b).args.Trivial
  · intro s i C k hs _ _ hk
    rcases (Stage.trivial_iff _).mp ht with h | h <;> omega
  · exact Stage.delivered_relabel hx
      (Planning.exchange_transposed fftw hp job.pA_pos hb .n2n1 mem ht)

theorem delivered_B (fftw : FftwMpi α) (hp : planning.Placed inp out) {a : Nat}
    (ha : a < job.pA) {f : Nat → Nat → Nat → Nat → α}
    (hx : (job.decomp.stageB a).Laid (fun b => mem a b inp) f) :
    (job.decomp.stageB a).Delivered (fun b => planning.exchange fftw .n1n0 inp out mem a b out)
      ((job.decomp.stageB a).relabel f) := by
  by_cases ht : (job.decomp.stageB a).args.Trivial
  · intro s i C k hs _ _ hk
    rcases (Stage.trivial_iff _).mp ht with h | h <;> omega
  · exact Stage.delivered_relabel hx
      (Planning.exchange_transposed fftw hp ha job.pB_pos .n1n0 mem ht)

theorem Job.Loaded.delivered_A (h : job.Loaded 2 inp u mem) (fftw : FftwMpi α)
    (hp : planning.Placed inp out) {b : Nat} (hb : b < job.pB) :
    (job.decomp.stageA b).Delivered (fun a => planning.exchange fftw .n2n1 inp out mem a b out)
      ((job.decomp.stageA b).relabel fun s i C k => u ![job.decomp.startB0 b + s, i, C, k]) :=
  Underling.delivered_A fftw hp hb (Decomposition.laid_longN2.mp (loaded_iff_A.mp h b hb))

theorem Job.Loaded.delivered_B (h : job.Loaded 1 inp u mem) (fftw : FftwMpi α)
    (hp : planning.Placed inp out) {a : Nat} (ha : a < job.pA) :
    (job.decomp.stageB a).Delivered (fun b => planning.exchange fftw .n1n0 inp out mem a b out)
      ((job.decomp.stageB a).relabel fun s i C k => u ![i, C, job.decomp.startA2 a + s, k]) :=
  Underling.delivered_B fftw hp ha (Decomposition.laid_longN1_B.mp (loaded_iff_B.mp h a ha))

/-- A field that takes the value `p` where two directions have given indices. -/
def mark (k k' : Fin 4) (v v' : Nat) (p q : α) : (Fin 4 → Nat) → α :=
  fun g => if g k = v ∧ g k' = v' then p else q

theorem mark_eq_iff {k k' : Fin 4} {v v' : Nat} {p q : α} (hpq : p ≠ q) {g : Fin 4 → Nat} :
    mark k k' v v' p q g = p ↔ g k = v ∧ g k' = v' := by
  rw [mark]
  split
  · exact ⟨fun _ => ‹_›, fun _ => rfl⟩
  · exact ⟨fun h => absurd h.symm hpq, fun h => absurd h ‹_›⟩

/-- From long in `n2` to long in `n1` the declared storage is right exactly when there is one
process along `n1` or one plane of `n0` on each. -/
theorem storage_n2n1_iff [Nontrivial α] (fftw : FftwMpi α) (hh : 0 < job.howmany) :
    (∀ inp out u mem, planning.Placed inp out → job.Loaded 2 inp u mem →
        job.Loaded 1 out u (planning.exchange fftw .n2n1 inp out mem)) ↔
      job.pA = 1 ∨ job.decomp.n0 ≤ job.pB := by
  have hhow : 0 < job.howmany.toNat := by omega
  constructor
  · intro h
    obtain ⟨p, q, hpq⟩ := exists_pair_ne α
    have hsplit : (job.decomp.stageA 0).m ≤ 1 ∨
        (job.decomp.stageA 0).n ≤ (job.decomp.stageA 0).rowBlock := by
      refine Stage.rowMajor_of_delivered (p := p) hhow fun s i hs hi => ?_
      obtain ⟨mem, hmem⟩ : ∃ mem, job.Loaded 2 planning.inp (mark 0 1 s i p q) mem :=
        exists_loaded_longN2 _ _
      have hout := h _ planning.out _ mem Iff.rfl hmem
      refine ⟨_, _, hmem.delivered_A fftw Iff.rfl job.pB_pos,
        Decomposition.laid_longN1_A.mp (loaded_iff_A.mp hout 0 job.pB_pos), ?_, ?_⟩
      · exact (mark_eq_iff hpq).mpr ⟨by simp, rfl⟩
      · intro s' i' _ _ hval
        simpa using (mark_eq_iff hpq).mp hval
    exact hsplit.elim (fun hm => .inr (job.decomp.lenB0_zero_le_one_iff.mp hm))
      fun hn => .inl (job.decomp.le_blockA1_iff.mp hn)
  · intro h inp out u mem hp hmem
    refine loaded_iff_A.mpr fun b hb => Decomposition.laid_longN1_A.mpr ?_
    refine (hmem.delivered_A fftw hp hb).congr fun s i hs hi => Stage.relabel_eq ?_ hs hi
    exact h.elim (fun hA => .inr (job.decomp.le_blockA1_iff.mpr hA))
      fun hn => .inl (job.decomp.lenB0_le_one hn b)

/-- From long in `n1` to long in `n0` the declared storage is right exactly when there is one
process along `n0` or one plane of `n2` on each. -/
theorem storage_n1n0_iff [Nontrivial α] (fftw : FftwMpi α) (hh : 0 < job.howmany)
    (hf : job.flags.has TRANSPOSED_LONG_N0 = false) :
    (∀ inp out u mem, planning.Placed inp out → job.Loaded 1 inp u mem →
        job.Loaded 0 out u (planning.exchange fftw .n1n0 inp out mem)) ↔
      job.pB = 1 ∨ job.decomp.n2 ≤ job.pA := by
  have hhow : 0 < job.howmany.toNat := by omega
  have hrows : ∀ {a}, job.decomp.DeclaresRows a := Decomposition.declaresRows hf
  constructor
  · intro h
    obtain ⟨p, q, hpq⟩ := exists_pair_ne α
    have hsplit : (job.decomp.stageB 0).m ≤ 1 ∨
        (job.decomp.stageB 0).n ≤ (job.decomp.stageB 0).rowBlock := by
      refine Stage.rowMajor_of_delivered (p := p) hhow fun s i hs hi => ?_
      obtain ⟨mem, hmem⟩ : ∃ mem, job.Loaded 1 planning.inp (mark 2 0 s i p q) mem :=
        exists_loaded_longN1 _ _
      have hout := h _ planning.out _ mem Iff.rfl hmem
      refine ⟨_, _, hmem.delivered_B fftw Iff.rfl job.pA_pos,
        (Decomposition.laid_longN0 hrows).mp (loaded_iff_B.mp hout 0 job.pA_pos), ?_, ?_⟩
      · exact (mark_eq_iff hpq).mpr ⟨by simp, rfl⟩
      · intro s' i' _ _ hval
        simpa using (mark_eq_iff hpq).mp hval
    exact hsplit.elim (fun hm => .inr (job.decomp.lenA2_zero_le_one_iff.mp hm))
      fun hn => .inl (job.decomp.le_blockB0_iff.mp hn)
  · intro h inp out u mem hp hmem
    refine loaded_iff_B.mpr fun a ha => (Decomposition.laid_longN0 hrows).mpr ?_
    refine (hmem.delivered_B fftw hp ha).congr fun s i hs hi => Stage.relabel_eq ?_ hs hi
    exact h.elim (fun hB => .inr (job.decomp.le_blockB0_iff.mpr hB))
      fun hn => .inl (job.decomp.lenA2_le_one hn a)

/-- Without storage flags the transposed data sits where the pencils say exactly on the grids where
neither stage interleaves the rows of several processes. -/
theorem default_storage_iff [Nontrivial α] (planning : Planning job) (fftw : FftwMpi α)
    (hflags : job.flags = 0) (hh : 1 ≤ job.howmany) :
    DefaultStorage planning fftw ↔
      (job.pA = 1 ∨ job.n0 = job.pB) ∧ (job.pB = 1 ∨ job.n2 ≤ job.pA) := by
  have hd := job.documented job.pA_pos job.pB_pos
  have hn0 : job.decomp.n0 ≤ job.pB ↔ job.n0 = job.pB := by
    have h0 := hd.n0_pos
    have h1 := hd.n0_ge
    show job.n0.toNat ≤ job.pB ↔ _
    omega
  have hn2 : job.decomp.n2 ≤ job.pA ↔ job.n2 ≤ job.pA := by
    have h2 := hd.n2_pos
    show job.n2.toNat ≤ job.pA ↔ _
    omega
  have hf : job.flags.has TRANSPOSED_LONG_N0 = false := by
    rw [hflags]
    decide
  rw [← hn0, ← hn2, ← storage_n2n1_iff fftw (by omega), ← storage_n1n0_iff fftw (by omega) hf]
  exact ⟨fun h => ⟨h.n2n1, h.n1n0⟩, fun h => ⟨h.1, h.2⟩⟩

end Default

/-- On `2 × 2` processes a `4 × 4 × 4` domain is not stored as declared. -/
theorem default_storage_fails :
    ∃ (job : Job .reference) (planning : Planning job),
      (job.n0 = 4 ∧ job.n1 = 4 ∧ job.n2 = 4) ∧ (job.pA = 2 ∧ job.pB = 2) ∧ job.howmany = 1 ∧
        job.flags = 0 ∧ ¬ DefaultStorage planning (FftwMpi.reference : FftwMpi Nat) := by
  obtain ⟨job, planning, hn, hp, hh, hf, -, -⟩ := exists_planned 4 4 4 2 2 1 0 0 1 (by decide)
  refine ⟨job, planning, hn, hp, hh, hf, fun h => ?_⟩
  have hcond := (storage_n2n1_iff FftwMpi.reference (by omega)).mp h.n2n1
  have hn0 : job.decomp.n0 = job.n0.toNat := rfl
  omega

/-- On `2 × 2` processes a `2 × 4 × 2` domain is. -/
theorem default_storage_thin :
    ∃ (job : Job .reference) (planning : Planning job),
      (job.n0 = 2 ∧ job.n1 = 4 ∧ job.n2 = 2) ∧ (job.pA = 2 ∧ job.pB = 2) ∧
        DefaultStorage planning (FftwMpi.reference : FftwMpi Nat) := by
  obtain ⟨job, planning, hn, hp, hh, hf, -, -⟩ := exists_planned 2 4 2 2 2 1 0 0 1 (by decide)
  refine ⟨job, planning, hn, hp, ?_⟩
  exact (default_storage_iff planning _ hf (by omega)).mpr ⟨.inr (by omega), .inr (by omega)⟩

end Underling
