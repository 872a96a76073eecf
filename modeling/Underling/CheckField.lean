import Underling.FftMemory

/-!
# Underling.CheckField

`fill_field` and `check_field` of `underling_bench`: the buffers are filled with random numbers
before the round trips, and compared with the same numbers after them. The generator and the
arithmetic of `underling_real` are those of the C library. Both functions seed the generator for
themselves. What they call the previous state is their own array, which they install again at the
end and which is gone when they return; that is left out.

* `compared_eq`, `fillField_apply`: each compared position is matched with the number stored there.
* `RealSide.mem_addr_iff`: the positions of the data on the real side of a plan.
* `check_field_iff`: the compared positions are those of the data exactly when there is one field.
-/

namespace Underling

open Strided

/-- What the checks use of the C library. -/
structure Numerics (R : Type) where
  State : Type
  initstate : BitVec 32 → State
  random : State → Nat × State
  /-- `random() * inv_rand_max + salt` -/
  garbage : Nat → BitVec 32 → R
  zero : R
  fmax : R → R → R
  /-- `fabs(x - y)` -/
  absDiff : R → R → R

/-- `sizeof(underling_real)`. -/
def sizeofReal : Nat := 8

/-- What `check_field` found: the value it returns, and the comparisons it made, each a position and
the number expected there. -/
structure Checked (R : Type) where
  maxabserr : R
  compared : List (Nat × R)

namespace Numerics

variable {R : Type} (lib : Numerics R)

/-- The seed is `d->world_rank + salt`. -/
def seeded (worldRank : Nat) (salt : BitVec 32) : lib.State :=
  lib.initstate (.ofNat 32 worldRank + salt)

def fillStep (salt : BitVec 32) (s : lib.State × (Nat → R)) (i : Nat) : lib.State × (Nat → R) :=
  let (r, state) := lib.random s.1
  (state, Function.update s.2 i (lib.garbage r salt))

def fillField (p : Nat → R) (worldRank bytes : Nat) (salt : BitVec 32) : Nat → R :=
  let count := bytes / sizeofReal
  ((List.range count).foldl (lib.fillStep salt) (lib.seeded worldRank salt, p)).2

/-- A number is drawn at every position, and compared where the test says so. -/
def checkStep (p : Nat → R) (salt : BitVec 32) (test : Nat → Bool) (s : lib.State × Checked R)
    (i : Nat) : lib.State × Checked R :=
  let (r, state) := lib.random s.1
  let expected := lib.garbage r salt
  if test i then
    (state, { maxabserr := lib.fmax s.2.maxabserr (lib.absDiff (p i) expected)
              compared := s.2.compared ++ [(i, expected)] })
  else (state, s.2)

def checkField (p : Nat → R) (worldRank bytes : Nat) (salt : BitVec 32) (plan : Option FftPlan) :
    Checked R :=
  let count := bytes / sizeofReal
  let loop := fun count test =>
    ((List.range count).foldl (lib.checkStep p salt test)
      (lib.seeded worldRank salt, ⟨lib.zero, []⟩)).2
  match plan with
  | some plan =>
    let e := plan.input
    if e.size 4 = 1 then
      let count := min count (e.stride (e.order 4) * e.size (e.order 4))
      loop count fun i => i % e.stride (e.order 3) < e.size (e.order 2)
    else loop count fun _ => true
  | none => loop count fun _ => true

/-! ## The numbers drawn -/

/-- The number for position `i`. -/
def number (s : lib.State) (salt : BitVec 32) (i : Nat) : R :=
  lib.garbage (lib.random ((fun s => (lib.random s).2)^[i] s)).1 salt

theorem fill_eq (s : lib.State) (p : Nat → R) (salt : BitVec 32) (count : Nat) :
    (List.range count).foldl (lib.fillStep salt) (s, p) =
      ((fun s => (lib.random s).2)^[count] s,
        fun i => if i < count then lib.number s salt i else p i) := by
  induction count with
  | zero => simp
  | succ n ih =>
    rw [List.range_succ, List.foldl_append, ih, Function.iterate_succ_apply']
    refine Prod.ext rfl (funext fun i => ?_)
    by_cases h : i = n
    · subst h
      simp [fillStep, number]
    · have hle : i ≤ n ↔ i < n := by omega
      simp [fillStep, h, hle]

theorem check_eq (s : lib.State) (p : Nat → R) (salt : BitVec 32) (test : Nat → Bool) (x : R)
    (count : Nat) :
    let r := (List.range count).foldl (lib.checkStep p salt test) (s, ⟨x, []⟩)
    r.1 = (fun s => (lib.random s).2)^[count] s ∧
      r.2.compared = ((List.range count).filter test).map fun i => (i, lib.number s salt i) := by
  induction count with
  | zero => exact ⟨rfl, rfl⟩
  | succ n ih =>
    obtain ⟨hstate, hcompared⟩ := ih
    rw [List.range_succ, List.foldl_append, List.filter_append, List.map_append,
      Function.iterate_succ_apply', ← hstate, ← hcompared]
    by_cases h : test n = true
    · simp [checkStep, h, number, hstate]
    · simp [checkStep, h]

theorem fillField_apply (p : Nat → R) (worldRank : Nat) {bytes i : Nat} (salt : BitVec 32)
    (hi : i < bytes / sizeofReal) :
    lib.fillField p worldRank bytes salt i = lib.number (lib.seeded worldRank salt) salt i := by
  rw [fillField, fill_eq]
  exact if_pos hi

end Numerics

/-! ## The positions of the data -/

section Positions

variable {i : Fin 3} {s : FftwExtents}

/-- The directions above the lines follow each other without a gap. -/
def RowsPacked (s : FftwExtents) : Prop :=
  s.stride (s.order 4) = s.stride (s.order 3) * s.size (s.order 3)

theorem RealSide.addr_eq (h : RealSide i s) (hrows : RowsPacked s) (j : Fin 5 → Nat) :
    s.addr j = j 4 + j 3 + j (i.castAdd 2) * s.size 3 +
      s.stride (s.order 3) * (j (s.order 3) + s.size (s.order 3) * j (s.order 4)) := by
  have hbij : Function.Bijective s.order := Finite.injective_iff_bijective.mp h.order_injective
  rw [Layout.addr, ← hbij.sum_comp fun k => j k * s.stride k, Fin.sum_univ_five, h.order_zero,
    h.order_one, h.order_two, h.stride_four, h.stride_three, h.stride_long, hrows]
  ring

theorem RealSide.line_le (h : RealSide i s) :
    s.size (i.castAdd 2) * s.size 3 ≤ s.stride (s.order 3) := by
  have hnext := h.next 2
  rw [show s.order (Fin.castSucc 2) = i.castAdd 2 from h.order_two, h.stride_long] at hnext
  exact hnext

theorem RowsPacked.room_eq (hrows : RowsPacked s) :
    s.room = s.stride (s.order 3) * (s.size (s.order 3) * s.size (s.order 4)) := by
  show s.size (s.order 4) * s.stride (s.order 4) = _
  rw [hrows]
  ring

/-- The index of the data at position `x`, by the places of the storage order. -/
def digitsAt (s : FftwExtents) (x : Nat) : Fin 5 → Nat :=
  ![0, x % s.stride (s.order 3) % s.size 3, x % s.stride (s.order 3) / s.size 3,
    x / s.stride (s.order 3) % s.size (s.order 3), x / s.stride (s.order 3) / s.size (s.order 3)]

theorem RealSide.digitsAt_lt (h : RealSide i s) (hrows : RowsPacked s) {x : Nat} (hx : x < s.room)
    (hmod : x % s.stride (s.order 3) < s.size (i.castAdd 2) * s.size 3) (k : Fin 5) :
    digitsAt s x k < s.size (s.order k) := by
  have hfields : 0 < s.size 3 := by
    rcases Nat.eq_zero_or_pos (s.size 3) with h0 | h0
    · rw [h0, Nat.mul_zero] at hmod
      exact absurd hmod (Nat.not_lt_zero _)
    · exact h0
  have hrow : x / s.stride (s.order 3) < s.size (s.order 3) * s.size (s.order 4) := by
    rw [hrows.room_eq] at hx
    exact Nat.div_lt_of_lt_mul hx
  have hrowpos : 0 < s.size (s.order 3) := by
    rcases Nat.eq_zero_or_pos (s.size (s.order 3)) with h0 | h0
    · rw [h0, Nat.zero_mul] at hrow
      exact absurd hrow (Nat.not_lt_zero _)
    · exact h0
  fin_cases k
  · show 0 < s.size (s.order 0)
    rw [h.order_zero, h.size_four]
    exact Nat.one_pos
  · show x % s.stride (s.order 3) % s.size 3 < s.size (s.order 1)
    rw [h.order_one]
    exact Nat.mod_lt _ hfields
  · show x % s.stride (s.order 3) / s.size 3 < s.size (s.order 2)
    rw [h.order_two, Nat.div_lt_iff_lt_mul hfields]
    exact hmod
  · exact Nat.mod_lt _ hrowpos
  · exact Nat.div_lt_of_lt_mul hrow

theorem RealSide.addr_digitsAt (h : RealSide i s) (hrows : RowsPacked s) {x : Nat}
    {j : Fin 5 → Nat} (hj : ∀ k, j (s.order k) = digitsAt s x k) : s.addr j = x := by
  have hj4 : j 4 = digitsAt s x 0 := h.order_zero ▸ hj 0
  have hj3 : j 3 = digitsAt s x 1 := h.order_one ▸ hj 1
  have hjl : j (i.castAdd 2) = digitsAt s x 2 := h.order_two ▸ hj 2
  have hlow := Nat.mod_add_div' (x % s.stride (s.order 3)) (s.size 3)
  have hhigh := Nat.mod_add_div (x / s.stride (s.order 3)) (s.size (s.order 3))
  rw [h.addr_eq hrows, hj4, hj3, hjl, hj, hj]
  simp only [digitsAt, Matrix.cons_val]
  rw [Nat.zero_add, hlow, hhigh]
  exact Nat.mod_add_div _ _

/-- Data lies where the offset in a row is in the line. -/
theorem RealSide.mem_addr_iff (h : RealSide i s) (hrows : RowsPacked s) (x : Nat) :
    (∃ j, s.InBox j ∧ s.addr j = x) ↔
      x < s.room ∧ x % s.stride (s.order 3) < s.size (i.castAdd 2) * s.size 3 := by
  have hline := h.line_le
  constructor
  · rintro ⟨j, hj, rfl⟩
    refine ⟨h.nested.addr_lt hj, ?_⟩
    have h4 : j 4 = 0 := by
      have := hj 4
      rw [h.size_four] at this
      omega
    have hlow : j 3 + j (i.castAdd 2) * s.size 3 < s.size (i.castAdd 2) * s.size 3 := by
      have h3 := hj 3
      have hmul : (j (i.castAdd 2) + 1) * s.size 3 ≤ s.size (i.castAdd 2) * s.size 3 :=
        Nat.mul_le_mul_right _ (hj (i.castAdd 2))
      rw [Nat.succ_mul] at hmul
      omega
    rw [h.addr_eq hrows, h4, Nat.zero_add, Nat.add_mul_mod_self_left, Nat.mod_eq_of_lt (by omega)]
    exact hlow
  · rintro ⟨hx, hmod⟩
    have hbij : Function.Bijective s.order := Finite.injective_iff_bijective.mp h.order_injective
    obtain ⟨j, hj⟩ : ∃ j : Fin 5 → Nat, ∀ k, j (s.order k) = digitsAt s x k :=
      ⟨digitsAt s x ∘ (Equiv.ofBijective s.order hbij).symm, fun k =>
        congrArg (digitsAt s x) ((Equiv.ofBijective s.order hbij).symm_apply_apply k)⟩
    refine ⟨j, fun k => ?_, h.addr_digitsAt hrows hj⟩
    obtain ⟨m, rfl⟩ := hbij.surjective k
    rw [hj]
    exact h.digitsAt_lt hrows hx hmod m

theorem RealSide.rowsPacked_pack (h : RealSide i s) :
    RowsPacked (packStridesAccordingToOrder s) := by
  have hp : ∀ k, s.packed (s.order k) = Layout.below s.size s.order k :=
    Layout.packed_order h.order_injective
  have h4 : s.packed (s.order 4) = Layout.below s.size s.order 3 * s.size (s.order 3) := hp 4
  rw [← show s.packed (s.order 3) = Layout.below s.size s.order 3 from hp 3] at h4
  exact h4

theorem Extents.Pencil.rowsPacked {e : Extents} (he : e.Pencil i)
    (hlong : e.order 1 = i.castAdd 1) :
    RowsPacked (realExtents e (i.castAdd 1)) := by
  obtain ⟨-, -, s2, s3⟩ := he.strides
  have hne : ∀ {k}, k ≠ 1 → e.order k ≠ i.castAdd 1 := fun hk h =>
    hk (he.order_injective (h.trans hlong.symm))
  have h2 := he.order_ne (k := 2) (by decide)
  have h3 := he.order_ne (k := 3) (by decide)
  show (realExtents e (i.castAdd 1)).stride (e.order 3).castSucc =
    (realExtents e (i.castAdd 1)).stride (e.order 2).castSucc *
      (realExtents e (i.castAdd 1)).size (e.order 2).castSucc
  rw [realExtents_stride h3, if_neg (hne (by decide)), realExtents_stride h2,
    if_neg (hne (by decide)), realExtents_size h2, if_neg (hne (by decide)), s2, s3]

theorem rowsPacked_side {e : Extents} (he : e.Pencil i) (heven : e.size 3 % 2 = 0) {c : Creator}
    (hreal : c.real = true) (packedFlags : Flags) : RowsPacked (c.packedSide e i packedFlags) := by
  obtain ⟨hp, hlong, hsize⟩ := adjusted_spec he
  have hr := realSide hp (hsize ▸ heven) hlong
  rw [Creator.packedSide, Creator.side, if_pos hreal]
  split
  · exact hr.rowsPacked_pack
  · exact hp.rowsPacked hlong

/-- Without the number of fields the test of `check_field` says the same only when there is one. -/
theorem line_test_iff {fields line row room : Nat} (hfields : 0 < fields) (hline : 0 < line)
    (hrow : line * fields ≤ row) (hroom : row ≤ room) :
    (∀ x < room, x % row < line ↔ x % row < line * fields) ↔ fields = 1 := by
  constructor
  · intro h
    by_contra hne
    have hlt : line < line * fields := (Nat.lt_mul_iff_one_lt_right hline).mpr (by omega)
    have hmod : line % row = line := Nat.mod_eq_of_lt (by omega)
    have := h line (by omega)
    rw [hmod] at this
    omega
  · rintro rfl x -
    rw [Nat.mul_one]

end Positions

/-! ## The comparisons -/

/-- Called for the extent of a pencil, `check_field` compares the positions of the data of the input
side and no others, each with what `fill_field` stored there. -/
structure ChecksData {R : Type} (lib : Numerics R) (f : FftPlan) (extent : Nat) : Prop where
  positions : ∀ p worldRank salt i,
    (∃ x, (i, x) ∈
      (lib.checkField p worldRank (extent * sizeofReal) salt (some f)).compared) ↔
      ∃ j, f.input.InBox j ∧ f.input.addr j = i
  matched : ∀ p q worldRank salt bytes, extent * sizeofReal ≤ bytes →
    ∀ c ∈ (lib.checkField p worldRank (extent * sizeofReal) salt (some f)).compared,
      lib.fillField q worldRank bytes salt c.1 = c.2

section Real

variable {R : Type} (lib : Numerics R) {f : FftPlan} {extent : Nat}

theorem compared_eq (h4 : f.input.size 4 = 1) (hroom : f.input.room ≤ extent) (p : Nat → R)
    (worldRank : Nat) (salt : BitVec 32) :
    (lib.checkField p worldRank (extent * sizeofReal) salt (some f)).compared =
      ((List.range f.input.room).filter fun i =>
        i % f.input.stride (f.input.order 3) < f.input.size (f.input.order 2)).map
          fun i => (i, lib.number (lib.seeded worldRank salt) salt i) := by
  have hcount : min (extent * sizeofReal / sizeofReal)
      (f.input.stride (f.input.order 4) * f.input.size (f.input.order 4)) = f.input.room := by
    rw [Nat.mul_div_cancel _ (by decide), Nat.mul_comm (f.input.stride _)]
    exact Nat.min_eq_right hroom
  simp only [Numerics.checkField, if_pos h4, hcount]
  exact (lib.check_eq _ p salt _ lib.zero f.input.room).2

theorem checksData_iff {i : Fin 3} (hr : RealSide i f.input) (hrows : RowsPacked f.input)
    (hroom : f.input.room ≤ extent) (hsize : ∀ k, 0 < f.input.size k) :
    ChecksData lib f extent ↔ f.input.size 3 = 1 := by
  have hrowroom : f.input.stride (f.input.order 3) ≤ f.input.room := by
    rw [hrows.room_eq]
    exact Nat.le_mul_of_pos_right _ (Nat.mul_pos (hsize _) (hsize _))
  rw [← line_test_iff (hsize 3) (hsize (i.castAdd 2)) hr.line_le hrowroom]
  constructor
  · intro h x hx
    have hpos := h.positions (fun _ => lib.zero) 0 0 x
    rw [compared_eq lib hr.size_four hroom, hr.mem_addr_iff hrows, hr.order_two] at hpos
    simp [hx] at hpos
    exact hpos
  · intro h
    refine ⟨fun p worldRank salt x => ?_, fun p q worldRank salt bytes hbytes c hc => ?_⟩
    · rw [compared_eq lib hr.size_four hroom, hr.mem_addr_iff hrows, hr.order_two]
      simp
      exact fun hx => h x hx
    · rw [compared_eq lib hr.size_four hroom] at hc
      obtain ⟨x, hx, rfl⟩ := List.mem_map.mp hc
      have hx' := List.mem_range.mp (List.mem_filter.mp hx).1
      have hcount : extent ≤ bytes / sizeofReal := (Nat.le_div_iff_mul_le (by decide)).mpr hbytes
      exact lib.fillField_apply q worldRank salt (by omega)

end Real

/-- The input side of a real-to-complex plan of a pencil with data. -/
theorem Made.checksData_iff {R : Type} (lib : Numerics R) {e : Extents} {i : Fin 3} {inp out : Ptr}
    {rigorFlags packedFlags : Flags} {f : FftPlan} (he : e.Pencil i) (heven : e.size 3 % 2 = 0)
    (hextent : e.extent = ∏ k, e.size k) (hdata : 0 < e.extent)
    (hf : Made .r2cForward e i inp out rigorFlags packedFlags f) :
    ChecksData lib f e.extent ↔ e.size 3 = 2 := by
  obtain ⟨hin, -⟩ := Creator.r2cForward.rooms he heven packedFlags
  rw [← hextent, ← hf.input_eq] at hin
  have hr : RealSide i f.input := hf.sides.1
  have hrows : RowsPacked f.input := by
    rw [hf.input_eq]
    exact rowsPacked_side he heven (c := .r2cForward) rfl packedFlags
  have hpos : ∀ k, 0 < e.size k := by
    rw [hextent] at hdata
    exact fun k => Nat.pos_of_ne_zero fun h0 =>
      hdata.ne' (Finset.prod_eq_zero (Finset.mem_univ k) h0)
  have hshape := hf.shaped
  have hfields : f.input.size 3 = e.size 3 / 2 := hshape.fields.1
  have h3 := hpos 3
  have hsize : ∀ k, 0 < f.input.size k := by
    have hcases : ∀ k : Fin 5, k = 4 ∨ k = 3 ∨ ∃ k' : Fin 3, k = k'.castAdd 2 := by decide
    intro k
    rcases hcases k with rfl | rfl | ⟨k, rfl⟩
    · rw [hr.size_four]
      exact Nat.one_pos
    · omega
    · by_cases hk : k = i
      · subst hk
        exact hf.sides.2.2.1.pos
      · rw [(hshape.across k hk).1]
        exact hpos _
  rw [Underling.checksData_iff lib hr hrows hin hsize]
  omega

/-- For plans whose input side is real, `check_field` looks at exactly the data if and only if the
problem has one complex field. -/
theorem check_field_iff {env : Env} (job : Job env) {a b : Nat} (ha : a < job.pA) (hb : b < job.pB)
    (heven : job.howmany % 2 = 0) (hdata : 0 < ((job.problem a b).longN 2).extent) {inp out : Ptr}
    {rigorFlags packedFlags : Flags} {f : FftPlan} {w w' : World}
    (hf : job.fftCreate .r2cForward a b 2 inp out rigorFlags packedFlags w = .ok (some f, w'))
    {R : Type} (lib : Numerics R) :
    ChecksData lib f ((job.problem a b).longN 2).extent ↔ job.howmany = 2 := by
  have hmade := Made.of_run ha hb heven hf
  have hh := (job.created ha hb).howmany_nonneg
  rw [hmade.checksData_iff lib (job.pencil ha hb 2) (job.size_three_even ha hb 2 heven)
    ((job.isProblem ha hb).extent_eq 2) hdata, job.size_three ha hb]
  omega

/-- A generator, with the arithmetic of the integers. -/
def Numerics.sample : Numerics Int where
  State := Nat
  initstate := fun seed => seed.toNat
  random := fun s => (s, (1103515245 * s + 12345) % 2 ^ 31)
  garbage := fun r salt => r + salt.toNat
  zero := 0
  fmax := max
  absDiff := fun x y => |x - y|

/-- On one process, a line of four values in each field. -/
theorem exists_r2cLongN2 (howmany : Int) (hhow : howmany = 2 ∨ howmany = 4) :
    ∃ (job : Job .reference) (f : FftPlan), (job.n0 = 1 ∧ job.n1 = 1 ∧ job.n2 = 3) ∧
      (job.pA = 1 ∧ job.pB = 1) ∧ job.howmany = howmany ∧
      0 < ((job.problem 0 0).longN 2).extent ∧
      ∃ w, job.fftCreate .r2cForward 0 0 2 0 1 FFTW.ESTIMATE 0 .granting = .ok (some f, w) := by
  have hadm : Admitted 1 1 3 1 1 howmany 0 := by
    rcases hhow with rfl | rfl <;> decide
  obtain ⟨job, hn, hp, hh, -⟩ := exists_admitted 1 1 3 1 1 howmany 0 hadm
  have ha : 0 < job.pA := by omega
  have hb : 0 < job.pB := by omega
  obtain ⟨f, w, hrun⟩ := job.exists_fftCreate ha hb (by omega) .r2cForward 2 0 1
    (show FFTW.ESTIMATE.has nonRigorMask = false by decide) 0 fun h => absurd h (by decide)
  refine ⟨job, f, hn, hp, hh, ?_, w, hrun⟩
  rw [job.longN_eq ha hb]
  show 0 < job.decomp.lenB0 0 * job.decomp.lenA1 0 * job.decomp.n2 * job.decomp.howmany
  simp only [Decomposition.lenB0, Decomposition.lenA1, Decomposition.blockB0,
    Decomposition.blockA1, Job.decomp, hn, hp, hh]
  rcases hhow with rfl | rfl <;> decide

/-- With two complex fields half of the data is not compared. -/
theorem check_field_fails :
    ∃ (job : Job .reference) (f : FftPlan), (job.n0 = 1 ∧ job.n1 = 1 ∧ job.n2 = 3) ∧
      (job.pA = 1 ∧ job.pB = 1) ∧ job.howmany = 4 ∧
      0 < ((job.problem 0 0).longN 2).extent ∧
      (∃ w, job.fftCreate .r2cForward 0 0 2 0 1 FFTW.ESTIMATE 0 .granting = .ok (some f, w)) ∧
      ¬ ChecksData .sample f ((job.problem 0 0).longN 2).extent := by
  obtain ⟨job, f, hn, hp, hh, hdata, w, hrun⟩ := exists_r2cLongN2 4 (.inr rfl)
  have ha : 0 < job.pA := by omega
  have hb : 0 < job.pB := by omega
  have heven : job.howmany % 2 = 0 := by omega
  refine ⟨job, f, hn, hp, hh, hdata, ⟨w, hrun⟩, fun h => ?_⟩
  rw [(Made.of_run ha hb heven hrun).checksData_iff _ (job.pencil ha hb 2)
    (job.size_three_even ha hb 2 heven) ((job.isProblem ha hb).extent_eq 2) hdata,
    job.size_three ha hb] at h
  omega

theorem check_field_one :
    ∃ (job : Job .reference) (f : FftPlan), (job.n0 = 1 ∧ job.n1 = 1 ∧ job.n2 = 3) ∧
      (job.pA = 1 ∧ job.pB = 1) ∧ job.howmany = 2 ∧
      (∃ w, job.fftCreate .r2cForward 0 0 2 0 1 FFTW.ESTIMATE 0 .granting = .ok (some f, w)) ∧
      ChecksData .sample f ((job.problem 0 0).longN 2).extent := by
  obtain ⟨job, f, hn, hp, hh, hdata, w, hrun⟩ := exists_r2cLongN2 2 (.inl rfl)
  have ha : 0 < job.pA := by omega
  have hb : 0 < job.pB := by omega
  exact ⟨job, f, hn, hp, hh, ⟨w, hrun⟩,
    (check_field_iff job ha hb (by omega) hdata hrun .sample).mpr hh⟩

end Underling
