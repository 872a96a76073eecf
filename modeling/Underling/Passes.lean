import Underling.Lines

/-!
# Underling.Passes

The passes over memory that the stages of FFT plans make, as passes over boxes.

* `c2c_separate`, `r2c_separate_within`, `c2r_separate_within`: the lines an FFT works on are
  disjoint, in one buffer too.
* `c2rPreorderLoops_eq`, `r2cPostorderLoops_eq`, `c2rPostorderLoops_eq`: between which storages the
  reorderings move data.
-/

namespace Underling

open Strided Sweep

/-- The arrays passed to the FFT of a plan. -/
def fftPointers (type : TransformType) (o : Offset) (inp out : Ptr) : List Pointer :=
  match type with
  | .c2cForward | .c2cBackward => [⟨inp, o.ri⟩, ⟨inp, o.ii⟩, ⟨out, o.ro⟩, ⟨out, o.io⟩]
  | .c2rBackward => [⟨inp, o.ri⟩, ⟨inp, o.ii⟩, ⟨out, 0⟩]
  | .r2cForward => [⟨inp, 0⟩, ⟨out, o.ro⟩, ⟨out, o.io⟩]
  | .unspecified => []

/-- A pass over memory, whatever its slots. -/
structure AnyPass where
  {ι : Type}
  {κ : Type}
  pass : Pass Ptr ι κ

/-- The pass a guru plan makes when it is executed on the given arrays. -/
def Guru.pass? (g : Guru) (ptrs : List Pointer) : Option AnyPass :=
  match g.kind, g.dims, ptrs with
  | .splitDft, [d], [ri, ii, ro, io] => some ⟨dftPass d g.howmany ri ii ro io⟩
  | .splitDftR2c, [d], [inp, ro, io] => some ⟨r2cPass d g.howmany inp ro io⟩
  | .splitDftC2r, [d], [ri, ii, out] => some ⟨c2rPass d g.howmany ri ii out⟩
  | .r2r, [], [inp, out] => some ⟨movePass g.howmany inp out⟩
  | _, _, _ => none

variable {i k1 k2 : Fin 3} {input output c r : FftwExtents} {b b' : Ptr}

theorem order_nodup {order : Fin 5 → Fin 5} (h : Function.Injective order) :
    (([4, 3, 2, 1, 0] : List (Fin 5)).map order).Nodup :=
  List.Nodup.map h (by decide)

theorem mem_order {order : Fin 5 → Fin 5} (h : Function.Injective order) (k : Fin 5) :
    k ∈ ([4, 3, 2, 1, 0] : List (Fin 5)).map order := by
  obtain ⟨t, rfl⟩ := Finite.injective_iff_surjective.mp h k
  exact List.mem_map_of_mem (by revert t; decide)

/-! ## Complex transforms -/

theorem c2cLoops_eq (k1 k2 : Fin 3) (hin : ComplexSide input) (hout : ComplexSide output) :
    c2cLoops [k1.castAdd 2, k2.castAdd 2] input output =
      boxLoops input.size input output (across k1 k2) := by
  simp only [c2cLoops, boxLoops, across, List.map_cons, List.map_nil, List.cons_append,
    List.nil_append, hin.size_four, hout.size_four, hin.stride_three, hout.stride_three]

theorem c2c_separate (ho : Others i k1 k2) (hin : ComplexSide input) (hout : ComplexSide output)
    (hsize : output.size = input.size) {b b' : Ptr} (hsame : b = b' → input = output) {flip : Bool}
    {n : Nat} (hn : n = input.size (i.castAdd 2)) {p : Pass Ptr (Fin n × Bool) (Fin n × Bool)}
    (hbox : BoxPass p input.size input output (across k1 k2) b b' (complexSlot i flip)
      (complexSlot i flip)) : p.Separate := by
  have hslots : BoxPass.Slots input input.size (across k1 k2) (complexSlot i flip (n := n)) :=
    slots_complex ho hin.nested (fun _ _ _ => rfl) hn hin.size_four
  by_cases h : b = b'
  · obtain rfl := hsame h
    exact hbox.separate_within hslots hslots (apart_complex ho) (fun _ _ => rfl) fun _ _ => rfl
  · exact hbox.separate h hslots (slots_complex ho hout.nested (fun k _ _ => by rw [hsize])
      (by rw [hsize, hn]) hout.size_four) (apart_complex ho)

/-! ## Real transforms -/

theorem split_addr (ho : Others i k1 k2) (hc : ComplexSide c) (hr : RealSide i r)
    (hh : Halves i c r) (hs : SamePlace i c r) (j : Fin 5 → Nat) (n part : Nat) :
    (splitExtents c).addr (onLine i j n part) =
      (paddedExtents i c r).addr (onLine i j (2 * n + part) 0) := by
  have hacross : (across k1 k2).map (fun k => j k * (splitExtents c).stride k) =
      (across k1 k2).map fun k => j k * (paddedExtents i c r).stride k := by
    refine List.map_congr_left fun k hk => ?_
    obtain ⟨hl, h4⟩ := (ho.mem_iff k).mp hk
    rw [hs.split_stride hr hl h4, paddedExtents_stride h4]
  rw [ho.addr_onLine, ho.addr_onLine, hacross, hs.split_long hc hr hh, SamePlace.split_four hr hh,
    paddedExtents_stride (four_ne_long i).symm]
  ring

theorem padded_addr (ho : Others i k1 k2) (j : Fin 5 → Nat) (n : Nat) :
    (paddedExtents i c r).addr (onLine i j n 0) = r.addr (onLine i j n 0) := by
  have hacross : (across k1 k2).map (fun k => j k * (paddedExtents i c r).stride k) =
      (across k1 k2).map fun k => j k * r.stride k :=
    List.map_congr_left fun k hk => by rw [paddedExtents_stride ((ho.mem_iff k).mp hk).2]
  rw [ho.addr_onLine, ho.addr_onLine, hacross, paddedExtents_stride (four_ne_long i).symm]
  simp only [Nat.zero_mul]

/-- Where the parts of a complex line are, among the values of a padded real line. -/
def splitSlot (i : Fin 3) {n : Nat} (s : Fin n × Bool) : Fin 5 → Nat :=
  onLine i (fun _ => 0) (2 * s.1 + s.2.toNat) 0

/-- The storages of an in-place real transform lie in the padded lines. -/
structure InPadded (i k1 k2 : Fin 3) (c r : FftwExtents) (size : Fin 5 → Nat) (n : Nat) : Prop where
  realSlots : BoxPass.Slots (paddedExtents i c r) size (across k1 k2) (realSlot i (n := n))
  splitSlots : BoxPass.Slots (paddedExtents i c r) size (across k1 k2)
    (splitSlot i (n := n / 2 + 1))
  realAddr : ∀ j (s : Fin n), r.addr (merge (across k1 k2) j (realSlot i s)) =
    (paddedExtents i c r).addr (merge (across k1 k2) j (realSlot i s))
  splitAddr : ∀ j (s : Fin (n / 2 + 1) × Bool),
    (splitExtents c).addr (merge (across k1 k2) j (complexSlot i false s)) =
      (paddedExtents i c r).addr (merge (across k1 k2) j (splitSlot i s))

theorem inPadded (ho : Others i k1 k2) (hc : ComplexSide c) (hr : RealSide i r) (hh : Halves i c r)
    (hs : SamePlace i c r) {size : Fin 5 → Nat}
    (hsize : ∀ k, k ≠ i.castAdd 2 → k ≠ 4 → size k = r.size k) :
    InPadded i k1 k2 c r size (r.size (i.castAdd 2)) := by
  have hhalf := hh.half
  have hslots : ∀ {ι : Type} {place : ι → Nat}, (∀ s, place s < 2 * c.size (i.castAdd 2)) →
      BoxPass.Slots (paddedExtents i c r) size (across k1 k2)
        fun s : ι => onLine i (fun _ => 0) (place s) 0 := by
    refine fun hplace => slots_onLine ho (padded_nested hc hr hh hs) (fun k hl h4 => ?_)
      (fun s => ?_) fun s => ?_
    · rw [hsize k hl h4, paddedExtents_size hl]
    · rw [paddedExtents_long]
      exact hplace s
    · rw [paddedExtents_size (four_ne_long i), hr.size_four]
      exact Nat.one_pos
  refine ⟨hslots fun s => by omega, hslots fun s => ?_, fun j s => ?_, fun j s => ?_⟩
  · have hpart := Bool.toNat_lt s.2
    omega
  · rw [realSlot, ho.merge_onLine, padded_addr ho]
  · rw [complexSlot, splitSlot, ho.merge_onLine, ho.merge_onLine, Bool.xor_false,
      split_addr ho hc hr hh hs]

theorem apart_split (ho : Others i k1 k2) {n : Nat} :
    BoxPass.Apart (across k1 k2) (splitSlot i (n := n)) := by
  refine apart_onLine ho _ (fun _ => 0) fun s s' hplace _ => ?_
  have h := Bool.toNat_lt s.2
  have h' := Bool.toNat_lt s'.2
  refine Prod.ext (Fin.ext (by omega)) ?_
  have hpart : s.2.toNat = s'.2.toNat := by omega
  cases hs : s.2 <;> cases hs' : s'.2 <;> simp [hs, hs'] at hpart ⊢

/-- The FFT of a real-to-complex transform within one buffer, to parts that are apart. -/
theorem r2c_box_within (ho : Others i k1 k2) (hr : RealSide i r) (hc : ComplexSide c)
    (hh : Halves i c r) (hs : SamePlace i c r) (b b' : Ptr) :
    BoxPass (r2cPass ⟨r.size (i.castAdd 2), r.stride (i.castAdd 2), 2 * r.stride (i.castAdd 2)⟩
        ((across k1 k2).map fun io => ⟨r.size io, r.stride io, r.stride io⟩) ⟨b, 0⟩ ⟨b', 0⟩
        ⟨b', r.stride (i.castAdd 2)⟩)
      r.size r (splitExtents c) (across k1 k2) b b' (realSlot i) (complexSlot i false) := by
  have hloops : (across k1 k2).map (fun io => (⟨r.size io, r.stride io, r.stride io⟩ : IoDim)) =
      boxLoops r.size r (splitExtents c) (across k1 k2) := by
    refine List.map_congr_left fun k hk => ?_
    obtain ⟨hl, h4⟩ := (ho.mem_iff k).mp hk
    rw [hs.split_stride hr hl h4]
  have hbox := r2c_box ho b b' (r.size (i.castAdd 2)) hloops
  rwa [SamePlace.split_four hr hh, hs.split_long hc hr hh] at hbox

theorem r2c_separate_within (ho : Others i k1 k2) (hr : RealSide i r) (hc : ComplexSide c)
    (hh : Halves i c r) (hs : SamePlace i c r) (b b' : Ptr) :
    (r2cPass ⟨r.size (i.castAdd 2), r.stride (i.castAdd 2), 2 * r.stride (i.castAdd 2)⟩
      ((across k1 k2).map fun io => ⟨r.size io, r.stride io, r.stride io⟩) ⟨b, 0⟩ ⟨b', 0⟩
      ⟨b', r.stride (i.castAdd 2)⟩).Separate := by
  have hin := inPadded ho hc hr hh hs fun _ _ _ => rfl
  exact (r2c_box_within ho hr hc hh hs b b').separate_within hin.realSlots hin.splitSlots
    (apart_split ho) hin.realAddr hin.splitAddr

/-- The loops of an in-place complex-to-real FFT. -/
def c2rLoopsWithin (k1 k2 : Fin 3) (c : FftwExtents) : List IoDim :=
  [⟨c.size (k1.castAdd 2), c.stride (k1.castAdd 2), c.stride (k1.castAdd 2)⟩,
    ⟨c.size (k2.castAdd 2), c.stride (k2.castAdd 2), c.stride (k2.castAdd 2)⟩, ⟨c.size 3, 1, 1⟩]

/-- The FFT of a complex-to-real transform within one buffer, from parts that are apart. -/
theorem c2r_box_within (ho : Others i k1 k2) (hr : RealSide i r)
    (hh : Halves i c r) (hs : SamePlace i c r) (b b' : Ptr) :
    BoxPass (c2rPass ⟨r.size (i.castAdd 2), c.stride (i.castAdd 2), c.size 3⟩
        (c2rLoopsWithin k1 k2 c) ⟨b, 0⟩ ⟨b, c.size 3⟩ ⟨b', 0⟩)
      c.size (splitExtents c) r (across k1 k2) b b' (complexSlot i false) (realSlot i) := by
  have hstride : ∀ k, k ≠ i.castAdd 2 → k ≠ 4 → (splitExtents c).stride k = r.stride k :=
    fun k hl h4 => hs.split_stride hr hl h4
  have hsplit : ∀ k : Fin 3, (splitExtents c).stride (k.castAdd 2) = c.stride (k.castAdd 2) :=
    fun k => splitExtents_stride (three_ne_long k).symm (four_ne_long k).symm
  have hloops : c2rLoopsWithin k1 k2 c =
      boxLoops c.size (splitExtents c) r (across k1 k2) := by
    have h1 := (ho.mem_iff (k1.castAdd 2)).mp (by simp)
    have h2 := (ho.mem_iff (k2.castAdd 2)).mp (by simp)
    simp only [c2rLoopsWithin, boxLoops, List.map_cons, List.map_nil, ← hstride _ h1.1 h1.2,
      ← hstride _ h2.1 h2.2, ← hstride 3 (three_ne_long i) (by decide), hsplit, splitExtents_three]
  have hbox := c2r_box ho b b' (r.size (i.castAdd 2)) hloops
  rwa [splitExtents_four, hsplit, hr.stride_long,
    hh.size_eq 3 (three_ne_long i) (by decide)] at hbox

theorem c2r_separate_within (ho : Others i k1 k2) (hc : ComplexSide c) (hr : RealSide i r)
    (hh : Halves i c r) (hs : SamePlace i c r) (b b' : Ptr) :
    (c2rPass ⟨r.size (i.castAdd 2), c.stride (i.castAdd 2), c.size 3⟩ (c2rLoopsWithin k1 k2 c)
      ⟨b, 0⟩ ⟨b, c.size 3⟩ ⟨b', 0⟩).Separate := by
  have hin := inPadded ho hc hr hh hs fun k hl h4 => (hh.size_eq k hl h4).symm
  exact (c2r_box_within ho hr hh hs b b').separate_within hin.splitSlots hin.realSlots
    (apart_real ho) hin.splitAddr hin.realAddr

/-! ## Reorderings -/

theorem reorderLoops_eq (input output : FftwExtents) : reorderLoops input output =
    boxLoops input.size input output (([4, 3, 2, 1, 0] : List (Fin 5)).map input.order) := rfl

theorem c2rPreorderLoops_eq (hc : ComplexSide c) :
    c2rPreorderLoops (([4, 3, 2] : List (Fin 5)).map c.order) c =
      boxLoops c.size c (splitExtents c) (([4, 3, 2, 1, 0] : List (Fin 5)).map c.order) := by
  have hne : ∀ k : Fin 5, k ≠ 0 → k ≠ 1 →
      (splitExtents c).stride (c.order k) = c.stride (c.order k) :=
    fun k h0 h1 => splitExtents_stride (hc.order_ne_three h1) (hc.order_ne_four h0)
  simp only [c2rPreorderLoops, boxLoops, List.map_cons, List.map_nil, List.cons_append,
    List.nil_append, hne 4 (by decide) (by decide), hne 3 (by decide) (by decide),
    hne 2 (by decide) (by decide), hc.order_one, hc.order_zero, splitExtents_three,
    splitExtents_four, hc.stride_three, hc.stride_four, hc.size_four]

theorem r2cPostorderLoops_eq (hc : ComplexSide c) (hr : RealSide i r) (hh : Halves i c r)
    (hs : SamePlace i c r) :
    r2cPostorderLoops (i.castAdd 2) (([4, 3, 2] : List (Fin 5)).map r.order) r c =
      boxLoops c.size (splitExtents c) c (([4, 3, 2, 1, 0] : List (Fin 5)).map c.order) := by
  have h4 : r.order 4 ≠ i.castAdd 2 := hr.order_ne_long (by decide)
  have h3 : r.order 3 ≠ i.castAdd 2 := hr.order_ne_long (by decide)
  have hne : ∀ k : Fin 5, k ≠ 0 → k ≠ 2 →
      (splitExtents c).stride (r.order k) = r.stride (r.order k) :=
    fun k h0 h2 => hs.split_stride hr (hr.order_ne_long h2) (hr.order_ne_four h0)
  simp only [r2cPostorderLoops, boxLoops, List.map_cons, List.map_nil, List.cons_append,
    List.nil_append, hs.order_eq, if_neg h4, if_neg h3,
    hr.order_two, if_pos, hne 4 (by decide) (by decide), hne 3 (by decide) (by decide),
    hs.split_long hc hr hh, hr.order_one, hr.order_zero, splitExtents_three, splitExtents_four,
    hc.stride_three, hc.stride_four, hc.size_four, Nat.mul_comm 2]

theorem c2rPostorderLoops_eq (hc : ComplexSide c) (hr : RealSide i r) (hh : Halves i c r)
    (hs : SamePlace i c r) :
    c2rPostorderLoops (i.castAdd 2) (([4, 3, 2] : List (Fin 5)).map r.order) c r =
      boxLoops (paddedExtents i c r).size (paddedExtents i c r) (paddedExtents i c r)
        (([4, 3, 2, 1, 0] : List (Fin 5)).map r.order) := by
  have h4 : r.order 4 ≠ i.castAdd 2 := hr.order_ne_long (by decide)
  have h3 : r.order 3 ≠ i.castAdd 2 := hr.order_ne_long (by decide)
  have hother : ∀ k : Fin 5, k ≠ 0 → k ≠ 1 → k ≠ 2 →
      c.size (r.order k) = (paddedExtents i c r).size (r.order k) ∧
        c.stride (r.order k) = (paddedExtents i c r).stride (r.order k) ∧
        r.stride (r.order k) = (paddedExtents i c r).stride (r.order k) := by
    intro k h0 h1 h2
    have hfour := hr.order_ne_four h0
    have hlong := hr.order_ne_long h2
    rw [paddedExtents_size hlong, paddedExtents_stride hfour, hh.size_eq _ hlong hfour,
      hs.stride_eq _ hlong (hr.order_ne_three h1) hfour]
    exact ⟨rfl, rfl, rfl⟩
  obtain ⟨e4, s4, t4⟩ := hother 4 (by decide) (by decide) (by decide)
  obtain ⟨e3, s3, t3⟩ := hother 3 (by decide) (by decide) (by decide)
  have hhalf : c.stride (i.castAdd 2) / 2 = r.stride (i.castAdd 2) := by
    rw [← splitExtents_stride (three_ne_long i).symm (four_ne_long i).symm, hs.split_long hc hr hh]
    omega
  simp only [c2rPostorderLoops, boxLoops, List.map_cons, List.map_nil, List.cons_append,
    List.nil_append, if_neg h4, if_neg h3, e4, s4, t4, e3, s3, t3, hr.order_two, if_pos, hhalf,
    hr.order_one, hr.order_zero, paddedExtents_long, paddedExtents_four,
    paddedExtents_size (three_ne_long i), paddedExtents_size (four_ne_long i),
    paddedExtents_stride (four_ne_long i).symm, paddedExtents_stride (by decide : (3 : Fin 5) ≠ 4),
    hr.stride_three, hr.size_four]

end Underling
