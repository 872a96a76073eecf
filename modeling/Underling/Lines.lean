import Underling.FftwCreate
import Underling.FftwExec
import Underling.Lib.BoxPass
import Underling.SplitExtents

/-!
# Underling.Lines

The lines of a side of a transform: the values along the transformed direction, at one index of the
other directions. The passes of the guru plans, as passes over boxes, and what each does to the
lines.

* `dft_lines`, `r2c_lines`, `c2r_lines`: the line written is the transform of the line read.
* `move_box`: a plan that only moves data.
-/

namespace Underling

open Strided Sweep

/-- The index that is `m` in the direction `i`, `c` in the components, and `j` in the others. -/
def onLine (i : Fin 3) (j : Fin 5 → Nat) (m c : Nat) : Fin 5 → Nat :=
  fun k => if k = i.castAdd 2 then m else if k = 4 then c else j k

/-- `j` is an index of the directions besides `i` and the components. -/
def Lines (e : FftwExtents) (i : Fin 3) (j : Fin 5 → Nat) : Prop :=
  ∀ k, k ≠ i.castAdd 2 → k ≠ 4 → j k < e.size k

variable {α : Type}

/-- The complex values on the line through `j`. -/
def complexLine (e : FftwExtents) (i : Fin 3) (x : Nat → α) (j : Fin 5 → Nat) (m : Nat) : α × α :=
  (x (e.addr (onLine i j m 0)), x (e.addr (onLine i j m 1)))

/-- The real values on the line through `j`. -/
def realLine (e : FftwExtents) (i : Fin 3) (x : Nat → α) (j : Fin 5 → Nat) (m : Nat) : α :=
  x (e.addr (onLine i j m 0))

/-! ## Indices -/

variable {i k1 k2 : Fin 3}

abbrev across (k1 k2 : Fin 3) : List (Fin 5) := [k1.castAdd 2, k2.castAdd 2, 3]

theorem Others.mem_iff (h : Others i k1 k2) (k : Fin 5) :
    k ∈ across k1 k2 ↔ k ≠ i.castAdd 2 ∧ k ≠ 4 := by
  obtain ⟨h1, h2, h12⟩ := h
  revert i k1 k2 k
  decide

theorem Others.nodup (h : Others i k1 k2) : (across k1 k2).Nodup := by
  obtain ⟨-, -, h12⟩ := h
  revert k1 k2
  decide

theorem Others.within (h : Others i k1 k2) {e : FftwExtents} {j : Fin 5 → Nat} (hj : Lines e i j) :
    ∀ k ∈ across k1 k2, j k < e.size k :=
  fun k hk => hj k ((h.mem_iff k).mp hk).1 ((h.mem_iff k).mp hk).2

theorem Others.merge_onLine (h : Others i k1 k2) (j j' : Fin 5 → Nat) (m c : Nat) :
    merge (across k1 k2) j (onLine i j' m c) = onLine i j m c := by
  funext k
  rw [merge, onLine, onLine]
  by_cases hl : k = i.castAdd 2
  · rw [if_neg fun hk => ((h.mem_iff k).mp hk).1 hl, if_pos hl]
    rw [if_pos hl]
  by_cases h4 : k = 4
  · rw [if_neg fun hk => ((h.mem_iff k).mp hk).2 h4, if_neg hl, if_pos h4]
    rw [if_neg hl, if_pos h4]
  · rw [if_pos ((h.mem_iff k).mpr ⟨hl, h4⟩), if_neg hl, if_neg h4]

theorem addr_onLine_zero (L : FftwExtents) (i : Fin 3) (m c : Nat) :
    L.addr (onLine i (fun _ => 0) m c) = m * L.stride (i.castAdd 2) + c * L.stride 4 := by
  rw [Layout.addr, Fin.sum_univ_five]
  fin_cases i <;> simp [onLine, Fin.ext_iff]

theorem Others.addr_onLine (h : Others i k1 k2) (L : FftwExtents) (j : Fin 5 → Nat) (m c : Nat) :
    L.addr (onLine i j m c) = m * L.stride (i.castAdd 2) + c * L.stride 4 +
      ((across k1 k2).map fun k => j k * L.stride k).sum := by
  rw [← h.merge_onLine j (fun _ => 0), addr_merge h.nodup, h.merge_onLine, addr_onLine_zero]

theorem onLine_long (i : Fin 3) (j : Fin 5 → Nat) (m c : Nat) : onLine i j m c (i.castAdd 2) = m :=
  if_pos rfl

theorem onLine_four (i : Fin 3) (j : Fin 5 → Nat) (m c : Nat) : onLine i j m c 4 = c :=
  (if_neg (four_ne_long i)).trans (if_pos rfl)

theorem inBox_onLine {e : FftwExtents} {j : Fin 5 → Nat} {m c : Nat} (hj : Lines e i j)
    (hm : m < e.size (i.castAdd 2)) (hc : c < e.size 4) : e.InBox (onLine i j m c) := by
  intro k
  rw [onLine]
  split
  · rename_i hk
    exact hk ▸ hm
  · split
    · rename_i hk
      exact hk ▸ hc
    · exact hj k ‹_› ‹_›

/-! ## Slots -/

/-- Where the parts of a complex line are; a backward transform takes them in exchanged roles. -/
def complexSlot (i : Fin 3) (flip : Bool) {n : Nat} (s : Fin n × Bool) : Fin 5 → Nat :=
  onLine i (fun _ => 0) s.1 (s.2 ^^ flip).toNat

/-- Where the values of a real line are. -/
def realSlot (i : Fin 3) {n : Nat} (m : Fin n) : Fin 5 → Nat := onLine i (fun _ => 0) m 0

section Slots

variable {n : Nat} {flip : Bool} {e : FftwExtents} {size : Fin 5 → Nat}

theorem slots_onLine {ι : Type} {place : ι → Nat} {part : ι → Nat} (h : Others i k1 k2)
    (hn : e.Nested) (hsize : ∀ k, k ≠ i.castAdd 2 → k ≠ 4 → size k = e.size k)
    (hm : ∀ s, place s < e.size (i.castAdd 2)) (hc : ∀ s, part s < e.size 4) :
    BoxPass.Slots e size (across k1 k2) fun s : ι => onLine i (fun _ => 0) (place s) (part s) := by
  refine ⟨hn, fun j s hj => ?_⟩
  rw [h.merge_onLine]
  refine inBox_onLine (fun k hl h4 => ?_) (hm s) (hc s)
  rw [← hsize k hl h4]
  exact hj k ((h.mem_iff k).mpr ⟨hl, h4⟩)

theorem slots_complex (h : Others i k1 k2) (hn : e.Nested)
    (hsize : ∀ k, k ≠ i.castAdd 2 → k ≠ 4 → size k = e.size k) (hlong : n = e.size (i.castAdd 2))
    (hfour : e.size 4 = 2) : BoxPass.Slots e size (across k1 k2) (complexSlot i flip (n := n)) := by
  refine slots_onLine h hn hsize (fun s => hlong ▸ s.1.isLt) fun s => ?_
  rw [hfour]
  exact Bool.toNat_lt _

theorem slots_real (h : Others i k1 k2) (hn : e.Nested)
    (hsize : ∀ k, k ≠ i.castAdd 2 → k ≠ 4 → size k = e.size k) (hlong : n = e.size (i.castAdd 2))
    (hfour : e.size 4 = 1) : BoxPass.Slots e size (across k1 k2) (realSlot i (n := n)) :=
  slots_onLine h hn hsize (fun m => hlong ▸ m.isLt) fun _ => by omega

theorem apart_onLine {ι : Type} (h : Others i k1 k2) (place part : ι → Nat)
    (hinj : ∀ s s', place s = place s' → part s = part s' → s = s') :
    BoxPass.Apart (across k1 k2) fun s : ι => onLine i (fun _ => 0) (place s) (part s) := by
  intro s s' heq
  rw [h.merge_onLine, h.merge_onLine] at heq
  have hplace := congrFun heq (i.castAdd 2)
  have hpart := congrFun heq 4
  rw [onLine_long, onLine_long] at hplace
  rw [onLine_four, onLine_four] at hpart
  exact hinj s s' hplace hpart

theorem apart_complex (h : Others i k1 k2) :
    BoxPass.Apart (across k1 k2) (complexSlot i flip (n := n)) := by
  refine apart_onLine h _ _ fun s s' hm hc => Prod.ext (Fin.ext hm) ?_
  cases hs : s.2 <;> cases hs' : s'.2 <;> cases flip <;> simp [hs, hs'] at hc ⊢

theorem apart_real (h : Others i k1 k2) : BoxPass.Apart (across k1 k2) (realSlot i (n := n)) :=
  apart_onLine h _ _ fun _ _ hm _ => Fin.ext hm

end Slots

/-! ## Passes over boxes -/

section Passes

variable {L L' : FftwExtents} {size : Fin 5 → Nat} {loops : List IoDim} {n : Nat} {b b' : Ptr}
  {flip : Bool}

/-- The offset of a part of complex values. -/
def partOffset (L : FftwExtents) (second : Bool) : Nat := if second then L.stride 4 else 0

theorem splitAt_eq (h : Others i k1 k2) (L : FftwExtents) (b : Ptr) (flip : Bool)
    (s : Fin n × Bool) :
    splitAt (L.stride (i.castAdd 2)) ⟨b, partOffset L flip⟩ ⟨b, partOffset L !flip⟩ s.1 s.2 =
      (b, L.addr (merge (across k1 k2) (fun _ => 0) (complexSlot i flip s))) := by
  rw [complexSlot, h.merge_onLine, addr_onLine_zero, Nat.add_comm, splitAt, realAt]
  cases s.2 <;> cases flip <;> simp [partOffset]

theorem realAt_eq (h : Others i k1 k2) (L : FftwExtents) (b : Ptr) (m : Fin n) :
    realAt (L.stride (i.castAdd 2)) ⟨b, 0⟩ m =
      (b, L.addr (merge (across k1 k2) (fun _ => 0) (realSlot i m))) := by
  rw [realSlot, h.merge_onLine, addr_onLine_zero, Nat.zero_mul, Nat.add_zero, realAt, Nat.zero_add]

theorem dft_box (h : Others i k1 k2) (b b' : Ptr) (n : Nat) (flip : Bool)
    (hloops : loops = boxLoops size L L' (across k1 k2)) :
    BoxPass (dftPass ⟨n, L.stride (i.castAdd 2), L'.stride (i.castAdd 2)⟩ loops
        ⟨b, partOffset L flip⟩ ⟨b, partOffset L !flip⟩
        ⟨b', partOffset L' flip⟩ ⟨b', partOffset L' !flip⟩)
      size L L' (across k1 k2) b b' (complexSlot i flip) (complexSlot i flip) :=
  ⟨h.nodup, hloops, splitAt_eq h L b flip, splitAt_eq h L' b' flip⟩

theorem r2c_box (h : Others i k1 k2) (b b' : Ptr) (n : Nat)
    (hloops : loops = boxLoops size L L' (across k1 k2)) :
    BoxPass (r2cPass ⟨n, L.stride (i.castAdd 2), L'.stride (i.castAdd 2)⟩ loops ⟨b, 0⟩
        ⟨b', 0⟩ ⟨b', L'.stride 4⟩)
      size L L' (across k1 k2) b b' (realSlot i) (complexSlot i false) :=
  ⟨h.nodup, hloops, realAt_eq h L b, splitAt_eq h L' b' false⟩

theorem c2r_box (h : Others i k1 k2) (b b' : Ptr) (n : Nat)
    (hloops : loops = boxLoops size L L' (across k1 k2)) :
    BoxPass (c2rPass ⟨n, L.stride (i.castAdd 2), L'.stride (i.castAdd 2)⟩ loops
        ⟨b, 0⟩ ⟨b, L.stride 4⟩ ⟨b', 0⟩)
      size L L' (across k1 k2) b b' (complexSlot i false) (realSlot i) :=
  ⟨h.nodup, hloops, splitAt_eq h L b false, realAt_eq h L' b'⟩

/-! ## What they do to the lines -/

def flipped (flip : Bool) (z : α × α) : α × α := if flip then z.swap else z

variable {K : Kernel α} {m m' : Mem α} {j : Fin 5 → Nat}

theorem dft_lines (h : Others i k1 k2) {p : Pass Ptr (Fin n × Bool) (Fin n × Bool)}
    (hbox : BoxPass p size L L' (across k1 k2) b b' (complexSlot i flip) (complexSlot i flip))
    (hp : p.Performs (K.splitDft n) m m') (hj : ∀ k ∈ across k1 k2, j k < size k) (o : Fin n) :
    complexLine L' i (m' b') j o = flipped flip
      (K.dft n (fun o => flipped flip (complexLine L i (m b) j o)) o) := by
  have hval := hbox.performs hp hj
  simp only [complexSlot, h.merge_onLine] at hval
  have hre := hval (o, false)
  have him := hval (o, true)
  cases flip
  · exact Prod.ext hre him
  · exact Prod.ext him hre

theorem r2c_lines (h : Others i k1 k2) {p : Pass Ptr (Fin n) (Fin (n / 2 + 1) × Bool)}
    (hbox : BoxPass p size L L' (across k1 k2) b b' (realSlot i) (complexSlot i false))
    (hp : p.Performs (K.splitR2c n) m m') (hj : ∀ k ∈ across k1 k2, j k < size k)
    (o : Fin (n / 2 + 1)) :
    complexLine L' i (m' b') j o = K.r2c n (fun o => realLine L i (m b) j o) o := by
  have hval := hbox.performs hp hj
  simp only [complexSlot, realSlot, h.merge_onLine] at hval
  exact Prod.ext (hval (o, false)) (hval (o, true))

theorem c2r_lines (h : Others i k1 k2) {p : Pass Ptr (Fin (n / 2 + 1) × Bool) (Fin n)}
    (hbox : BoxPass p size L L' (across k1 k2) b b' (complexSlot i false) (realSlot i))
    (hp : p.Performs (K.splitC2r n) m m') (hj : ∀ k ∈ across k1 k2, j k < size k) (o : Fin n) :
    realLine L' i (m' b') j o = K.c2r n (fun o => complexLine L i (m b) j o) o := by
  have hval := hbox.performs hp hj o
  simp only [complexSlot, realSlot, h.merge_onLine] at hval
  exact hval

end Passes

/-! ## Moves -/

section Moves

variable {L L' : FftwExtents} {size : Fin 5 → Nat} {loops : List IoDim} {ks : List (Fin 5)}
  {b b' : Ptr} {m m' : Mem α}

theorem merge_all (hks : ∀ k, k ∈ ks) (j s : Fin 5 → Nat) : merge ks j s = j :=
  funext fun k => if_pos (hks k)

theorem move_box (b b' : Ptr) (hnodup : ks.Nodup) (hks : ∀ k, k ∈ ks)
    (hloops : loops = boxLoops size L L' ks) :
    BoxPass (movePass loops ⟨b, 0⟩ ⟨b', 0⟩) size L L' ks b b' (fun _ _ => 0) (fun _ _ => 0) := by
  have hzero : ∀ L : FftwExtents, L.addr (merge ks (fun _ => 0) fun _ => 0) = 0 := by
    intro L
    rw [merge_all hks, Layout.addr]
    simp
  exact ⟨hnodup, hloops, fun _ => by rw [hzero]; rfl, fun _ => by rw [hzero]; rfl⟩

theorem slots_all {ι : Type} {H : FftwExtents} (hks : ∀ k, k ∈ ks) (hn : H.Nested)
    (hsize : ∀ k, size k = H.size k) : BoxPass.Slots H size ks fun _ : ι => fun _ => 0 := by
  refine ⟨hn, fun j _ hj => ?_⟩
  rw [merge_all hks]
  exact fun k => hsize k ▸ hj k (hks k)

theorem move_once (hks : ∀ k, k ∈ ks) {p : Pass Ptr Unit Unit}
    (hbox : BoxPass p size L L' ks b b' (fun _ _ => 0) (fun _ _ => 0)) (hn : L'.Nested)
    (hsize : ∀ k, size k = L'.size k) : p.WritesOnce :=
  hbox.writesOnce (slots_all hks hn hsize) fun _ _ _ => rfl

theorem move_at (hks : ∀ k, k ∈ ks) {p : Pass Ptr Unit Unit}
    (hbox : BoxPass p size L L' ks b b' (fun _ _ => 0) (fun _ _ => 0)) (hp : p.Performs id m m')
    {j : Fin 5 → Nat} (hj : ∀ k, j k < size k) : m' b' (L'.addr j) = m b (L.addr j) := by
  have hval := hbox.performs hp (fun k _ => hj k) ()
  simp only [merge_all hks] at hval
  exact hval

end Moves

end Underling
