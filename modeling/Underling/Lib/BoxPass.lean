import Underling.Lib.Strided
import Underling.Lib.Sweep

/-!
# Lib.BoxPass

Passes whose loops run over some directions of a box stored with strides on both sides, while the
slots of the operation lie along the other directions.

* `BoxPass.performs`: what such a pass does, by the indices of the box.
* `BoxPass.separate`: between two buffers its tuples are separate when both storages are nested.
* `BoxPass.separate_within`: within one buffer they are when both storages lie, tuple by tuple, in
  one that is.
* `BoxPass.touches_lt`: what such a pass touches.
-/

namespace Strided

open Sweep

variable {d : Nat}

/-- Loops over the directions `ks` of a box of the given size. -/
def boxLoops (size : Fin d → Nat) (L L' : Layout d) (ks : List (Fin d)) : List Loop :=
  ks.map fun k => ⟨size k, L.stride k, L'.stride k⟩

/-- The index that is `j` in the directions `ks` and `s` in the others. -/
def merge (ks : List (Fin d)) (j s : Fin d → Nat) : Fin d → Nat :=
  fun k => if k ∈ ks then j k else s k

theorem map_merge (ks : List (Fin d)) (j s : Fin d → Nat) : ks.map (merge ks j s) = ks.map j :=
  List.map_inj_left.mpr fun _ hk => if_pos hk

theorem exists_index {size : Fin d → Nat} {L L' : Layout d} {ks : List (Fin d)} (hks : ks.Nodup)
    {js : List Nat} (h : Within (boxLoops size L L' ks) js) :
    ∃ j : Fin d → Nat, js = ks.map j ∧ ∀ k ∈ ks, j k < size k := by
  induction ks generalizing js with
  | nil =>
    cases h
    exact ⟨fun _ => 0, rfl, fun k hk => (by cases hk)⟩
  | cons k ks ih =>
    obtain ⟨hk, hks⟩ := List.nodup_cons.mp hks
    cases h with
    | cons hj hrest =>
      rename_i x xs
      obtain ⟨j, rfl, hlt⟩ := ih hks hrest
      have hsame : ∀ k' ∈ ks, Function.update j k x k' = j k' := fun k' hk' =>
        Function.update_of_ne (fun heq : k' = k => hk (heq ▸ hk')) _ _
      refine ⟨Function.update j k x, ?_, ?_⟩
      · rw [List.map_cons, Function.update_self, List.map_inj_left.mpr hsame]
      · rintro k' hk'
        rcases List.mem_cons.mp hk' with rfl | hk'
        · rw [Function.update_self]
          exact hj
        · rw [hsame k' hk']
          exact hlt k' hk'

theorem within_map {size : Fin d → Nat} {L L' : Layout d} {ks : List (Fin d)} {j : Fin d → Nat}
    (h : ∀ k ∈ ks, j k < size k) : Within (boxLoops size L L' ks) (ks.map j) := by
  induction ks with
  | nil => exact .nil
  | cons k ks ih =>
    exact .cons (h k (List.mem_cons_self ..)) (ih fun k hk => h k (List.mem_cons_of_mem _ hk))

theorem inBase_map (size : Fin d → Nat) (L L' : Layout d) (ks : List (Fin d)) (j : Fin d → Nat) :
    inBase (boxLoops size L L' ks) (ks.map j) = (ks.map fun k => j k * L.stride k).sum := by
  induction ks with
  | nil => rfl
  | cons k ks ih => exact congrArg (j k * L.stride k + ·) ih

theorem outBase_map (size : Fin d → Nat) (L L' : Layout d) (ks : List (Fin d)) (j : Fin d → Nat) :
    outBase (boxLoops size L L' ks) (ks.map j) = (ks.map fun k => j k * L'.stride k).sum := by
  induction ks with
  | nil => rfl
  | cons k ks ih => exact congrArg (j k * L'.stride k + ·) ih

theorem addr_merge {ks : List (Fin d)} (hks : ks.Nodup) (L : Layout d) (j s : Fin d → Nat) :
    L.addr (merge ks j s) =
      L.addr (merge ks (fun _ => 0) s) + (ks.map fun k => j k * L.stride k).sum := by
  have hlist : (ks.map fun k => j k * L.stride k).sum =
      ∑ k, if k ∈ ks then j k * L.stride k else 0 := by
    rw [← List.sum_toFinset _ hks, ← Finset.sum_filter]
    congr 1
    ext k
    simp
  rw [hlist, Layout.addr, Layout.addr, ← Finset.sum_add_distrib]
  refine Finset.sum_congr rfl fun k _ => ?_
  by_cases hk : k ∈ ks
  · simp only [merge, if_pos hk, Nat.zero_mul, Nat.zero_add]
  · simp only [merge, if_neg hk, Nat.add_zero]

variable {β ι κ α : Type}

/-- The pass loops over the directions `ks` of a box, read with the strides of `L` and written with
those of `L'`; its slots lie at the given indices of the other directions. -/
structure BoxPass (p : Pass β ι κ) (size : Fin d → Nat) (L L' : Layout d) (ks : List (Fin d))
    (inBuf outBuf : β) (inPos : ι → Fin d → Nat) (outPos : κ → Fin d → Nat) : Prop where
  nodup : ks.Nodup
  loops_eq : p.loops = boxLoops size L L' ks
  read_eq : ∀ s, p.read s = (inBuf, L.addr (merge ks (fun _ => 0) (inPos s)))
  write_eq : ∀ o, p.write o = (outBuf, L'.addr (merge ks (fun _ => 0) (outPos o)))

namespace BoxPass

variable {p : Pass β ι κ} {size : Fin d → Nat} {L L' : Layout d} {ks : List (Fin d)}
  {inBuf outBuf : β} {inPos : ι → Fin d → Nat} {outPos : κ → Fin d → Nat}

theorem readAt_eq (h : BoxPass p size L L' ks inBuf outBuf inPos outPos) (j : Fin d → Nat) (s : ι) :
    p.readAt (ks.map j) s = (inBuf, L.addr (merge ks j (inPos s))) := by
  rw [Pass.readAt, h.read_eq, h.loops_eq, inBase_map, ← addr_merge h.nodup]

theorem writeAt_eq (h : BoxPass p size L L' ks inBuf outBuf inPos outPos) (j : Fin d → Nat)
    (o : κ) : p.writeAt (ks.map j) o = (outBuf, L'.addr (merge ks j (outPos o))) := by
  rw [Pass.writeAt, h.write_eq, h.loops_eq, outBase_map, ← addr_merge h.nodup]

theorem performs (h : BoxPass p size L L' ks inBuf outBuf inPos outPos) {op : (ι → α) → κ → α}
    {m m' : Memory β α} (hp : p.Performs op m m') {j : Fin d → Nat} (hj : ∀ k ∈ ks, j k < size k)
    (o : κ) : m' outBuf (L'.addr (merge ks j (outPos o))) =
      op (fun s => m inBuf (L.addr (merge ks j (inPos s)))) o := by
  have hin : Within p.loops (ks.map j) := by
    rw [h.loops_eq]
    exact within_map hj
  have hval := hp (ks.map j) o hin
  simp only [h.readAt_eq, h.writeAt_eq] at hval
  exact hval

/-- Slots at distinct indices, addressed by a nested storage. -/
structure Slots (H : Layout d) (size : Fin d → Nat) (ks : List (Fin d)) (pos : ι → Fin d → Nat) :
    Prop where
  nested : H.Nested
  inBox : ∀ j s, (∀ k ∈ ks, j k < size k) → H.InBox (merge ks j (pos s))

theorem Slots.inj {H : Layout d} {ι' : Type} {pos : ι → Fin d → Nat} {pos' : ι' → Fin d → Nat}
    (h : Slots H size ks pos) (h' : Slots H size ks pos') {j j' : Fin d → Nat}
    (hj : ∀ k ∈ ks, j k < size k) (hj' : ∀ k ∈ ks, j' k < size k) {s : ι} {s' : ι'}
    (heq : H.addr (merge ks j (pos s)) = H.addr (merge ks j' (pos' s'))) :
    merge ks j (pos s) = merge ks j' (pos' s') :=
  h.nested.addr_inj (h.inBox j s hj) (h'.inBox j' s' hj') heq

theorem tuple_eq {j j' s s' : Fin d → Nat} (h : merge ks j s = merge ks j' s') :
    ks.map j = ks.map j' ∧ merge ks (fun _ => 0) s = merge ks (fun _ => 0) s' := by
  constructor
  · rw [← map_merge ks j s, h, map_merge]
  · funext k
    have hk := congrFun h k
    by_cases hmem : k ∈ ks
    · simp only [merge, if_pos hmem]
    · simp only [merge, if_neg hmem] at hk ⊢
      exact hk

/-- Slots at different places of a tuple. -/
def Apart (ks : List (Fin d)) (pos : κ → Fin d → Nat) : Prop :=
  ∀ o o', merge ks (fun _ => 0) (pos o) = merge ks (fun _ => 0) (pos o') → o = o'

theorem writesOnce (h : BoxPass p size L L' ks inBuf outBuf inPos outPos)
    (hout : Slots L' size ks outPos) (hapart : Apart ks outPos) : p.WritesOnce := by
  intro js js' o o' hjs hjs' heq
  rw [h.loops_eq] at hjs hjs'
  obtain ⟨j, rfl, hj⟩ := exists_index h.nodup hjs
  obtain ⟨j', rfl, hj'⟩ := exists_index h.nodup hjs'
  rw [h.writeAt_eq, h.writeAt_eq] at heq
  obtain ⟨htuple, hslot⟩ := tuple_eq (hout.inj hout hj hj' (congrArg Prod.snd heq))
  exact ⟨htuple, hapart o o' hslot⟩

theorem separate (h : BoxPass p size L L' ks inBuf outBuf inPos outPos) (hbuf : inBuf ≠ outBuf)
    (hin : Slots L size ks inPos) (hout : Slots L' size ks outPos) (hapart : Apart ks outPos) :
    p.Separate := by
  refine ⟨h.writesOnce hout hapart, fun js js' o i hjs hjs' heq => ?_,
    fun js js' i i' hjs hjs' heq => ?_⟩
  · have hsame := congrArg Prod.fst heq
    simp only [Pass.writeAt, Pass.readAt, h.read_eq, h.write_eq] at hsame
    exact absurd hsame.symm hbuf
  · rw [h.loops_eq] at hjs hjs'
    obtain ⟨j, rfl, hj⟩ := exists_index h.nodup hjs
    obtain ⟨j', rfl, hj'⟩ := exists_index h.nodup hjs'
    rw [h.readAt_eq, h.readAt_eq] at heq
    exact (tuple_eq (hin.inj hin hj hj' (congrArg Prod.snd heq))).1

/-- Within one buffer, with both storages in the place of a nested one. -/
theorem separate_within (h : BoxPass p size L L' ks inBuf outBuf inPos outPos) {H : Layout d}
    {inPos' : ι → Fin d → Nat} {outPos' : κ → Fin d → Nat} (hin : Slots H size ks inPos')
    (hout : Slots H size ks outPos') (hapart : Apart ks outPos')
    (hread : ∀ j s, L.addr (merge ks j (inPos s)) = H.addr (merge ks j (inPos' s)))
    (hwrite : ∀ j o, L'.addr (merge ks j (outPos o)) = H.addr (merge ks j (outPos' o))) :
    p.Separate := by
  have hindex : ∀ {js}, Within p.loops js →
      ∃ j : Fin d → Nat, js = ks.map j ∧ ∀ k ∈ ks, j k < size k :=
    fun hjs => exists_index h.nodup (h.loops_eq ▸ hjs)
  refine ⟨fun js js' o o' hjs hjs' heq => ?_, fun js js' o i hjs hjs' heq => ?_,
    fun js js' i i' hjs hjs' heq => ?_⟩
  all_goals
    obtain ⟨j, rfl, hj⟩ := hindex hjs
    obtain ⟨j', rfl, hj'⟩ := hindex hjs'
    simp only [h.readAt_eq, h.writeAt_eq, hread, hwrite] at heq
    have haddr := congrArg Prod.snd heq
  · obtain ⟨htuple, hslot⟩ := tuple_eq (hout.inj hout hj hj' haddr)
    exact ⟨htuple, hapart o o' hslot⟩
  · exact (tuple_eq (hout.inj hin hj hj' haddr)).1
  · exact (tuple_eq (hin.inj hin hj hj' haddr)).1

end BoxPass

theorem BoxPass.touches_lt {d : Nat} {p : Pass β ι κ} {size : Fin (d + 1) → Nat}
    {L L' H H' : Layout (d + 1)} {ks : List (Fin (d + 1))} {inBuf outBuf : β}
    {inPos inPos' : ι → Fin (d + 1) → Nat} {outPos outPos' : κ → Fin (d + 1) → Nat}
    (h : BoxPass p size L L' ks inBuf outBuf inPos outPos) (hin : Slots H size ks inPos')
    (hout : Slots H' size ks outPos')
    (hread : ∀ j s, L.addr (merge ks j (inPos s)) = H.addr (merge ks j (inPos' s)))
    (hwrite : ∀ j o, L'.addr (merge ks j (outPos o)) = H'.addr (merge ks j (outPos' o)))
    {loc : β × Nat} (ht : p.Touches loc) :
    loc.1 = inBuf ∧ loc.2 < H.room ∨ loc.1 = outBuf ∧ loc.2 < H'.room := by
  obtain ⟨js, hjs, htouch⟩ := ht
  rw [h.loops_eq] at hjs
  obtain ⟨j, rfl, hj⟩ := exists_index h.nodup hjs
  rcases htouch with ⟨s, rfl⟩ | ⟨o, rfl⟩
  · left
    rw [h.readAt_eq, hread]
    exact ⟨rfl, hin.nested.addr_lt (hin.inBox j s hj)⟩
  · right
    rw [h.writeAt_eq, hwrite]
    exact ⟨rfl, hout.nested.addr_lt (hout.inBox j o hj)⟩

end Strided
