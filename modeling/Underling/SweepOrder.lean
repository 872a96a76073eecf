import Underling.Bench

/-!
# Underling.SweepOrder

The order in which a stage of the benchmark goes through the fields.

* `clear_iff`: out of place, the order of the loop overwrites a field that is still to be processed
  as soon as there are two.
* `sweep_order_iff`: the stages of both halves that process every field once, from its own data.
-/

namespace Underling

open Relocate Schedule

namespace Details

variable {d : Details} {i : Fin 10} {α : Type} {eff : StageEffects α} {s : BenchState α}

/-- Stage `i` does not write over a field that is still to be processed, so it processes every
field once and leaves it one move away from where it was. -/
structure Processes (d : Details) (i : Fin 10) (eff : StageEffects α) (s : BenchState α) :
    Prop where
  clear : Clear (d.sweepMoves i s.o)
  processed : ∀ j < d.nfields, (d.step eff (.sweep i) s).f (s.o j + d.move i) =
    eff.effect (work i) (s.f (s.o j))

theorem order_spec (d : Details) (i : Fin 10) :
    (∀ j < d.nfields, d.order i j < d.nfields ∧ d.order i (d.order i j) = j) := by
  intro j hj
  simp only [order]
  split <;> omega

theorem order_inj {j j' : Nat} (hj : j < d.nfields) (hj' : j' < d.nfields)
    (h : d.order i j = d.order i j') : j = j' := by
  rw [← (d.order_spec i j hj).2, ← (d.order_spec i j' hj').2, h]

theorem mem_sweepMoves {o : Nat → Int} {j : Nat} (hj : j < d.nfields) :
    (o j, o j + d.move i) ∈ d.sweepMoves i o := by
  obtain ⟨hlt, hback⟩ := d.order_spec i j hj
  refine List.mem_map.mpr ⟨d.order i j, List.mem_range.mpr hlt, ?_⟩
  rw [hback]

theorem clear_sweepMoves_iff (o : Nat → Int) : Clear (d.sweepMoves i o) ↔
    ∀ j j', j < j' → j' < d.nfields → o (d.order i j) + d.move i ≠ o (d.order i j') := by
  rw [Clear, sweepMoves, List.pairwise_map, List.pairwise_iff_getElem]
  simp only [List.length_range, List.getElem_range]
  exact ⟨fun h j j' hlt hj' => h j j' (by omega) hj' hlt, fun h j j' _ hj' hlt => h j j' hlt hj'⟩

/-- Where the fields are in place, the first two that a sweep out of place goes through are one move
apart. -/
theorem clear_iff (hs : ∀ j < d.nfields, s.o j = j + d.accumulated i) :
    Clear (d.sweepMoves i s.o) ↔ d.nfields ≤ 1 ∨ d.outOfPlace i = false := by
  have hpos : ∀ j < d.nfields, s.o (d.order i j) = (d.order i j : Nat) + d.accumulated i :=
    fun j hj => hs _ (d.order_spec i j hj).1
  have hacc := (d.accumulated_spec i.isLt.le).1
  rw [clear_sweepMoves_iff]
  constructor
  · intro h
    by_contra hcon
    obtain ⟨hn, ho⟩ := not_or.mp hcon
    have hmove := d.move_eq i
    rw [if_pos (by simpa using ho)] at hmove
    refine h 0 1 (by omega) (by omega) ?_
    rw [hpos 0 (by omega), hpos 1 (by omega)]
    simp only [order]
    split <;> omega
  · rintro (hn | ho) j j' hlt hj'
    · omega
    · rw [(d.move_eq_zero_iff i).mpr ho, hpos j (by omega), hpos j' hj']
      intro heq
      have := order_inj (i := i) (show j < d.nfields by omega) hj' (by omega)
      omega

theorem processed_of_clear (hs : ∀ j < d.nfields, s.o j = j + d.accumulated i)
    (h : Clear (d.sweepMoves i s.o)) : d.Processes i eff s := by
  have hinj : ∀ j < d.nfields, ∀ j' < d.nfields,
      s.o (d.order i j) = s.o (d.order i j') → j = j' := by
    intro j hj j' hj' heq
    rw [hs _ (d.order_spec i j hj).1, hs _ (d.order_spec i j' hj').1] at heq
    exact order_inj (i := i) hj hj' (by omega)
  refine ⟨h, fun j hj => relocate_apply h ?_ ?_ (mem_sweepMoves hj) s.f⟩
  · rw [sweepMoves, List.map_map]
    refine List.Nodup.map_on ?_ List.nodup_range
    intro j hj j' hj' heq
    exact hinj j (List.mem_range.mp hj) j' (List.mem_range.mp hj') heq
  · rw [sweepMoves, List.map_map]
    refine List.Nodup.map_on ?_ List.nodup_range
    intro j hj j' hj' heq
    exact hinj j (List.mem_range.mp hj) j' (List.mem_range.mp hj') (add_right_cancel heq)

/-- Stage `i` comes after `as` in the way there, or in the way back started with every field in its
place. -/
def StageAfter (d : Details) (as : List Action) (i : Fin 10) (s : BenchState α) : Prop :=
  ∃ bs, ((∀ j < d.nfields, s.left j = j) ∧ d.forwardHalf = as ++ .sweep i :: bs) ∨
    (d.Placed 5 s ∧ d.backwardStages = as ++ .sweep i :: bs)

theorem StageAfter.placed {as : List Action} (h : d.StageAfter as i s) (eff : StageEffects α) :
    d.Placed i (runAll (d.step eff) as s) := by
  obtain ⟨bs, ⟨hleft, heq⟩ | ⟨hback, heq⟩⟩ := h
  · have hthere : d.LeadsTo eff d.forwardHalf 5 s := forwardHalf_placed hleft
    rw [heq] at hthere
    exact hthere.1.before
  · have hreturn : d.LeadsTo eff d.backwardStages 10 s := backwardStages_placed hback
    rw [heq] at hreturn
    exact hreturn.1.before

end Details

variable {α : Type}

/-- A stage of the way there, or of the way back started with every field in its place, processes
all fields exactly when there is one field or the stage is in place. -/
theorem sweep_order_iff (d : Details) (eff : StageEffects α) {as : List Action} {i : Fin 10}
    {s : BenchState α} (h : d.StageAfter as i s) :
    d.Processes i eff (runAll (d.step eff) as s) ↔ d.nfields ≤ 1 ∨ d.outOfPlace i = false := by
  have hs := fun j hj => (h.placed eff j hj).1
  constructor
  · intro hp
    exact (Details.clear_iff hs).mp hp.clear
  · intro hc
    exact Details.processed_of_clear hs ((Details.clear_iff hs).mpr hc)

/-- Two fields with the transposes out of place: in the first transpose the second field is lost to
the first, which is processed twice. -/
theorem sweep_order_fails :
    let d : Details := ⟨1, 2, fun _ => .i, false, false, true, true⟩
    let eff : StageEffects Nat := ⟨fun _ x => x + 1, fun _ x => x, fun x => x⟩
    let s : BenchState Nat := ⟨fun b => 10 * b.toNat, fun j => j, fun j => j⟩
    ∃ as, d.StageAfter as 1 s ∧ ¬ d.Processes 1 eff (runAll (d.step eff) as s) ∧
      (runAll (d.step eff) (as ++ [.sweep 1]) s).f 1 = 1 ∧
      (runAll (d.step eff) (as ++ [.sweep 1]) s).f 2 = 2 := by
  refine ⟨[.reset fun i => i], ⟨_, .inl ⟨fun _ _ => rfl, rfl⟩⟩, fun h => ?_, rfl, rfl⟩
  have := h.clear
  revert this
  decide

/-- Three fields with everything in place. -/
theorem sweep_order_inPlace :
    let d : Details := ⟨4, 3, fun _ => .c, true, true, true, true⟩
    let eff : StageEffects Nat := ⟨fun _ x => x + 1, fun _ x => x, fun x => x⟩
    let s : BenchState Nat := ⟨fun b => 10 * b.toNat, fun j => j, fun j => j⟩
    let as : List Action := [.reset fun i => i, .sweep 0, .advance 0, .sweep 1, .advance 1]
    d.Processes 2 eff (runAll (d.step eff) as s) ↔ d.nfields ≤ 1 ∨ d.outOfPlace 2 = false :=
  sweep_order_iff _ _ ⟨_, .inl ⟨fun _ _ => rfl, rfl⟩⟩

end Underling
