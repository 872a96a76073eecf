import Underling.Bench

/-!
# Underling.Bookkeeping

Which buffer the benchmark takes each field to be in.

* `iteration_keeps`: with one field an iteration keeps the fields where they started.
* `bookkeeping_iff`: the way back is started with the same buffer for every field, so the indices
  are right for one field only.
-/

namespace Underling

open Schedule

namespace Details

variable {α : Type}

/-- Before stage `i` the fields have different buffers, each has the one the last stage put it into,
and there is a buffer to move it to. -/
structure Consistent (d : Details) (i : Fin 10) (s : BenchState α) : Prop where
  distinct : ∀ j j', j < d.nfields → j' < d.nfields → s.o j = s.o j' → j = j'
  placed : ∀ j < d.nfields, s.o j = s.left j
  source : ∀ j < d.nfields, 0 ≤ s.o j ∧ s.o j < d.nfields + d.extra
  target : ∀ j < d.nfields, 0 ≤ s.o j + d.move i ∧ s.o j + d.move i < d.nfields + d.extra

/-- The indices of the main loop, from any state with every field in the buffer of its number. -/
structure Bookkeeping (d : Details) : Prop where
  accumulated : ∀ i ≤ 10, d.accumulated i = 0 ∨ d.accumulated i = 1
  before_stage : ∀ {α : Type} (eff : StageEffects α) (s : BenchState α),
    (∀ j < d.nfields, s.left j = j) → ∀ as i bs, d.mainLoop = as ++ .sweep i :: bs →
      d.Consistent i (runAll (d.step eff) as s)
  after_backward : ∀ {α : Type} (eff : StageEffects α) (s : BenchState α),
    (∀ j < d.nfields, s.left j = j) → ∀ as bs, d.mainLoop = as ++ .normalise :: bs →
      ∀ j < d.nfields, (runAll (d.step eff) as s).o j = j

variable {d : Details} {eff : StageEffects α} {s : BenchState α}

theorem Placed.consistent {i : Fin 10} (h : d.Placed i s) : d.Consistent i s := by
  have hacc := d.accumulated_spec i.isLt.le
  have hnext := d.accumulated_spec (i := i + 1) i.isLt
  rw [accumulated_succ] at hnext
  refine ⟨fun j j' hj hj' heq => ?_, fun j hj => (h j hj).2.symm, fun j hj => ?_, fun j hj => ?_⟩
  · rw [(h j hj).1, (h j' hj').1] at heq
    omega
  · rw [(h j hj).1]
    omega
  · rw [(h j hj).1]
    omega

theorem accumulated_five (d : Details) :
    d.accumulated 5 = d.move 0 + d.move 1 + d.move 2 + d.move 3 + d.move 4 := by
  have h1 := d.accumulated_succ 0
  have h2 := d.accumulated_succ 1
  have h3 := d.accumulated_succ 2
  have h4 := d.accumulated_succ 3
  have h5 := d.accumulated_succ 4
  simp [accumulated_zero] at h1 h2 h3 h4 h5
  omega

theorem iteration_keeps (hn : d.nfields ≤ 1) (hf : d.forward = true) (hb : d.backward = true)
    (s : BenchState α) (h : ∀ j < d.nfields, s.left j = j) :
    Throughout (d.step eff) d.Ready d.iteration s ∧
      ∀ j < d.nfields, (runAll (d.step eff) d.iteration s).left j = j := by
  have hboth : d.LeadsTo eff (d.forwardHalf ++ d.backwardHalf) 10 s := by
    refine (forwardHalf_placed h).append fun s h => .reset (backwardStages_placed fun j hj => ?_)
    -- the only field there is has number zero
    obtain rfl : j = 0 := by omega
    obtain ⟨ho, hl⟩ := h 0 hj
    rw [ho] at hl
    refine ⟨?_, hl.trans ?_⟩ <;> simp [step, backwardStart, accumulated_five]
  have hall : d.LeadsTo eff d.iteration 10 s := by
    rw [iteration, hf, hb]
    exact hboth.append fun s h => ⟨⟨h, trivial⟩, h⟩
  refine ⟨hall.1, fun j hj => ?_⟩
  obtain ⟨ho, hl⟩ := hall.2 j hj
  rw [hl, ho, accumulated_ten, add_zero]

theorem mainLoop_ready (hn : d.nfields ≤ 1) (hf : d.forward = true) (hb : d.backward = true)
    (h : ∀ j < d.nfields, s.left j = j) : Throughout (d.step eff) d.Ready d.mainLoop s :=
  (Throughout.replicate (iteration_keeps hn hf hb) d.repeats h).1

/-- After the reset of the way back every field has the same index. -/
theorem backward_collides (hf : d.forward = true) (hb : d.backward = true) (hr : d.repeats ≠ 0) :
    ∃ as bs, d.mainLoop = as ++ .sweep 6 :: bs ∧
      ∀ {α : Type} (eff : StageEffects α) (s : BenchState α) (j j' : Nat),
        (runAll (d.step eff) as s).o j = (runAll (d.step eff) as s).o j' := by
  obtain ⟨n, hn⟩ := Nat.exists_eq_succ_of_ne_zero hr
  have hloop : ∃ bs, d.mainLoop = (d.forwardHalf ++
      .reset d.backwardStart :: if d.planned 0 then [.sweep 5, .advance 5] else []) ++
        .sweep 6 :: bs := by
    rw [mainLoop, hn, List.replicate_succ, List.flatten_cons, iteration, hf, hb]
    simp only [backwardHalf, backwardStages, if_true, List.append_assoc, List.cons_append,
      List.nil_append]
    exact ⟨_, rfl⟩
  obtain ⟨bs, hbs⟩ := hloop
  refine ⟨_, bs, hbs, fun eff s j j' => ?_⟩
  rw [runAll_append]
  cases d.planned 0 <;> rfl

theorem not_bookkeeping (hf : d.forward = true) (hb : d.backward = true) (hn : 1 < d.nfields)
    (hr : d.repeats ≠ 0) : ¬ d.Bookkeeping := by
  intro h
  obtain ⟨as, bs, heq, hsame⟩ := backward_collides hf hb hr
  let eff : StageEffects Unit := ⟨fun _ => id, fun _ => id, id⟩
  let s : BenchState Unit := ⟨fun _ => (), fun j => j, fun j => j⟩
  have hc := h.before_stage eff s (fun _ _ => rfl) as 6 bs heq
  exact absurd (hc.distinct 0 1 (by omega) (by omega) (hsame eff s 0 1)) (by decide)

end Details

/-- With both directions on, the indices are right exactly for one field, or for no iterations. -/
theorem bookkeeping_iff (d : Details) (hf : d.forward = true) (hb : d.backward = true) :
    d.Bookkeeping ↔ d.nfields ≤ 1 ∨ d.repeats = 0 := by
  constructor
  · intro h
    by_contra hcon
    obtain ⟨hn, hr⟩ := not_or.mp hcon
    exact Details.not_bookkeeping hf hb (by omega) hr h
  · intro h
    have hready : ∀ {α : Type} (eff : StageEffects α) (s : BenchState α),
        (∀ j < d.nfields, s.left j = j) → Throughout (d.step eff) d.Ready d.mainLoop s := by
      intro α eff s hs
      rcases h with hn | hr
      · exact Details.mainLoop_ready hn hf hb hs
      · rw [Details.mainLoop, hr]
        exact trivial
    refine ⟨fun i hi => (d.accumulated_spec hi).1, fun eff s hs as i bs heq => ?_,
      fun eff s hs as bs heq j hj => ?_⟩
    · have hplaced := (heq ▸ hready eff s hs).before
      exact Details.Placed.consistent hplaced
    · have hplaced := (heq ▸ hready eff s hs).before
      rw [(hplaced j hj).1, Details.accumulated_ten, add_zero]

/-- Two fields and one iteration, everything else at its default. -/
theorem bookkeeping_fails :
    ¬ (⟨1, 2, fun _ => .i, false, false, true, true⟩ : Details).Bookkeeping :=
  Details.not_bookkeeping rfl rfl (by decide) (by decide)

/-- One field, transformed in every direction and moved out of place. -/
theorem bookkeeping_single :
    (⟨3, 1, ![.c, .c, .r], false, false, true, true⟩ : Details).Bookkeeping :=
  (bookkeeping_iff _ rfl rfl).mpr (.inl (Nat.le_refl 1))

end Underling
