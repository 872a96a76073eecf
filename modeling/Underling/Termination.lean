import Underling.InvalidExtents
import Mathlib.Dynamics.PeriodicPts.Defs

/-!
# Underling.Termination

When the creators of FFT plans come to an end.

* `rotateToLong_diverges_iff`: the loop that looks for the long direction ends unless no rotation of
  the order has it next to the fields.
* `create_terminates_iff`: the calls that terminate, with `NULL` where an argument is missing.
-/

namespace Underling

open Runs C

/-! ## The rotations -/

theorem rotated_thrice (order : Fin 4 → Fin 4) : rotated^[3] order = order := by
  funext k
  fin_cases k <;> rfl

theorem rotateToLong_fault_iff (longNi : Int) (left : Nat) (order : Fin 4 → Fin 4) (w : World) :
    rotateToLong longNi left order w = .error .diverges ↔
      ∀ k, k ≤ left → ((rotated^[k] order 1 : Nat) : Int) ≠ longNi := by
  induction left generalizing order with
  | zero =>
    by_cases h : ((order 1 : Nat) : Int) = longNi
    · rw [rotateToLong, if_pos h]
      exact iff_of_false (fun hrun => by cases hrun) fun hall => hall 0 (Nat.le_refl 0) h
    · rw [rotateToLong, if_neg h]
      refine iff_of_true rfl fun k hk => ?_
      rw [Nat.le_zero.mp hk]
      exact h
  | succ left ih =>
    by_cases h : ((order 1 : Nat) : Int) = longNi
    · rw [rotateToLong, if_pos h]
      exact iff_of_false (fun hrun => by cases hrun) fun hall => hall 0 (Nat.zero_le _) h
    -- the loop goes on with the rotated order
    have hsplit : (∀ k, k ≤ left + 1 → ((rotated^[k] order 1 : Nat) : Int) ≠ longNi) ↔
        ∀ k, k ≤ left → ((rotated^[k] (rotated order) 1 : Nat) : Int) ≠ longNi := by
      constructor
      · intro hall k hk
        exact hall (k + 1) (by omega)
      · intro hall k hk
        cases k with
        | zero => exact h
        | succ k => exact hall k (by omega)
    rw [hsplit, ← ih, rotateToLong, if_neg h, cons_rotateLeft]
    cases hrest : rotateToLong longNi left (rotated order) w with
    | error e => rw [fault_bind hrest]
    | ok p =>
      refine iff_of_false (fun hrun => ?_) fun hrun => by cases hrun
      rw [run_bind hrest] at hrun
      cases hrun

/-- The loop goes on forever when no number of rotations brings the long direction next to the
fields; otherwise two rotations are enough. -/
theorem rotateToLong_diverges_iff (longNi : Int) (order : Fin 4 → Fin 4) (w : World) :
    rotateToLong longNi 2 order w = .error .diverges ↔
      ∀ k, ((rotated^[k] order 1 : Nat) : Int) ≠ longNi := by
  rw [rotateToLong_fault_iff]
  refine ⟨fun h k => ?_, fun h k _ => h k⟩
  have hmod : rotated^[k % 3] order = rotated^[k] order :=
    Function.IsPeriodicPt.iterate_mod_apply (rotated_thrice order) k
  rw [← hmod]
  exact h _ (by omega)

/-! ## The creators -/

section Creators

variable {env : Env} {problem : Option Problem} {longNi : Int}

theorem localExtents_missing (h : problem = none ∨ longNi < 0 ∨ 2 < longNi) (w : World) :
    Ends (localExtents problem longNi) w fun e _ => e = .invalid := by
  have herror : ∀ reason,
      Ends (errorVal reason .einval Extents.invalid) w fun e _ => e = .invalid :=
    fun reason => (errorVal_asked reason .einval _).mono fun _ _ h => h.1
  rw [localExtents]
  by_cases hi : longNi < 0 ∨ longNi > 2
  · rw [dif_pos hi]
    exact herror _
  · rw [dif_neg hi, h.resolve_right hi]
    exact herror _

theorem adjust_invalid (h0 : longNi ≠ 0) (w : World) :
    adjustForFastStrideInLongDirection .invalid longNi w = .error .diverges := by
  refine fault_bind ((rotateToLong_diverges_iff longNi _ w).mpr fun k => ?_) _
  have hconst : rotated^[k] Extents.invalid.order = fun _ => 0 := by
    induction k with
    | zero => rfl
    | succ k ih =>
      rw [Function.iterate_succ_apply', ih]
      rfl
  rw [hconst]
  exact h0.symm

theorem Creator.create_diverges (c : Creator) (h : problem = none ∨ longNi < 0 ∨ 2 < longNi)
    (h0 : longNi ≠ 0) (inp out : Option Ptr) (rigorFlags packedFlags : Flags) (w : World) :
    c.create env problem longNi inp out rigorFlags packedFlags w = .error .diverges := by
  rw [c.create_eq]
  refine fault_bind ?_ _
  obtain ⟨_, w1, hrun, rfl⟩ := localExtents_missing h w
  obtain ⟨reason, status, hcomplex⟩ :=
    createForComplex_bad (e := .invalid) (.inr (by decide)) longNi
  obtain ⟨e, w2, hrun2, -⟩ := errorVal_asked reason status FftwExtents.invalid (w := w1)
  rw [fftwSides, run_bind hrun, hcomplex, run_bind hrun2]
  exact fault_bind (adjust_invalid h0 w2) _

/-- Whether or not a problem has an odd number of fields, the loop on the order of a pencil ends. -/
theorem Creator.create_terminates {p : Problem} (hp : IsProblem env p) (c : Creator) (i : Fin 3)
    (inp out : Option Ptr) (rigorFlags packedFlags : Flags) (w : World) :
    c.create env (some p) (i : Nat) inp out rigorFlags packedFlags w ≠ .error .diverges := by
  have he := hp.pencil i
  by_cases heven : (p.longN i).size 3 % 2 = 0
  · have hends := c.create_ends he heven (hp.size_long_pos i) env inp out rigorFlags packedFlags w
    exact hends.ne_error _
  · obtain ⟨hnoticed, hstalls⟩ :=
      c.create_unusable env (.odd he heven) inp out rigorFlags packedFlags w
    by_cases hn : Noticed c i inp out rigorFlags packedFlags
    · exact (hnoticed hn).ne_error _
    · exact (hstalls hn).terminates

/-- Without a problem the first direction is told from none only by what else is wrong. -/
theorem Creator.create_null_iff (env : Env) (c : Creator) (inp out : Option Ptr)
    (rigorFlags packedFlags : Flags) :
    (∀ w, ∃ w', c.create env none 0 inp out rigorFlags packedFlags w = .ok (none, w')) ↔
      inp = out ∧ Packs 0 packedFlags ∨ inp = none ∨ out = none ∨
        rigorFlags.has nonRigorMask = true := by
  have hiff : Noticed c 0 inp out rigorFlags packedFlags ↔ inp = out ∧ Packs 0 packedFlags ∨
      inp = none ∨ out = none ∨ rigorFlags.has nonRigorMask = true := by
    simp [Noticed]
  rw [← hiff]
  constructor
  · intro h
    by_contra hn
    obtain ⟨-, hstalls⟩ := c.create_unusable env .null inp out rigorFlags packedFlags .granting
    have hfault : c.create env none 0 inp out rigorFlags packedFlags .granting =
        .error .assertion := ((hstalls hn).2 rfl).of_granted World.granting_granted
    obtain ⟨w', hrun⟩ := h .granting
    rw [hfault] at hrun
    cases hrun
  · intro hn w
    obtain ⟨hnoticed, -⟩ := c.create_unusable env .null inp out rigorFlags packedFlags w
    obtain ⟨_, w', hrun, rfl, -⟩ := hnoticed hn
    exact ⟨w', hrun⟩

/-- The creators terminate exactly on a problem with a direction, and where a missing problem is
noticed in time. -/
theorem create_terminates_iff (hp : ∀ p, problem = some p → IsProblem env p) (c : Creator)
    (longNi : Int) (inp out : Option Ptr) (rigorFlags packedFlags : Flags) :
    (∀ w, c.create env problem longNi inp out rigorFlags packedFlags w ≠ .error .diverges ∧
      (problem = none ∨ longNi < 0 ∨ 2 < longNi →
        ∃ w', c.create env problem longNi inp out rigorFlags packedFlags w = .ok (none, w'))) ↔
      problem ≠ none ∧ 0 ≤ longNi ∧ longNi ≤ 2 ∨
        problem = none ∧ longNi = 0 ∧ (inp = out ∧ Packs 0 packedFlags ∨ inp = none ∨ out = none ∨
          rigorFlags.has nonRigorMask = true) := by
  by_cases hmissing : problem = none ∨ longNi < 0 ∨ 2 < longNi
  · by_cases h0 : longNi = 0
    · have hnone : problem = none := hmissing.resolve_right (by omega)
      subst h0 hnone
      have hnull := c.create_null_iff env inp out rigorFlags packedFlags
      constructor
      · intro h
        exact .inr ⟨rfl, rfl, hnull.mp fun w => (h w).2 hmissing⟩
      · rintro (h | ⟨-, -, h⟩) w
        · exact absurd rfl h.1
        · obtain ⟨w', hrun⟩ := hnull.mpr h w
          exact ⟨by rw [hrun]; exact nofun, fun _ => ⟨w', hrun⟩⟩
    · refine iff_of_false (fun h => ?_) ?_
      · exact (h .granting).1 (c.create_diverges hmissing h0 inp out rigorFlags packedFlags _)
      · rintro (⟨hne, h1, h2⟩ | ⟨-, h, -⟩)
        · exact hmissing.elim hne (by omega)
        · exact h0 h
  · obtain ⟨hne, hrange⟩ := not_or.mp hmissing
    obtain ⟨p, rfl⟩ := Option.ne_none_iff_exists'.mp hne
    obtain ⟨i, rfl⟩ : ∃ i : Fin 3, longNi = (i : Nat) := ⟨⟨longNi.toNat, by omega⟩, by simp; omega⟩
    refine iff_of_true (fun w => ⟨?_, fun h => absurd h hmissing⟩) (.inl ⟨hne, by omega, by omega⟩)
    exact c.create_terminates (hp p rfl) i inp out rigorFlags packedFlags w

end Creators

/-- Without a problem a transform along the second direction is looked for forever. -/
theorem create_terminates_fails :
    Creator.c2cForward.create .reference none 1 (some 0) (some 1) FFTW.ESTIMATE 0 .granting =
      .error .diverges :=
  Creator.c2cForward.create_diverges (.inl rfl) (by decide) _ _ _ _ _

/-- On a problem with its directions all creators terminate. -/
theorem create_terminates_longN2 :
    ∃ job : Job .reference, (job.n0 = 4 ∧ job.n1 = 5 ∧ job.n2 = 3) ∧ (job.pA = 2 ∧ job.pB = 3) ∧
      ((∀ w, Creator.r2cForward.create .reference (some (job.problem 1 1)) 2 (some 0) none 0 0 w ≠
          .error .diverges ∧
        (some (job.problem 1 1) = none ∨ (2 : Int) < 0 ∨ (2 : Int) < 2 → ∃ w',
          Creator.r2cForward.create .reference (some (job.problem 1 1)) 2 (some 0) none 0 0 w =
            .ok (none, w'))) ↔
        some (job.problem 1 1) ≠ none ∧ (0 : Int) ≤ 2 ∧ (2 : Int) ≤ 2 ∨
          some (job.problem 1 1) = none ∧ (2 : Int) = 0 ∧ (some (0 : Ptr) = none ∧ Packs 0 0 ∨
            some (0 : Ptr) = none ∨ (none : Option Ptr) = none ∨
              (0 : Flags).has nonRigorMask = true)) := by
  obtain ⟨job, hn, hp, -⟩ := exists_admitted 4 5 3 2 3 2 0 (by decide)
  refine ⟨job, hn, hp, create_terminates_iff ?_ .r2cForward 2 (some 0) none 0 0⟩
  intro p h
  cases h
  exact job.isProblem (by omega) (by omega)

end Underling
