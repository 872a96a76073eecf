import Underling.Plan
import Underling.Lib.Relocate
import Underling.Lib.Schedule

/-!
# Underling.Bench

The main loop of `underling_bench`: the moves between buffers, the index of the buffer that holds
each field, and the stages that process the fields one after the other. Only the options the loop
depends on are modelled. A plan that cannot be created ends the program, so a transform that was
asked for has its plan.

* `accumulated_spec`, `move_eq`: the accumulated moves stay in `{0, 1}`, and an out-of-place stage
  moves to the other of the two.
* `forwardHalf_placed`, `backwardStages_placed`: what every stage of the two halves finds.
-/

namespace Underling

open Schedule

/-- `d.fft_n[i]`: `'i'`, `'c'` or `'r'`. -/
inductive FftN where
  | i
  | c
  | r
deriving DecidableEq, Repr

structure Details where
  repeats : Nat
  nfields : Nat
  fftN : Fin 3 → FftN
  mpiInplace : Bool
  fftInplace : Bool
  forward : Bool
  backward : Bool

/-- What is executed on each field in a stage. -/
inductive StageWork where
  | fftForward (longNi : Fin 3)
  | fftBackward (longNi : Fin 3)
  | transpose (move : Move)
deriving DecidableEq, Repr

/-- The steps of the main loop. Stages are numbered like the moves. -/
inductive Action where
  /-- `o[i] = start i` for every field -/
  | reset (start : Nat → Int)
  /-- Execute stage `i` on every field, from `f[o[k]]` to `f[o[k] + m[i]]`. -/
  | sweep (i : Fin 10)
  /-- `o[j] += m[i]` for every field -/
  | advance (i : Fin 10)
  | normalise

namespace Details

variable (d : Details)

/-- `!inplace`, as an `int`. -/
def bit (out : Bool) : BitVec 32 := if out then 1 else 0

/-- The FFT along `n_i` is made, and out of place. -/
def fftMoves (i : Fin 3) : Bool := !(d.fftN i == .i || d.fftInplace)

/-- The moves `m`, with `s` the moves so far; `(x ^ -s) + s` negates `x` where `s` is one. -/
def m : Fin 10 → BitVec 32 :=
  let m0 := bit (d.fftMoves 2)
  let s := m0
  let m1 := (bit (!d.mpiInplace) ^^^ -s) + s
  let s := s + m1
  let m2 := (bit (d.fftMoves 1) ^^^ -s) + s
  let s := s + m2
  let m3 := (bit (!d.mpiInplace) ^^^ -s) + s
  let s := s + m3
  let m4 := (bit (d.fftMoves 0) ^^^ -s) + s
  ![m0, m1, m2, m3, m4, -m4, -m3, -m2, -m1, -m0]

def move (i : Fin 10) : Int := (d.m i).toInt

/-- One more buffer, for moves out of place. -/
def extra : Int :=
  if d.move 0 ≠ 0 ∨ d.move 1 ≠ 0 ∨ d.move 2 ≠ 0 ∨ d.move 3 ≠ 0 ∨ d.move 4 ≠ 0 ∨ d.move 5 ≠ 0 then 1
  else 0

def work : Fin 10 → StageWork :=
  ![.fftForward 2, .transpose .n2n1, .fftForward 1, .transpose .n1n0, .fftForward 0,
    .fftBackward 0, .transpose .n0n1, .fftBackward 1, .transpose .n1n2, .fftBackward 2]

/-- `forward_plan[i]` and, with both directions on, `backward_plan[i]` are not `NULL`. -/
def planned (i : Fin 3) : Bool := d.fftN i ≠ .i

/-- From long in `n2` to long in `n0`. Without a plan for `n1` its move is still made. -/
def forwardStages : List Action :=
  (if d.planned 2 then [.sweep 0, .advance 0] else []) ++
    [.sweep 1, .advance 1] ++
    ((if d.planned 1 then [.sweep 2] else []) ++ [.advance 2]) ++
    [.sweep 3, .advance 3] ++
    (if d.planned 0 then [.sweep 4, .advance 4] else [])

/-- From long in `n0` back to long in `n2`. -/
def backwardStages : List Action :=
  (if d.planned 0 then [.sweep 5, .advance 5] else []) ++
    [.sweep 6, .advance 6] ++
    (if d.planned 1 then [.sweep 7, .advance 7] else []) ++
    [.sweep 8, .advance 8] ++
    (if d.planned 2 then [.sweep 9, .advance 9] else [])

def forwardHalf : List Action := .reset (fun i => i) :: d.forwardStages

/-- Where the way back takes field `i` to be: the same buffer for every `i`. -/
def backwardStart : Nat → Int := fun _ => d.move 0 + d.move 1 + d.move 2 + d.move 3 + d.move 4

def backwardHalf : List Action := .reset d.backwardStart :: d.backwardStages

def iteration : List Action :=
  (if d.forward then d.forwardHalf else []) ++ (if d.backward then d.backwardHalf else []) ++
    (if d.forward && d.backward then [.normalise] else [])

def mainLoop : List Action := (List.replicate d.repeats d.iteration).flatten

end Details

/-- What the stages make of the data of a field, what an out-of-place one leaves behind, and the
normalisation. -/
structure StageEffects (α : Type) where
  effect : StageWork → α → α
  junk : StageWork → α → α
  scale : α → α

structure BenchState (α : Type) where
  f : Int → α
  o : Nat → Int
  /-- The buffer into which the last stage put each field; the program does not keep it. -/
  left : Nat → Int

namespace Details

variable (d : Details) {α : Type}

/-- The field a sweep processes at step `j`. -/
def order (i : Fin 10) (j : Nat) : Nat := if d.move i ≥ 0 then j else d.nfields - 1 - j

/-- The buffers a sweep reads and writes, in order. -/
def sweepMoves (i : Fin 10) (o : Nat → Int) : List (Int × Int) :=
  (List.range d.nfields).map fun j => (o (d.order i j), o (d.order i j) + d.move i)

def step (eff : StageEffects α) : Action → BenchState α → BenchState α
  | .reset start, s => { s with o := start }
  | .sweep i, s =>
    { s with
      f := Relocate.relocate (eff.effect (work i)) (eff.junk (work i)) (d.sweepMoves i s.o) s.f
      left := fun j => s.o j + d.move i }
  | .advance i, s => { s with o := fun j => s.o j + d.move i }
  | .normalise, s =>
    { s with f := fun b => if 0 ≤ b ∧ b < d.nfields then eff.scale (s.f b) else s.f b }

/-! ## The moves -/

/-- `m[0] + … + m[i - 1]`. -/
def accumulated (i : Nat) : Int := (((List.finRange 10).take i).map d.move).sum

/-- The options ask for stage `i` to be made out of place. -/
def outOfPlace : Fin 10 → Bool :=
  ![d.fftMoves 2, !d.mpiInplace, d.fftMoves 1, !d.mpiInplace, d.fftMoves 0, d.fftMoves 0,
    !d.mpiInplace, d.fftMoves 1, !d.mpiInplace, d.fftMoves 2]

theorem accumulated_succ (i : Fin 10) :
    d.accumulated (i + 1) = d.accumulated i + d.move i := by
  simp [accumulated, List.take_add_one]

/-- The moves depend on four bits of the options only. -/
theorem moves_table (i : Fin 10) : (d.accumulated i = 0 ∨ d.accumulated i = 1) ∧
    d.move i = (if d.outOfPlace i then 1 - 2 * d.accumulated i else 0) ∧
    d.accumulated i ≤ d.extra ∧ d.accumulated 10 = 0 := by
  have hmove : d.move = fun i => (d.m i).toInt := rfl
  simp only [accumulated, extra, hmove, m, outOfPlace]
  generalize d.fftMoves 2 = a
  generalize d.fftMoves 1 = b
  generalize d.fftMoves 0 = c
  generalize d.mpiInplace = t
  revert a b c t i
  decide +kernel

theorem accumulated_zero : d.accumulated 0 = 0 := rfl

/-- The way back takes back what the way there moved. -/
theorem accumulated_ten : d.accumulated 10 = 0 := (d.moves_table 0).2.2.2

/-- The fields are moved by one buffer at most, and only if there is one more. -/
theorem accumulated_spec {i : Nat} (hi : i ≤ 10) :
    (d.accumulated i = 0 ∨ d.accumulated i = 1) ∧ d.accumulated i ≤ d.extra := by
  rcases Nat.lt_or_eq_of_le hi with hlt | rfl
  · exact ⟨(d.moves_table ⟨i, hlt⟩).1, (d.moves_table ⟨i, hlt⟩).2.2.1⟩
  · rw [accumulated_ten]
    exact ⟨.inl rfl, (d.moves_table 0).2.2.1⟩

/-- A stage made out of place moves to the other buffer of the two a field may be in. -/
theorem move_eq (i : Fin 10) :
    d.move i = if d.outOfPlace i then 1 - 2 * d.accumulated i else 0 := (d.moves_table i).2.1

theorem move_eq_zero_iff (i : Fin 10) : d.move i = 0 ↔ d.outOfPlace i = false := by
  have hacc := (d.accumulated_spec i.isLt.le).1
  rw [move_eq]
  cases d.outOfPlace i with
  | false => simp
  | true => simp; omega

theorem move_of_unplanned {n : Fin 3} (h : d.planned n = false) (i : Fin 10)
    (hi : d.outOfPlace i = d.fftMoves n) : d.move i = 0 := by
  rw [move_eq_zero_iff, hi, fftMoves]
  simp only [planned, decide_eq_false_iff_not, not_not] at h
  simp [h]

/-! ## The halves -/

/-- Every field is in its place before stage `i`. -/
def Placed (i : Nat) (s : BenchState α) : Prop :=
  ∀ j < d.nfields, s.o j = j + d.accumulated i ∧ s.left j = s.o j

/-- What an action needs: a stage, and the normalisation after the last one, to find the fields in
place. -/
def Ready : Action → BenchState α → Prop
  | .sweep i, s => d.Placed i s
  | .normalise, s => d.Placed 10 s
  | _, _ => True

/-- Every action of `as` is ready when its turn comes, and so is stage `i` after them. -/
def LeadsTo (eff : StageEffects α) (as : List Action) (i : Nat) (s : BenchState α) : Prop :=
  Throughout (d.step eff) d.Ready as s ∧ d.Placed i (runAll (d.step eff) as s)

variable {d} {eff : StageEffects α} {s : BenchState α}

theorem LeadsTo.append {i j : Nat} {as bs : List Action} (ha : d.LeadsTo eff as i s)
    (hb : ∀ s, d.Placed i s → d.LeadsTo eff bs j s) : d.LeadsTo eff (as ++ bs) j s := by
  obtain ⟨hta, hpa⟩ := ha
  obtain ⟨htb, hpb⟩ := hb _ hpa
  rw [LeadsTo, throughout_append, runAll_append]
  exact ⟨⟨hta, htb⟩, hpb⟩

theorem Placed.advance (eff : StageEffects α) {i : Fin 10}
    (ho : ∀ j < d.nfields, s.o j = j + d.accumulated i)
    (hl : ∀ j < d.nfields, s.left j = s.o j + d.move i) :
    d.Placed (i + 1) (d.step eff (.advance i) s) := by
  intro j hj
  show s.o j + d.move i = _ ∧ s.left j = s.o j + d.move i
  rw [accumulated_succ, ← add_assoc, ← ho j hj]
  exact ⟨rfl, hl j hj⟩

theorem Placed.stage {i : Fin 10} (h : d.Placed i s) :
    d.LeadsTo eff [.sweep i, .advance i] (i + 1) s :=
  ⟨⟨h, trivial, trivial⟩, .advance eff (fun j hj => (h j hj).1) fun _ _ => rfl⟩

/-- A stage that is left out would not have moved. -/
theorem Placed.skip {i : Fin 10} (h : d.Placed i s) (hm : d.move i = 0) : d.Placed (i + 1) s := by
  intro j hj
  rw [accumulated_succ, hm, add_zero]
  exact h j hj

theorem Placed.planned {i : Fin 10} {n : Fin 3} (h : d.Placed i s)
    (hi : d.outOfPlace i = d.fftMoves n) :
    d.LeadsTo eff (if d.planned n then [.sweep i, .advance i] else []) (i + 1) s := by
  cases hn : d.planned n with
  | false => exact ⟨trivial, h.skip (d.move_of_unplanned hn i hi)⟩
  | true => exact h.stage

/-- The stage of the transform long in `n1` on the way there; it advances with or without a plan. -/
theorem Placed.always {i : Fin 10} {n : Fin 3} (h : d.Placed i s)
    (hi : d.outOfPlace i = d.fftMoves n) :
    d.LeadsTo eff ((if d.planned n then [.sweep i] else []) ++ [.advance i]) (i + 1) s := by
  cases hn : d.planned n with
  | true => exact h.stage
  | false =>
    have hm := d.move_of_unplanned hn i hi
    refine ⟨⟨trivial, trivial⟩, .advance eff (fun j hj => (h j hj).1) fun j hj => ?_⟩
    rw [hm, add_zero]
    exact (h j hj).2

/-- On the way there every stage finds every field in its place, for any number of fields. -/
theorem forwardStages_placed (h : d.Placed 0 s) : d.LeadsTo eff d.forwardStages 5 s := by
  have h1 : d.LeadsTo eff _ 1 s := h.planned (i := 0) (n := 2) rfl
  have h2 := h1.append fun _ h => h.stage (i := 1)
  have h3 := h2.append fun _ h => h.always (i := 2) (n := 1) rfl
  have h4 := h3.append fun _ h => h.stage (i := 3)
  exact h4.append fun _ h => h.planned (i := 4) (n := 0) rfl

theorem LeadsTo.reset {start : Nat → Int} {as : List Action} {i : Nat}
    (h : d.LeadsTo eff as i (d.step eff (.reset start) s)) :
    d.LeadsTo eff (.reset start :: as) i s :=
  ⟨⟨trivial, h.1⟩, h.2⟩

theorem forwardHalf_placed (h : ∀ j < d.nfields, s.left j = j) :
    d.LeadsTo eff d.forwardHalf 5 s := by
  refine .reset (forwardStages_placed fun j hj => ⟨?_, h j hj⟩)
  rw [accumulated_zero, add_zero]
  rfl

theorem backwardStages_placed (h : d.Placed 5 s) : d.LeadsTo eff d.backwardStages 10 s := by
  have h1 : d.LeadsTo eff _ 6 s := h.planned (i := 5) (n := 0) rfl
  have h2 := h1.append fun _ h => h.stage (i := 6)
  have h3 := h2.append fun _ h => h.planned (i := 7) (n := 1) rfl
  have h4 := h3.append fun _ h => h.stage (i := 8)
  exact h4.append fun _ h => h.planned (i := 9) (n := 2) rfl

end Details

end Underling
