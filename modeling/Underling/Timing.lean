import Mathlib.Data.Fin.VecNotation
import Mathlib.Data.Multiset.Range
import Underling.Lib.Moments
import Underling.Maxloc

/-!
# Underling.Timing

The times the benchmark reports: each process keeps the mean and the variance of its iterations, and
rank 0 gets the worst of them. Doubles are the elements of an ordered field.

* `worst_times`: rank 0 gets the greatest mean and the greatest sample variance of a process, each
  with the first process that has it.
-/

namespace Underling

open Moments Reductions

/-! ## The worst rank -/

section Worst

variable {V : Type} [LinearOrder V]

/-- `u` is what process `u.rank` sends, no process up to `last` sends more, and none before it as
much. -/
structure Worst (send : Nat → ValRank V) (last : Nat) (u : ValRank V) : Prop where
  sent : u.rank ≤ last ∧ u = send u.rank
  greatest : ∀ r ≤ last, (send r).val ≤ u.val
  first : ∀ r < u.rank, (send r).val < u.val

/-- Where every process sends its own rank. -/
theorem worst_reduce {send : Nat → ValRank V} (hsend : ∀ r, (send r).rank = r) {last : Nat}
    {reduce : (Nat → ValRank V) → ValRank V}
    (hreduce : Reduction maxloc (Multiset.range (last + 1)) reduce) :
    Worst send last (reduce send) := by
  have hmax : Maximal send (Multiset.range (last + 1)) (reduce send) := .of_reduces (hreduce send)
  have hmem : ∀ r, r ∈ Multiset.range (last + 1) ↔ r ≤ last := fun r => by
    rw [Multiset.mem_range, Nat.lt_succ_iff]
  obtain ⟨r, hr, hsent⟩ := hmax.sent
  have hrank : (reduce send).rank = r := by rw [← hsent, hsend]
  have hlast : r ≤ last := (hmem r).mp hr
  refine ⟨⟨hrank ▸ hlast, by rw [hrank, hsent]⟩, fun p hp => hmax.greatest p ((hmem p).mpr hp), ?_⟩
  intro p hp
  rw [hrank] at hp
  have hin : p ∈ Multiset.range (last + 1) := (hmem p).mpr (by omega)
  -- a lower rank that sent as much would have been delivered
  refine lt_of_le_of_ne (hmax.greatest p hin) fun heq => ?_
  have hfirst := hmax.first p hin heq
  rw [hsend, hrank] at hfirst
  omega

end Worst

/-! ## Means and variances -/

variable {K : Type} [Field K]

/-- The accumulators of the main loop. -/
structure Timing (K : Type) where
  tmean : K
  tM2 : K

/-- The end of iteration `i`, which took the time `x`. -/
def Timing.update (t : Timing K) (i : Nat) (x : K) : Timing K :=
  let delta := x - t.tmean
  let tmean := t.tmean + delta / (i + 1)
  { tmean := tmean, tM2 := t.tM2 + delta * (x - tmean) }

/-- The iterations from the `i`th on. -/
def Timing.iterate (t : Timing K) : Nat → List K → Timing K
  | _, [] => t
  | i, x :: times => (t.update i x).iterate (i + 1) times

def timing (times : List K) : Timing K := Timing.iterate { tmean := 0, tM2 := 0 } 0 times

/-- `tvariance`, after `repeats` iterations. -/
def Timing.tvariance (t : Timing K) (repeats : Nat) : K := t.tM2 / (repeats - 1)

/-- What each rank sends: its mean, and its variance. -/
def sendbuf (times : Nat → List K) (repeats rank : Nat) : Fin 2 → ValRank K :=
  ![{ val := (timing (times rank)).tmean, rank := rank },
    { val := (timing (times rank)).tvariance repeats, rank := rank }]

/-- What rank 0 receives; `reduce` is `MPI_Reduce` with `MPI_MAXLOC` on one element of each
buffer. -/
def recvbuf (reduce : (Nat → ValRank K) → ValRank K) (times : Nat → List K) (repeats : Nat)
    (k : Fin 2) : ValRank K :=
  reduce fun rank => sendbuf times repeats rank k

/-- The accumulators are the running moments. -/
theorem iterate_eq (s : Running K) (times : List K) :
    Timing.iterate { tmean := s.mean, tM2 := s.m2 } s.count times =
      { tmean := (times.foldl Running.push s).mean, tM2 := (times.foldl Running.push s).m2 } := by
  induction times generalizing s with
  | nil => rfl
  | cons x times ih => exact ih (s.push x)

theorem timing_eq (times : List K) :
    timing times =
      { tmean := (Running.collect times).mean, tM2 := (Running.collect times).m2 } :=
  iterate_eq .zero times

/-- The arithmetic mean of the times. -/
def average (times : List K) : K := times.sum / times.length

/-- Their sample variance. -/
def sampleVariance (times : List K) : K := squares (average times) times / (times.length - 1)

section Loop

variable [CharZero K]

theorem timing_mean {times : List K} (h : times ≠ []) : (timing times).tmean = average times := by
  rw [timing_eq]
  exact Running.collect_mean h

theorem timing_variance {times : List K} (h : times ≠ []) :
    (timing times).tvariance times.length = sampleVariance times := by
  rw [Timing.tvariance, timing_eq, sampleVariance, average, ← Running.collect_mean h]
  exact congrArg (· / _) (Running.collect_m2 times)

end Loop

/-- After `repeats` iterations rank 0 gets the worst mean and, if there were two at least, the worst
sample variance. -/
theorem worst_times [CharZero K] [LinearOrder K] {times : Nat → List K} {repeats : Nat}
    (hpos : 0 < repeats) (hlen : ∀ r, (times r).length = repeats) {last : Nat}
    {reduce : (Nat → ValRank K) → ValRank K}
    (hreduce : Reduction maxloc (Multiset.range (last + 1)) reduce) :
    Worst (fun r => { val := average (times r), rank := r }) last
        (recvbuf reduce times repeats 0) ∧
      (1 < repeats → Worst (fun r => { val := sampleVariance (times r), rank := r }) last
        (recvbuf reduce times repeats 1)) := by
  have hne : ∀ r, times r ≠ [] := fun r => List.ne_nil_of_length_pos (hlen r ▸ hpos)
  have hmean : (fun r => sendbuf times repeats r 0) =
      fun r => { val := average (times r), rank := r } := by
    funext r
    show ({ val := (timing (times r)).tmean, rank := r } : ValRank K) = _
    rw [timing_mean (hne r)]
  have hvariance : (fun r => sendbuf times repeats r 1) =
      fun r => { val := sampleVariance (times r), rank := r } := by
    funext r
    show ({ val := (timing (times r)).tvariance repeats, rank := r } : ValRank K) = _
    rw [← hlen r, timing_variance (hne r)]
  rw [recvbuf, recvbuf, hmean, hvariance]
  exact ⟨worst_reduce (fun _ => rfl) hreduce, fun _ => worst_reduce (fun _ => rfl) hreduce⟩

/-- The times of two processes, of which the second is slower. -/
def twoTimes (rank : Nat) : List ℚ := if rank = 0 then [1, 2, 3] else [2, 3, 4]

theorem worst_times_two :
    Worst (fun r => { val := average (twoTimes r), rank := r }) 1
        (recvbuf (fun send => maxloc (send 1) (send 0)) twoTimes 3 0) ∧
      (1 < 3 → Worst (fun r => { val := sampleVariance (twoTimes r), rank := r }) 1
        (recvbuf (fun send => maxloc (send 1) (send 0)) twoTimes 3 1)) := by
  have hreduce : Reduction maxloc (Multiset.range (1 + 1))
      fun send : Nat → ValRank ℚ => maxloc (send 1) (send 0) := by
    intro send
    have hprocs : Multiset.range (1 + 1) = {1} + {0} := by decide
    rw [hprocs]
    exact .join (.one 1) (.one 0)
  have hlen : ∀ r, (twoTimes r).length = 3 := by
    intro r
    unfold twoTimes
    split <;> rfl
  exact worst_times (by decide) hlen hreduce

end Underling
