import Mathlib.Data.List.Forall2

/-!
# Lib.Sweep

Nested loops that apply one operation to a vector gathered with strides and scatter the results
with strides. A loop has a length, a stride on the side that is read and one on the side that is
written; a tuple has one index for each loop.

* `Pass.Performs`: what the memory holds after the operation was applied at every tuple.
* `Pass.Separate`: tuples touch disjoint locations, so that the order of the tuples, and whether
  results overwrite the input, make no difference.
* `perform` computes a result.
-/

namespace Sweep

structure Loop where
  n : Nat
  is : Nat
  os : Nat
deriving DecidableEq, Repr

/-- The tuple `js` has an index of every loop. -/
def Within (loops : List Loop) (js : List Nat) : Prop := List.Forall₂ (fun l j => j < l.n) loops js

def inBase : List Loop → List Nat → Nat
  | l :: ls, j :: js => j * l.is + inBase ls js
  | _, _ => 0

def outBase : List Loop → List Nat → Nat
  | l :: ls, j :: js => j * l.os + outBase ls js
  | _, _ => 0

def tuples : List Loop → List (List Nat)
  | [] => [[]]
  | l :: ls => (List.range l.n).flatMap fun j => (tuples ls).map (j :: ·)

theorem mem_tuples {loops : List Loop} {js : List Nat} : js ∈ tuples loops ↔ Within loops js := by
  induction loops generalizing js with
  | nil => simp [tuples, Within]
  | cons l ls ih =>
    cases js with
    | nil => simp [tuples, Within]
    | cons j js =>
      simp only [tuples, List.mem_flatMap, List.mem_range, List.mem_map, List.cons.injEq, Within,
        List.forall₂_cons]
      constructor
      · rintro ⟨_, hj, _, hjs, rfl, rfl⟩
        exact ⟨hj, ih.mp hjs⟩
      · rintro ⟨hj, hjs⟩
        exact ⟨j, hj, js, ih.mpr hjs, rfl, rfl⟩

/-- Buffers, by name. -/
abbrev Memory (β α : Type) := β → Nat → α

/-- One operation applied at every tuple: slot `i` of its input is read at `read i`, slot `o` of its
result written at `write o`, both moved by the offset of the tuple. -/
structure Pass (β ι κ : Type) where
  loops : List Loop
  read : ι → β × Nat
  write : κ → β × Nat

namespace Pass

variable {α β ι κ : Type}

def readAt (p : Pass β ι κ) (js : List Nat) (i : ι) : β × Nat :=
  ((p.read i).1, (p.read i).2 + inBase p.loops js)

def writeAt (p : Pass β ι κ) (js : List Nat) (o : κ) : β × Nat :=
  ((p.write o).1, (p.write o).2 + outBase p.loops js)

/-- The location is read or written at some tuple. -/
def Touches (p : Pass β ι κ) (loc : β × Nat) : Prop :=
  ∃ js, Within p.loops js ∧ ((∃ i, p.readAt js i = loc) ∨ ∃ o, p.writeAt js o = loc)

/-- `m'` holds the results of `op` on what `m` held, at every tuple. Other locations are
unconstrained. -/
def Performs (p : Pass β ι κ) (op : (ι → α) → κ → α) (m m' : Memory β α) : Prop :=
  ∀ js o, Within p.loops js → m' (p.writeAt js o).1 (p.writeAt js o).2 =
    op (fun i => m (p.readAt js i).1 (p.readAt js i).2) o

/-- No location is written twice. -/
def WritesOnce (p : Pass β ι κ) : Prop :=
  ∀ js js' o o', Within p.loops js → Within p.loops js' → p.writeAt js o = p.writeAt js' o' →
    js = js' ∧ o = o'

/-- Distinct tuples touch disjoint locations, and no location is written twice. -/
structure Separate (p : Pass β ι κ) : Prop where
  once : p.WritesOnce
  written_read : ∀ js js' o i, Within p.loops js → Within p.loops js' →
    p.writeAt js o = p.readAt js' i → js = js'
  read_read : ∀ js js' i i', Within p.loops js → Within p.loops js' →
    p.readAt js i = p.readAt js' i' → js = js'

/-- What is written, location by location, for a list of all slots of a result. -/
def writes (p : Pass β ι κ) (slots : List κ) (op : (ι → α) → κ → α) (m : Memory β α) :
    List ((β × Nat) × α) :=
  (tuples p.loops).flatMap fun js =>
    slots.map fun o => (p.writeAt js o, op (fun i => m (p.readAt js i).1 (p.readAt js i).2) o)

/-- Apply the operation at every tuple, all inputs gathered first. -/
def perform [DecidableEq β] (p : Pass β ι κ) (slots : List κ) (op : (ι → α) → κ → α)
    (m : Memory β α) : Memory β α := fun b a =>
  (((p.writes slots op m).find? fun w => w.1 = (b, a)).map Prod.snd).getD (m b a)

theorem performs_perform [DecidableEq β] {p : Pass β ι κ} {slots : List κ}
    (hslots : ∀ o, o ∈ slots) (op : (ι → α) → κ → α) (m : Memory β α) (h : p.WritesOnce) :
    p.Performs op m (p.perform slots op m) := by
  intro js o hjs
  have hmem : ∀ js o, Within p.loops js →
      (p.writeAt js o, op (fun i => m (p.readAt js i).1 (p.readAt js i).2) o) ∈
        p.writes slots op m := fun js o hjs =>
    List.mem_flatMap.mpr ⟨js, mem_tuples.mpr hjs, List.mem_map.mpr ⟨o, hslots o, rfl⟩⟩
  have hsome : ((p.writes slots op m).find? fun w => w.1 = p.writeAt js o).isSome :=
    List.find?_isSome.mpr ⟨_, hmem js o hjs, by simp⟩
  obtain ⟨w, hw⟩ := Option.isSome_iff_exists.mp hsome
  have hloc : w.1 = p.writeAt js o := by simpa using List.find?_some hw
  -- what was found is the only write to this location
  obtain ⟨js', hjs', hin⟩ := List.mem_flatMap.mp (List.mem_of_find?_eq_some hw)
  obtain ⟨o', -, rfl⟩ := List.mem_map.mp hin
  obtain ⟨rfl, rfl⟩ := h _ _ _ _ (mem_tuples.mp hjs') hjs hloc
  simp only [perform, hw, Option.map_some, Option.getD_some]

end Pass

end Sweep
