import Underling.Lib.Runs
import Mathlib.Algebra.Order.Group.Multiset
import Mathlib.Data.Multiset.UnionInter
import Mathlib.Tactic.Abel

/-!
# Lib.Ledger

Resources that a program acquires and releases, and the rules for who owns them. A state shows its
resources through a `Ledger`; a program is described by what its caller owns before and after it.

* `Ledger.Covers`: what is live is exactly what is owned, each resource once, and nothing was
  released that was not live.
* `Turns`: a program turns what is owned before it into what is owned after it, whatever else is
  owned beside. `Turns.bind` is the rule of composition, with the frame of its first part.
-/

namespace Ledgers

open Runs

structure Ledger (ρ : Type) where
  live : Multiset ρ
  /-- The resources released while not live. -/
  stray : List ρ
  /-- Not handed out so far. -/
  unused : ρ → Prop

namespace Ledger

variable {ρ : Type} {l l' : Ledger ρ} {m P : Multiset ρ} {r : ρ}

/-- The live resources are those of `m`, each once, and every release so far was of a live one. -/
structure Covers (l : Ledger ρ) (m : Multiset ρ) : Prop where
  live_eq : l.live = m
  nodup : m.Nodup
  clean : l.stray = []
  used : ∀ r ∈ m, ¬ l.unused r

/-- `l'` is `l` after the resources of `m` were handed out. -/
structure Acquired (l : Ledger ρ) (m : Multiset ρ) (l' : Ledger ρ) : Prop where
  live_eq : l'.live = m + l.live
  stray_eq : l'.stray = l.stray
  nodup : m.Nodup
  fresh : ∀ r ∈ m, l.unused r ∧ ¬ l'.unused r
  unused : ∀ r, l'.unused r → l.unused r

/-- `l'` is `l` after a release of `r`. -/
structure Released [DecidableEq ρ] (l : Ledger ρ) (r : ρ) (l' : Ledger ρ) : Prop where
  live_eq : l'.live = l.live.erase r
  stray_eq : r ∈ l.live → l'.stray = l.stray
  unused_eq : l'.unused = l.unused

theorem Acquired.refl (l : Ledger ρ) : l.Acquired 0 l :=
  ⟨(zero_add _).symm, rfl, Multiset.nodup_zero, fun _ h => absurd h (Multiset.notMem_zero _),
    fun _ h => h⟩

theorem Covers.acquired (h : l.Covers P) (ha : l.Acquired m l') : l'.Covers (m + P) := by
  refine ⟨?_, ?_, ha.stray_eq.trans h.clean, ?_⟩
  · rw [ha.live_eq, h.live_eq]
  · refine Multiset.nodup_add.mpr ⟨ha.nodup, h.nodup, Multiset.disjoint_left.mpr fun hm hP => ?_⟩
    exact h.used _ hP (ha.fresh _ hm).1
  · intro r hr hunused
    rcases Multiset.mem_add.mp hr with hm | hP
    · exact (ha.fresh r hm).2 hunused
    · exact h.used r hP (ha.unused r hunused)

/-- A resource that is owned is live when it is released, and it is not owned any more. -/
theorem Covers.released [DecidableEq ρ] (h : l.Covers ({r} + P)) (hr : l.Released r l') :
    l'.Covers P := by
  have hmem : r ∈ ({r} + P : Multiset ρ) :=
    Multiset.mem_add.mpr (.inl (Multiset.mem_singleton_self r))
  refine ⟨?_, (Multiset.nodup_add.mp h.nodup).2.1, ?_, fun q hq => ?_⟩
  · rw [hr.live_eq, h.live_eq, Multiset.singleton_add, Multiset.erase_cons_head]
  · rw [hr.stray_eq (h.live_eq ▸ hmem), h.clean]
  · rw [hr.unused_eq]
    exact h.used q (Multiset.mem_add.mpr (.inr hq))

end Ledger

/-! ## What several handles own -/

section Owners

variable {α ρ : Type} {owned : α → Multiset ρ}

theorem mem_sum_owned {r : ρ} {l : List α} :
    r ∈ (l.map owned).sum ↔ ∃ a ∈ l, r ∈ owned a := by
  induction l with
  | nil => simp
  | cons a l ih => simp [ih]

theorem nodup_sum_owned {l : List α} : (l.map owned).sum.Nodup ↔
    (∀ a ∈ l, (owned a).Nodup) ∧ l.Pairwise fun a b => Disjoint (owned a) (owned b) := by
  induction l with
  | nil => simp
  | cons a l ih =>
    have hdisjoint : Disjoint (owned a) (l.map owned).sum ↔
        ∀ b ∈ l, Disjoint (owned a) (owned b) := by
      simp only [Multiset.disjoint_left, mem_sum_owned, not_exists, not_and]
      exact ⟨fun h b hb r hr hrb => h hr b hb hrb, fun h r hr b hb hrb => h b hb hr hrb⟩
    rw [List.map_cons, List.sum_cons, Multiset.nodup_add, ih, hdisjoint, List.pairwise_cons]
    simp only [List.mem_cons, forall_eq_or_imp]
    tauto

end Owners

/-! ## Programs -/

variable {σ ε ρ α β : Type} {view : σ → Ledger ρ}

/-- Where `x` ends, its caller owns resources with `Q` in place of `P`; what is owned beside them
stays. -/
def Turns (view : σ → Ledger ρ) (x : StateT σ (Except ε) α) (P : Multiset ρ)
    (Q : α → Multiset ρ → Prop) : Prop :=
  ∀ ⦃frame s a s'⦄, (view s).Covers (P + frame) → x s = .ok (a, s') →
    ∃ m, Q a m ∧ (view s').Covers (m + frame)

/-- What is owned through a handle that may be missing. -/
def held (owned : α → Multiset ρ) : Option α → Multiset ρ
  | none => 0
  | some a => owned a

@[simp] theorem held_none (owned : α → Multiset ρ) : held owned none = 0 := rfl
@[simp] theorem held_some (owned : α → Multiset ρ) (a : α) : held owned (some a) = owned a := rfl

namespace Turns

variable {x : StateT σ (Except ε) α} {f : α → StateT σ (Except ε) β} {P P' : Multiset ρ}
  {Q : α → Multiset ρ → Prop} {S : β → Multiset ρ → Prop}

theorem pure {a : α} (h : Q a P) : Turns view (Pure.pure a : StateT σ (Except ε) α) P Q := by
  intro frame s b s' hc hrun
  cases hrun
  exact ⟨P, h, hc⟩

/-- A part that needs only some of what is owned; the rest `F` stays for what follows. -/
theorem bind (hx : Turns view x P Q) (F : Multiset ρ) (hP : P' = P + F)
    (hf : ∀ a m, Q a m → Turns view (f a) (m + F) S) : Turns view (x >>= f) P' S := by
  intro frame s b s'' hc hrun
  obtain ⟨a, s', hx', hf'⟩ := ok_bind hrun
  rw [hP, add_assoc] at hc
  obtain ⟨m, hq, hc'⟩ := hx hc hx'
  rw [← add_assoc] at hc'
  exact hf a m hq hc' hf'

theorem discard (hx : Turns view x P fun _ m => m = 0) (hf : ∀ a, Turns view (f a) P' S) :
    Turns view (x >>= f) (P + P') S := by
  refine hx.bind P' rfl ?_
  rintro a _ rfl
  rw [zero_add]
  exact hf a

theorem skip (hx : Turns view x 0 fun _ m => m = 0) (hf : ∀ a, Turns view (f a) P S) :
    Turns view (x >>= f) P S := by
  rw [← zero_add P]
  exact hx.discard hf

theorem ite {c : Prop} [Decidable c] {y : StateT σ (Except ε) α} (hx : c → Turns view x P Q)
    (hy : ¬ c → Turns view y P Q) : Turns view (if c then x else y) P Q := by
  by_cases h : c
  · rw [if_pos h]
    exact hx h
  · rw [if_neg h]
    exact hy h

theorem map {g : α → β} (hx : Turns view x P Q) (h : ∀ a m, Q a m → S (g a) m) :
    Turns view (g <$> x) P S := by
  rw [map_eq_pure_bind]
  refine hx.bind 0 (add_zero P).symm fun a m hq => .pure ?_
  rw [add_zero]
  exact h a m hq

theorem of_fault (h : ∀ s, ∃ e, x s = .error e) : Turns view x P Q := by
  intro frame s a s' _ hrun
  obtain ⟨e, he⟩ := h s
  rw [he] at hrun
  cases hrun

theorem of_acquired {own : α → Multiset ρ}
    (h : ∀ s a s', x s = .ok (a, s') → (view s).Acquired (own a) (view s')) :
    Turns view x 0 fun a m => m = own a := by
  intro frame s a s' hc hrun
  rw [zero_add] at hc
  exact ⟨own a, rfl, hc.acquired (h s a s' hrun)⟩

theorem of_view_eq (h : ∀ s a s', x s = .ok (a, s') → view s' = view s) :
    Turns view x 0 fun _ m => m = 0 :=
  of_acquired fun s a s' hrun => h s a s' hrun ▸ Ledger.Acquired.refl _

theorem of_released [DecidableEq ρ] {r : ρ}
    (h : ∀ s a s', x s = .ok (a, s') → (view s).Released r (view s')) :
    Turns view x {r} fun _ m => m = 0 := by
  intro frame s a s' hc hrun
  refine ⟨0, rfl, ?_⟩
  rw [zero_add]
  exact hc.released (h s a s' hrun)

end Turns

end Ledgers
