import Mathlib.Init

/-!
# Lib.Runs

Runs of a program over a state that may end with a fault, and the rules for what holds where
they end.

* `Ends x s Q`: started in `s`, the program `x` ends without a fault, and `Q` holds of its result
  and of the state it ends in.
* `Ends.bind` is the rule of composition, `Ends.mono` the rule of consequence. `Ends.of_run` reads
  a result off a run.
-/

namespace Runs

variable {σ ε α β : Type}

/-- Started in `s`, `x` ends without a fault in a result and a state that satisfy `Q`. -/
def Ends (x : StateT σ (Except ε) α) (s : σ) (Q : α → σ → Prop) : Prop :=
  ∃ a s', x s = .ok (a, s') ∧ Q a s'

theorem run_bind {x : StateT σ (Except ε) α} {s s' : σ} {a : α} (h : x s = .ok (a, s'))
    (f : α → StateT σ (Except ε) β) : (x >>= f) s = f a s' := by
  show (x s >>= fun p => f p.1 p.2) = _
  rw [h]
  rfl

theorem fault_bind {x : StateT σ (Except ε) α} {s : σ} {e : ε} (h : x s = .error e)
    (f : α → StateT σ (Except ε) β) : (x >>= f) s = .error e := by
  show (x s >>= fun p => f p.1 p.2) = _
  rw [h]
  rfl

theorem ok_bind {x : StateT σ (Except ε) α} {f : α → StateT σ (Except ε) β} {s s'' : σ} {b : β}
    (h : (x >>= f) s = .ok (b, s'')) : ∃ a s', x s = .ok (a, s') ∧ f a s' = .ok (b, s'') := by
  cases hx : x s with
  | error e =>
    rw [fault_bind hx] at h
    cases h
  | ok p =>
    obtain ⟨a, s'⟩ := p
    rw [run_bind hx] at h
    exact ⟨a, s', rfl, h⟩

theorem ok_map {x : StateT σ (Except ε) α} {g : α → β} {s s' : σ} {b : β}
    (h : (g <$> x) s = .ok (b, s')) : ∃ a, x s = .ok (a, s') ∧ g a = b := by
  rw [map_eq_pure_bind] at h
  obtain ⟨a, s1, hx, hb⟩ := ok_bind h
  cases hb
  exact ⟨a, hx, rfl⟩

namespace Ends

variable {x : StateT σ (Except ε) α} {s : σ} {Q R : α → σ → Prop}

theorem pure {a : α} (h : Q a s) : Ends (Pure.pure a : StateT σ (Except ε) α) s Q :=
  ⟨a, s, rfl, h⟩

theorem mono (h : Ends x s Q) (hQ : ∀ a s', Q a s' → R a s') : Ends x s R := by
  obtain ⟨a, s', hx, hq⟩ := h
  exact ⟨a, s', hx, hQ a s' hq⟩

theorem bind {f : α → StateT σ (Except ε) β} {S : β → σ → Prop} (h : Ends x s Q)
    (hf : ∀ a s', Q a s' → Ends (f a) s' S) : Ends (x >>= f) s S := by
  obtain ⟨a, s', hx, hq⟩ := h
  obtain ⟨b, s'', hb, hs⟩ := hf a s' hq
  exact ⟨b, s'', (run_bind hx f).trans hb, hs⟩

theorem map {g : α → β} {S : β → σ → Prop} (h : Ends x s Q) (hQ : ∀ a s', Q a s' → S (g a) s') :
    Ends (g <$> x) s S := by
  rw [map_eq_pure_bind]
  exact h.bind fun a s' hq => pure (hQ a s' hq)

theorem ite {c : Prop} [Decidable c] {y : StateT σ (Except ε) α} (hx : c → Ends x s Q)
    (hy : ¬ c → Ends y s Q) : Ends (if c then x else y) s Q := by
  by_cases h : c
  · rw [if_pos h]
    exact hx h
  · rw [if_neg h]
    exact hy h

theorem get_bind {f : σ → StateT σ (Except ε) α} (h : Ends (f s) s Q) :
    Ends (MonadState.get >>= f) s Q :=
  bind (Q := fun a s' => a = s ∧ s' = s) ⟨s, s, rfl, rfl, rfl⟩ (by rintro _ _ ⟨rfl, rfl⟩; exact h)

theorem of_set {s' : σ} {Q : PUnit → σ → Prop} (h : Q ⟨⟩ s') :
    Ends (set s' : StateT σ (Except ε) PUnit) s Q :=
  ⟨⟨⟩, s', rfl, h⟩

theorem of_modify {f : σ → σ} {Q : PUnit → σ → Prop} (h : Q ⟨⟩ (f s)) :
    Ends (modify f : StateT σ (Except ε) PUnit) s Q :=
  ⟨⟨⟩, f s, rfl, h⟩

theorem of_run {a : α} {s' : σ} (h : Ends x s Q) (hx : x s = .ok (a, s')) : Q a s' := by
  obtain ⟨b, s'', hb, hq⟩ := h
  rw [hx] at hb
  cases hb
  exact hq

theorem ne_error (h : Ends x s Q) (e : ε) : x s ≠ .error e := by
  obtain ⟨a, s', hx, -⟩ := h
  rw [hx]
  exact nofun

end Ends

end Runs
