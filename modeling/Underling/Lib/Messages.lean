import Underling.Lib.Runs

/-!
# Lib.Messages

Programs over a state that shows the messages sent so far, to which a program only adds, and the
rules for what one sends.

* `Sends`: where a program ends, how its result relates to the messages it sent. `Sends.bind` is
  the rule of composition.
* `Honest`: a program that may fail sends a message if it does, and none if it does not.
* `heard`: a program with the messages it sends itself.
* `Scripted`: a program that may fail sends a first part of a script, and all of it if it does not.
-/

namespace Messages

open Runs

variable {σ ε μ α β : Type} {view : σ → List μ}

/-- Where `x` ends, its result and the messages it sent satisfy `Q`. -/
def Sends (view : σ → List μ) (x : StateT σ (Except ε) α) (Q : α → List μ → Prop) : Prop :=
  ∀ ⦃s a s'⦄, x s = .ok (a, s') → ∃ sent, Q a sent ∧ view s' = view s ++ sent

/-- `x` sends no message. -/
abbrev Silent (view : σ → List μ) (x : StateT σ (Except ε) α) : Prop :=
  Sends view x fun _ sent => sent = []

/-- `x` yields nothing and sends a message. -/
abbrev Fails (view : σ → List μ) (x : StateT σ (Except ε) (Option α)) : Prop :=
  Sends view x fun o sent => o = none ∧ sent ≠ []

/-- `x` sends a message exactly if it yields nothing. -/
abbrev Honest (view : σ → List μ) (x : StateT σ (Except ε) (Option α)) : Prop :=
  Sends view x fun o sent => o = none ↔ sent ≠ []

namespace Sends

variable {x : StateT σ (Except ε) α} {f : α → StateT σ (Except ε) β} {Q R : α → List μ → Prop}
  {S : β → List μ → Prop}

theorem mono (hx : Sends view x Q) (h : ∀ a sent, Q a sent → R a sent) : Sends view x R := by
  intro s a s' hrun
  obtain ⟨sent, hq, hview⟩ := hx hrun
  exact ⟨sent, h a sent hq, hview⟩

theorem pure {a : α} (h : Q a []) : Sends view (Pure.pure a : StateT σ (Except ε) α) Q := by
  intro s b s' hrun
  cases hrun
  exact ⟨[], h, (List.append_nil _).symm⟩

theorem bind (hx : Sends view x Q)
    (hf : ∀ a sent, Q a sent → Sends view (f a) fun b sent' => S b (sent ++ sent')) :
    Sends view (x >>= f) S := by
  intro s b s'' hrun
  obtain ⟨a, s', hx', hf'⟩ := ok_bind hrun
  obtain ⟨sent, hq, hview⟩ := hx hx'
  obtain ⟨sent', hs, hview'⟩ := hf a sent hq hf'
  exact ⟨sent ++ sent', hs, by rw [hview', hview, List.append_assoc]⟩

theorem skip (hx : Silent view x) (hf : ∀ a, Sends view (f a) S) : Sends view (x >>= f) S := by
  refine hx.bind ?_
  rintro a _ rfl
  exact hf a

theorem map {g : α → β} (hx : Sends view x Q) (h : ∀ a sent, Q a sent → S (g a) sent) :
    Sends view (g <$> x) S := by
  rw [map_eq_pure_bind]
  refine hx.bind fun a sent hq => .pure ?_
  rw [List.append_nil]
  exact h a sent hq

theorem ite {c : Prop} [Decidable c] {y : StateT σ (Except ε) α} (hx : c → Sends view x Q)
    (hy : ¬ c → Sends view y Q) : Sends view (if c then x else y) Q := by
  by_cases h : c
  · rw [if_pos h]
    exact hx h
  · rw [if_neg h]
    exact hy h

theorem of_fault (h : ∀ s, ∃ e, x s = .error e) : Sends view x Q := by
  intro s a s' hrun
  obtain ⟨e, he⟩ := h s
  rw [he] at hrun
  cases hrun

theorem of_view_eq (h : ∀ s a s', x s = .ok (a, s') → view s' = view s) : Silent view x := by
  intro s a s' hrun
  exact ⟨[], rfl, by rw [h s a s' hrun, List.append_nil]⟩

/-! Programs that may fail. -/

section Honest

variable {x : StateT σ (Except ε) (Option α)} {f : Option α → StateT σ (Except ε) (Option β)}

theorem made {a : α} : Honest view (Pure.pure (some a) : StateT σ (Except ε) (Option α)) :=
  .pure (iff_of_false (by simp) (by simp))

theorem of_fails (hx : Fails view x) : Honest view x :=
  hx.mono fun _ _ h => iff_of_true h.1 h.2

/-- What goes on with the result of a part that does not tell whether it yielded one. -/
theorem bind_silent (hx : Silent view x) (hnone : Fails view (f none))
    (hsome : ∀ a, Honest view (f (some a))) : Honest view (x >>= f) := by
  refine skip hx fun o => ?_
  cases o with
  | none => exact of_fails hnone
  | some a => exact hsome a

/-- What goes on with the result of an honest part; without one it only has to give up. -/
theorem bind_honest (hx : Honest view x) (hnone : Sends view (f none) fun o _ => o = none)
    (hsome : ∀ a, Honest view (f (some a))) : Honest view (x >>= f) := by
  refine bind hx fun o sent h => ?_
  cases o with
  | none =>
    refine hnone.mono fun o' sent' ho => iff_of_true ho fun happend => ?_
    exact h.mp rfl (List.append_eq_nil_iff.mp happend).1
  | some a =>
    have hsent : sent = [] := Classical.byContradiction fun hne => by cases h.mpr hne
    subst hsent
    exact hsome a

theorem map_honest {g : α → β} (hx : Honest view x) : Honest view (Option.map g <$> x) := by
  refine map hx fun o sent h => ?_
  rw [Option.map_eq_none_iff]
  exact h

end Honest

/-- What is known of the result wherever the program ends. -/
theorem and_ends (hx : Sends view x Q) {P : α → Prop} (h : ∀ s, Ends x s fun a _ => P a) :
    Sends view x fun a sent => Q a sent ∧ P a := by
  intro s a s' hrun
  obtain ⟨sent, hq, hview⟩ := hx hrun
  exact ⟨sent, ⟨hq, (h s).of_run hrun⟩, hview⟩

end Sends

/-- `x` with the messages it sends itself. -/
def heard (view : σ → List μ) (x : StateT σ (Except ε) α) : StateT σ (Except ε) (α × List μ) := do
  let before ← get
  let a ← x
  let after ← get
  return (a, (view after).drop (view before).length)

theorem Sends.heard {x : StateT σ (Except ε) α} {Q : α → List μ → Prop} (hx : Sends view x Q) :
    Sends view (heard view x) fun r sent => Q r.1 sent ∧ r.2 = sent := by
  intro s r s' hrun
  obtain ⟨before, s1, hget, hrest⟩ := ok_bind hrun
  cases hget
  obtain ⟨a, s2, hx', hrest⟩ := ok_bind hrest
  obtain ⟨after, s3, hget, hret⟩ := ok_bind hrest
  cases hget
  cases hret
  obtain ⟨sent, hq, hview⟩ := hx hx'
  exact ⟨sent, ⟨hq, by rw [hview, List.drop_left]⟩, hview⟩

/-- `x` sends a first part of `script`; where it yields something, that is `Q` and everything was
sent. -/
def Scripted (view : σ → List μ) (x : StateT σ (Except ε) (Option α)) (script : List μ)
    (Q : α → Prop) : Prop :=
  Sends view x fun o sent => sent <+: script ∧ ∀ a, o = some a → sent = script ∧ Q a

namespace Scripted

variable {x : StateT σ (Except ε) (Option α)} {script : List μ} {Q R : α → Prop} {S : β → Prop}

theorem mono (hx : Scripted view x script Q) (h : ∀ a, Q a → R a) : Scripted view x script R :=
  Sends.mono hx fun _ _ hs => ⟨hs.1, fun a ha => ⟨(hs.2 a ha).1, h a (hs.2 a ha).2⟩⟩

theorem done {a : α} (h : Q a) :
    Scripted view (Pure.pure (some a) : StateT σ (Except ε) (Option α)) [] Q :=
  Sends.pure ⟨List.prefix_refl [], by rintro _ ⟨⟩; exact ⟨rfl, h⟩⟩

theorem give_up (hx : Sends view x fun o sent => o = none ∧ sent = []) :
    Scripted view x script Q := by
  refine Sends.mono hx ?_
  rintro _ _ ⟨rfl, rfl⟩
  exact ⟨List.nil_prefix, fun _ ha => by cases ha⟩

theorem ite {c : Prop} [Decidable c] {y : StateT σ (Except ε) (Option α)}
    (hx : c → Scripted view x script Q) (hy : ¬ c → Scripted view y script Q) :
    Scripted view (if c then x else y) script Q :=
  Sends.ite hx hy

/-- First the messages `m`, whatever happens. -/
theorem after {γ : Type} {y : StateT σ (Except ε) γ} {f : γ → StateT σ (Except ε) (Option α)}
    {m : List μ} {P : γ → Prop} (hy : Sends view y fun c sent => P c ∧ sent = m)
    (hf : ∀ c, P c → Scripted view (f c) script Q) :
    Scripted view (y >>= f) (m ++ script) Q := by
  refine Sends.bind hy ?_
  rintro c sent ⟨hc, rfl⟩
  refine Sends.mono (hf c hc) fun o sent' hs => ⟨(List.prefix_append_right_inj sent).mpr hs.1, ?_⟩
  intro a ha
  exact ⟨congrArg (sent ++ ·) (hs.2 a ha).1, (hs.2 a ha).2⟩

theorem skip {γ : Type} {y : StateT σ (Except ε) γ} {f : γ → StateT σ (Except ε) (Option α)}
    (hy : Silent view y) (hf : ∀ c, Scripted view (f c) script Q) :
    Scripted view (y >>= f) script Q :=
  after (m := []) (P := fun _ => True) (Sends.mono hy fun _ _ h => ⟨trivial, h⟩) fun c _ => hf c

/-- One script after the other; without a result of the first program nothing more is sent. -/
theorem bind {f : Option α → StateT σ (Except ε) (Option β)} {script' : List μ}
    (hx : Scripted view x script Q)
    (hnone : Sends view (f none) fun o sent => o = none ∧ sent = [])
    (hsome : ∀ a, Q a → Scripted view (f (some a)) script' S) :
    Scripted view (x >>= f) (script ++ script') S := by
  refine Sends.bind hx fun o sent hs => ?_
  cases o with
  | none =>
    refine Sends.mono hnone ?_
    rintro _ _ ⟨rfl, rfl⟩
    rw [List.append_nil]
    exact ⟨hs.1.trans (List.prefix_append script script'), fun _ hb => by cases hb⟩
  | some a =>
    obtain ⟨rfl, hq⟩ := hs.2 a rfl
    refine Sends.mono (hsome a hq) fun o' sent' hs' => ?_
    refine ⟨(List.prefix_append_right_inj sent).mpr hs'.1, fun b hb => ?_⟩
    exact ⟨congrArg (sent ++ ·) (hs'.2 b hb).1, (hs'.2 b hb).2⟩

end Scripted

end Messages
