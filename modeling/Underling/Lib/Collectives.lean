import Mathlib.Algebra.Order.BigOperators.Group.Finset
import Mathlib.Data.Fintype.Basic
import Mathlib.Data.List.Dedup
import Mathlib.Logic.Relation
import Underling.Lib.Schedule

/-!
# Lib.Collectives

Processes that run lists of collective events. An event fires when all its participants have it
next; then all of them go on. Nothing else is ordered: events without a common participant fire in
any order.

* `Run.length_le`: no run is longer than the programs together.
* `Run.never_stuck`, `Run.completes`: when the programs come from a list of rounds on which the
  processes agree, a run that has not ended can go on, and can be completed.
* `Run.settles`: and when it ends, the data are those of the rounds taken one after the other by all
  processes together.
* `Run.matched`, `Run.gave_up`: where some processes give up on the way, no two of the others ever
  wait for each other in different events, and who is stuck waits for a process that gave up.
-/

namespace Collectives

open Schedule
open scoped Classical

/-- Events `E`, their participants among the processes `P`, and what they do to the data `D` of
their participants, which is all they read. -/
structure System (P E D : Type) where
  takes : P → E → Prop
  effect : E → (P → D) → P → D
  footprint : ∀ e d d', (∀ p, takes p e → d p = d' p) →
    ∀ p, takes p e → effect e d p = effect e d' p

/-- What each process has still to do, and its data. -/
structure State (P E D : Type) where
  todo : P → List E
  data : P → D

def State.Finished {P E D : Type} (s : State P E D) : Prop := ∀ p, s.todo p = []

/-- The state in which each process has more to do. -/
def State.extend {P E D : Type} (s : State P E D) (rest : P → List E) : State P E D :=
  ⟨fun p => s.todo p ++ rest p, s.data⟩

/-- One event of each process, or none. -/
abbrev Round (P E : Type) := P → Option E

/-- What a process does in a list of rounds. -/
def program {P E : Type} (rounds : List (Round P E)) (p : P) : List E :=
  rounds.filterMap fun r => r p

namespace System

variable {P E D : Type} (S : System P E D)

/-- The data after an event. -/
noncomputable def apply (e : E) (d : P → D) : P → D :=
  fun p => if S.takes p e then S.effect e d p else d p

/-- The event `e` fires in `s`. -/
structure Fires (e : E) (s s' : State P E D) : Prop where
  inhabited : ∃ p, S.takes p e
  ready : ∀ p, S.takes p e → s.todo p = e :: s'.todo p
  idle : ∀ p, ¬ S.takes p e → s'.todo p = s.todo p
  data : s'.data = S.apply e s.data

/-- A run, with the events that fired. -/
inductive Run : State P E D → List E → State P E D → Prop where
  | nil {s : State P E D} : Run s [] s
  | cons {s s' s'' : State P E D} {e : E} {l : List E} :
      S.Fires e s s' → Run s' l s'' → Run s (e :: l) s''

/-- Every process that takes part in an event of the round has it in the round. -/
structure Agreed (r : Round P E) : Prop where
  own : ∀ p e, r p = some e → S.takes p e
  shared : ∀ p q e, r p = some e → S.takes q e → r q = some e

/-- The data after a round that all processes take together. -/
def together (r : Round P E) (d : P → D) : P → D :=
  fun p => match r p with
    | none => d p
    | some e => S.effect e d p

variable {S}

/-! ## The length of a run -/

section Length

variable [Fintype P]

theorem Fires.length_lt {e : E} {s s' : State P E D} (h : S.Fires e s s') :
    ∑ p, (s'.todo p).length < ∑ p, (s.todo p).length := by
  obtain ⟨p, hp⟩ := h.inhabited
  refine Finset.sum_lt_sum (fun q _ => ?_) ⟨p, Finset.mem_univ p, ?_⟩
  · by_cases hq : S.takes q e
    · simp [h.ready q hq]
    · simp [h.idle q hq]
  · simp [h.ready p hp]

theorem Run.length_le {l : List E} {s s' : State P E D} (h : S.Run s l s') :
    l.length + ∑ p, (s'.todo p).length ≤ ∑ p, (s.todo p).length := by
  induction h with
  | nil => simp
  | cons hf _ ih =>
    have := hf.length_lt
    simp only [List.length_cons]
    omega

end Length

/-! ## Events without a common participant -/

theorem apply_of_takes {e : E} {p : P} (h : S.takes p e) (d : P → D) :
    S.apply e d p = S.effect e d p := by
  unfold apply
  exact if_pos h

theorem apply_of_idle {e : E} {p : P} (h : ¬ S.takes p e) (d : P → D) : S.apply e d p = d p := by
  unfold apply
  exact if_neg h

/-- No process takes part in both events. -/
def Apart (S : System P E D) (e e' : E) : Prop := ∀ p, S.takes p e → ¬ S.takes p e'

theorem Apart.symm {e e' : E} (h : S.Apart e e') : S.Apart e' e :=
  fun p hp hp' => h p hp' hp

/-- An event does not see what one apart from it did. -/
theorem Apart.effect_apply {e e' : E} (h : S.Apart e e') {p : P} (hp : S.takes p e) (d : P → D) :
    S.effect e (S.apply e' d) p = S.effect e d p :=
  S.footprint e _ _ (fun q hq => apply_of_idle (h q hq) d) p hp

theorem Apart.apply_apply {e e' : E} (h : S.Apart e e') (d : P → D) :
    S.apply e (S.apply e' d) = S.apply e' (S.apply e d) := by
  funext p
  by_cases hp : S.takes p e
  · rw [apply_of_takes hp, h.effect_apply hp, apply_of_idle (h p hp), apply_of_takes hp]
  by_cases hp' : S.takes p e'
  · rw [apply_of_idle hp, apply_of_takes hp', apply_of_takes hp', h.symm.effect_apply hp']
  · rw [apply_of_idle hp, apply_of_idle hp', apply_of_idle hp', apply_of_idle hp]

theorem runAll_apart {e : E} {l : List E} (h : ∀ x ∈ l, S.Apart x e) (d : P → D) :
    runAll S.apply l (S.apply e d) = S.apply e (runAll S.apply l d) := by
  induction l generalizing d with
  | nil => rfl
  | cons x l ih =>
    have hx := h x List.mem_cons_self
    have hl : ∀ y ∈ l, S.Apart y e := fun y hy => h y (List.mem_cons_of_mem x hy)
    simp only [runAll]
    rw [hx.apply_apply, ih hl]

theorem runAll_disjoint {l : List E} (hn : l.Nodup)
    (hl : ∀ e ∈ l, ∀ e' ∈ l, e ≠ e' → S.Apart e e') (d : P → D) (p : P) :
    (∀ e ∈ l, S.takes p e → runAll S.apply l d p = S.effect e d p) ∧
      ((∀ e ∈ l, ¬ S.takes p e) → runAll S.apply l d p = d p) := by
  induction l generalizing d with
  | nil => exact ⟨fun e he => (by cases he), fun _ => rfl⟩
  | cons x l ih =>
    obtain ⟨hx, hn⟩ := List.nodup_cons.mp hn
    have hxl : ∀ e ∈ l, S.Apart e x := fun e he =>
      hl e (List.mem_cons_of_mem x he) x List.mem_cons_self fun h => hx (h ▸ he)
    obtain ⟨ih1, ih2⟩ := ih hn (fun e he e' he' =>
      hl e (List.mem_cons_of_mem x he) e' (List.mem_cons_of_mem x he')) (S.apply x d)
    simp only [runAll]
    constructor
    · intro e he hp
      cases List.mem_cons.mp he with
      | inl h =>
        subst h
        rw [ih2 fun y hy hpy => hxl y hy p hpy hp, apply_of_takes hp]
      | inr h => rw [ih1 e h hp, (hxl e h).effect_apply hp]
    · intro hp
      rw [ih2 fun e he => hp e (List.mem_cons_of_mem x he),
        apply_of_idle (hp x List.mem_cons_self)]

/-! ## Schedules -/

/-- The processes have to do the events of `g`, each those it takes part in. -/
def Ahead (S : System P E D) (g : List E) (s : State P E D) : Prop :=
  ∀ p, s.todo p = g.filter (S.takes p ·)

/-- What fires is the first event of the schedule for all its participants. -/
theorem Fires.split {e : E} {g : List E} {s s' : State P E D} (hg : S.Ahead g s)
    (h : S.Fires e s s') :
    ∃ pre post, g = pre ++ e :: post ∧ (∀ x ∈ pre, S.Apart x e) ∧ S.Ahead (pre ++ post) s' := by
  obtain ⟨p, hp⟩ := h.inhabited
  have hmem : e ∈ s.todo p := by
    rw [h.ready p hp]
    exact List.mem_cons_self
  rw [hg p] at hmem
  obtain ⟨pre, post, rfl, hpre⟩ := List.eq_append_cons_of_mem (List.mem_filter.mp hmem).1
  have hapart : ∀ x ∈ pre, S.Apart x e := by
    intro x hx q hqx hqe
    have hq := h.ready q hqe
    rw [hg q, List.filter_append] at hq
    -- the first event of `q` lies in `pre`, so it is not `e`
    have hin : x ∈ pre.filter (S.takes q ·) := List.mem_filter.mpr ⟨hx, by simpa using hqx⟩
    cases hf : pre.filter (S.takes q ·) with
    | nil =>
      rw [hf] at hin
      cases hin
    | cons y ys =>
      rw [hf, List.cons_append] at hq
      have hy : y ∈ pre.filter (S.takes q ·) := by
        rw [hf]
        exact List.mem_cons_self
      rw [(List.cons.inj hq).1] at hy
      exact hpre (List.mem_filter.mp hy).1
  refine ⟨pre, post, rfl, hapart, fun q => ?_⟩
  have hq := hg q
  by_cases hqe : S.takes q e
  · have hnil : pre.filter (S.takes q ·) = [] :=
      List.filter_eq_nil_iff.mpr fun x hx => by simpa using fun hqx => hapart x hx q hqx hqe
    rw [h.ready q hqe, List.filter_append, hnil, List.filter_cons_of_pos (by simpa using hqe)] at hq
    rw [List.filter_append, hnil]
    exact (List.cons.inj hq).2
  · rw [h.idle q hqe, hq, List.filter_append, List.filter_append,
      List.filter_cons_of_neg (by simpa using hqe)]

theorem Ahead.fires {e : E} {g : List E} {s : State P E D} (h : S.Ahead (e :: g) s)
    (he : ∃ p, S.takes p e) : ∃ s', S.Fires e s s' ∧ S.Ahead g s' := by
  refine ⟨⟨fun p => g.filter (S.takes p ·), S.apply e s.data⟩, ⟨he, ?_, ?_, rfl⟩, fun p => rfl⟩
  · intro p hp
    rw [h p, List.filter_cons_of_pos (by simpa using hp)]
  · intro p hp
    rw [h p, List.filter_cons_of_neg (by simpa using hp)]

theorem Ahead.finished_iff {g : List E} {s : State P E D} (h : S.Ahead g s)
    (hg : ∀ e ∈ g, ∃ p, S.takes p e) : s.Finished ↔ g = [] := by
  constructor
  · intro hs
    cases g with
    | nil => rfl
    | cons e g =>
      obtain ⟨p, hp⟩ := hg e List.mem_cons_self
      have hnil := (h p).symm.trans (hs p)
      rw [List.filter_cons_of_pos (by simpa using hp)] at hnil
      cases hnil
  · intro hnil p
    rw [h p, hnil]
    rfl

/-- A run leaves a part of the schedule, which still leads to the same data. -/
theorem Run.ahead {g l : List E} {s s' : State P E D} (hg : S.Ahead g s) (h : S.Run s l s') :
    ∃ g', S.Ahead g' s' ∧ g' ⊆ g ∧ runAll S.apply g' s'.data = runAll S.apply g s.data := by
  induction h generalizing g with
  | nil => exact ⟨g, hg, List.Subset.refl g, rfl⟩
  | @cons s s1 s2 e l hf _ ih =>
    obtain ⟨pre, post, rfl, hapart, hg1⟩ := hf.split hg
    obtain ⟨g', hg', hsub, hdata⟩ := ih hg1
    refine ⟨g', hg', fun x hx => ?_, ?_⟩
    · have := hsub hx
      simp only [List.mem_append, List.mem_cons] at this ⊢
      tauto
    · rw [hdata, hf.data, runAll_append, runAll_append, runAll_apart hapart]
      rfl

/-! ## Processes that give up -/

section GivingUp

variable {rest : P → List E} {g l : List E} {s s' : State P E D}

theorem Fires.extend {e : E} (h : S.Fires e s s') : S.Fires e (s.extend rest) (s'.extend rest) := by
  refine ⟨h.inhabited, fun p hp => ?_, fun p hp => ?_, h.data⟩
  · exact congrArg (· ++ rest p) (h.ready p hp)
  · exact congrArg (· ++ rest p) (h.idle p hp)

theorem Run.extend (h : S.Run s l s') : S.Run (s.extend rest) l (s'.extend rest) := by
  induction h with
  | nil => exact .nil
  | cons hf _ ih => exact .cons hf.extend ih

/-- The process `p` waits for `q`: the event it has next does not fire before `q` comes to it. -/
def WaitsFor (S : System P E D) (s : State P E D) (p q : P) : Prop :=
  ∃ e, (s.todo p).head? = some e ∧ S.takes q e ∧ (s.todo q).head? ≠ some e

/-- A process whose events leave its data alone keeps them. -/
theorem Run.data_eq (h : S.Run s l s') {p : P} (hp : ∀ e ∈ s.todo p, ∀ d, S.effect e d p = d p) :
    s'.data p = s.data p := by
  induction h with
  | nil => rfl
  | @cons s s1 s2 e l hf _ ih =>
    by_cases hpe : S.takes p e
    · rw [hf.ready p hpe] at hp
      rw [ih fun x hx => hp x (List.mem_cons_of_mem e hx), hf.data, apply_of_takes hpe,
        hp e List.mem_cons_self]
    · rw [← hf.idle p hpe] at hp
      rw [ih hp, hf.data, apply_of_idle hpe]

/-- No event fires. -/
def Stuck (S : System P E D) (s : State P E D) : Prop := ∀ e s', ¬ S.Fires e s s'

theorem Stuck.exists_behind (h : S.Stuck s) {p : P} {e : E} (hpe : S.takes p e) :
    ∃ q, S.takes q e ∧ (s.todo q).head? ≠ some e := by
  by_contra hall
  simp only [not_exists, not_and, not_not] at hall
  refine h e ⟨fun q => if S.takes q e then (s.todo q).tail else s.todo q, S.apply e s.data⟩
    ⟨⟨p, hpe⟩, fun q hq => ?_, fun q hq => if_neg hq, rfl⟩
  obtain ⟨t, ht⟩ := List.head?_eq_some_iff.mp (hall q hq)
  simp only [if_pos hq, ht, List.tail_cons]

/-- What a process has next is the first event of the schedule it takes part in. -/
theorem Ahead.head?_eq (hg : S.Ahead g (s.extend rest)) {p : P} (hp : s.todo p ≠ []) :
    (s.todo p).head? = g.find? (S.takes p ·) := by
  rw [← List.head?_filter, ← hg p]
  cases ht : s.todo p with
  | nil => exact absurd ht hp
  | cons x t => simp [State.extend, ht]

/-- The first event of each of two processes, if both take part in both. -/
theorem Ahead.matched (hg : S.Ahead g (s.extend rest)) {p q : P} {e e' : E}
    (hp : (s.todo p).head? = some e) (hq : (s.todo q).head? = some e') (hqe : S.takes q e)
    (hpe : S.takes p e') : e = e' := by
  have hnil : ∀ {p : P} {e : E}, (s.todo p).head? = some e → s.todo p ≠ [] := by
    rintro p e h hnil
    rw [hnil] at h
    cases h
  rw [hg.head?_eq (hnil hp)] at hp
  rw [hg.head?_eq (hnil hq)] at hq
  clear hg hnil
  induction g with
  | nil => cases hp
  | cons x g ih =>
    by_cases hpx : S.takes p x
    · obtain rfl : x = e := by simpa [hpx] using hp
      simpa [hqe] using hq
    · by_cases hqx : S.takes q x
      · obtain rfl : x = e' := by simpa [hqx] using hq
        exact absurd hpe hpx
      · exact ih (by simpa [hpx] using hp) (by simpa [hqx] using hq)

/-- Going back along the schedule, a process that is stuck waits for one that gave up. -/
theorem Ahead.gave_up (hg : S.Ahead g (s.extend rest)) (hstuck : S.Stuck s) {p : P}
    (hp : s.todo p ≠ []) :
    ∃ q, Relation.TransGen (S.WaitsFor s) p q ∧ s.todo q = [] ∧ rest q ≠ [] := by
  obtain ⟨e, he⟩ : ∃ e, (s.todo p).head? = some e :=
    Option.ne_none_iff_exists'.mp fun h => hp (List.head?_eq_none_iff.mp h)
  obtain ⟨hpe, pre, post, hsplit, hpre⟩ :=
    List.find?_eq_some_iff_append.mp ((hg.head?_eq hp).symm.trans he)
  clear hpre
  induction hn : pre.length using Nat.strong_induction_on generalizing p e pre post with
  | h n ih =>
    obtain ⟨q, hqe, hq⟩ := hstuck.exists_behind (of_decide_eq_true hpe)
    have hwait : S.WaitsFor s p q := ⟨e, he, hqe, hq⟩
    by_cases hnil : s.todo q = []
    · refine ⟨q, .single hwait, hnil, fun hrest => ?_⟩
      have hlist := hg q
      simp only [State.extend, hnil, hrest, List.append_nil] at hlist
      refine List.filter_eq_nil_iff.mp hlist.symm e ?_ (decide_eq_true hqe)
      rw [hsplit]
      exact List.mem_append_right pre List.mem_cons_self
    -- `q` has something before `e`
    obtain ⟨x, hx⟩ : ∃ x, (s.todo q).head? = some x :=
      Option.ne_none_iff_exists'.mp fun h => hnil (List.head?_eq_none_iff.mp h)
    have hfind := (hg.head?_eq hnil).symm.trans hx
    rw [hsplit, List.find?_append] at hfind
    cases hbefore : pre.find? (S.takes q ·) with
    | none =>
      have hfirst : (e :: post).find? (S.takes q ·) = some e :=
        List.find?_cons_of_pos (by simpa using hqe)
      rw [hbefore, Option.none_or, hfirst] at hfind
      exact absurd (hx.trans hfind.symm) hq
    | some y =>
      rw [hbefore, Option.some_or] at hfind
      obtain ⟨hqy, pre', post', hsplit', -⟩ := List.find?_eq_some_iff_append.mp hbefore
      cases Option.some.inj hfind
      have hlt : pre'.length < n := by
        rw [← hn, hsplit', List.length_append, List.length_cons]
        omega
      obtain ⟨r, hr, hend⟩ := ih pre'.length hlt hnil x hx hqy pre' (post' ++ e :: post)
        (by rw [hsplit, hsplit', List.append_assoc, List.cons_append]) rfl
      exact ⟨r, .head hwait hr, hend⟩

theorem Run.extend_program {rounds : List (Round P E)} {cut : P → List E} {d : P → D}
    (hcut : ∀ p, cut p ++ rest p = program rounds p)
    (hrun : S.Run ⟨cut, d⟩ l s) : S.Run ⟨program rounds, d⟩ l (s.extend rest) := by
  have hstart : (⟨cut, d⟩ : State P E D).extend rest = ⟨program rounds, d⟩ := by
    unfold State.extend
    congr 1
    exact funext hcut
  rw [← hstart]
  exact hrun.extend

end GivingUp

/-! ## Rounds -/

variable [Fintype P]

/-- The events of a round. -/
noncomputable def events (r : Round P E) : List E :=
  ((Finset.univ : Finset P).toList.filterMap r).dedup

theorem mem_events {r : Round P E} {e : E} : e ∈ events r ↔ ∃ p, r p = some e := by
  simp [events]

theorem nodup_events (r : Round P E) : (events r).Nodup := List.nodup_dedup _

theorem Agreed.apart {r : Round P E} (h : S.Agreed r) {e e' : E} (he : e ∈ events r)
    (he' : e' ∈ events r) (hne : e ≠ e') : S.Apart e e' := by
  obtain ⟨q, hq⟩ := mem_events.mp he
  obtain ⟨q', hq'⟩ := mem_events.mp he'
  intro p hp hp'
  have h1 := h.shared q p e hq hp
  have h2 := h.shared q' p e' hq' hp'
  exact hne (Option.some.inj (h1.symm.trans h2))

theorem Agreed.filter_events {r : Round P E} (h : S.Agreed r) (p : P) :
    (events r).filter (S.takes p ·) = (r p).toList := by
  have hone : ∀ x, x ∈ (events r).filter (S.takes p ·) ↔ r p = some x := by
    intro x
    rw [List.mem_filter, mem_events, decide_eq_true_iff]
    constructor
    · intro ⟨⟨q, hq⟩, hx⟩
      exact h.shared q p x hq hx
    · intro hx
      exact ⟨⟨p, hx⟩, h.own p x hx⟩
  have hnodup : ((events r).filter (S.takes p ·)).Nodup := (nodup_events r).filter _
  cases hr : r p with
  | none =>
    refine List.eq_nil_iff_forall_not_mem.mpr fun x hx => ?_
    rw [hone, hr] at hx
    cases hx
  | some e =>
    refine List.perm_singleton.mp ((List.perm_ext_iff_of_nodup hnodup (List.nodup_singleton e)).mpr
      fun x => ?_)
    rw [hone, hr, List.mem_singleton, Option.some.injEq, eq_comm]

theorem Agreed.runAll_events {r : Round P E} (h : S.Agreed r) (d : P → D) :
    runAll S.apply (events r) d = S.together r d := by
  funext p
  have hall := runAll_disjoint (nodup_events r) (fun e he e' he' => h.apart he he') d p
  cases hr : r p with
  | none =>
    rw [hall.2, together, hr]
    intro e he hp
    obtain ⟨q, hq⟩ := mem_events.mp he
    rw [h.shared q p e hq hp] at hr
    cases hr
  | some e => rw [hall.1 e (mem_events.mpr ⟨p, hr⟩) (h.own p e hr), together, hr]

section Rounds

variable {rounds : List (Round P E)} {d : P → D} {l : List E} {s : State P E D}

theorem ahead_program (h : ∀ r ∈ rounds, S.Agreed r) (d : P → D) :
    S.Ahead (rounds.flatMap events) ⟨program rounds, d⟩ := by
  intro p
  induction rounds with
  | nil => rfl
  | cons r rounds ih =>
    rw [List.flatMap_cons, List.filter_append, (h r List.mem_cons_self).filter_events,
      ← ih fun r' hr' => h r' (List.mem_cons_of_mem r hr')]
    simp only [program, List.filterMap_cons]
    cases r p <;> rfl

theorem runAll_rounds (h : ∀ r ∈ rounds, S.Agreed r) (d : P → D) :
    runAll S.apply (rounds.flatMap events) d = runAll S.together rounds d := by
  induction rounds generalizing d with
  | nil => rfl
  | cons r rounds ih =>
    rw [List.flatMap_cons, runAll_append, (h r List.mem_cons_self).runAll_events]
    exact ih (fun r' hr' => h r' (List.mem_cons_of_mem r hr')) _

theorem exists_takes (h : ∀ r ∈ rounds, S.Agreed r) {e : E} (he : e ∈ rounds.flatMap events) :
    ∃ p, S.takes p e := by
  obtain ⟨r, hr, he⟩ := List.mem_flatMap.mp he
  obtain ⟨p, hp⟩ := mem_events.mp he
  exact ⟨p, (h r hr).own p e hp⟩

/-- A run that has not ended can go on. -/
theorem Run.never_stuck (h : ∀ r ∈ rounds, S.Agreed r) (hrun : S.Run ⟨program rounds, d⟩ l s)
    (hs : ¬ s.Finished) : ∃ e s', S.Fires e s s' := by
  obtain ⟨g, hg, hsub, -⟩ := hrun.ahead (ahead_program h d)
  have htake : ∀ e ∈ g, ∃ p, S.takes p e := fun e he => exists_takes h (hsub he)
  cases g with
  | nil => exact absurd ((hg.finished_iff htake).mpr rfl) hs
  | cons e g =>
    obtain ⟨s', hf, -⟩ := hg.fires (htake e List.mem_cons_self)
    exact ⟨e, s', hf⟩

/-- Every run can be completed. -/
theorem Run.completes (h : ∀ r ∈ rounds, S.Agreed r) (hrun : S.Run ⟨program rounds, d⟩ l s) :
    ∃ l' s', S.Run s l' s' ∧ s'.Finished := by
  obtain ⟨g, hg, hsub, -⟩ := hrun.ahead (ahead_program h d)
  have htake : ∀ e ∈ g, ∃ p, S.takes p e := fun e he => exists_takes h (hsub he)
  clear hsub hrun
  induction g generalizing s with
  | nil => exact ⟨[], s, .nil, (hg.finished_iff htake).mpr rfl⟩
  | cons e g ih =>
    obtain ⟨s', hf, hg'⟩ := hg.fires (htake e List.mem_cons_self)
    obtain ⟨l', s'', hrun, hend⟩ := ih hg' fun x hx => htake x (List.mem_cons_of_mem e hx)
    exact ⟨e :: l', s'', .cons hf hrun, hend⟩

/-- The data at the end of a run are those of the rounds taken together. -/
theorem Run.settles (h : ∀ r ∈ rounds, S.Agreed r) (hrun : S.Run ⟨program rounds, d⟩ l s)
    (hs : s.Finished) : s.data = runAll S.together rounds d := by
  obtain ⟨g, hg, hsub, hdata⟩ := hrun.ahead (ahead_program h d)
  have hnil := (hg.finished_iff fun e he => exists_takes h (hsub he)).mp hs
  rw [hnil] at hdata
  exact hdata.trans (runAll_rounds h d)

end Rounds

section GivingUp

variable {rest : P → List E} {l : List E} {s : State P E D}
variable {rounds : List (Round P E)} {cut : P → List E} {d : P → D}

/-- Every state can go on until it is stuck. -/
theorem exists_stuck (S : System P E D) (s : State P E D) : ∃ l s', S.Run s l s' ∧ S.Stuck s' := by
  induction hn : ∑ p, (s.todo p).length using Nat.strong_induction_on generalizing s with
  | h n ih =>
    by_cases hstuck : S.Stuck s
    · exact ⟨[], s, .nil, hstuck⟩
    · simp only [Stuck, not_forall, not_not] at hstuck
      obtain ⟨e, s1, hf⟩ := hstuck
      obtain ⟨l, s2, hrun, hend⟩ := ih _ (hn ▸ hf.length_lt) s1 rfl
      exact ⟨e :: l, s2, .cons hf hrun, hend⟩

/-- Two processes that are about to meet in an event of each other are about to meet in the same. -/
theorem Run.matched (h : ∀ r ∈ rounds, S.Agreed r)
    (hcut : ∀ p, cut p ++ rest p = program rounds p) (hrun : S.Run ⟨cut, d⟩ l s) {p q : P}
    {e e' : E} (hp : (s.todo p).head? = some e) (hq : (s.todo q).head? = some e')
    (hqe : S.takes q e) (hpe : S.takes p e') : e = e' := by
  obtain ⟨g, hg, -, -⟩ := (hrun.extend_program hcut).ahead (ahead_program h d)
  exact hg.matched hp hq hqe hpe

/-- Who is stuck waits, directly or through others, for a process that gave up. -/
theorem Run.gave_up (h : ∀ r ∈ rounds, S.Agreed r)
    (hcut : ∀ p, cut p ++ rest p = program rounds p) (hrun : S.Run ⟨cut, d⟩ l s)
    (hstuck : S.Stuck s) {p : P} (hp : s.todo p ≠ []) :
    ∃ q, Relation.TransGen (S.WaitsFor s) p q ∧ s.todo q = [] ∧ rest q ≠ [] := by
  obtain ⟨g, hg, -, -⟩ := (hrun.extend_program hcut).ahead (ahead_program h d)
  exact hg.gave_up hstuck hp

end GivingUp

end System

end Collectives
