import Underling.World

/-!
# Underling.Requests

What a function asks for that may be refused, in order: space, and guru plans.

* `World.Asked`: the requests made between two worlds.
* `Served`: how a function that needs given requests ends. It makes its result when all of them are
  granted; otherwise it stops at the first one refused, with a report. `Served.bind` is the rule of
  composition.
-/

namespace Underling

open Runs C

inductive Request where
  | space
  | guru (g : Guru)

/-- The guru plans among the requests. -/
def gurus : List Request → List Guru
  | [] => []
  | .space :: rs => gurus rs
  | .guru g :: rs => g :: gurus rs

@[simp] theorem gurus_nil : gurus [] = [] := rfl
@[simp] theorem gurus_space (rs : List Request) : gurus (.space :: rs) = gurus rs := rfl
@[simp] theorem gurus_guru (g : Guru) (rs : List Request) :
    gurus (.guru g :: rs) = g :: gurus rs := rfl

@[simp] theorem gurus_append (rs rs' : List Request) :
    gurus (rs ++ rs') = gurus rs ++ gurus rs' := by
  induction rs with
  | nil => rfl
  | cons r rs ih => cases r <;> simp [ih]

@[simp] theorem gurus_map (gs : List Guru) : gurus (gs.map .guru) = gs := by
  induction gs with
  | nil => rfl
  | cons g gs ih => simp [ih]

/-- The next `n` requests will be granted. -/
def World.Grants (w : World) (n : Nat) : Prop := ∀ k, k < n → w.refuse (w.requests + k) = false

theorem World.Granted.grants {w : World} (h : w.Granted) (n : Nat) : w.Grants n := fun _ _ => h _

theorem World.grants_one_iff {w : World} : w.Grants 1 ↔ w.refuse w.requests = false := by
  simp [World.Grants]

/-- `w'` is `w` after the requests `rs`, up to resources, collective calls and further reports. -/
structure World.Asked (w : World) (rs : List Request) (w' : World) : Prop where
  refuse_eq : w'.refuse = w.refuse
  requests_eq : w'.requests = w.requests + rs.length
  planned_eq : w'.log.planned = w.log.planned ++ gurus rs
  reports : w.log.reports.length ≤ w'.log.reports.length

namespace World.Asked

variable {w w' w'' : World} {rs rs' : List Request}

theorem refl (w : World) : w.Asked [] w := ⟨rfl, rfl, (List.append_nil _).symm, Nat.le_refl _⟩

theorem trans (h : w.Asked rs w') (h' : w'.Asked rs' w'') : w.Asked (rs ++ rs') w'' := by
  refine ⟨h'.refuse_eq.trans h.refuse_eq, ?_, ?_, h.reports.trans h'.reports⟩
  · rw [h'.requests_eq, h.requests_eq, List.length_append, Nat.add_assoc]
  · rw [h'.planned_eq, h.planned_eq, gurus_append, List.append_assoc]

theorem granted (h : w.Asked rs w') (hg : w.Granted) : w'.Granted := fun k => by
  rw [h.refuse_eq]
  exact hg k

theorem grants_add (h : w.Asked rs w') {n : Nat} :
    w.Grants (rs.length + n) ↔ w.Grants rs.length ∧ w'.Grants n := by
  simp only [World.Grants, h.refuse_eq, h.requests_eq]
  constructor
  · intro hg
    refine ⟨fun k hk => hg k (by omega), fun k hk => ?_⟩
    have := hg (rs.length + k) (by omega)
    rwa [← Nat.add_assoc] at this
  · rintro ⟨hfirst, hrest⟩ k hk
    by_cases hlt : k < rs.length
    · exact hfirst k hlt
    · have := hrest (k - rs.length) (by omega)
      rwa [show w.requests + rs.length + (k - rs.length) = w.requests + k by omega] at this

end World.Asked

/-- How a function ends that needs the requests `rs` for a result with `P`. -/
structure Served {β : Type} (w : World) (rs : List Request) (P : β → Prop) (o : Option β)
    (w' : World) : Prop where
  made : ∀ b, o = some b → P b ∧ w.Grants rs.length ∧ w.Asked rs w'
  refused : o = none → ¬ w.Grants rs.length ∧ w.log.reports.length < w'.log.reports.length ∧
    ∃ asked, asked ≠ [] ∧ asked <+: rs ∧ w.Asked asked w'

namespace Served

variable {β γ : Type} {w w' : World} {rs rs' : List Request} {P : β → Prop} {Q : γ → Prop}
  {o : Option β}

theorem isSome_iff (h : Served w rs P o w') : o.isSome ↔ w.Grants rs.length := by
  cases o with
  | none => exact iff_of_false Bool.false_ne_true (h.refused rfl).1
  | some b => exact iff_of_true rfl (h.made b rfl).2.1

theorem asked (h : Served w rs P o w') : ∃ asked, asked <+: rs ∧ w.Asked asked w' := by
  cases o with
  | none =>
    obtain ⟨-, -, asked, -, hpre, ha⟩ := h.refused rfl
    exact ⟨asked, hpre, ha⟩
  | some b => exact ⟨rs, List.prefix_rfl, (h.made b rfl).2.2⟩

theorem of_made {b : β} (hb : P b) : Served w [] P (some b) w :=
  ⟨fun _ h => by cases h; exact ⟨hb, fun _ hk => absurd hk (Nat.not_lt_zero _), .refl w⟩, nofun⟩

theorem mono {P' : β → Prop} (h : Served w rs P o w') (hP : ∀ b, P b → P' b) :
    Served w rs P' o w' :=
  ⟨fun b hb => ⟨hP b (h.made b hb).1, (h.made b hb).2⟩, h.refused⟩

theorem after {o : Option γ} (h : w.Asked rs w') (hg : w.Grants rs.length) {w'' : World}
    (h' : Served w' rs' Q o w'') : Served w (rs ++ rs') Q o w'' := by
  refine ⟨fun c hc => ?_, fun ho => ?_⟩
  · obtain ⟨hQ, hg', ha⟩ := h'.made c hc
    rw [List.length_append]
    exact ⟨hQ, h.grants_add.mpr ⟨hg, hg'⟩, h.trans ha⟩
  · obtain ⟨hn, hlt, asked, hne, hpre, ha⟩ := h'.refused ho
    rw [List.length_append]
    exact ⟨fun hall => hn (h.grants_add.mp hall).2, Nat.lt_of_le_of_lt h.reports hlt, rs ++ asked,
      List.append_ne_nil_of_right_ne_nil _ hne, (List.prefix_append_right_inj rs).mpr hpre,
      h.trans ha⟩

theorem stopped (h : Served w rs P none w') {w'' : World} (ha : w'.Asked [] w'') :
    Served w (rs ++ rs') Q none w'' := by
  obtain ⟨hn, hlt, asked, hne, hpre, hasked⟩ := h.refused rfl
  refine ⟨nofun, fun _ => ⟨fun hall => hn fun k hk => hall k ?_, Nat.lt_of_lt_of_le hlt ha.reports,
    asked, hne, hpre.trans (List.prefix_append _ _), ?_⟩⟩
  · rw [List.length_append]
    omega
  · have hboth := hasked.trans ha
    rwa [List.append_nil] at hboth

theorem none_asked (w : World) :
    Ends (pure none : C (Option γ)) w fun r w' => r = none ∧ w.Asked [] w' :=
  .pure ⟨rfl, .refl w⟩

theorem bind {x : C (Option β)} {k : Option β → C (Option γ)} (hx : Ends x w (Served w rs P))
    (hnone : ∀ w1, Ends (k none) w1 fun r w2 => r = none ∧ w1.Asked [] w2)
    (hsome : ∀ b w1, P b → w.Asked rs w1 → Ends (k (some b)) w1 (Served w1 rs' Q)) :
    Ends (x >>= k) w (Served w (rs ++ rs') Q) := by
  refine .bind hx ?_
  rintro (_ | b) w1 h
  · refine (hnone w1).mono ?_
    rintro _ w2 ⟨rfl, ha⟩
    exact h.stopped ha
  · obtain ⟨hP, hg, ha⟩ := h.made b rfl
    exact (hsome b w1 hP ha).mono fun _ _ h' => h'.after ha hg

theorem bind_cons {r : Request} {x : C (Option β)} {k : Option β → C (Option γ)}
    (hx : Ends x w (Served w [r] P))
    (hnone : ∀ w1, Ends (k none) w1 fun r w2 => r = none ∧ w1.Asked [] w2)
    (hsome : ∀ b w1, P b → w.Asked [r] w1 → Ends (k (some b)) w1 (Served w1 rs' Q)) :
    Ends (x >>= k) w (Served w (r :: rs') Q) :=
  bind hx hnone hsome

theorem bind_pure {x : C (Option β)} {k : Option β → C (Option γ)} (hx : Ends x w (Served w rs P))
    (hnone : ∀ w1, Ends (k none) w1 fun r w2 => r = none ∧ w1.Asked [] w2)
    (hsome : ∀ b, P b → ∃ c, k (some b) = pure (some c) ∧ Q c) :
    Ends (x >>= k) w (Served w rs Q) := by
  rw [← List.append_nil rs]
  refine bind hx hnone fun b w1 hb _ => ?_
  obtain ⟨c, hk, hc⟩ := hsome b hb
  rw [hk]
  exact .pure (.of_made hc)

end Served

namespace C

variable {w : World}

theorem report_asked (reason : String) (status : Status) :
    Ends (report reason status) w fun _ w' =>
      w.Asked [] w' ∧ w.log.reports.length < w'.log.reports.length := by
  have hlen : w.log.reports.length < (w.log.reports ++ [Report.mk reason status]).length := by simp
  exact .of_modify (Q := fun _ w' => w.Asked [] w' ∧ _)
    ⟨⟨rfl, rfl, (List.append_nil _).symm, Nat.le_of_lt hlen⟩, hlen⟩

theorem errorVal_asked {α : Type} (reason : String) (status : Status) (value : α) :
    Ends (errorVal reason status value) w fun a w' => a = value ∧
      w.Asked [] w' ∧ w.log.reports.length < w'.log.reports.length :=
  .bind (report_asked reason status) fun _ _ h => .pure ⟨rfl, h⟩

theorem errorNull_asked {α : Type} (reason : String) (status : Status) :
    Ends (errorNull reason status : C (Option α)) w fun o w' => o = none ∧
      w.Asked [] w' ∧ w.log.reports.length < w'.log.reports.length :=
  errorVal_asked reason status none

theorem release_asked (r : Resource) : Ends (release r) w fun _ w' => w.Asked [] w' := by
  refine .of_modify ?_
  have hnil := (List.append_nil w.log.planned).symm
  by_cases h : r ∈ w.live
  · rw [if_pos h]
    exact ⟨rfl, rfl, hnil, Nat.le_refl _⟩
  · rw [if_neg h]
    exact ⟨rfl, rfl, hnil, Nat.le_refl _⟩

theorem request_asked (mk : Nat → Resource) :
    Ends (request mk) w fun o w' => w.Asked [.space] w' ∧ (o.isSome ↔ w.Grants 1) := by
  rw [World.grants_one_iff]
  have hnil := (List.append_nil w.log.planned).symm
  refine .get_bind ?_
  by_cases hr : w.refuse w.requests = true
  · rw [if_pos hr]
    refine .bind (.of_set (Q := fun _ w' => w.Asked [.space] w') ⟨rfl, rfl, hnil, Nat.le_refl _⟩)
      fun _ w' h' => .pure ⟨h', by simp [hr]⟩
  · rw [if_neg hr]
    refine .bind (.of_set (Q := fun _ w' => w.Asked [.space] w') ⟨rfl, rfl, hnil, Nat.le_refl _⟩)
      fun _ w' h' => .pure ⟨h', by simp [hr]⟩

theorem planGuru_asked (g : Guru) :
    Ends (planGuru g) w fun o w' => w.Asked [.guru g] w' ∧ (o.isSome ↔ w.Grants 1) ∧
      ∀ p, o = some p → p.desc = .guru g := by
  refine .bind (.of_modify (Q := fun _ w' => w' =
    { w with log := { w.log with planned := w.log.planned ++ [g] } }) rfl) fun _ w1 h1 => ?_
  subst h1
  refine .bind (request_asked .plan) ?_
  rintro (_ | id) w2 ⟨h2, hsome⟩
  · exact .pure ⟨⟨h2.refuse_eq, h2.requests_eq, by simpa using h2.planned_eq, h2.reports⟩, hsome,
      nofun⟩
  · exact .pure ⟨⟨h2.refuse_eq, h2.requests_eq, by simpa using h2.planned_eq, h2.reports⟩, hsome,
      fun p hp => by cases hp; rfl⟩

theorem served_of_request {β : Type} {r : Request} {P : β → Prop} {x : C (Option β)}
    {k : Option β → C (Option β)}
    (hx : Ends x w fun o w' => w.Asked [r] w' ∧ (o.isSome ↔ w.Grants 1) ∧ ∀ b, o = some b → P b)
    (hnone : ∀ w1, Ends (k none) w1 fun o w2 => o = none ∧ w1.Asked [] w2 ∧
      w1.log.reports.length < w2.log.reports.length)
    (hsome : ∀ b, k (some b) = pure (some b)) : Ends (x >>= k) w (Served w [r] P) := by
  refine .bind hx ?_
  rintro (_ | b) w1 ⟨h1, hgrants, hP⟩
  · refine (hnone w1).mono ?_
    rintro _ w2 ⟨rfl, h2, hlt⟩
    have hn : ¬ w.Grants 1 := fun hg => Bool.false_ne_true (hgrants.mpr hg)
    exact ⟨nofun, fun _ => ⟨hn, Nat.lt_of_le_of_lt h1.reports hlt, [r], List.cons_ne_nil _ _,
      List.prefix_rfl, h1.trans h2⟩⟩
  · rw [hsome]
    exact .pure ⟨fun b' hb' => by cases hb'; exact ⟨hP b rfl, hgrants.mp rfl, h1⟩, nofun⟩

theorem space_bind {γ : Type} {k : Option Nat → C (Option γ)} {rs : List Request} {Q : γ → Prop}
    (hnone : ∀ w1, Ends (k none) w1 fun o w2 => o = none ∧ w1.Asked [] w2 ∧
      w1.log.reports.length < w2.log.reports.length)
    (hsome : ∀ addr w1, w.Asked [.space] w1 → Ends (k (some addr)) w1 (Served w1 rs Q)) :
    Ends (malloc >>= k) w (Served w (.space :: rs) Q) := by
  refine .bind (request_asked .block) ?_
  rintro (_ | addr) w1 ⟨h1, hgrants⟩
  · refine (hnone w1).mono ?_
    rintro _ w2 ⟨rfl, h2, hlt⟩
    refine ⟨nofun, fun _ => ⟨fun hg => ?_, Nat.lt_of_le_of_lt h1.reports hlt, [.space],
      List.cons_ne_nil _ _, List.prefix_append [.space] rs, h1.trans h2⟩⟩
    have hone : w.Grants 1 := fun k hk => hg k (by simp; omega)
    exact Bool.false_ne_true (hgrants.mpr hone)
  · exact (hsome addr w1 h1).mono fun _ _ h' => h'.after h1 (hgrants.mp rfl)

end C

end Underling
