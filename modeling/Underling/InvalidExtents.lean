import Underling.Creators
import Underling.Handles

/-!
# Underling.InvalidExtents

Invalid extents on their way through the creators of FFT plans. They are how a missing problem, a
direction that is none, and an odd number of fields are signalled, and the creators pass them on.

* `fftwSides_void`: what a creator hands to its planner.
* `planner_void`: a planner that gets so far fails an assertion, unless a request is refused first.
-/

namespace Underling

open Runs C

/-- The order names no direction but the first, and no direction has a size. -/
structure FftwExtents.Void (e : FftwExtents) : Prop where
  order_eq : ∀ k, e.order k = 0
  size_eq : ∀ k, e.size k = 0

theorem void_invalid : FftwExtents.invalid.Void := ⟨fun _ => rfl, fun _ => rfl⟩

theorem FftwExtents.Void.pack {e : FftwExtents} (h : e.Void) :
    (packStridesAccordingToOrder e).Void :=
  ⟨h.order_eq, h.size_eq⟩

/-- Arguments for which the extents of the pencil are invalid, or made so. -/
inductive Unusable : Option Problem → Fin 3 → Prop where
  | null : Unusable none 0
  | odd {p : Problem} {i : Fin 3} :
      (p.longN i).Pencil i → (p.longN i).size 3 % 2 ≠ 0 → Unusable (some p) i

/-! ## How a call can go -/

section Outcomes

variable {β γ : Type} {x : C (Option β)} {w w1 : World}

/-- The call is rejected: it reports an error and returns `NULL`, without a planner call. -/
def Rejects (x : C (Option β)) (w : World) : Prop :=
  Ends x w fun o w' => o = none ∧ w.log.reports.length < w'.log.reports.length ∧
    w'.log.planned = w.log.planned

/-- The call fails an assertion, unless a refused planner call ends it before. -/
def Botched (x : C (Option β)) (w : World) : Prop :=
  x w = .error .assertion ∨
    ¬ w.Granted ∧ ∃ w', x w = .ok (none, w') ∧ w'.log.planned ≠ w.log.planned

theorem Botched.not_rejects (h : Botched x w) : ¬ Rejects x w := by
  rintro ⟨o, w', hrun, -, -, hplanned⟩
  rcases h with h | ⟨-, w'', h, hne⟩
  · rw [h] at hrun
    cases hrun
  · rw [h] at hrun
    cases hrun
    exact hne hplanned

theorem Botched.not_made (h : Botched x w) (b : β) (w' : World) : x w ≠ .ok (some b, w') := by
  intro hrun
  rcases h with h | ⟨-, w'', h, -⟩ <;> rw [h] at hrun <;> cases hrun

theorem Botched.of_granted (h : Botched x w) (hg : w.Granted) : x w = .error .assertion :=
  h.resolve_right fun h' => h'.1 hg

theorem Rejects.not_made (h : Rejects x w) (b : β) (w' : World) : x w ≠ .ok (some b, w') := by
  obtain ⟨o, w'', hrun, rfl, -, -⟩ := h
  intro h
  rw [hrun] at h
  cases h

theorem rejects_of_asked (h : Ends x w fun o w' => o = none ∧ w.Asked [] w' ∧
    w.log.reports.length < w'.log.reports.length) : Rejects x w :=
  h.mono fun _ _ ⟨ho, ha, hlt⟩ => ⟨ho, hlt, ha.planned_eq.trans (List.append_nil _)⟩

theorem Rejects.of_eq {y : C (Option β)} {rs : List Request} (heq : y w = x w1)
    (ha : w.Asked rs w1) (hrs : gurus rs = []) (h : Rejects x w1) : Rejects y w := by
  obtain ⟨o, w', hrun, ho, hlt, hplanned⟩ := h
  refine ⟨o, w', heq.trans hrun, ho, Nat.lt_of_le_of_lt ha.reports hlt, hplanned.trans ?_⟩
  rw [ha.planned_eq, hrs, List.append_nil]

theorem Botched.of_eq {y : C (Option β)} {rs : List Request} (heq : y w = x w1)
    (ha : w.Asked rs w1) (hrs : gurus rs = []) (h : Botched x w1) : Botched y w := by
  rcases h with h | ⟨hn, w', h, hne⟩
  · exact .inl (heq.trans h)
  · refine .inr ⟨fun hg => hn (ha.granted hg), w', heq.trans h, ?_⟩
    rwa [ha.planned_eq, hrs, List.append_nil] at hne

/-- Rejected when the first request is refused, and botched otherwise. -/
def Stalls (x : C (Option β)) (w : World) : Prop :=
  (w.refuse w.requests = true → Rejects x w) ∧ (w.refuse w.requests = false → Botched x w)

theorem Stalls.terminates (h : Stalls x w) : x w ≠ .error .diverges := by
  by_cases hr : w.refuse w.requests = true
  · exact (h.1 hr).ne_error _
  · rcases h.2 (Bool.eq_false_iff.mpr hr) with h | ⟨-, w', h, -⟩ <;> rw [h] <;> exact nofun

theorem Stalls.not_made (h : Stalls x w) (b : β) (w' : World) : x w ≠ .ok (some b, w') := by
  by_cases hr : w.refuse w.requests = true
  · exact (h.1 hr).not_made b w'
  · exact (h.2 (Bool.eq_false_iff.mpr hr)).not_made b w'

theorem Stalls.of_eq {y : C (Option β)} (heq : y w = x w1) (ha : w.Asked [] w1) (h : Stalls x w1) :
    Stalls y w := by
  have hreq : w1.refuse w1.requests = w.refuse w.requests := by
    rw [ha.refuse_eq, ha.requests_eq, List.length_nil, Nat.add_zero]
  rw [Stalls, hreq] at h
  exact ⟨fun hr => (h.1 hr).of_eq heq ha rfl, fun hr => (h.2 hr).of_eq heq ha rfl⟩

theorem space_stalls {k : Option Nat → C (Option γ)}
    (hnone : ∀ w1, Ends (k none) w1 fun o w2 => o = none ∧ w1.Asked [] w2 ∧
      w1.log.reports.length < w2.log.reports.length)
    (hsome : ∀ addr w1, Botched (k (some addr)) w1) : Stalls (malloc >>= k) w := by
  obtain ⟨o, w1, hrun, hasked, hgrants⟩ := request_asked .block (w := w)
  rw [World.grants_one_iff] at hgrants
  have hk : (malloc >>= k) w = k o w1 := run_bind hrun k
  cases o with
  | none =>
    exact ⟨fun _ => (rejects_of_asked (hnone w1)).of_eq hk hasked rfl,
      fun hr => absurd (hgrants.mpr hr) Bool.false_ne_true⟩
  | some addr =>
    refine ⟨fun hr => ?_, fun _ => (hsome addr w1).of_eq hk hasked rfl⟩
    rw [hgrants.mp rfl] at hr
    cases hr

theorem gurus_ne_nil {gs : List Guru} {asked : List Request} (hpre : asked <+: gs.map .guru)
    (hne : asked ≠ []) : gurus asked ≠ [] := by
  cases asked with
  | nil => exact absurd rfl hne
  | cons r rest =>
    cases gs with
    | nil => exact absurd (List.prefix_nil.mp hpre) hne
    | cons g gs =>
      rw [List.map_cons, List.cons_prefix_cons] at hpre
      rw [hpre.1]
      exact List.cons_ne_nil _ _

theorem botched_of_served {gs : List Guru} {P : β → Prop} {k : Option β → C (Option γ)}
    (hx : Ends x w (Served w (gs.map .guru) P))
    (hnone : ∀ w1, Ends (k none) w1 fun o w2 => o = none ∧ w1.Asked [] w2)
    (hsome : ∀ b w1, P b → k (some b) w1 = .error .assertion) : Botched (x >>= k) w := by
  obtain ⟨o, w1, hrun, hserved⟩ := hx
  have hk : (x >>= k) w = k o w1 := run_bind hrun k
  cases o with
  | some b => exact .inl (hk.trans (hsome b w1 (hserved.made b rfl).1))
  | none =>
    obtain ⟨hn, -, asked, hne, hpre, hasked⟩ := hserved.refused rfl
    obtain ⟨_, w2, hrun2, rfl, h2⟩ := hnone w1
    refine .inr ⟨fun hg => hn (hg.grants _), w2, hk.trans hrun2, ?_⟩
    rw [h2.planned_eq, hasked.planned_eq, gurus_nil, List.append_nil]
    exact fun heq => gurus_ne_nil hpre hne (List.append_right_eq_self.mp heq)

end Outcomes

theorem assertion_fails {β : Type} {p : Prop} [Decidable p] (hp : ¬ p) (k : Unit → C β)
    (w : World) : (assert p >>= k) w = .error .assertion := by
  rw [assert, if_neg hp]
  rfl

theorem assertions_fail {β : Type} {p q : Prop} [Decidable p] [Decidable q] (hq : ¬ q)
    (k : C β) (w : World) :
    (do assert p
        assert q
        k) w = .error .assertion := by
  by_cases hp : p
  · rw [assert, if_pos hp, pure_bind]
    exact assertion_fails hq _ w
  · exact assertion_fails hp _ w

/-! ## The planners -/

section Planners

variable {env : Env} {i : Fin 3} {input output : FftwExtents} {w : World}

theorem FftwExtents.Void.dirs {e : FftwExtents} (h : e.Void) (slots : List (Fin 5)) (long : Fin 5) :
    (loopDirections e.order slots long).length = 0 ∨
      (loopDirections e.order slots long).length = slots.length := by
  have hmap : slots.map e.order = List.replicate slots.length 0 := by
    rw [List.eq_replicate_iff]
    exact ⟨List.length_map _, fun b hb => by
      obtain ⟨k, -, rfl⟩ := List.mem_map.mp hb
      exact h.order_eq k⟩
  rw [loopDirections, hmap, List.filter_replicate]
  split
  · exact .inr List.length_replicate
  · exact .inl rfl

theorem FftwExtents.Void.dirs_ne {e : FftwExtents} (h : e.Void) {slots : List (Fin 5)}
    (long : Fin 5) {n : Nat} (h0 : n ≠ 0) (hn : n ≠ slots.length) :
    (loopDirections e.order slots long).length ≠ n := by
  rcases h.dirs slots long with hl | hl <;> rw [hl]
  · exact h0.symm
  · exact hn.symm

theorem FftwExtents.Void.lt {e : FftwExtents} (h : e.Void) (slots : List (Fin 5)) :
    ∀ io ∈ slots.map e.order, io < 3 := by
  intro io hio
  obtain ⟨k, -, rfl⟩ := List.mem_map.mp hio
  rw [h.order_eq]
  decide

theorem rigor_eq {β : Type} {rigorFlags : Flags} (hr : rigorFlags.has nonRigorMask = false)
    (x y : C β) : (if rigorFlags.has nonRigorMask = true then x else y) = y :=
  if_neg (by rw [hr]; exact Bool.false_ne_true)

theorem c2cBetween_void (hin : input.Void) (hout : output.Void) (i : Fin 3) (inPlace : Bool) :
    (c2cBetween i inPlace input output).1.Void := by
  rw [c2cBetween]
  split
  · exact hout
  · exact hin

theorem c2cInternal_void (env : Env) (hin : input.Void) (hout : output.Void) (inp out : Ptr)
    {fftwSign : Int} (hsign : fftwSign = FFTW.FORWARD ∨ fftwSign = FFTW.BACKWARD)
    {rigorFlags : Flags} (hr : rigorFlags.has nonRigorMask = false) :
    let x := fftwPlanCreateC2cInternal env (i : Nat) (some inp) (some out) fftwSign rigorFlags input
      output
    (i = 0 → Stalls x w) ∧ (i ≠ 0 → Rejects x w) := by
  have hs : ¬ (fftwSign ≠ FFTW.FORWARD ∧ fftwSign ≠ FFTW.BACKWARD) := by
    rcases hsign with h | h <;> simp [h]
  simp only [fftwPlanCreateC2cInternal, direction?_of]
  rw [if_neg hs, rigor_eq hr, hin.order_eq, hout.order_eq]
  constructor
  · rintro rfl
    rw [if_neg (by decide)]
    refine space_stalls (fun _ => errorNull_asked _ _) fun addr w1 => ?_
    refine botched_of_served (c2cReorder_served _ (.inl (hin.order_eq 2))) Served.none_asked ?_
    rintro ⟨f, t⟩ w2 hre
    obtain ⟨-, -, -, -, -, ht⟩ := hre.extents
    have hvoid : t.1.Void := by
      rw [show t = c2cBetween 0 (inp == out) input output from ht]
      exact c2cBetween_void hin hout 0 _
    exact assertions_fail (hvoid.dirs_ne _ (by decide) (by decide)) _ _
  · intro hi
    have hne : ∀ i : Fin 3, i ≠ 0 → (0 : Fin 5) ≠ i.castAdd 2 := by decide
    rw [if_pos ⟨hne i hi, hne i hi⟩]
    exact rejects_of_asked (errorNull_asked _ _)

theorem c2rInternal_void (hin : input.Void) (hout : output.Void) (inp out : Ptr)
    {rigorFlags : Flags} (hr : rigorFlags.has nonRigorMask = false) :
    Stalls (fftwPlanCreateC2rBackwardInternal env (i : Nat) (some inp) (some out) rigorFlags input
      output) w := by
  simp only [fftwPlanCreateC2rBackwardInternal, direction?_of]
  rw [rigor_eq hr]
  refine space_stalls (fun _ => errorNull_asked _ _) fun addr w1 => ?_
  refine botched_of_served (c2rPreorder_served (hin.lt _) rfl inp out _) Served.none_asked ?_
  rintro f w2 ⟨q, rfl, -⟩
  exact fault_bind (assertions_fail (hout.dirs_ne _ (by decide) (by decide)) _ _) _

theorem r2cInternal_void (hin : input.Void) (inp out : Ptr) {rigorFlags : Flags}
    (hr : rigorFlags.has nonRigorMask = false) :
    Stalls (fftwPlanCreateR2cForwardInternal env (i : Nat) (some inp) (some out) rigorFlags input
      output) w := by
  simp only [fftwPlanCreateR2cForwardInternal, direction?_of]
  rw [rigor_eq hr]
  refine space_stalls (fun _ => errorNull_asked _ _) fun addr w1 => .inl ?_
  exact fault_bind (assertion_fails (hin.dirs_ne _ (by decide) (by decide)) _ _) _

/-- A planner that gets invalid extents. Only one of a complex transform notices, by the direction
they do not name. -/
theorem planner_void (env : Env) (hin : input.Void) (hout : output.Void) (inp out : Ptr)
    {rigorFlags : Flags} (hr : rigorFlags.has nonRigorMask = false) (c : Creator) (w : World) :
    let x := planner env c.type (i : Nat) (some inp) (some out) rigorFlags input output
    (i = 0 ∨ c.real = true → Stalls x w) ∧ (i ≠ 0 ∧ c.real = false → Rejects x w) := by
  cases c with
  | c2cForward =>
    obtain ⟨h0, hne⟩ := c2cInternal_void (i := i) (w := w) env hin hout inp out (.inl rfl) hr
    exact ⟨fun h => h0 (h.resolve_right Bool.false_ne_true), fun h => hne h.1⟩
  | c2cBackward =>
    obtain ⟨h0, hne⟩ := c2cInternal_void (i := i) (w := w) env hin hout inp out (.inr rfl) hr
    exact ⟨fun h => h0 (h.resolve_right Bool.false_ne_true), fun h => hne h.1⟩
  | c2rBackward => exact ⟨fun _ => c2rInternal_void hin hout inp out hr, nofun⟩
  | r2cForward => exact ⟨fun _ => r2cInternal_void hin inp out hr, nofun⟩

end Planners

/-! ## The creators -/

/-- Extents that neither kind of FFT extents is made of. -/
def Extents.Bad (e : Extents) : Prop := e.size 3 % 2 ≠ 0 ∨ e.order 0 ≠ 3

theorem createForComplex_bad {e : Extents} (h : e.Bad) (longNi : Int) :
    ∃ reason status, createFftwExtentsForComplex e longNi = errorVal reason status .invalid := by
  rw [createFftwExtentsForComplex]
  by_cases hodd : e.size 3 % 2 ≠ 0
  · exact ⟨_, _, if_pos hodd⟩
  · exact ⟨_, _, (if_neg hodd).trans (if_pos (h.resolve_left hodd))⟩

theorem createForReal_bad {e : Extents} (h : e.Bad) (longNi : Int) :
    ∃ reason status, createFftwExtentsForReal e longNi = errorVal reason status .invalid := by
  rw [createFftwExtentsForReal]
  by_cases hodd : e.size 3 % 2 ≠ 0
  · exact ⟨_, _, if_pos hodd⟩
  · exact ⟨_, _, (if_neg hodd).trans (if_pos (h.resolve_left hodd))⟩

section Creators

variable {env : Env} {problem : Option Problem} {i : Fin 3} {w : World}

theorem createSide_bad {e : Extents} (h : e.Bad) (c : Creator) (longNi : Int) :
    ∃ reason status, c.createSide e longNi = errorVal reason status .invalid := by
  cases c with
  | c2cForward | c2cBackward => exact createForComplex_bad h longNi
  | c2rBackward | r2cForward => exact createForReal_bad h longNi

theorem localExtents_unusable (hu : Unusable problem i) :
    Ends (localExtents problem (i : Nat)) w fun e w' => w.Asked [] w' ∧ e.Bad ∧
      ∃ e' n, adjustForFastStrideInLongDirection e (i : Nat) = pure (e', n) ∧ e'.Bad := by
  cases hu with
  | null =>
    refine (errorVal_asked (w := w) "problem == NULL" .einval Extents.invalid).mono ?_
    rintro _ w' ⟨rfl, h, -⟩
    exact ⟨h, .inr (by decide), .invalid, 0, rfl, .inr (by decide)⟩
  | odd he hodd =>
    rw [localExtents_some]
    obtain ⟨n, hadjust⟩ := adjust_pencil he
    refine .pure ⟨.refl w, .inl hodd, _, n, hadjust, .inl ?_⟩
    rwa [(adjusted_spec he).2.2]

theorem fftwSides_void (c : Creator) (hu : Unusable problem i) (inp out : Option Ptr)
    (packedFlags : Flags) :
    Ends (fftwSides c.createSide problem (i : Nat) inp out packedFlags) w fun o w' =>
      (w.Asked [] w' ∧ w.log.reports.length < w'.log.reports.length) ∧
        (inp = out ∧ Packs i packedFlags → o = none) ∧
        (¬ (inp = out ∧ Packs i packedFlags) → ∃ sides, o = some sides ∧ sides.1.Void ∧
          sides.2.Void) := by
  rw [fftwSides]
  refine .bind (localExtents_unusable hu) ?_
  rintro e w1 ⟨h1, hbad, e', n, hadjust, hbad'⟩
  obtain ⟨reason, status, hcomplex⟩ := createForComplex_bad hbad (i : Nat)
  obtain ⟨reason', status', hside⟩ := createSide_bad hbad' c (i : Nat)
  rw [hcomplex, hadjust]
  refine .bind (errorVal_asked reason status _) ?_
  rintro _ w2 ⟨rfl, h2, hlt⟩
  rw [pure_bind]
  dsimp only
  rw [hside]
  refine .bind (errorVal_asked reason' status' _) ?_
  rintro _ w3 ⟨rfl, h3, -⟩
  have hasked : w.Asked [] w3 := (h1.trans h2).trans h3
  have hreports : w.log.reports.length < w3.log.reports.length :=
    Nat.lt_of_le_of_lt h1.reports (Nat.lt_of_lt_of_le hlt h3.reports)
  show Ends (if Packs i packedFlags then _ else _) w3 _
  by_cases hp : Packs i packedFlags
  · rw [if_pos hp]
    by_cases hio : inp = out
    · rw [if_pos hio]
      refine (errorNull_asked _ _).mono ?_
      rintro _ w4 ⟨rfl, h4, -⟩
      exact ⟨⟨hasked.trans h4, Nat.lt_of_lt_of_le hreports h4.reports⟩, fun _ => rfl,
        fun hn => absurd ⟨hio, hp⟩ hn⟩
    · rw [if_neg hio]
      exact .pure ⟨⟨hasked, hreports⟩, fun h => absurd h.1 hio,
        fun _ => ⟨_, rfl, void_invalid, void_invalid.pack⟩⟩
  · rw [if_neg hp]
    exact .pure ⟨⟨hasked, hreports⟩, fun h => absurd h.2 hp,
      fun _ => ⟨_, rfl, void_invalid, void_invalid⟩⟩

/-- Whether a creator notices that it got unusable arguments: packing in place, a planner that
checks its buffers and flags first, or a direction that the invalid extents do not name. -/
def Noticed (c : Creator) (i : Fin 3) (inp out : Option Ptr) (rigorFlags packedFlags : Flags) :
    Prop :=
  inp = out ∧ Packs i packedFlags ∨ (inp = none ∨ out = none ∨ rigorFlags.has nonRigorMask = true) ∨
    i ≠ 0 ∧ (c.real = false ∨ inp = out)

theorem Creator.create_unusable (env : Env) (c : Creator) (hu : Unusable problem i)
    (inp out : Option Ptr) (rigorFlags packedFlags : Flags) (w : World) :
    let x := c.create env problem (i : Nat) inp out rigorFlags packedFlags
    (Noticed c i inp out rigorFlags packedFlags → Rejects x w) ∧
      (¬ Noticed c i inp out rigorFlags packedFlags → Stalls x w) := by
  obtain ⟨o, w1, hrun, ⟨hasked, hlt⟩, hpacks, hsides⟩ :=
    fftwSides_void (w := w) c hu inp out packedFlags
  have hx : c.create env problem (i : Nat) inp out rigorFlags packedFlags w =
      c.planSides env (i : Nat) inp out rigorFlags o w1 := by
    rw [c.create_eq]
    exact run_bind hrun _
  by_cases hp : inp = out ∧ Packs i packedFlags
  · refine ⟨fun _ => ?_, fun h => absurd (.inl hp) h⟩
    rw [hpacks hp] at hx
    exact ⟨none, w1, hx, rfl, hlt, hasked.planned_eq.trans (List.append_nil _)⟩
  obtain ⟨sides, rfl, hstored, hadjusted⟩ := hsides hp
  obtain ⟨hin, hout⟩ : (c.ordered sides).1.Void ∧ (c.ordered sides).2.Void := by
    cases c with
    | r2cForward => exact ⟨hadjusted, hstored⟩
    | _ => exact ⟨hstored, hadjusted⟩
  have hval : ((sides.1.order 2 : Nat) : Int) ≠ (i : Nat) ↔ i ≠ 0 := by
    have : ∀ i : Fin 3, (((0 : Fin 5) : Nat) : Int) ≠ (i : Nat) ↔ i ≠ 0 := by decide
    rw [hstored.order_eq]
    exact this i
  simp only [Creator.planSides, hval] at hx
  by_cases hplace : c.real = true ∧ inp = out ∧ i ≠ 0
  · rw [if_pos hplace] at hx
    exact ⟨fun _ => (rejects_of_asked (errorNull_asked _ _)).of_eq hx hasked rfl,
      fun h => absurd (.inr (.inr ⟨hplace.2.2, .inr hplace.2.1⟩)) h⟩
  rw [if_neg hplace] at hx
  by_cases hbad : inp = none ∨ out = none ∨ rigorFlags.has nonRigorMask = true
  · exact ⟨fun _ => (rejects_of_asked (planner_refused env hbad _ _ _ w1)).of_eq hx hasked rfl,
      fun h => absurd (.inr (.inl hbad)) h⟩
  obtain ⟨hinp, hout', hr⟩ := not_or.mp hbad |>.imp_right not_or.mp
  obtain ⟨inp, rfl⟩ := Option.ne_none_iff_exists'.mp hinp
  obtain ⟨out, rfl⟩ := Option.ne_none_iff_exists'.mp hout'
  obtain ⟨hstalls, hrejects⟩ :=
    planner_void (i := i) env hin hout inp out (Bool.eq_false_iff.mpr hr) c w1
  by_cases hnamed : i ≠ 0 ∧ c.real = false
  · exact ⟨fun _ => (hrejects hnamed).of_eq hx hasked rfl,
      fun h => absurd (.inr (.inr ⟨hnamed.1, .inl hnamed.2⟩)) h⟩
  · refine ⟨fun h => ?_, fun _ => (hstalls ?_).of_eq hx hasked⟩
    · rcases h with h | h | ⟨hi, h | h⟩
      · exact absurd h hp
      · exact absurd h hbad
      · exact absurd ⟨hi, h⟩ hnamed
      · exact absurd ⟨by simpa [hi] using hnamed, h, hi⟩ hplace
    · rw [not_and_or, not_not] at hnamed
      simpa using hnamed

theorem Creator.unusable_not_made (env : Env) (c : Creator) (hu : Unusable problem i)
    (inp out : Option Ptr) (rigorFlags packedFlags : Flags) (w w' : World) (f : FftPlan) :
    c.create env problem (i : Nat) inp out rigorFlags packedFlags w ≠ .ok (some f, w') := by
  obtain ⟨hnoticed, hstalls⟩ := c.create_unusable env hu inp out rigorFlags packedFlags w
  by_cases hn : Noticed c i inp out rigorFlags packedFlags
  · exact (hnoticed hn).not_made f w'
  · exact (hstalls hn).not_made f w'

end Creators

/-! ## Odd numbers of fields -/

/-- With an odd number of fields the creators come to a clean end exactly where the invalid extents
are noticed, or where there is no space for the plan. -/
theorem odd_howmany_rejected_iff {env : Env} {problem : Problem} (hp : IsProblem env problem)
    (hodd : problem.howmany % 2 ≠ 0) (c : Creator) (i : Fin 3) (inp out : Ptr) {rigorFlags : Flags}
    (hr : rigorFlags.has nonRigorMask = false) (packedFlags : Flags) (w : World) :
    Rejects (c.create env (some problem) (i : Nat) (some inp) (some out) rigorFlags packedFlags) w ↔
      inp = out ∧ Packs i packedFlags ∨ i ≠ 0 ∧ (c.real = false ∨ inp = out) ∨
        w.refuse w.requests = true := by
  have hu : Unusable (some problem) i := .odd (hp.pencil i) (hp.size_three i ▸ hodd)
  obtain ⟨hnoticed, hstalls⟩ :=
    c.create_unusable env hu (some inp) (some out) rigorFlags packedFlags w
  have hiff : Noticed c i (some inp) (some out) rigorFlags packedFlags ↔
      inp = out ∧ Packs i packedFlags ∨ i ≠ 0 ∧ (c.real = false ∨ inp = out) := by
    simp [Noticed, hr]
  rw [hiff] at hnoticed hstalls
  rw [← or_assoc]
  by_cases hn : inp = out ∧ Packs i packedFlags ∨ i ≠ 0 ∧ (c.real = false ∨ inp = out)
  · exact iff_of_true (hnoticed hn) (.inl hn)
  rw [or_iff_right hn]
  obtain ⟨hrefused, hbotched⟩ := hstalls hn
  refine ⟨fun h => ?_, hrefused⟩
  by_contra hgrants
  exact (hbotched (Bool.eq_false_iff.mpr hgrants)).not_rejects h

/-- With three fields and all requests granted, a plan for the first direction fails an
assertion. -/
theorem odd_howmany_fails :
    ∃ job : Job .reference, (job.n0 = 4 ∧ job.n1 = 5 ∧ job.n2 = 3) ∧
      (job.pA = 2 ∧ job.pB = 3) ∧ job.howmany = 3 ∧
      let x := Creator.c2cForward.create .reference (some (job.problem 1 1)) 0 (some 0) (some 1)
        FFTW.ESTIMATE 0
      x .granting = .error .assertion ∧ ¬ Rejects x .granting := by
  obtain ⟨job, hn, hp, hhow, -, -⟩ := exists_admitted 4 5 3 2 3 3 0 (by decide)
  have ha : 1 < job.pA := by omega
  have hb : 1 < job.pB := by omega
  have hproblem := job.isProblem ha hb
  have hodd : (job.problem 1 1).howmany % 2 ≠ 0 := by
    rw [job.howmany_eq ha hb]
    omega
  have hu : Unusable (some (job.problem 1 1)) 0 :=
    .odd (hproblem.pencil 0) (hproblem.size_three 0 ▸ hodd)
  have hbotched : Botched (Creator.c2cForward.create .reference (some (job.problem 1 1)) 0 (some 0)
      (some 1) FFTW.ESTIMATE 0) .granting :=
    ((Creator.c2cForward.create_unusable .reference hu (some 0) (some 1) FFTW.ESTIMATE 0
      .granting).2 (by simp [Noticed, show FFTW.ESTIMATE.has nonRigorMask = false by decide])).2 rfl
  exact ⟨job, hn, hp, hhow, hbotched.of_granted World.granting_granted, hbotched.not_rejects⟩

/-- A complex transform along the second direction is rejected. -/
theorem odd_howmany_rejected_c2c :
    ∃ job : Job .reference, (job.n0 = 4 ∧ job.n1 = 5 ∧ job.n2 = 3) ∧
      (job.pA = 2 ∧ job.pB = 3) ∧ job.howmany = 3 ∧
      (Rejects (Creator.c2cForward.create .reference (some (job.problem 1 1)) 1 (some 0) (some 1)
        FFTW.ESTIMATE 0) .granting ↔
        (0 : Ptr) = 1 ∧ Packs 1 0 ∨
          (1 : Fin 3) ≠ 0 ∧ (Creator.c2cForward.real = false ∨ (0 : Ptr) = 1) ∨
          World.granting.refuse World.granting.requests = true) := by
  obtain ⟨job, hn, hp, hhow, -, -⟩ := exists_admitted 4 5 3 2 3 3 0 (by decide)
  have ha : 1 < job.pA := by omega
  have hb : 1 < job.pB := by omega
  have hodd : (job.problem 1 1).howmany % 2 ≠ 0 := by
    rw [job.howmany_eq ha hb]
    omega
  exact ⟨job, hn, hp, hhow, odd_howmany_rejected_iff (job.isProblem ha hb) hodd .c2cForward 1 0 1
    (by decide) 0 .granting⟩

end Underling
