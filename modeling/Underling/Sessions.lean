import Underling.Creators
import Underling.Handles
import Underling.Ownership
import Mathlib.Logic.Relation

/-!
# Underling.Sessions

A process that creates grids, problems, plans and FFT plans and destroys them again, in any order,
while any allocation and any planner request may be refused.

* `create_owns`, `destroy_owns`: what one call does to what the process owns.
* `Session.Step.covers`, `Session.Step.genuine`: what every step of a session preserves.
* `session_sound`: in every session, what is live is what the handles own.
-/

namespace Underling

open Runs C Ledgers

/-- What a process holds. -/
inductive Handle where
  | grid (g : Grid)
  | problem (p : Problem)
  | plan (p : Plan)
  | fft (f : FftPlan)

namespace Handle

def owned : Handle → Multiset Resource
  | grid g => g.owned
  | problem p => p.owned
  | plan p => p.owned
  | fft f => f.owned

def destroy : Handle → C Unit
  | grid g => gridDestroy (some g)
  | problem p => problemDestroy (some p)
  | plan p => planDestroy (some p)
  | fft f => fftwPlanDestroy (some f)

end Handle

/-- A call that creates a handle. The sizes of a grid are `int`s. -/
inductive Creation where
  | grid (coords : Nat × Nat) (comm : Option Comm) (n0 n1 n2 : BitVec 32) (pA pB : Int)
  | problem (bcast : Comm → Nat × Nat → Nat × Nat) (grid : Option Grid) (howmany : Int)
      (flags : Flags)
  | plan (problem : Option Problem) (inp out : Option Ptr) (transposeFlags rigorFlags : Flags)
  | fft (creator : Creator) (problem : Option Problem) (longNi : Int) (inp out : Option Ptr)
      (rigorFlags packedFlags : Flags)

namespace Creation

def run (env : Env) : Creation → C (Option Handle)
  | grid coords comm n0 n1 n2 pA pB =>
    Option.map .grid <$> gridCreate env coords comm n0.toInt n1.toInt n2.toInt pA pB
  | problem bcast g howmany flags =>
    Option.map .problem <$> problemCreate env bcast g howmany flags
  | plan p inp out transposeFlags rigorFlags =>
    Option.map .plan <$> planCreate env p inp out transposeFlags rigorFlags
  | fft c p longNi inp out rigorFlags packedFlags =>
    Option.map .fft <$> c.create env p longNi inp out rigorFlags packedFlags

/-- The handle it is given, unless that is `NULL`. -/
def given : Creation → Option Handle
  | grid .. => none
  | problem _ g _ _ => g.map .grid
  | plan p .. => p.map .problem
  | fft _ p .. => p.map .problem

/-- FFT plans are made of a problem with an even number of fields, in a direction of the domain; the
other creators report what they do not accept. -/
def Valid : Creation → Prop
  | fft _ source longNi .. =>
    0 ≤ longNi ∧ longNi ≤ 2 ∧ ∃ p, source = some p ∧ p.howmany % 2 = 0
  | _ => True

end Creation

/-- A process: its world, and the handles that were returned and not destroyed so far. -/
structure Session where
  world : World
  handles : List Handle

/-- One call of the library. A creator gets handles that are live; it adds the one it returns. -/
inductive Session.Step (env : Env) : Session → Session → Prop where
  | create {s : Session} {c : Creation} {o : Option Handle} {w' : World} :
      (∀ h, c.given = some h → h ∈ s.handles) → c.run env s.world = .ok (o, w') →
      Session.Step env s ⟨w', o.toList ++ s.handles⟩
  | destroy {w w' : World} {before after : List Handle} {h : Handle} :
      h.destroy w = .ok ((), w') → Session.Step env ⟨w, before ++ h :: after⟩ ⟨w', before ++ after⟩

/-- A session after any number of calls, started with nothing; `refuse` tells which requests are
refused. -/
def Reached (env : Env) (refuse : Nat → Bool) : Session → Prop :=
  Relation.ReflTransGen (Session.Step env) ⟨.init refuse, []⟩

/-- What is live is what the handles own: each resource once, through one handle. A released
resource was live, so it is not released again: its number is not handed out a second time. -/
structure Session.Accounted (s : Session) : Prop where
  live_iff : ∀ r, r ∈ s.world.live ↔ ∃ h ∈ s.handles, r ∈ h.owned
  live_once : s.world.live.Nodup
  owned_once : ∀ h ∈ s.handles, h.owned.Nodup
  one_owner : s.handles.Pairwise fun h h' => Disjoint h.owned h'.owned
  released_live : s.world.badRelease = []
  numbers_used : ∀ r ∈ s.world.live, r.id < s.world.fresh

/-! ## What a call does to what is owned -/

section Owned

variable {env : Env}

/-- A creator that returns `NULL` leaves nothing behind. -/
theorem create_owns (c : Creation) :
    Owns (c.run env) 0 fun o m => m = held Handle.owned o := by
  have hmap : ∀ {α : Type} {owned : α → Multiset Resource} {wrap : α → Handle} {o : Option α},
      (∀ a, (wrap a).owned = owned a) → held owned o = held Handle.owned (o.map wrap) := by
    intro α owned wrap o hwrap
    cases o with
    | none => rfl
    | some a => exact (hwrap a).symm
  cases c with
  | grid => exact (gridCreate_owns _ _ _ _ _ _ _).map fun o m hm => hm.trans (hmap fun _ => rfl)
  | problem => exact (problemCreate_owns _ _ _ _).map fun o m hm => hm.trans (hmap fun _ => rfl)
  | plan => exact (planCreate_owns _ _ _ _ _).map fun o m hm => hm.trans (hmap fun _ => rfl)
  | fft => exact (fftCreate_owns _ _ _ _ _ _ _).map fun o m hm => hm.trans (hmap fun _ => rfl)

theorem destroy_owns (h : Handle) : Owns h.destroy h.owned fun _ m => m = 0 := by
  cases h with
  | grid g => exact gridDestroy_owns (some g)
  | problem p => exact problemDestroy_owns (some p)
  | plan p => exact planDestroy_owns (some p)
  | fft f => exact fftwPlanDestroy_owns (some f)

end Owned

/-! ## Calls come to an end -/

section Ends

variable {env : Env} {w : World}

theorem planDestroy_ends (p : Plan) : Ends (planDestroy (some p)) w fun _ _ => True := by
  refine destroyPlanOf_bind fun w1 => destroyPlanOf_bind fun w2 => ?_
  exact destroyPlanOf_bind fun w3 => destroyPlanOf_bind fun w4 => .of_modify trivial

theorem destroy_ends (h : Handle) : Ends h.destroy w fun _ _ => True := by
  cases h with
  | grid g =>
    refine release_bind fun w1 => release_bind fun w2 => release_bind fun w3 => ?_
    exact .of_modify trivial
  | problem p =>
    refine transposeDestroy_bind fun w1 => transposeDestroy_bind fun w2 => ?_
    exact transposeDestroy_bind fun w3 => transposeDestroy_bind fun w4 => .of_modify trivial
  | plan p => exact planDestroy_ends p
  | fft f => exact (fftwPlanDestroy_asked f).mono fun _ _ _ => trivial

/-- How the handles a process holds were obtained. -/
def Handle.Genuine (env : Env) : Handle → Prop
  | .grid g => ∃ (coords : Nat × Nat) (comm : Comm) (n0 n1 n2 : BitVec 32) (pA pB : Int)
      (w w' : World),
      gridCreate env coords (some comm) n0.toInt n1.toInt n2.toInt pA pB w = .ok (some g, w')
  | .problem p => IsProblem env p
  | _ => True

theorem toInt_le_intMax (n : BitVec 32) : n.toInt ≤ INT_MAX := by
  have := BitVec.two_mul_toInt_lt (x := n)
  simp only [INT_MAX]
  omega

theorem create_genuine {c : Creation} (hg : ∀ h, c.given = some h → h.Genuine env)
    {h : Handle} {w' : World} (hrun : c.run env w = .ok (some h, w')) : h.Genuine env := by
  cases c with
  | grid coords comm n0 n1 n2 pA pB =>
    obtain ⟨_ | g, hg', ho⟩ := ok_map hrun <;> cases ho
    cases comm with
    | none => cases hg'
    | some comm => exact ⟨coords, comm, n0, n1, n2, pA, pB, w, w', hg'⟩
  | problem bcast g howmany flags =>
    obtain ⟨_ | p, hp, ho⟩ := ok_map hrun <;> cases ho
    cases g with
    | none => cases hp
    | some g =>
      obtain ⟨_, _, n0, n1, n2, _, _, _, _, hgrid⟩ := hg (.grid g) rfl
      exact .created (toInt_le_intMax n0) (toInt_le_intMax n1) (toInt_le_intMax n2) hgrid hp
  | plan =>
    obtain ⟨_ | p, -, ho⟩ := ok_map hrun <;> cases ho
    trivial
  | fft =>
    obtain ⟨_ | f, -, ho⟩ := ok_map hrun <;> cases ho
    trivial

theorem create_ends {c : Creation} (hg : ∀ h, c.given = some h → h.Genuine env) (hv : c.Valid) :
    Ends (c.run env) w fun _ _ => True := by
  have hat : w.At w.log False := ⟨rfl, False.elim⟩
  cases c with
  | grid coords comm n0 n1 n2 pA pB =>
    refine Ends.map (Q := fun _ _ => True) ?_ fun _ _ _ => trivial
    cases comm with
    | none => exact errorNull_none fun _ => trivial
    | some comm => exact (gridCreate_ends hat).mono fun _ _ _ => trivial
  | problem bcast g howmany flags =>
    refine Ends.map (Q := fun _ _ => True) ?_ fun _ _ _ => trivial
    cases g with
    | none => exact errorNull_none fun _ => trivial
    | some g =>
      obtain ⟨_, _, n0, n1, n2, _, _, _, _, hgrid⟩ := hg (.grid g) rfl
      have hsize := gridCreate_int (toInt_le_intMax n0) (toInt_le_intMax n1) (toInt_le_intMax n2)
        hgrid
      exact (problemCreate_ends hat fun i => (hsize i).2).mono fun _ _ _ => trivial
  | plan p inp out transposeFlags rigorFlags =>
    refine Ends.map (Q := fun _ _ => True) ?_ fun _ _ _ => trivial
    cases p with
    | none => exact errorNull_none fun _ => trivial
    | some p =>
    cases inp with
    | none => exact errorNull_none fun _ => trivial
    | some inp =>
    cases out with
    | none => exact errorNull_none fun _ => trivial
    | some out => exact (planCreate_ends hat _ _).mono fun _ _ _ => trivial
  | fft c problem longNi inp out rigorFlags packedFlags =>
    refine Ends.map (Q := fun _ _ => True) ?_ fun _ _ _ => trivial
    obtain ⟨hlow, hhigh, p, rfl, heven⟩ := hv
    obtain ⟨i, rfl⟩ : ∃ i : Fin 3, longNi = (i : Nat) := ⟨⟨longNi.toNat, by omega⟩, by simp; omega⟩
    have hp : IsProblem env p := hg (.problem p) rfl
    rw [← hp.size_three i] at heven
    exact c.create_ends (hp.pencil i) heven (hp.size_long_pos i) env inp out rigorFlags
      packedFlags w

end Ends

/-! ## Sessions -/

section Sessions

variable {env : Env} {refuse : Nat → Bool} {s s' : Session}

/-- The ledger covers exactly what the handles own. -/
def Session.Covered (s : Session) : Prop :=
  s.world.ledger.Covers (s.handles.map Handle.owned).sum

theorem Session.Step.covers (h : Session.Step env s s') (hc : s.Covered) : s'.Covered := by
  cases h with
  | @create _ c o w' _ hrun =>
    rw [Session.Covered, ← zero_add (List.sum _)] at hc
    obtain ⟨_, rfl, hc'⟩ := create_owns c hc hrun
    cases o with
    | none =>
      rw [held_none, zero_add] at hc'
      exact hc'
    | some h =>
      show Ledger.Covers _ ((h :: s.handles).map Handle.owned).sum
      rw [List.map_cons, List.sum_cons]
      exact hc'
  | @destroy w w' before after h hrun =>
    have hsum : ((before ++ h :: after).map Handle.owned).sum =
        h.owned + ((before ++ after).map Handle.owned).sum := by
      simp only [List.map_append, List.map_cons, List.sum_append, List.sum_cons]
      abel
    rw [Session.Covered, hsum] at hc
    obtain ⟨_, rfl, hc'⟩ := destroy_owns h hc hrun
    rw [zero_add] at hc'
    exact hc'

theorem Session.Step.genuine (h : Session.Step env s s') (hg : ∀ h ∈ s.handles, h.Genuine env) :
    ∀ h ∈ s'.handles, h.Genuine env := by
  cases h with
  | @create _ c o w' hlive hrun =>
    intro h hmem
    rcases List.mem_append.mp hmem with ho | hs
    · rw [Option.mem_toList.mp ho] at hrun
      exact create_genuine (fun h' hh' => hg h' (hlive h' hh')) hrun
    · exact hg h hs
  | @destroy w w' before after d hrun =>
    intro h hmem
    refine hg h (List.mem_append.mpr ?_)
    exact (List.mem_append.mp hmem).imp_right (List.mem_cons_of_mem _)

theorem Reached.invariant (h : Reached env refuse s) :
    s.Covered ∧ ∀ h ∈ s.handles, h.Genuine env := by
  induction h with
  | refl => exact ⟨⟨rfl, Multiset.nodup_zero, rfl, by simp⟩, by simp⟩
  | tail _ hstep ih => exact ⟨hstep.covers ih.1, hstep.genuine ih.2⟩

theorem Session.Covered.accounted (h : s.Covered) : s.Accounted := by
  have hlive : ∀ r, r ∈ s.world.live ↔ r ∈ (s.handles.map Handle.owned).sum := fun r => by
    rw [← h.live_eq]
    exact Multiset.mem_coe.symm
  obtain ⟨hown, hone⟩ := nodup_sum_owned.mp h.nodup
  refine ⟨fun r => (hlive r).trans mem_sum_owned, ?_, hown, hone, h.clean, fun r hr => ?_⟩
  · have hnodup := h.nodup
    rw [← h.live_eq] at hnodup
    exact Multiset.coe_nodup.mp hnodup
  · exact Nat.lt_of_not_le (h.used r ((hlive r).mp hr))

end Sessions

/-- What is live is accounted for, and every valid call and every destructor comes to an end. -/
structure Session.Sound (env : Env) (s : Session) : Prop where
  accounted : s.Accounted
  create_ends : ∀ c : Creation, (∀ h, c.given = some h → h ∈ s.handles) → c.Valid →
    ∃ o w', c.run env s.world = .ok (o, w')
  destroy_ends : ∀ h ∈ s.handles, ∃ w', h.destroy s.world = .ok ((), w')

theorem session_sound {env : Env} {refuse : Nat → Bool} {s : Session}
    (h : Reached env refuse s) : s.Sound env := by
  obtain ⟨hcovered, hgenuine⟩ := h.invariant
  refine ⟨hcovered.accounted, fun c hgiven hvalid => ?_, fun h _ => ?_⟩
  · obtain ⟨o, w', hrun, -⟩ := create_ends (fun h hh => hgenuine h (hgiven h hh)) hvalid
    exact ⟨o, w', hrun⟩
  · obtain ⟨_, w', hrun, -⟩ := destroy_ends (w := s.world) h
    exact ⟨w', hrun⟩

/-- A problem whose second transpose is refused leaves only the grid. -/
theorem session_sound_refused : ∃ s : Session, Reached .reference (fun k => k == 3) s ∧
    s.handles.length = 1 ∧ s.world.requests = 4 ∧ s.Sound .reference := by
  let g : Grid :=
    { addr := 0, n := ![4, 4, 2], pA := 2, pB := 1, gComm := ⟨1, .grid, 0, 2⟩
      pAComm := ⟨2, .pA, 0, 2⟩, pBComm := ⟨3, .pB, 0, 1⟩ }
  let calls : List (Dir × Call) :=
    [(.world, .cartCreate 2 1), (.grid, .cartSub .pA), (.grid, .cartSub .pB)]
  let w1 : World :=
    { refuse := fun k => k == 3, requests := 1, fresh := 4, badRelease := []
      live := [.comm 3, .comm 2, .comm 1, .block 0], log := ⟨[], calls, []⟩ }
  have hgrid : Session.Step .reference ⟨.init fun k => k == 3, []⟩ ⟨w1, [.grid g]⟩ :=
    .create (c := .grid (0, 0) (some (.world 2 0)) 4 4 2 2 1) (o := some (.grid g))
      (fun _ hh => by cases hh) rfl
  obtain ⟨w2, hrun, hrequests⟩ : ∃ w2,
      (Creation.problem (fun _ v => v) (some g) 2 0).run .reference w1 = .ok (none, w2) ∧
        w2.requests = 4 := by
    simp only [w1, g, calls]
    refine ⟨_, rfl, ?_⟩
    rfl
  have hproblem : Session.Step .reference ⟨w1, [.grid g]⟩ ⟨w2, [.grid g]⟩ := by
    refine .create (s := ⟨w1, [.grid g]⟩) (c := .problem (fun _ v => v) (some g) 2 0) ?_ hrun
    intro h hh
    cases hh
    exact List.mem_singleton_self _
  have hreached : Reached .reference (fun k => k == 3) ⟨w2, [.grid g]⟩ :=
    .tail (.single hgrid) hproblem
  exact ⟨_, hreached, rfl, hrequests, session_sound hreached⟩

end Underling
