import Underling.World
import Mathlib.Data.List.DropRight
import Mathlib.Data.List.GetD

/-!
# Underling.Trim

`trim` of `underling_bench`, which the parser of the command line calls on every argument. Memory is
numbered from the first character of the argument, and every access is recorded.

* `skip_ends`, `copy_ends`, `strip_ends`: where the three loops end and what they leave.
* `trim_iff`: the argument is trimmed in place, and nothing else is accessed, exactly when it has a
  character that is no white space.
-/

namespace Underling

open Runs

/-- Memory, and the positions accessed so far. -/
structure Bytes where
  mem : Int → BitVec 8
  touched : List Int

/-- `isspace` in the C locale. -/
def isspace (c : BitVec 8) : Bool := c = 32 ∨ 9 ≤ c ∧ c ≤ 13

namespace Trim

/-- A run over memory; a loop out of fuel is one that goes on. -/
abbrev M (α : Type) := StateT Bytes (Except Fault) α

def read (p : Int) : M (BitVec 8) := fun s =>
  .ok (s.mem p, { s with touched := s.touched ++ [p] })

def write (p : Int) (c : BitVec 8) : M Unit := fun s =>
  .ok ((), { mem := Function.update s.mem p c, touched := s.touched ++ [p] })

/-- `while (isspace(*b)) ++b;` -/
def skipLoop : Nat → Int → M Int
  | 0, _ => throw .diverges
  | fuel + 1, b => do
    if isspace (← read b) then skipLoop fuel (b + 1) else return b

/-- `while (*b) *a++ = *b++;` -/
def copyLoop : Nat → Int → Int → M Int
  | 0, _, _ => throw .diverges
  | fuel + 1, a, b => do
    if (← read b) ≠ 0 then
      write a (← read b)
      copyLoop fuel (a + 1) (b + 1)
    else return a

/-- `while (isspace(*--a)) *a = '\0';` -/
def stripLoop : Nat → Int → M Unit
  | 0, _ => throw .diverges
  | fuel + 1, a => do
    let a := a - 1
    if isspace (← read a) then
      write a 0
      stripLoop fuel a

/-- `trim`, with `fuel` rounds for each loop. -/
def trim (fuel : Nat) : M Unit := do
  let b ← skipLoop fuel 0
  let a ← copyLoop fuel 0 b
  write a 0
  stripLoop fuel a

end Trim

/-- The string `l` is stored at position 0, with its `'\0'`. -/
structure StringAt (mem : Int → BitVec 8) (l : List (BitVec 8)) : Prop where
  char : ∀ (k : Nat) (h : k < l.length), mem k = l[k]
  terminator : mem l.length = 0
  nonzero : 0 ∉ l

/-- The characters from the first to the last that is no white space. -/
def trimmed (l : List (BitVec 8)) : List (BitVec 8) := (l.dropWhile isspace).rdropWhile isspace

/-- `trim` comes to an end, accesses only the string and its `'\0'`, and leaves the trimmed string
in its place. -/
def Trims (mem : Int → BitVec 8) (l : List (BitVec 8)) : Prop :=
  ∃ fuel s, Trim.trim fuel ⟨mem, []⟩ = .ok ((), s) ∧
    (∀ p ∈ s.touched, 0 ≤ p ∧ p ≤ l.length) ∧ StringAt s.mem (trimmed l)

namespace Trim

/-- All accesses between the two states lie in `[lo, hi]`. -/
def Within (lo hi : Int) (s s' : Bytes) : Prop :=
  ∃ ps, s'.touched = s.touched ++ ps ∧ ∀ p ∈ ps, lo ≤ p ∧ p ≤ hi

section Loops

variable {lo hi a b : Int} {s s' s'' : Bytes} {n fuel : Nat}

theorem Within.trans (h : Within lo hi s s') (h' : Within lo hi s' s'') : Within lo hi s s'' := by
  obtain ⟨ps, hs, hps⟩ := h
  obtain ⟨qs, hs', hqs⟩ := h'
  refine ⟨ps ++ qs, by rw [hs', hs, List.append_assoc], fun p hp => ?_⟩
  rcases List.mem_append.mp hp with hp | hp
  · exact hps p hp
  · exact hqs p hp

theorem Within.mono {lo' hi' : Int} (h : Within lo hi s s') (hlo : lo' ≤ lo) (hhi : hi ≤ hi') :
    Within lo' hi' s s' := by
  obtain ⟨ps, hs, hps⟩ := h
  refine ⟨ps, hs, fun p hp => ?_⟩
  have := hps p hp
  omega

theorem read_ends (lo hi : Int) {p : Int} (hlo : lo ≤ p) (hhi : p ≤ hi) :
    Ends (read p) s fun c s' => c = s.mem p ∧ s'.mem = s.mem ∧ Within lo hi s s' :=
  ⟨_, _, rfl, rfl, rfl, [p], rfl, by simp [hlo, hhi]⟩

theorem write_ends (lo hi : Int) {p : Int} (hlo : lo ≤ p) (hhi : p ≤ hi) (c : BitVec 8) :
    Ends (write p c) s fun _ s' => s'.mem = Function.update s.mem p c ∧ Within lo hi s s' :=
  ⟨_, _, rfl, rfl, [p], rfl, by simp [hlo, hhi]⟩

theorem skip_ends (hspace : ∀ k : Nat, k < n → isspace (s.mem (b + k)) = true)
    (hend : isspace (s.mem (b + n)) = false) (hfuel : n < fuel) :
    Ends (skipLoop fuel b) s fun b' s' => b' = b + n ∧ s'.mem = s.mem ∧ Within b (b + n) s s' := by
  induction fuel generalizing b n s with
  | zero => omega
  | succ fuel ih =>
    refine .bind (read_ends b (b + n) (Int.le_refl b) (by omega)) ?_
    rintro c s1 ⟨rfl, hmem, hw⟩
    cases n with
    | zero =>
      have hb : isspace (s.mem b) = false := by simpa using hend
      rw [hb]
      exact .pure ⟨by simp, hmem, hw⟩
    | succ n =>
      have hb : isspace (s.mem b) = true := by simpa using hspace 0 (Nat.succ_pos n)
      have hnext : ∀ k : Nat, b + 1 + (k : Int) = b + (k + 1 : Nat) := fun k => by
        omega
      rw [hb]
      refine (ih (s := s1) (b := b + 1) (n := n) ?_ ?_ (by omega)).mono ?_
      · intro k hk
        rw [hmem, hnext]
        exact hspace (k + 1) (by omega)
      · rw [hmem, hnext]
        exact hend
      · rintro b' s2 ⟨rfl, hmem2, hw2⟩
        exact ⟨hnext n, hmem2.trans hmem, hw.trans (hw2.mono (by omega) (by omega))⟩

/-- The second loop moves the characters before the `'\0'` down. What it still has to read lies
above what it wrote. -/
theorem copy_ends (hab : a ≤ b) (hchar : ∀ k : Nat, k < n → s.mem (b + k) ≠ 0)
    (hend : s.mem (b + n) = 0) (hfuel : n < fuel) :
    Ends (copyLoop fuel a b) s fun a' s' => a' = a + n ∧
      (∀ p, s'.mem p = if a ≤ p ∧ p < a + n then s.mem (b + (p - a)) else s.mem p) ∧
      Within a (b + n) s s' := by
  induction fuel generalizing a b n s with
  | zero => omega
  | succ fuel ih =>
    refine .bind (read_ends a (b + n) (p := b) (by omega) (by omega)) ?_
    rintro c s1 ⟨rfl, hmem, hw⟩
    cases n with
    | zero =>
      have hb : s.mem b = 0 := by simpa using hend
      rw [if_neg (not_not.mpr hb)]
      refine .pure ⟨by simp, fun p => ?_, hw⟩
      rw [if_neg (by omega), hmem]
    | succ n =>
      have hb : s.mem b ≠ 0 := by simpa using hchar 0 (Nat.succ_pos n)
      have hnext : ∀ k : Nat, b + 1 + (k : Int) = b + (k + 1 : Nat) := fun k => by
        omega
      rw [if_pos hb]
      refine .bind (read_ends a (b + (n + 1 : Nat)) (p := b) hab (by omega)) ?_
      rintro c s2 ⟨rfl, hmem2, hw2⟩
      refine .bind (write_ends a (b + (n + 1 : Nat)) (Int.le_refl a) (by omega) _) ?_
      rintro ⟨⟩ s3 ⟨hmem3, hw3⟩
      have hs3 : ∀ p, p ≠ a → s3.mem p = s.mem p := fun p hp => by
        rw [hmem3, Function.update_of_ne hp, hmem2, hmem]
      refine (ih (s := s3) (a := a + 1) (b := b + 1) (n := n) (by omega) ?_ ?_ (by omega)).mono ?_
      · intro k hk
        rw [hnext, hs3 _ (by omega)]
        exact hchar (k + 1) (by omega)
      · rw [hnext, hs3 _ (by omega)]
        exact hend
      · rintro a' s4 ⟨rfl, hmem4, hw4⟩
        refine ⟨by omega, fun p => ?_,
          ((hw.trans hw2).trans hw3).trans (hw4.mono (by omega) (by omega))⟩
        rw [hmem4]
        by_cases hpa : p = a
        · subst hpa
          rw [if_neg (by omega), if_pos (by omega), hmem3, Function.update_self, hmem]
          simp
        · by_cases hin : a ≤ p ∧ p < a + (n + 1 : Nat)
          · rw [if_pos (by omega), if_pos hin, hs3 _ (by omega)]
            congr 1
            omega
          · rw [if_neg (by omega), if_neg hin, hs3 _ hpa]

theorem strip_ends (hspace : ∀ k : Nat, k < n → isspace (s.mem (a - 1 - k)) = true)
    (hend : isspace (s.mem (a - 1 - n)) = false) (hfuel : n < fuel) :
    Ends (stripLoop fuel a) s fun _ s' =>
      (∀ p, s'.mem p = if a - n ≤ p ∧ p < a then 0 else s.mem p) ∧
        Within (a - 1 - n) (a - 1) s s' := by
  induction fuel generalizing a n s with
  | zero => omega
  | succ fuel ih =>
    refine .bind (read_ends (a - 1 - n) (a - 1) (p := a - 1) (by omega) (by omega)) ?_
    rintro c s1 ⟨rfl, hmem, hw⟩
    cases n with
    | zero =>
      have hb : isspace (s.mem (a - 1)) = false := by simpa using hend
      rw [hb]
      refine .pure ⟨fun p => ?_, hw⟩
      rw [if_neg (by omega), hmem]
    | succ n =>
      have hb : isspace (s.mem (a - 1)) = true := by simpa using hspace 0 (Nat.succ_pos n)
      have hnext : ∀ k : Nat, a - 1 - 1 - (k : Int) = a - 1 - (k + 1 : Nat) := fun k => by
        omega
      rw [hb]
      refine .bind (write_ends (a - 1 - (n + 1 : Nat)) (a - 1) (p := a - 1) (by omega)
        (by omega) _) ?_
      rintro ⟨⟩ s2 ⟨hmem2, hw2⟩
      have hs2 : ∀ p, p ≠ a - 1 → s2.mem p = s.mem p := fun p hp => by
        rw [hmem2, Function.update_of_ne hp, hmem]
      refine (ih (s := s2) (a := a - 1) (n := n) ?_ ?_ (by omega)).mono ?_
      · intro k hk
        rw [hs2 _ (by omega), hnext]
        exact hspace (k + 1) (by omega)
      · rw [hs2 _ (by omega), hnext]
        exact hend
      · rintro ⟨⟩ s3 ⟨hmem3, hw3⟩
        refine ⟨fun p => ?_, (hw.trans hw2).trans (hw3.mono (by omega) (by omega))⟩
        rw [hmem3]
        by_cases hp : p = a - 1
        · subst hp
          rw [if_neg (by omega), if_pos (by omega), hmem2, Function.update_self]
        · rw [hs2 _ hp]
          by_cases hin : a - (n + 1 : Nat) ≤ p ∧ p < a
          · rw [if_pos (by omega), if_pos hin]
          · rw [if_neg (by omega), if_neg hin]

end Loops

end Trim

/-! ## Strings -/

section Strings

variable {mem : Int → BitVec 8} {l sp u t tr : List (BitVec 8)}

theorem StringAt.getD (h : StringAt mem l) {k : Nat} (hk : k ≤ l.length) : mem k = l.getD k 0 := by
  rcases Nat.lt_or_ge k l.length with hlt | hge
  · rw [h.char k hlt, List.getD_eq_getElem _ _ hlt]
  · obtain rfl : k = l.length := Nat.le_antisymm hk hge
    rw [h.terminator, List.getD_eq_default _ _ (Nat.le_refl _)]

theorem StringAt.leading (h : StringAt mem (sp ++ u)) {k : Nat} (hk : k < sp.length) :
    mem k ∈ sp := by
  rw [h.char k (by rw [List.length_append]; omega), List.getElem_append_left hk]
  exact List.getElem_mem hk

theorem StringAt.trailing (h : StringAt mem (sp ++ u)) {k : Nat} (hk : k ≤ u.length) :
    mem (sp.length + k) = u.getD k 0 := by
  have hget := h.getD (k := sp.length + k) (by rw [List.length_append]; omega)
  rw [List.getD_append_right _ _ _ _ (Nat.le_add_right _ _), Nat.add_sub_cancel_left] at hget
  rw [← hget, Nat.cast_add]

theorem StringAt.shift (h : StringAt mem (sp ++ u)) {mem' : Int → BitVec 8}
    (hmem : ∀ k : Nat, k < u.length → mem' k = mem (sp.length + k)) (hend : mem' u.length = 0) :
    StringAt mem' u := by
  refine ⟨fun k hk => ?_, hend, fun h0 => h.nonzero (List.mem_append_right _ h0)⟩
  rw [hmem k hk, h.trailing hk.le, List.getD_eq_getElem _ _ hk]

theorem StringAt.take (h : StringAt mem (t ++ tr)) {mem' : Int → BitVec 8}
    (hmem : ∀ k : Nat, k < t.length → mem' k = mem k) (hend : mem' t.length = 0) :
    StringAt mem' t := by
  refine ⟨fun k hk => ?_, hend, fun h0 => h.nonzero (List.mem_append_left _ h0)⟩
  rw [hmem k hk, h.char k (by rw [List.length_append]; omega), List.getElem_append_left hk]

/-- A string with white space `sp` in front and `tr` behind is trimmed to the rest. -/
theorem trim_ends {s : Bytes} (hl : StringAt s.mem (sp ++ (t ++ tr)))
    (hsp : ∀ c ∈ sp, isspace c = true) (htr : ∀ c ∈ tr, isspace c = true) (ht : t ≠ [])
    (hhead : isspace (t.head ht) = false) (hlast : isspace (t.getLast ht) = false) :
    Ends (Trim.trim ((sp ++ (t ++ tr)).length + 1)) s fun _ s' =>
      Trim.Within 0 (sp ++ (t ++ tr)).length s s' ∧ StringAt s'.mem t := by
  have hlen : (sp ++ (t ++ tr)).length = sp.length + (t.length + tr.length) := by
    rw [List.length_append, List.length_append]
  have hpos : 0 < t.length := List.length_pos_iff.mpr ht
  have hu : (t ++ tr).length = t.length + tr.length := List.length_append
  refine .bind (Trim.skip_ends (n := sp.length) ?_ ?_ (by omega)) ?_
  · intro k hk
    rw [Int.zero_add]
    exact hsp _ (hl.leading hk)
  · have hfirst := hl.trailing (k := 0) (Nat.zero_le _)
    rw [List.getD_append _ _ _ _ hpos, List.getD_eq_getElem _ _ hpos, List.getElem_zero] at hfirst
    rw [Int.zero_add, ← Int.add_zero (sp.length : Int)]
    exact (congrArg isspace hfirst).trans hhead
  rintro b s1 ⟨rfl, hm1, hw1⟩
  refine .bind (Trim.copy_ends (n := (t ++ tr).length) (by omega) ?_ ?_ (by omega)) ?_
  · intro k hk
    rw [hm1, Int.zero_add, hl.trailing hk.le, List.getD_eq_getElem _ _ hk]
    intro h0
    exact hl.nonzero (List.mem_append_right _ (h0 ▸ List.getElem_mem hk))
  · rw [hm1, Int.zero_add, hl.trailing (Nat.le_refl _), List.getD_eq_default _ _ (Nat.le_refl _)]
  rintro a s2 ⟨rfl, hm2, hw2⟩
  refine .bind (Trim.write_ends 0 ((sp ++ (t ++ tr)).length) (by omega) (by omega) _)
    ?_
  rintro ⟨⟩ s3 ⟨hm3, hw3⟩
  have hs3 : StringAt s3.mem (t ++ tr) := by
    refine hl.shift (fun k hk => ?_) ?_
    · rw [hm3, Function.update_of_ne (by omega), hm2, if_pos (by omega), hm1]
      congr 1
      omega
    · rw [hm3, Int.zero_add, Function.update_self]
  refine (Trim.strip_ends (n := tr.length) ?_ ?_ (by omega)).mono ?_
  · intro k hk
    have hback := hs3.trailing (k := tr.length - 1 - k) (by omega)
    rw [List.getD_eq_getElem _ _ (by omega)] at hback
    have hplace : (0 : Int) + (t ++ tr).length - 1 - k = t.length + (tr.length - 1 - k : Nat) := by
      omega
    rw [hplace, hback]
    exact htr _ (List.getElem_mem _)
  · have hplace : (0 : Int) + (t ++ tr).length - 1 - tr.length = (t.length - 1 : Nat) := by
      omega
    rw [hplace, hs3.char _ (by omega), List.getElem_append_left (by omega),
      ← List.getLast_eq_getElem ht]
    exact hlast
  rintro ⟨⟩ s4 ⟨hm4, hw4⟩
  have hw : Trim.Within 0 (sp ++ (t ++ tr)).length s s4 :=
    (((hw1.mono (by omega) (by omega)).trans (hw2.mono (by omega) (by omega))).trans hw3).trans
      (hw4.mono (by omega) (by omega))
  refine ⟨hw, hs3.take (fun k hk => ?_) ?_⟩
  · rw [hm4, if_neg (by omega)]
  · rw [hm4]
    split
    · rfl
    · have hend := hs3.terminator
      rwa [hu, show tr.length = 0 by omega] at hend

theorem trimmed_parts (l : List (BitVec 8)) :
    ∃ sp tr, l = sp ++ (trimmed l ++ tr) ∧ (∀ c ∈ sp, isspace c = true) ∧
      (∀ c ∈ tr, isspace c = true) ∧ ∀ h : trimmed l ≠ [],
        isspace ((trimmed l).head h) = false ∧ isspace ((trimmed l).getLast h) = false := by
  refine ⟨l.takeWhile isspace, (l.dropWhile isspace).rtakeWhile isspace, ?_, ?_, ?_, ?_⟩
  · rw [trimmed, List.rdropWhile_append_rtakeWhile, List.takeWhile_append_dropWhile]
  · intro c hc
    exact List.mem_takeWhile_imp hc
  · intro c hc
    exact List.mem_rtakeWhile_imp hc
  · intro h
    refine ⟨?_, Bool.eq_false_iff.mpr (List.rdropWhile_last_not _ _ h)⟩
    have hinitial : trimmed l <+: l.dropWhile isspace := List.rdropWhile_prefix _ _
    rw [hinitial.head h]
    exact List.head_dropWhile_not _ _

theorem trimmed_eq_nil_iff : trimmed l = [] ↔ ∀ c ∈ l, isspace c = true := by
  rw [trimmed, List.rdropWhile_eq_nil_iff]
  constructor
  · intro h c hc
    rw [← List.takeWhile_append_dropWhile (p := isspace) (l := l)] at hc
    rcases List.mem_append.mp hc with hc | hc
    · exact List.mem_takeWhile_imp hc
    · exact h c hc
  · intro h c hc
    exact h c ((List.dropWhile_sublist isspace).subset hc)

end Strings

/-! ## Only white space -/

namespace Trim

variable {fuel : Nat} {a b b' : Int} {s s' : Bytes}

theorem skip_of_run (h : skipLoop fuel b s = .ok (b', s')) : s'.mem = s.mem ∧
    ∃ n : Nat, b' = b + n ∧ (∀ k : Nat, k < n → isspace (s.mem (b + k)) = true) ∧
      isspace (s.mem b') = false := by
  induction fuel generalizing b s with
  | zero => cases h
  | succ fuel ih =>
    obtain ⟨c, s1, hread, hrest⟩ := ok_bind h
    cases hread
    by_cases hb : isspace (s.mem b) = true
    · rw [if_pos hb] at hrest
      obtain ⟨hmem, n, rfl, hspace, hend⟩ := ih hrest
      refine ⟨hmem, n + 1, by omega, fun k hk => ?_, hend⟩
      cases k with
      | zero => simpa using hb
      | succ k =>
        have hk' := hspace k (by omega)
        rwa [show b + 1 + (k : Int) = b + (k + 1 : Nat) by omega] at hk'
    · rw [if_neg hb] at hrest
      cases hrest
      exact ⟨rfl, 0, by simp, fun k hk => absurd hk (Nat.not_lt_zero k),
        Bool.eq_false_iff.mpr hb⟩

/-- The last loop looks at the position before `a`, whatever it does next. -/
theorem strip_of_run (h : stripLoop fuel a s = .ok ((), s')) :
    (∀ p ∈ s.touched, p ∈ s'.touched) ∧ a - 1 ∈ s'.touched := by
  induction fuel generalizing a s with
  | zero => cases h
  | succ fuel ih =>
    obtain ⟨c, s1, hread, hrest⟩ := ok_bind h
    cases hread
    by_cases hb : isspace (s.mem (a - 1)) = true
    · rw [if_pos hb] at hrest
      obtain ⟨_, s2, hwrite, hloop⟩ := ok_bind hrest
      cases hwrite
      have hkept := (ih hloop).1
      exact ⟨fun p hp => hkept p (by simp [hp]), hkept _ (by simp)⟩
    · rw [if_neg hb] at hrest
      cases hrest
      exact ⟨fun p hp => by simp [hp], by simp⟩

/-- Of a string with nothing but white space nothing is copied, and the last loop starts at its
first position. -/
theorem touches_before {l : List (BitVec 8)} (hl : StringAt s.mem l)
    (hspace : ∀ c ∈ l, isspace c = true) (h : trim fuel s = .ok ((), s')) : -1 ∈ s'.touched := by
  obtain ⟨b, s1, hskip, h⟩ := ok_bind h
  obtain ⟨hmem1, n, rfl, hn, hend⟩ := skip_of_run hskip
  obtain ⟨a, s2, hcopy, h⟩ := ok_bind h
  obtain ⟨_, s3, hwrite, hstrip⟩ := ok_bind h
  have hlen : n = l.length := by
    rcases Nat.lt_trichotomy n l.length with hlt | heq | hgt
    · rw [Int.zero_add, hl.char n hlt, hspace _ (List.getElem_mem hlt)] at hend
      cases hend
    · exact heq
    · have hterm := hn l.length hgt
      rw [Int.zero_add, hl.terminator] at hterm
      cases hterm
  have ha : a = 0 := by
    have hzero : s1.mem (0 + (n : Int)) = 0 := by
      rw [hmem1, Int.zero_add, hlen, hl.terminator]
    cases fuel with
    | zero => cases hcopy
    | succ fuel =>
      obtain ⟨c, s4, hread, hrest⟩ := ok_bind hcopy
      cases hread
      rw [if_neg (not_not.mpr hzero)] at hrest
      cases hrest
      rfl
  rw [ha] at hstrip
  exact (strip_of_run hstrip).2

end Trim

/-- `trim` stays inside its string if and only if the string has a character that is no white
space. -/
theorem trim_iff {mem : Int → BitVec 8} {l : List (BitVec 8)} (hl : StringAt mem l) :
    Trims mem l ↔ ∃ c ∈ l, isspace c = false := by
  constructor
  · rintro ⟨fuel, s, hrun, hwithin, -⟩
    by_contra hnone
    have hspace : ∀ c ∈ l, isspace c = true := fun c hc =>
      Bool.eq_true_of_not_eq_false fun hf => hnone ⟨c, hc, hf⟩
    have := hwithin (-1) (Trim.touches_before (s := ⟨mem, []⟩) hl hspace hrun)
    omega
  · rintro ⟨c, hc, hf⟩
    obtain ⟨sp, tr, heq, hsp, htr, hends⟩ := trimmed_parts l
    have ht : trimmed l ≠ [] := by
      intro hnil
      rw [trimmed_eq_nil_iff.mp hnil c hc] at hf
      cases hf
    obtain ⟨⟨⟩, s, hrun, ⟨ps, htouched, hps⟩, hs⟩ :=
      trim_ends (s := ⟨mem, []⟩) (heq ▸ hl) hsp htr ht (hends ht).1 (hends ht).2
    rw [List.nil_append] at htouched
    rw [← heq] at hps
    exact ⟨_, s, hrun, htouched ▸ hps, hs⟩

/-- Memory with a string at position 0 and zeros elsewhere. -/
def stored (l : List (BitVec 8)) (p : Int) : BitVec 8 := if 0 ≤ p then l.getD p.toNat 0 else 0

theorem stored_stringAt {l : List (BitVec 8)} (h : 0 ∉ l) : StringAt (stored l) l := by
  refine ⟨fun k hk => ?_, ?_, h⟩
  · rw [stored, if_pos (by omega), Int.toNat_natCast, List.getD_eq_getElem _ _ hk]
  · rw [stored, if_pos (by omega), Int.toNat_natCast, List.getD_eq_default _ _ (Nat.le_refl _)]

/-- For the empty argument `trim` reads the byte before it. -/
theorem trim_fails : StringAt (stored []) [] ∧ ¬ Trims (stored []) [] := by
  have hl : StringAt (stored []) [] := stored_stringAt (by simp)
  refine ⟨hl, ?_⟩
  rintro ⟨fuel, s, hrun, hwithin, -⟩
  have := hwithin (-1) (Trim.touches_before (s := ⟨stored [], []⟩) hl (by simp) hrun)
  omega

/-- An argument with white space on both sides. -/
theorem trim_both_sides : Trims (stored [32, 65, 32]) [32, 65, 32] :=
  (trim_iff (stored_stringAt (by decide))).mpr ⟨65, by decide, by decide⟩

end Underling
