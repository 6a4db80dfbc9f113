import Mathlib.Data.List.Infix
import Mathlib.Tactic.Common

/-!
# Failure streaks with a grace period

A supervisor counts the failures of a link. A streak starts with a failure and ends with the last of
`grace` successes in a row; meanwhile the count only grows. `muted_iff` says from the results alone
when a streak is in force, `le_failures_iff` and `failuresSince_iff` how many failures it has
counted. Without a grace period these are the failures that the results end with
(`replicate_suffix_iff`).
-/

set_option autoImplicit false

namespace VirtualPlc.Control

/-- State of the supervisor. `remaining` is zero until the first success after a failure. -/
structure Streak where
  active : Bool
  failures : Nat
  remaining : Nat
deriving DecidableEq, Repr

namespace Streak

/-- No failure so far. -/
def idle : Streak := ⟨false, 0, 0⟩

/-- A failure. -/
def fail (s : Streak) : Streak := ⟨true, s.failures + 1, 0⟩

/-- A success: the first one after a failure starts the grace period. -/
def succeed (grace : Nat) (s : Streak) : Streak :=
  if s.active then
    let remaining := (if s.remaining = 0 then grace else s.remaining) - 1
    if remaining = 0 then idle else ⟨true, s.failures, remaining⟩
  else s

/-- One result of the link, `true` for a success. -/
def next (grace : Nat) (s : Streak) (ok : Bool) : Streak :=
  if ok then s.succeed grace else s.fail

/-- The supervisor after the results of a run. -/
def after (grace : Nat) (results : List Bool) : Streak := results.foldl (next grace) idle

@[simp] theorem after_nil (grace : Nat) : after grace [] = idle := rfl

@[simp] theorem after_concat (grace : Nat) (results : List Bool) (ok : Bool) :
    after grace (results ++ [ok]) = next grace (after grace results) ok := by
  simp [after]

/-- Number of successes in a row that end a streak. A grace period of zero counts as one. -/
def window (grace : Nat) : Nat := max 1 grace

/-- No streak that is in force at the start of the results ends within them. -/
def Unbroken (grace : Nat) (results : List Bool) : Prop :=
  ¬ List.replicate (window grace) true <:+: results

/-- The last failure is followed by fewer successes than it takes to end its streak. -/
def Muted (grace : Nat) (results : List Bool) : Prop :=
  ∃ before k, results = before ++ false :: List.replicate k true ∧ k < window grace

/-! ## Windows of successes -/

variable {grace : Nat} {results piece : List Bool}

theorem window_pos (grace : Nat) : 0 < window grace := by
  simp only [window]
  omega

theorem Unbroken.of_infix (h : Unbroken grace results) (hp : piece <:+: results) :
    Unbroken grace piece :=
  fun hw => h (hw.trans hp)

theorem unbroken_nil (grace : Nat) : Unbroken grace [] := by
  intro h
  have hlen := h.length_le
  have hpos := window_pos grace
  simp only [List.length_replicate, List.length_nil] at hlen
  omega

/-- A failure completes no window. -/
theorem Unbroken.concat_false (h : Unbroken grace results) :
    Unbroken grace (results ++ [false]) := by
  intro hw
  rcases List.infix_concat_iff.mp hw with hsuf | hin
  · obtain ⟨n, hn⟩ : ∃ n, window grace = n + 1 :=
      ⟨_, (Nat.succ_pred_eq_of_pos (window_pos grace)).symm⟩
    obtain ⟨a, ha⟩ := hsuf
    rw [hn, List.replicate_succ', ← List.append_assoc] at ha
    have hlast := (List.append_inj' ha rfl).2
    simp at hlast
  · exact h hin

/-- Fewer successes than a window after a failure complete no window. -/
theorem not_suffix_of_muted (before : List Bool) {k n : Nat} (hk : k < n) :
    ¬ List.replicate n true <:+ before ++ false :: List.replicate k true := by
  intro hs
  have hlong : (false :: List.replicate k true) <:+ List.replicate n true := by
    refine List.suffix_of_suffix_length_le (List.suffix_append before _) hs ?_
    simp only [List.length_cons, List.length_replicate]
    omega
  have hmem : false ∈ List.replicate n true := hlong.subset (by simp)
  simp at hmem

/-- The number of successes after the last failure is determined. -/
theorem trailing_unique {before before' : List Bool} {k k' : Nat}
    (h : before ++ false :: List.replicate k true = before' ++ false :: List.replicate k' true) :
    k = k' := by
  rcases Nat.lt_trichotomy k k' with hlt | heq | hgt
  · refine absurd ?_ (not_suffix_of_muted before hlt)
    exact h ▸ ⟨before' ++ [false], by simp⟩
  · exact heq
  · refine absurd ?_ (not_suffix_of_muted before' hgt)
    exact h ▸ ⟨before ++ [false], by simp⟩

/-- A suffix of the results contains the last failure, or it is all successes. -/
theorem suffix_cases {before : List Bool} {k : Nat}
    (h : piece <:+ before ++ false :: List.replicate k true) :
    (∃ front, piece = front ++ false :: List.replicate k true) ∨ piece.count false = 0 := by
  obtain ⟨lead, hlead⟩ := h
  rcases List.append_eq_append_iff.mp hlead with ⟨front, -, hpiece⟩ | ⟨tail, hbefore, htail⟩
  · exact .inl ⟨front, hpiece⟩
  · cases tail with
    | nil => exact .inl ⟨[], by simpa using htail.symm⟩
    | cons x tail =>
      obtain ⟨-, hrest⟩ := List.cons.inj htail
      right
      refine List.count_eq_zero.mpr fun hmem => ?_
      have hmem' : false ∈ List.replicate k true := by
        rw [hrest]
        exact List.mem_append_right tail hmem
      simp at hmem'

/-! ## What the counters say -/

/-- The counters describe the results: `failures` is the largest number of failures in a suffix
within which no streak ends. -/
structure Describes (grace : Nat) (results : List Bool) (s : Streak) : Prop where
  active_iff : s.active = true ↔ Muted grace results
  attained : ∃ piece, piece <:+ results ∧ Unbroken grace piece ∧ piece.count false = s.failures
  bound : ∀ piece, piece <:+ results → Unbroken grace piece → piece.count false ≤ s.failures
  remaining_eq : ∀ before k, results = before ++ false :: List.replicate k true →
    k < window grace → s.remaining = if k = 0 then 0 else grace - k
  idle_of_inactive : s.active = false → s = idle

theorem describes_nil : Describes grace [] idle where
  active_iff := by simp [idle, Muted]
  attained := ⟨[], List.suffix_rfl, unbroken_nil grace, rfl⟩
  bound := by
    intro piece hp _
    simp [List.suffix_nil.mp hp]
  remaining_eq := by simp
  idle_of_inactive := fun _ => rfl

theorem Describes.fail {s : Streak} (h : Describes grace results s) :
    Describes grace (results ++ [false]) s.fail where
  active_iff := by
    refine ⟨fun _ => ⟨results, 0, by simp, window_pos grace⟩, fun _ => rfl⟩
  attained := by
    obtain ⟨piece, hsuf, hub, hcount⟩ := h.attained
    refine ⟨piece ++ [false], ?_, hub.concat_false, ?_⟩
    · exact List.suffix_concat_iff.mpr (.inr ⟨piece, rfl, hsuf⟩)
    · simp [Streak.fail, hcount]
  bound := by
    intro piece hp hub
    rcases List.suffix_concat_iff.mp hp with rfl | ⟨front, rfl, hfront⟩
    · simp
    · have hle := h.bound front hfront (hub.of_infix ⟨[], [false], rfl⟩)
      simp only [Streak.fail, List.count_append, List.count_singleton, beq_self_eq_true, if_true]
      omega
  remaining_eq := by
    intro before k heq hk
    -- the results end with a failure, so no success comes after the last one
    cases k with
    | zero => rfl
    | succ k =>
      rw [List.replicate_succ', ← List.cons_append, ← List.append_assoc] at heq
      have hlast := (List.append_inj' heq rfl).2
      simp at hlast
  idle_of_inactive := by simp [Streak.fail]

/-- A success outside a streak changes nothing. -/
theorem Describes.succeed_idle (h : Describes grace results idle) :
    Describes grace (results ++ [true]) idle where
  active_iff := by
    refine ⟨fun hactive => by simp [idle] at hactive, fun hmuted => ?_⟩
    obtain ⟨before, k, heq, hk⟩ := hmuted
    cases k with
    | zero => simpa using (List.append_inj' heq rfl).2
    | succ k =>
      rw [List.replicate_succ', ← List.cons_append, ← List.append_assoc] at heq
      exact h.active_iff.mpr ⟨before, k, (List.append_inj' heq rfl).1, by omega⟩
  attained := ⟨[], List.nil_suffix, unbroken_nil grace, rfl⟩
  bound := by
    intro piece hp hub
    rcases List.suffix_concat_iff.mp hp with rfl | ⟨front, rfl, hfront⟩
    · simp
    · simpa using h.bound front hfront (hub.of_infix ⟨[], [true], rfl⟩)
  remaining_eq := by
    intro before k heq hk
    cases k with
    | zero => rfl
    | succ k =>
      rw [List.replicate_succ', ← List.cons_append, ← List.append_assoc] at heq
      have hmuted : Muted grace results := ⟨before, k, (List.append_inj' heq rfl).1, by omega⟩
      simpa [idle] using h.active_iff.mpr hmuted
  idle_of_inactive := fun _ => rfl

/-- A success in a streak that still needs more of them. -/
theorem Describes.succeed_muted {s : Streak} {before : List Bool} {k : Nat}
    (h : Describes grace results s) (heq : results = before ++ false :: List.replicate k true)
    (hk : k + 1 < window grace) :
    Describes grace (results ++ [true]) ⟨true, s.failures, grace - (k + 1)⟩ where
  active_iff := by
    refine ⟨fun _ => ⟨before, k + 1, ?_, hk⟩, fun _ => rfl⟩
    rw [heq, List.replicate_succ', ← List.cons_append, List.append_assoc]
  attained := by
    obtain ⟨piece, hsuf, hub, hcount⟩ := h.attained
    refine ⟨piece ++ [true], List.suffix_concat_iff.mpr (.inr ⟨piece, rfl, hsuf⟩), ?_, ?_⟩
    · intro hw
      rcases List.infix_concat_iff.mp hw with hend | hin
      · -- a window at the end of the piece is one at the end of the results
        refine not_suffix_of_muted before hk ?_
        have hlast := hend.trans (List.suffix_concat_iff.mpr (.inr ⟨piece, rfl, hsuf⟩))
        rwa [heq, List.append_assoc, List.cons_append, ← List.replicate_succ'] at hlast
      · exact hub hin
    · simpa using hcount
  bound := by
    intro piece hp hub
    rcases List.suffix_concat_iff.mp hp with rfl | ⟨front, rfl, hfront⟩
    · simp
    · simpa using h.bound front hfront (hub.of_infix ⟨[], [true], rfl⟩)
  remaining_eq := by
    intro before' k' heq' _
    rw [heq, List.append_assoc, List.cons_append, ← List.replicate_succ'] at heq'
    have hkk := trailing_unique heq'
    subst hkk
    rfl
  idle_of_inactive := by simp

/-- The success that ends a streak leaves no trace of it. -/
theorem describes_ended {before : List Bool} {k : Nat}
    (heq : results = before ++ false :: List.replicate k true)
    (hk : k + 1 = window grace) : Describes grace (results ++ [true]) idle := by
  have heq' : results ++ [true] = before ++ false :: List.replicate (k + 1) true := by
    rw [heq, List.replicate_succ', ← List.cons_append, List.append_assoc]
  have hnot : ∀ before' k', results ++ [true] = before' ++ false :: List.replicate k' true →
      ¬ k' < window grace := by
    intro before' k' heq'' hlt
    have hkk := trailing_unique (heq'.symm.trans heq'')
    omega
  refine ⟨?_, ⟨[], List.nil_suffix, unbroken_nil grace, rfl⟩, ?_, ?_, fun _ => rfl⟩
  · refine ⟨fun hactive => by simp [idle] at hactive, fun hmuted => ?_⟩
    obtain ⟨before', k', heq'', hlt⟩ := hmuted
    exact absurd hlt (hnot before' k' heq'')
  · intro piece hp hub
    rw [heq'] at hp
    rcases suffix_cases hp with ⟨front, rfl⟩ | hzero
    · refine absurd ?_ hub
      rw [hk]
      exact ⟨front ++ [false], [], by simp⟩
    · exact hzero.le
  · intro before' k' heq'' hlt
    exact absurd hlt (hnot before' k' heq'')

theorem Describes.succeed {s : Streak} (h : Describes grace results s) :
    Describes grace (results ++ [true]) (s.succeed grace) := by
  cases hactive : s.active with
  | false =>
    have hidle := h.idle_of_inactive hactive
    subst hidle
    exact h.succeed_idle
  | true =>
    obtain ⟨before, k, heq, hk⟩ := h.active_iff.mp hactive
    have hrem := h.remaining_eq before k heq hk
    have hnext : (if s.remaining = 0 then grace else s.remaining) - 1 = grace - (k + 1) := by
      simp only [window] at hk
      split_ifs at hrem ⊢ <;> omega
    simp only [Streak.succeed, hactive, if_true, hnext]
    split
    · refine describes_ended heq ?_
      simp only [window] at hk ⊢
      omega
    · refine h.succeed_muted heq ?_
      simp only [window] at hk ⊢
      omega

/-- The supervisor's state describes the results of any run. -/
theorem describes_after (grace : Nat) (results : List Bool) :
    Describes grace results (after grace results) := by
  induction results using List.reverseRecOn with
  | nil => exact describes_nil
  | append_singleton results ok ih =>
    rw [after_concat]
    cases ok with
    | true => exact ih.succeed
    | false => exact ih.fail

/-- A streak is in force exactly when the last failure has not been followed by enough successes. -/
theorem muted_iff : (after grace results).active = true ↔ Muted grace results :=
  (describes_after grace results).active_iff

instance (grace : Nat) (results : List Bool) : Decidable (Muted grace results) :=
  decidable_of_iff _ muted_iff

/-- A success never adds to the count. -/
theorem succeed_failures_le (s : Streak) (grace : Nat) :
    (s.succeed grace).failures ≤ s.failures := by
  unfold succeed
  cases s.active with
  | false => simp
  | true =>
    dsimp only
    generalize (if s.remaining = 0 then grace else s.remaining) - 1 = left
    simp only [if_true]
    split
    · exact Nat.zero_le _
    · exact le_rfl

/-- The counter has reached a bound exactly when so many failures lie in one streak. -/
theorem le_failures_iff {bound : Nat} : bound ≤ (after grace results).failures ↔
    ∃ piece, piece <:+ results ∧ Unbroken grace piece ∧ bound ≤ piece.count false := by
  have hd := describes_after grace results
  constructor
  · intro hle
    obtain ⟨piece, hsuf, hub, hcount⟩ := hd.attained
    exact ⟨piece, hsuf, hub, hcount ▸ hle⟩
  · rintro ⟨piece, hsuf, hub, hle⟩
    exact hle.trans (hd.bound piece hsuf hub)

/-! ## The last window -/

/-- The number of failures since the last window of successes, or since the start. -/
def FailuresSince (grace : Nat) (results : List Bool) (n : Nat) : Prop :=
  ∃ before piece, results = before ++ piece ∧
    (before = [] ∨ List.replicate (window grace) true <:+ before) ∧ Unbroken grace piece ∧
    piece.count false = n

/-- There is a last window. -/
theorem failuresSince_exists (grace : Nat) (results : List Bool) :
    ∃ n, FailuresSince grace results n := by
  induction results using List.reverseRecOn with
  | nil => exact ⟨0, [], [], rfl, .inl rfl, unbroken_nil grace, rfl⟩
  | append_singleton results ok ih =>
    obtain ⟨-, before, piece, rfl, hbefore, hub, -⟩ := ih
    by_cases hwindow : List.replicate (window grace) true <:+ before ++ piece ++ [ok]
    · exact ⟨0, _, [], by simp, .inr hwindow, unbroken_nil grace, rfl⟩
    · refine ⟨_, before, piece ++ [ok], by simp, hbefore, fun hinfix => ?_, rfl⟩
      -- a window in the longer piece ends with the new result
      rcases List.infix_concat_iff.mp hinfix with hend | hin
      · refine hwindow (hend.trans ?_)
        rw [List.append_assoc]
        exact List.suffix_append before _
      · exact hub hin

/-- What a piece adds to a shorter one holds no failure, where a window ends in front of the shorter
one. -/
theorem count_le_of_suffix {before piece' : List Bool}
    (hbefore : before = [] ∨ List.replicate (window grace) true <:+ before)
    (hsuffix : piece' <:+ before ++ piece) (hub : Unbroken grace piece') :
    piece'.count false ≤ piece.count false := by
  obtain ⟨lead, hlead⟩ := hsuffix
  rcases List.append_eq_append_iff.mp hlead with ⟨mid, hmid, rfl⟩ | ⟨front, -, rfl⟩
  · have hnone : mid.count false = 0 := by
      rcases hbefore with hnil | hwindow
      · have hmid' : mid = [] := (List.append_eq_nil_iff.mp (hmid.symm.trans hnil)).2
        simp [hmid']
      · have hpart : mid <:+ before := ⟨lead, hmid.symm⟩
        rcases Nat.lt_or_ge mid.length (window grace) with hshort | hlong
        · have htrue : mid <:+ List.replicate (window grace) true :=
            List.suffix_of_suffix_length_le hpart hwindow (by simpa using hshort.le)
          refine List.count_eq_zero.mpr fun hmem => ?_
          have hfalse := htrue.subset hmem
          simp at hfalse
        · have hwhole : List.replicate (window grace) true <:+ mid :=
            List.suffix_of_suffix_length_le hwindow hpart (by simpa using hlong)
          exact absurd (hwhole.isInfix.trans ⟨[], piece, by simp⟩) hub
    simp [hnone]
  · simp

/-- The counter is the number of failures since the last window. -/
theorem failuresSince_iff {n : Nat} :
    FailuresSince grace results n ↔ (after grace results).failures = n := by
  have hd := describes_after grace results
  have key : ∀ {m}, FailuresSince grace results m → (after grace results).failures = m := by
    rintro m ⟨before, piece, rfl, hbefore, hub, rfl⟩
    obtain ⟨piece', hsuffix, hub', hcount⟩ := hd.attained
    apply le_antisymm
    · exact hcount ▸ count_le_of_suffix hbefore hsuffix hub'
    · exact hd.bound piece (List.suffix_append before piece) hub
  refine ⟨key, fun heq => ?_⟩
  obtain ⟨m, hm⟩ := failuresSince_exists grace results
  rwa [← heq, key hm]

instance (grace : Nat) (results : List Bool) (n : Nat) :
    Decidable (FailuresSince grace results n) :=
  decidable_of_iff _ failuresSince_iff.symm

example : FailuresSince 2 [false, true, true, false, true, false, true] 2 := by decide

/-! ## Streaks without a grace period -/

/-- Number of failures that the results end with: without a grace period the first success ends a
streak. -/
def lastFailures (results : List Bool) : Nat := (after 0 results).failures

@[simp] theorem lastFailures_nil : lastFailures [] = 0 := rfl

@[simp] theorem lastFailures_concat_false (results : List Bool) :
    lastFailures (results ++ [false]) = lastFailures results + 1 := by
  rw [lastFailures, after_concat]
  rfl

@[simp] theorem lastFailures_concat_true (results : List Bool) :
    lastFailures (results ++ [true]) = 0 :=
  failuresSince_iff.mp ⟨results ++ [true], [], by simp, .inr ⟨results, rfl⟩, unbroken_nil 0, rfl⟩

/-- The results end with so many failures. -/
theorem replicate_suffix_iff {n : Nat} :
    List.replicate n false <:+ results ↔ n ≤ lastFailures results := by
  rw [lastFailures, le_failures_iff]
  constructor
  · intro hsuffix
    refine ⟨_, hsuffix, fun hwindow => ?_, ?_⟩
    · have htrue : true ∈ List.replicate n false := hwindow.subset (by simp [window])
      simp at htrue
    · simp
  · rintro ⟨piece, hsuffix, hub, hcount⟩
    have hall : piece = List.replicate piece.length false := by
      refine List.eq_replicate_iff.mpr ⟨rfl, fun ok hmem => ?_⟩
      cases ok with
      | false => rfl
      | true =>
        -- a single success is a window
        obtain ⟨front, back, rfl⟩ := List.append_of_mem hmem
        exact absurd ⟨front, back, by simp [window]⟩ hub
    have hlong : n ≤ piece.length := hcount.trans List.count_le_length
    rw [hall] at hsuffix
    refine List.IsSuffix.trans ⟨List.replicate (piece.length - n) false, ?_⟩ hsuffix
    rw [← List.replicate_add, Nat.sub_add_cancel hlong]

example : lastFailures [false, true, false, false] = 2 := by decide

end Streak

end VirtualPlc.Control
