import Mathlib.Data.List.Basic
import Mathlib.Tactic.Common

/-!
# Events judged as they come

A reader goes through a list of events and keeps a state. Each event is judged in the state that the
events before it have left (`Passes`); a list is judged piece by piece (`passes_append`). What
agrees under an invariant agrees over a run (`passes_congr`), and a run follows an abstract one as
long as each step does (`follows_iff`).
-/

set_option autoImplicit false

namespace VirtualPlc.Control

variable {σ α : Type} {next : σ → α → σ} {ok : σ → α → Prop} {s : σ} {x : α} {events more : List α}

/-- An event of a longer list is the new one or an old one. -/
theorem split_concat {before after : List α} {last : α}
    (h : events ++ [last] = before ++ x :: after) :
    (before = events ∧ x = last ∧ after = []) ∨
      ∃ after', after = after' ++ [last] ∧ events = before ++ x :: after' := by
  rcases List.eq_nil_or_concat after with rfl | ⟨after', last', rfl⟩
  · obtain ⟨hevents, hlast⟩ := List.append_inj' h rfl
    exact .inl ⟨hevents.symm, (List.singleton_inj.mp hlast).symm, rfl⟩
  · rw [List.concat_eq_append, ← List.cons_append, ← List.append_assoc] at h
    obtain ⟨hevents, hlast⟩ := List.append_inj' h rfl
    refine .inr ⟨after', ?_, hevents⟩
    rw [List.concat_eq_append, hlast]

/-- Every event passes in the state in which it comes. -/
def Passes (next : σ → α → σ) (ok : σ → α → Prop) (s : σ) (events : List α) : Prop :=
  ∀ before x after, events = before ++ x :: after → ok (before.foldl next s) x

theorem passes_nil : Passes next ok s [] := by
  intro before x after heq
  simp at heq

theorem passes_cons :
    Passes next ok s (x :: events) ↔ ok s x ∧ Passes next ok (next s x) events := by
  constructor
  · intro h
    refine ⟨h [] x events rfl, fun before y after heq => ?_⟩
    exact h (x :: before) y after (by rw [heq, List.cons_append])
  · rintro ⟨hx, hrest⟩ before y after heq
    cases before with
    | nil =>
      obtain ⟨rfl, -⟩ := List.cons.inj heq
      exact hx
    | cons z before =>
      obtain ⟨rfl, hsplit⟩ := List.cons.inj heq
      exact hrest before y after hsplit

theorem passes_append :
    Passes next ok s (events ++ more) ↔
      Passes next ok s events ∧ Passes next ok (events.foldl next s) more := by
  induction events generalizing s with
  | nil => simp [passes_nil]
  | cons x events ih =>
    rw [List.cons_append, passes_cons, passes_cons, ih, List.foldl_cons, and_assoc]

/-- Two judgements that agree where an invariant holds agree on every run that starts in it. -/
theorem passes_congr {ok' : σ → α → Prop} {inv : σ → Prop} (hs : inv s)
    (hnext : ∀ s x, inv s → inv (next s x)) (hok : ∀ s x, inv s → (ok s x ↔ ok' s x)) :
    Passes next ok s events ↔ Passes next ok' s events := by
  induction events generalizing s with
  | nil => exact iff_of_true passes_nil passes_nil
  | cons x events ih => rw [passes_cons, passes_cons, hok s x hs, ih (hnext s x hs)]

/-- What an invariant gives in each state passes on every run that starts in it. -/
theorem passes_of_inv {inv : σ → Prop} (hs : inv s) (hnext : ∀ s x, inv s → inv (next s x))
    (hok : ∀ s x, inv s → ok s x) : Passes next ok s events :=
  (passes_congr hs hnext fun s x h => iff_of_true (hok s x h) trivial).mpr fun _ _ _ _ => trivial

/-- An invariant that passing events keep holds after a run of passing events. -/
theorem Passes.foldl_inv {inv : σ → Prop} (h : Passes next ok s events) (hs : inv s)
    (hnext : ∀ s x, inv s → ok s x → inv (next s x)) : inv (events.foldl next s) := by
  induction events generalizing s with
  | nil => exact hs
  | cons x events ih =>
    obtain ⟨hx, hrest⟩ := passes_cons.mp h
    exact ih hrest (hnext s x hs hx)

/-- One judgement gives another where an invariant holds that passing events keep. -/
theorem Passes.imp_of_inv {ok' : σ → α → Prop} {inv : σ → Prop} (h : Passes next ok s events)
    (hs : inv s) (hnext : ∀ s x, inv s → ok s x → inv (next s x))
    (hok : ∀ s x, inv s → ok s x → ok' s x) : Passes next ok' s events := by
  induction events generalizing s with
  | nil => exact passes_nil
  | cons x events ih =>
    obtain ⟨hx, hrest⟩ := passes_cons.mp h
    exact passes_cons.mpr ⟨hok s x hs hx, ih hrest (hnext s x hs hx)⟩

section Following

variable {τ : Type} {abs : σ → τ} {next' : τ → α → τ}

/-- After every event the abstraction is what the abstract steps give. -/
def Follows (next : σ → α → σ) (abs : σ → τ) (next' : τ → α → τ) (s : σ) (events : List α) : Prop :=
  ∀ before after, events = before ++ after → abs (before.foldl next s) = before.foldl next' (abs s)

theorem follows_nil : Follows next abs next' s [] := by
  intro before after heq
  obtain ⟨rfl, -⟩ := List.append_eq_nil_iff.mp heq.symm
  rfl

theorem follows_cons : Follows next abs next' s (x :: events) ↔
    abs (next s x) = next' (abs s) x ∧ Follows next abs next' (next s x) events := by
  constructor
  · intro h
    have hx : abs (next s x) = next' (abs s) x := h [x] events rfl
    refine ⟨hx, fun before after heq => ?_⟩
    rw [hx]
    exact h (x :: before) after (by rw [heq, List.cons_append])
  · rintro ⟨hx, hrest⟩ before after heq
    cases before with
    | nil => rfl
    | cons y before =>
      obtain ⟨rfl, hsplit⟩ := List.cons.inj heq
      rw [List.foldl_cons, List.foldl_cons, ← hx]
      exact hrest before after hsplit

/-- A run follows the abstract one exactly as long as each step does from where it is taken. -/
theorem follows_iff : Follows next abs next' s events ↔
    Passes next (fun s x => abs (next s x) = next' (abs s) x) s events := by
  induction events generalizing s with
  | nil => exact iff_of_true follows_nil passes_nil
  | cons x events ih => rw [follows_cons, passes_cons, ih]

end Following

end VirtualPlc.Control
