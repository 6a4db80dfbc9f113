import VirtualPlc.Control.Reading
import Mathlib.Data.List.Induction

/-!
# Bounded retries with a delay

A link is opened from outside, or by automatic attempts. A policy bounds the attempts that may
follow each other without success, and schedules the next one after each failure. `Obeys` judges
every attempt by the policy's own counter and timer. `Obeys.bounded` says what that means for the
events alone.
-/

set_option autoImplicit false

namespace VirtualPlc.Control

variable {τ : Type}

/-- What is seen of a link: it is opened from outside, or an attempt is made at some time, and fails
at a later one unless it succeeds. -/
inductive LinkEvent (τ : Type) where
  | opened
  | attempted (now : τ) (failedAt : Option τ)
deriving DecidableEq, Repr

namespace LinkEvent

/-- An automatic attempt. -/
def automatic : LinkEvent τ → Bool
  | opened => false
  | attempted _ _ => true

/-- An attempt that did not open the link. -/
def failed : LinkEvent τ → Bool
  | opened | attempted _ none => false
  | attempted _ (some _) => true

theorem automatic_of_failed {event : LinkEvent τ} (h : event.failed = true) :
    event.automatic = true := by
  cases event with
  | opened => cases h
  | attempted now failedAt => rfl

end LinkEvent

/-- How often an attempt may be repeated, and when after a failure. -/
structure RetryPolicy (τ : Type) where
  budget : Nat
  schedule : τ → τ

/-- Failures since the link was last open, and the time of the next attempt. -/
structure RetryState (τ : Type) where
  failures : Nat
  due : Option τ
deriving DecidableEq, Repr

/-- A link that has not been tried, or is open. -/
def RetryState.fresh : RetryState τ := ⟨0, none⟩

namespace RetryPolicy

variable (policy : RetryPolicy τ)

/-- The state after an event. -/
def next (s : RetryState τ) : LinkEvent τ → RetryState τ
  | .opened | .attempted _ none => .fresh
  | .attempted _ (some failedAt) => ⟨s.failures + 1, some (policy.schedule failedAt)⟩

/-- The state after a run. -/
def after (events : List (LinkEvent τ)) : RetryState τ := events.foldl policy.next .fresh

variable {policy} {events : List (LinkEvent τ)}

@[simp] theorem after_nil : policy.after [] = .fresh := rfl

@[simp] theorem after_append (front back : List (LinkEvent τ)) :
    policy.after (front ++ back) = back.foldl policy.next (policy.after front) := by
  rw [after, List.foldl_append]
  rfl

/-- Failures in a row are counted. -/
theorem failures_foldl {s : RetryState τ} (h : ∀ event ∈ events, event.failed = true) :
    (events.foldl policy.next s).failures = s.failures + events.length := by
  induction events generalizing s with
  | nil => rfl
  | cons event events ih =>
    rw [List.foldl_cons, ih fun e he => h e (List.mem_cons_of_mem _ he), List.length_cons]
    have hfailed := h event List.mem_cons_self
    match event, hfailed with
    | .attempted _ (some _), _ =>
      simp only [next]
      omega

variable [LE τ]

variable (policy) in
/-- An attempt is within the budget and not early. -/
def Allows (s : RetryState τ) : LinkEvent τ → Prop
  | .opened => True
  | .attempted now _ => s.failures < policy.budget ∧ ∀ due, s.due = some due → due ≤ now

variable (policy) in
/-- Every attempt of a run is allowed when it is made. -/
def Obeys (events : List (LinkEvent τ)) : Prop :=
  Passes policy.next policy.Allows RetryState.fresh events

theorem obeys_nil : policy.Obeys [] := passes_nil

theorem obeys_concat {event : LinkEvent τ} :
    policy.Obeys (events ++ [event]) ↔
      policy.Obeys events ∧ policy.Allows (policy.after events) event := by
  rw [Obeys, passes_append, passes_cons, and_iff_left passes_nil]
  rfl

/-- What a run that obeys the policy looks like from outside. -/
structure Bounded (policy : RetryPolicy τ) (events : List (LinkEvent τ)) : Prop where
  /-- After a failed attempt, the next one waits for its time. -/
  spaced : ∀ before now failedAt now' failedAt' rest,
    events = before ++ .attempted now (some failedAt) :: .attempted now' failedAt' :: rest →
      policy.schedule failedAt ≤ now'
  /-- From one time the link opens to the next there are at most `budget` attempts, the one that
  opens it included. -/
  budget : ∀ before piece last rest, events = before ++ (piece ++ [last]) ++ rest →
    (∀ event ∈ piece, event.failed = true) →
      (piece ++ [last]).countP LinkEvent.automatic ≤ policy.budget
  /-- After `budget` failures in a row, no attempt is made until the link is opened from outside. -/
  exhausted : ∀ before piece front now failedAt rest,
    events = before ++ piece ++ (front ++ .attempted now failedAt :: rest) →
    (∀ event ∈ piece, event.failed = true) → piece.length = policy.budget →
      LinkEvent.opened ∈ front

/-- An attempt after failures in a row is one more. -/
theorem Obeys.length_lt {before piece rest : List (LinkEvent τ)} {now : τ} {failedAt : Option τ}
    (h : policy.Obeys events)
    (hevents : events = before ++ piece ++ .attempted now failedAt :: rest)
    (hfailed : ∀ event ∈ piece, event.failed = true) : piece.length < policy.budget := by
  have hallowed := (h (before ++ piece) _ rest hevents).1
  rw [List.foldl_append, failures_foldl hfailed] at hallowed
  omega

theorem Obeys.spaced {before rest : List (LinkEvent τ)} {now failedAt now' : τ}
    {failedAt' : Option τ} (h : policy.Obeys events)
    (hevents : events =
      before ++ .attempted now (some failedAt) :: .attempted now' failedAt' :: rest) :
    policy.schedule failedAt ≤ now' := by
  have hallowed := h (before ++ [.attempted now (some failedAt)]) (.attempted now' failedAt') rest
    (by rw [hevents, List.append_assoc]; rfl)
  apply hallowed.2
  rw [List.foldl_append]
  rfl

/-- The count and the timer enforce the policy. -/
theorem Obeys.bounded (h : policy.Obeys events) : policy.Bounded events where
  spaced := fun _ _ _ _ _ _ hevents => h.spaced hevents
  budget := by
    intro before piece last rest hevents hfailed
    have hpiece : piece.countP LinkEvent.automatic = piece.length :=
      List.countP_eq_length.mpr fun event he => LinkEvent.automatic_of_failed (hfailed event he)
    rw [List.countP_append, hpiece, List.countP_singleton]
    cases last with
    | attempted now failedAt =>
      have hsplit : events = before ++ piece ++ .attempted now failedAt :: rest := by
        rw [hevents]
        simp
      have hlt := h.length_lt hsplit hfailed
      simp only [LinkEvent.automatic, if_true]
      omega
    | opened =>
      simp only [LinkEvent.automatic, Bool.false_eq_true, if_false, Nat.add_zero]
      -- the last of the failures is one more than the failures before it
      induction piece using List.reverseRecOn with
      | nil => exact Nat.zero_le _
      | append_singleton piece event _ =>
        have hevent := hfailed event (by simp)
        match event, hevent with
        | .attempted now (some failedAt), _ =>
          have hsplit : events =
              before ++ piece ++ .attempted now (some failedAt) :: .opened :: rest := by
            rw [hevents]
            simp
          rw [List.length_append]
          exact h.length_lt hsplit fun e he => hfailed e (List.mem_append_left _ he)
  exhausted := by
    intro before piece front now failedAt rest hevents hfailed hlength
    cases front with
    | nil => exact absurd (h.length_lt hevents hfailed) (hlength ▸ Nat.lt_irrefl _)
    | cons event front =>
      cases event with
      | opened => exact List.mem_cons_self
      | attempted now' failedAt' =>
        exact absurd (h.length_lt hevents hfailed) (hlength ▸ Nat.lt_irrefl _)

end RetryPolicy

end VirtualPlc.Control
