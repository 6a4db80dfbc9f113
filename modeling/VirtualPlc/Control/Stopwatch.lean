import Mathlib.Algebra.BigOperators.Group.List.Basic
import Mathlib.Algebra.Order.Ring.Int
import Mathlib.Data.List.DropRight
import Mathlib.Order.Lattice

/-!
# Stopwatches

A stopwatch runs while a condition holds of the events, is cleared by the others, and stops at a
cap. `stopwatch_eq` compares it with the weights of the events since the last one that cleared it,
which have an exact sum (`lastRun`).
-/

set_option autoImplicit false

namespace VirtualPlc.Control

variable {α β : Type} {p : α → Bool} {w : α → Int} {x : α} {events : List α} {cap : Int}

/-- Total weight of the events that a list ends with and that meet a condition. -/
def lastRun (p : α → Bool) (w : α → Int) (events : List α) : Int :=
  ((events.rtakeWhile p).map w).sum

@[simp] theorem lastRun_nil (p : α → Bool) (w : α → Int) : lastRun p w [] = 0 := rfl

/-- An event that meets the condition continues the run, or starts one. -/
theorem lastRun_concat_of_pos (h : p x = true) :
    lastRun p w (events ++ [x]) = lastRun p w events + w x := by
  rw [lastRun, List.rtakeWhile_concat_pos p events x h, List.map_append, List.sum_append]
  simp [lastRun]

theorem lastRun_concat_of_neg (h : p x = false) : lastRun p w (events ++ [x]) = 0 := by
  rw [lastRun, List.rtakeWhile_concat_neg p events x (by simp [h])]
  rfl

/-- With the weights of a condition a run is counted. -/
theorem lastRun_count (p q : α → Bool) (events : List α) :
    lastRun p (fun x => if q x then 1 else 0) events = (events.rtakeWhile p).countP q := by
  rw [lastRun]
  induction events.rtakeWhile p with
  | nil => rfl
  | cons x rest ih =>
    rw [List.map_cons, List.sum_cons, ih, List.countP_cons, Nat.cast_add, Int.add_comm]
    cases q x <;> rfl

/-- One event. -/
def tick (cap : Int) (p : α → Bool) (w : α → Int) (time : Int) (x : α) : Int :=
  if p x then min cap (time + w x) else 0

/-- What a stopwatch shows after some events. -/
def stopwatch (cap : Int) (p : α → Bool) (w : α → Int) (events : List α) : Int :=
  events.foldl (tick cap p w) 0

@[simp] theorem stopwatch_nil (cap : Int) (p : α → Bool) (w : α → Int) :
    stopwatch cap p w [] = 0 := rfl

theorem stopwatch_concat (cap : Int) (p : α → Bool) (w : α → Int) (events : List α) (x : α) :
    stopwatch cap p w (events ++ [x]) = tick cap p w (stopwatch cap p w events) x := by
  rw [stopwatch, List.foldl_concat]
  rfl

/-- A stopwatch of changed events watches for the changed condition. -/
theorem stopwatch_map (p : β → Bool) (w : β → Int) (f : α → β) (events : List α) :
    stopwatch cap p w (events.map f) =
      stopwatch cap (fun x => p (f x)) (fun x => w (f x)) events := by
  rw [stopwatch, List.foldl_map]
  rfl

/-- A stopwatch stays between zero and its cap. -/
theorem stopwatch_mem (hcap : 0 ≤ cap) (hw : ∀ x, 0 ≤ w x) (events : List α) :
    0 ≤ stopwatch cap p w events ∧ stopwatch cap p w events ≤ cap := by
  induction events using List.reverseRecOn with
  | nil => exact ⟨Int.le_refl 0, hcap⟩
  | append_singleton events x ih =>
    have hweight := hw x
    rw [stopwatch_concat, tick]
    split
    · omega
    · exact ⟨Int.le_refl 0, hcap⟩

/-- A cap that has been reached stays reached, as no weight is negative. -/
theorem min_min_add {time weight : Int} (h : 0 ≤ weight) :
    min cap (min cap time + weight) = min cap (time + weight) := by
  omega

/-- A stopwatch shows the exact sum of the last run, up to its cap. -/
theorem stopwatch_eq (hcap : 0 ≤ cap) (hw : ∀ x, 0 ≤ w x) (events : List α) :
    stopwatch cap p w events = min cap (lastRun p w events) := by
  induction events using List.reverseRecOn with
  | nil => exact (min_eq_right hcap).symm
  | append_singleton events x ih =>
    rw [stopwatch_concat, tick, ih]
    cases h : p x with
    | false =>
      rw [lastRun_concat_of_neg h]
      exact (min_eq_right hcap).symm
    | true =>
      rw [lastRun_concat_of_pos h]
      exact min_min_add (hw x)

end VirtualPlc.Control
