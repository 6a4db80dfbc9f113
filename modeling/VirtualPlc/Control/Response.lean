import Mathlib.Data.List.Basic
import Mathlib.Tactic.Common

/-!
# Responses before a barrier

Over a list of events: every trigger is followed by an answer, with no barrier in between. A barrier
splits the list into parts that can be judged one by one (`answered_barrier`).
-/

set_option autoImplicit false

namespace VirtualPlc.Control

variable {α : Type} {trigger answer barrier : α → Prop}

/-- An answer comes before any barrier. -/
def First (answer barrier : α → Prop) (events : List α) : Prop :=
  ∃ before x after, events = before ++ x :: after ∧ answer x ∧ ∀ y ∈ before, ¬ barrier y

/-- Every trigger is followed by an answer before any barrier. -/
def Answered (trigger answer barrier : α → Prop) (events : List α) : Prop :=
  ∀ before x after, events = before ++ x :: after → trigger x → First answer barrier after

theorem first_nil : ¬ First answer barrier [] := by
  rintro ⟨before, x, after, heq, -⟩
  simp at heq

theorem first_cons {x : α} {events : List α} :
    First answer barrier (x :: events) ↔ answer x ∨ ¬ barrier x ∧ First answer barrier events := by
  constructor
  · rintro ⟨before, y, after, heq, hanswer, hno⟩
    cases before with
    | nil =>
      obtain ⟨rfl, -⟩ := List.cons.inj heq
      exact .inl hanswer
    | cons z before =>
      obtain ⟨rfl, hrest⟩ := List.cons.inj heq
      refine .inr ⟨hno x (by simp), before, y, after, hrest, hanswer, ?_⟩
      exact fun w hw => hno w (List.mem_cons_of_mem x hw)
  · rintro (hanswer | ⟨hx, before, y, after, rfl, hanswer, hno⟩)
    · exact ⟨[], x, events, rfl, hanswer, by simp⟩
    · refine ⟨x :: before, y, after, rfl, hanswer, fun w hw => ?_⟩
      rcases List.mem_cons.mp hw with rfl | hmem
      · exact hx
      · exact hno w hmem

/-- Nothing after a barrier counts as a first answer. -/
theorem first_barrier {x : α} {front back : List α} (hx : barrier x) (hnot : ¬ answer x) :
    First answer barrier (front ++ x :: back) ↔ First answer barrier front := by
  induction front with
  | nil =>
    rw [List.nil_append, first_cons]
    simp [hx, hnot, first_nil]
  | cons y front ih => rw [List.cons_append, first_cons, first_cons, ih]

/-- Events that are no answers add nothing. -/
theorem first_append {front back : List α} (h : ∀ x ∈ back, ¬ answer x) :
    First answer barrier (front ++ back) ↔ First answer barrier front := by
  induction front with
  | nil =>
    have hback : ¬ First answer barrier back := by
      rintro ⟨before, x, after, rfl, hanswer, -⟩
      exact h x (by simp) hanswer
    simp [hback, first_nil]
  | cons y front ih => rw [List.cons_append, first_cons, first_cons, ih]

theorem answered_nil : Answered trigger answer barrier [] := by
  intro before x after heq
  simp at heq

theorem answered_cons {x : α} {events : List α} :
    Answered trigger answer barrier (x :: events) ↔
      (trigger x → First answer barrier events) ∧ Answered trigger answer barrier events := by
  constructor
  · intro h
    refine ⟨h [] x events rfl, fun before y after heq => ?_⟩
    exact h (x :: before) y after (by rw [heq, List.cons_append])
  · rintro ⟨hx, h⟩ before y after heq
    cases before with
    | nil =>
      obtain ⟨rfl, rfl⟩ := List.cons.inj heq
      exact hx
    | cons z before =>
      obtain ⟨rfl, hrest⟩ := List.cons.inj heq
      exact h before y after hrest

/-- The parts on the two sides of a barrier are judged apart. -/
theorem answered_barrier {x : α} {front back : List α} (hx : barrier x) (hanswer : ¬ answer x)
    (htrigger : ¬ trigger x) : Answered trigger answer barrier (front ++ x :: back) ↔
      Answered trigger answer barrier front ∧ Answered trigger answer barrier back := by
  induction front with
  | nil => simp [answered_cons, answered_nil, htrigger]
  | cons y front ih =>
    rw [List.cons_append, answered_cons, answered_cons, first_barrier hx hanswer, ih, and_assoc]

/-- Events that are neither triggers nor answers change nothing. -/
theorem answered_append {front back : List α} (h : ∀ x ∈ back, ¬ answer x ∧ ¬ trigger x) :
    Answered trigger answer barrier (front ++ back) ↔ Answered trigger answer barrier front := by
  induction front with
  | nil =>
    refine iff_of_true ?_ answered_nil
    intro before x after heq htrigger
    exact absurd htrigger (h x (by rw [← List.nil_append back, heq]; simp)).2
  | cons y front ih =>
    rw [List.cons_append, answered_cons, answered_cons, first_append fun x hx => (h x hx).1, ih]

end VirtualPlc.Control
