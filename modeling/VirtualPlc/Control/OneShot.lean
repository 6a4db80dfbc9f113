import VirtualPlc.Control.Reading
import Mathlib.Algebra.BigOperators.Group.List.Basic
import Mathlib.Algebra.Order.Ring.Int

/-!
# One-shots

A one-shot is started by an event and runs until the weights of the events, counted from the one
that started it, reach a cap. While it runs nothing starts it again. Starts are defined by the
history alone (`Starts`); `starts_iff` and `elapsed_concat_iff` give them a state, the weight of the
pulse under way.
-/

set_option autoImplicit false

namespace VirtualPlc.Control

variable {α : Type} {cap : Int} {trigger : List α → α → Prop} {w : α → Int}
variable {before events : List α} {x : α} {time : Int}

/-- Total weight of some events. -/
def total (w : α → Int) (events : List α) : Int := (events.map w).sum

theorem total_concat (w : α → Int) (events : List α) (x : α) :
    total w (events ++ [x]) = total w events + w x := by
  simp [total]

/-- An event starts a pulse if it is a trigger after the events before it, and every pulse that was
started by one of those has reached the cap. -/
def Starts (cap : Int) (trigger : List α → α → Prop) (w : α → Int) (before : List α) (x : α) :
    Prop :=
  trigger before x ∧ ∀ earlier y during, before = earlier ++ y :: during →
    Starts cap trigger w earlier y → cap ≤ total w (y :: during)
termination_by before.length
decreasing_by simp [*]

/-- After the events a pulse is under way, of which this much has elapsed. -/
def Elapsed (cap : Int) (trigger : List α → α → Prop) (w : α → Int) (events : List α)
    (time : Int) : Prop :=
  ∃ before y during, events = before ++ y :: during ∧ Starts cap trigger w before y ∧
    time = total w (y :: during) ∧ time < cap

theorem not_elapsed_nil : ¬ Elapsed cap trigger w [] time := by
  rintro ⟨before, y, during, h, -⟩
  simp at h

/-- A trigger starts a pulse unless one is under way. -/
theorem starts_iff :
    Starts cap trigger w events x ↔
      trigger events x ∧ ¬ ∃ time, Elapsed cap trigger w events time := by
  rw [Starts]
  apply and_congr_right
  intro _
  constructor
  · rintro h ⟨time, before, y, during, hsplit, hstarts, rfl, hlt⟩
    exact absurd (h before y during hsplit hstarts) (not_le.mpr hlt)
  · intro h before y during hsplit hstarts
    by_contra hlt
    exact h ⟨_, before, y, during, hsplit, hstarts, rfl, not_le.mp hlt⟩

/-- What an event does: the pulse under way goes on or the event starts one, and either reaches the
cap or not. -/
theorem elapsed_concat_iff (hw : ∀ x, 0 ≤ w x) :
    Elapsed cap trigger w (events ++ [x]) time ↔ time < cap ∧
      ((∃ earlier, Elapsed cap trigger w events earlier ∧ time = earlier + w x) ∨
        Starts cap trigger w events x ∧ time = w x) := by
  have hweight := hw x
  constructor
  · rintro ⟨before, y, during, hsplit, hstarts, rfl, hlt⟩
    refine ⟨hlt, ?_⟩
    -- the event is the one that started the pulse, or the last one of it
    rcases split_concat hsplit with ⟨rfl, rfl, rfl⟩ | ⟨during, rfl, rfl⟩
    · exact .inr ⟨hstarts, by simp [total]⟩
    · rw [← List.cons_append, total_concat] at hlt ⊢
      exact .inl ⟨_, ⟨before, y, during, rfl, hstarts, rfl, by omega⟩, rfl⟩
  · rintro ⟨hlt, ⟨earlier, ⟨before, y, during, rfl, hstarts, rfl, -⟩, rfl⟩ | ⟨hstarts, rfl⟩⟩
    · refine ⟨before, y, during ++ [x], by simp, hstarts, ?_, hlt⟩
      rw [← List.cons_append, total_concat]
    · exact ⟨events, x, [], rfl, hstarts, by simp [total], hlt⟩

end VirtualPlc.Control
