import Mathlib.Data.List.Basic
import Mathlib.Tactic.Common

/-!
# Frames that announce their size

A stream of frames without separators. The first symbols of a frame, its head, announce the size of
the whole frame, so the boundaries are determined by the symbols alone (`Framing.whole_append`).
-/

set_option autoImplicit false

namespace VirtualPlc.Word

/-- How frames announce their size: `size` reads the first `head` symbols only, and a frame is never
shorter than its head. -/
structure Framing (α : Type) where
  head : Nat
  size : List α → Nat
  head_pos : 0 < head
  head_le : ∀ xs, head ≤ size xs
  size_append : ∀ xs ys, head ≤ xs.length → size (xs ++ ys) = size xs

namespace Framing

variable {α : Type} (fr : Framing α)

/-- A list that is one frame: as long as it says. -/
def IsFrame (xs : List α) : Prop := fr.head ≤ xs.length ∧ fr.size xs = xs.length

/-- A list of whole frames: its end is a frame boundary. -/
inductive Whole : List α → Prop where
  | nil : Whole []
  | frame {xs ys : List α} (frame : fr.IsFrame xs) (rest : Whole ys) : Whole (xs ++ ys)

variable {fr} {xs ys : List α}

/-- The first frame of a stream is determined by the stream. -/
theorem IsFrame.unique {xs' ys' : List α} (h : fr.IsFrame xs) (h' : fr.IsFrame xs')
    (heq : xs ++ ys = xs' ++ ys') : xs = xs' ∧ ys = ys' := by
  have hlen : xs.length = xs'.length := by
    calc xs.length = fr.size (xs ++ ys) := by rw [fr.size_append xs ys h.1, h.2]
      _ = fr.size (xs' ++ ys') := by rw [heq]
      _ = xs'.length := by rw [fr.size_append xs' ys' h'.1, h'.2]
  exact List.append_inj heq hlen

theorem IsFrame.whole (h : fr.IsFrame xs) : fr.Whole xs := by
  have hframe := Whole.frame h .nil
  rwa [List.append_nil] at hframe

/-- A stream that is not empty and ends at a boundary starts with a frame. -/
theorem Whole.cases_ne_nil (h : fr.Whole xs) (hne : xs ≠ []) :
    ∃ frame rest, fr.IsFrame frame ∧ fr.Whole rest ∧ xs = frame ++ rest := by
  cases h with
  | nil => exact absurd rfl hne
  | frame frame rest => exact ⟨_, _, frame, rest, rfl⟩

/-- After a frame, the stream ends at a boundary if what follows does. -/
theorem IsFrame.whole_append (h : fr.IsFrame xs) : fr.Whole (xs ++ ys) ↔ fr.Whole ys := by
  constructor
  · intro hwhole
    have hne : xs ++ ys ≠ [] := by
      intro hnil
      have hpos := fr.head_pos
      have hle := h.1
      rw [(List.append_eq_nil_iff.mp hnil).1, List.length_nil] at hle
      omega
    obtain ⟨frame, rest, hframe, hrest, heq⟩ := hwhole.cases_ne_nil hne
    obtain ⟨-, rfl⟩ := h.unique hframe heq
    exact hrest
  · exact Whole.frame h

/-- From a boundary on, only what follows matters. -/
theorem Whole.whole_append (h : fr.Whole xs) : fr.Whole (xs ++ ys) ↔ fr.Whole ys := by
  induction h with
  | nil => exact Iff.rfl
  | frame frame rest ih => rw [List.append_assoc, frame.whole_append, ih]

/-- A stream too short for two frames ends at a boundary if it is one. -/
theorem whole_iff_isFrame (hne : xs ≠ []) (hshort : xs.length < 2 * fr.head) :
    fr.Whole xs ↔ fr.IsFrame xs := by
  constructor
  · intro hwhole
    obtain ⟨frame, rest, hframe, hrest, rfl⟩ := hwhole.cases_ne_nil hne
    by_cases hnil : rest = []
    · subst hnil
      rwa [List.append_nil]
    · -- a second frame would not fit
      obtain ⟨frame', rest', hframe', -, rfl⟩ := hrest.cases_ne_nil hnil
      have hle := hframe.1
      have hle' := hframe'.1
      simp only [List.length_append] at hshort
      omega
  · exact IsFrame.whole

end Framing

end VirtualPlc.Word
