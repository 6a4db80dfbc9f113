import Mathlib.Algebra.GroupWithZero.Nat
import Mathlib.Algebra.Order.BigOperators.Group.List
import Mathlib.Algebra.Order.Group.Nat
import Mathlib.Data.List.Induction
import Mathlib.Order.Bounds.Basic

/-!
# Extremes and averages of a list

The least and the greatest element of a list that grows at its end, kept as a running minimum and
maximum from a bound, and the average between them.
-/

set_option autoImplicit false

namespace VirtualPlc.Control

theorem setOf_mem_concat {α : Type} (xs : List α) (x : α) :
    {y | y ∈ xs ++ [x]} = insert x {y | y ∈ xs} := by
  ext y
  simp only [Set.mem_ofPred_eq, List.mem_append, List.mem_singleton, Set.mem_insert_iff]
  exact or_comm

section Running

variable {α : Type} [LinearOrder α] {xs : List α} {m bound : α}

theorem isLeast_concat (h : IsLeast {y | y ∈ xs} m) (x : α) :
    IsLeast {y | y ∈ xs ++ [x]} (min m x) := by
  rw [setOf_mem_concat, min_comm]
  exact h.insert x

theorem isLeast_mem_singleton (x : α) : IsLeast {y | y ∈ [x]} x :=
  ⟨List.mem_singleton_self x, fun _ hy => (List.mem_singleton.mp hy).ge⟩

/-- A running minimum that starts at an upper bound. -/
theorem isLeast_foldl_min (hne : xs ≠ []) (hbound : ∀ x ∈ xs, x ≤ bound) :
    IsLeast {y | y ∈ xs} (xs.foldl min bound) := by
  induction xs using List.reverseRecOn with
  | nil => exact absurd rfl hne
  | append_singleton xs x ih =>
    rw [List.foldl_concat]
    by_cases hempty : xs = []
    · subst hempty
      rw [List.foldl_nil, min_eq_right (hbound x (by simp))]
      exact isLeast_mem_singleton x
    · exact isLeast_concat (ih hempty fun y hy => hbound y (List.mem_append_left _ hy)) x

/-- A running maximum that starts at a lower bound. -/
theorem isGreatest_foldl_max (hne : xs ≠ []) (hbound : ∀ x ∈ xs, bound ≤ x) :
    IsGreatest {y | y ∈ xs} (xs.foldl max bound) :=
  isLeast_foldl_min (α := αᵒᵈ) hne hbound

end Running

variable {xs : List Nat} {least greatest : Nat}

/-- The average lies between the extremes. -/
theorem average_mem (hne : xs ≠ []) (hleast : IsLeast {x | x ∈ xs} least)
    (hgreatest : IsGreatest {x | x ∈ xs} greatest) :
    least ≤ xs.sum / xs.length ∧ xs.sum / xs.length ≤ greatest := by
  have hpos : 0 < xs.length := List.length_pos_iff.mpr hne
  constructor
  · rw [Nat.le_div_iff_mul_le hpos, Nat.mul_comm]
    exact List.card_nsmul_le_sum xs least fun x hx => hleast.2 hx
  · apply Nat.div_le_of_le_mul
    exact List.sum_le_card_nsmul xs greatest fun x hx => hgreatest.2 hx

/-- Elements that are counted contribute to the sum. -/
theorem countP_le_sum {p : Nat → Bool} (h : ∀ x, p x = true → 0 < x) :
    xs.countP p ≤ xs.sum := by
  induction xs with
  | nil => exact le_refl 0
  | cons x rest ih =>
    rw [List.countP_cons, List.sum_cons]
    split
    · next hx =>
      have hpos := h x hx
      omega
    · omega

end VirtualPlc.Control
