import Mathlib.Data.List.Induction
import Mathlib.Tactic.Common

/-!
# Bindings that shadow

Names bound one after another, the last binding of a name counting: an association list with the
last binding at its front finds exactly it (`lookup_reverse_zipIdx`).
-/

set_option autoImplicit false

namespace VirtualPlc.Control

universe u

variable {α : Type u}

/-- The last place of `x` in the list. -/
def LastAt (xs : List α) (x : α) (j : Nat) : Prop :=
  xs[j]? = some x ∧ ∀ k, j < k → xs[k]? ≠ some x

theorem LastAt.mem {xs : List α} {x : α} {j : Nat} (h : LastAt xs x j) : x ∈ xs :=
  List.mem_of_getElem? h.1

theorem LastAt.lt {xs : List α} {x : α} {j : Nat} (h : LastAt xs x j) : j < xs.length :=
  (List.getElem?_eq_some_iff.mp h.1).1

/-- There is one last place. -/
theorem LastAt.unique {xs : List α} {x : α} {j k : Nat} (hj : LastAt xs x j) (hk : LastAt xs x k) :
    j = k := by
  rcases Nat.lt_trichotomy j k with hlt | rfl | hgt
  · exact absurd hk.1 (hj.2 k hlt)
  · rfl
  · exact absurd hj.1 (hk.2 j hgt)

theorem lastAt_concat_self (xs : List α) (x : α) : LastAt (xs ++ [x]) x xs.length := by
  refine ⟨by simp, fun k hk => ?_⟩
  rw [List.getElem?_eq_none (by rw [List.length_append, List.length_singleton]; exact hk)]
  exact nofun

/-- Another element at the end leaves the last place. -/
theorem lastAt_concat_of_ne {xs : List α} {x y : α} (hne : y ≠ x) {j : Nat} :
    LastAt (xs ++ [y]) x j ↔ LastAt xs x j := by
  have hget : ∀ k : Nat, (xs ++ [y])[k]? = some x ↔ xs[k]? = some x := by
    intro k
    rcases Nat.lt_or_ge k xs.length with hk | hk
    · rw [List.getElem?_append_left hk]
    · rw [List.getElem?_append_right hk, List.getElem?_eq_none hk]
      cases k - xs.length with
      | zero => simp [hne]
      | succ i => simp
  constructor
  · rintro ⟨hj, hlast⟩
    exact ⟨(hget j).mp hj, fun k hk h => hlast k hk ((hget k).mpr h)⟩
  · rintro ⟨hj, hlast⟩
    exact ⟨(hget j).mpr hj, fun k hk h => hlast k hk ((hget k).mp h)⟩

/-- Everything in a list has a last place. -/
theorem exists_lastAt {xs : List α} {x : α} (h : x ∈ xs) : ∃ j, LastAt xs x j := by
  induction xs using List.reverseRecOn with
  | nil => cases h
  | append_singleton xs y ih =>
    by_cases hy : y = x
    · exact ⟨xs.length, hy ▸ lastAt_concat_self xs y⟩
    · have hx : x ∈ xs := by
        rcases List.mem_append.mp h with hx | hx
        · exact hx
        · exact absurd (List.mem_singleton.mp hx).symm hy
      obtain ⟨j, hj⟩ := ih hx
      exact ⟨j, (lastAt_concat_of_ne hy).mpr hj⟩

/-- A name that is bound to its place in the list, counted from `first`, is found at its last place.
-/
theorem lookup_reverse_zipIdx [BEq α] [LawfulBEq α] (xs : List α) (x : α) (first i : Nat) :
    (xs.zipIdx first).reverse.lookup x = some i ↔ ∃ j, LastAt xs x j ∧ i = first + j := by
  induction xs using List.reverseRecOn with
  | nil =>
    constructor
    · intro h
      cases h
    · rintro ⟨j, hj, -⟩
      cases hj.mem
  | append_singleton xs y ih =>
    rw [List.zipIdx_append, List.reverse_append]
    show ((y, first + xs.length) :: (xs.zipIdx first).reverse).lookup x = some i ↔ _
    rw [List.lookup_cons]
    by_cases hy : x = y
    · subst hy
      rw [beq_self_eq_true, Option.some.injEq]
      constructor
      · rintro rfl
        exact ⟨xs.length, lastAt_concat_self xs x, rfl⟩
      · rintro ⟨j, hj, rfl⟩
        rw [hj.unique (lastAt_concat_self xs x)]
    · rw [beq_false_of_ne hy]
      show (xs.zipIdx first).reverse.lookup x = some i ↔ _
      rw [ih]
      constructor
      · rintro ⟨j, hj, hi⟩
        exact ⟨j, (lastAt_concat_of_ne (Ne.symm hy)).mpr hj, hi⟩
      · rintro ⟨j, hj, hi⟩
        exact ⟨j, (lastAt_concat_of_ne (Ne.symm hy)).mp hj, hi⟩

end VirtualPlc.Control
