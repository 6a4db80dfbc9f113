import Mathlib.Algebra.Order.Ring.Int
import Mathlib.Logic.Function.Iterate
import Mathlib.Order.Basic
import Mathlib.Tactic.Linarith

/-!
# Geometric decay of integers

Taking `d / 2 ^ k`, rounded down, off `d` again and again. Rounding differs by sign, but no step
goes past zero, and outside of `[0, 2 ^ k)` every step comes nearer to it: each integer gets into
this zone (`exists_settled`) and stays where it enters (`iterate_decay_of_settled`).
-/

set_option autoImplicit false

namespace VirtualPlc.Word

/-- Takes a part off, as an arithmetic shift to the right rounds it. -/
def decay (k : Nat) (d : Int) : Int := d - d / 2 ^ k

/-- Within the zone nothing is taken off. -/
def Settled (k : Nat) (d : Int) : Prop := 0 ≤ d ∧ d < 2 ^ k

variable {k : Nat} {d : Int}

theorem decay_of_settled (h : Settled k d) : decay k d = d := by
  rw [decay, Int.ediv_eq_zero_of_lt h.1 h.2, Int.sub_zero]

/-- A value that is not negative comes down, and stops at zero at the latest. -/
theorem decay_of_nonneg (h : 0 ≤ d) : 0 ≤ decay k d ∧ decay k d ≤ d := by
  have hpart : 0 ≤ d / 2 ^ k := Int.ediv_nonneg h (Int.le_of_lt (Int.pow_pos (by decide)))
  have hall : d / 2 ^ k ≤ d := Int.ediv_le_self _ h
  rw [decay]
  omega

/-- A negative value comes up, and stops at zero at the latest: its part is rounded away from zero.
-/
theorem decay_of_neg (h : d < 0) : d < decay k d ∧ decay k d ≤ 0 := by
  have hpos : (0 : Int) < 2 ^ k := Int.pow_pos (by decide)
  have hpart : d / 2 ^ k < 0 := Int.ediv_neg_of_neg_of_pos h hpos
  have hall : d ≤ d / 2 ^ k := by
    rw [Int.le_ediv_iff_mul_le hpos]
    calc d * 2 ^ k ≤ d * 1 := Int.mul_le_mul_of_nonpos_left (Int.le_of_lt h) hpos
      _ = d := Int.mul_one d
  rw [decay]
  omega

/-- Above the zone the part is at least one. -/
theorem decay_lt (h : 2 ^ k ≤ d) : decay k d < d := by
  have hpart : 1 ≤ d / 2 ^ k := by
    rw [Int.le_ediv_iff_mul_le (Int.pow_pos (by decide)), Int.one_mul]
    exact h
  rw [decay]
  omega

theorem natAbs_decay_le (k : Nat) (d : Int) : (decay k d).natAbs ≤ d.natAbs := by
  rcases Int.lt_or_le d 0 with hneg | hnonneg
  · have h := decay_of_neg (k := k) hneg
    omega
  · have h := decay_of_nonneg (k := k) hnonneg
    omega

/-- Outside of the zone the distance from zero gets smaller. -/
theorem natAbs_decay_lt (h : ¬ Settled k d) : (decay k d).natAbs < d.natAbs := by
  rcases Int.lt_or_le d 0 with hneg | hnonneg
  · have hup := decay_of_neg (k := k) hneg
    omega
  · have hhigh : 2 ^ k ≤ d := Int.not_lt.mp fun hlt => h ⟨hnonneg, hlt⟩
    have hdown := decay_of_nonneg (k := k) hnonneg
    have hlt := decay_lt hhigh
    omega

/-- Between zero and a first value. -/
def Between (c d : Int) : Prop := 0 ≤ d ∧ d ≤ c ∨ c ≤ d ∧ d ≤ 0

theorem between_self (c : Int) : Between c c := by
  rw [Between]
  omega

theorem Between.decay {c : Int} (h : Between c d) : Between c (decay k d) := by
  rcases h with ⟨hlow, hhigh⟩ | ⟨hlow, hhigh⟩
  · have hdown := decay_of_nonneg (k := k) hlow
    exact .inl ⟨hdown.1, by omega⟩
  · rcases Int.lt_or_eq_of_le hhigh with hneg | rfl
    · have hup := decay_of_neg (k := k) hneg
      exact .inr ⟨by omega, hup.2⟩
    · rw [decay_of_settled ⟨Int.le_refl 0, Int.pow_pos (by decide)⟩]
      exact .inr ⟨hlow, hhigh⟩

/-! ## Repeated steps -/

theorem between_iterate_decay (c : Int) (n : Nat) : Between c ((decay k)^[n] c) := by
  induction n with
  | zero => exact between_self c
  | succ n ih =>
    rw [Function.iterate_succ_apply']
    exact ih.decay

theorem iterate_decay_of_settled (h : Settled k d) (n : Nat) : (decay k)^[n] d = d :=
  Function.iterate_fixed (decay_of_settled h) n

theorem natAbs_iterate_decay_le (d : Int) (n : Nat) :
    ((decay k)^[n] d).natAbs ≤ d.natAbs := by
  induction n with
  | zero => exact Nat.le_refl _
  | succ n ih =>
    rw [Function.iterate_succ_apply']
    exact Nat.le_trans (natAbs_decay_le k _) ih

/-- The steps up to a later one are those up to an earlier one and those from there. -/
theorem iterate_decay_of_le {i j : Nat} (h : i ≤ j) (d : Int) :
    (decay k)^[j] d = (decay k)^[j - i] ((decay k)^[i] d) := by
  rw [← Function.iterate_add_apply, Nat.sub_add_cancel h]

/-- Every value gets into the zone; the distance from zero decreases until it does. -/
theorem exists_settled (k : Nat) (d : Int) :
    ∃ n, ∀ later, n ≤ later → Settled k ((decay k)^[later] d) := by
  induction hsize : d.natAbs using Nat.strong_induction_on generalizing d with
  | _ size ih =>
    subst hsize
    by_cases hsettled : Settled k d
    · refine ⟨0, fun later _ => ?_⟩
      rwa [iterate_decay_of_settled hsettled]
    · obtain ⟨n, hn⟩ := ih _ (natAbs_decay_lt hsettled) (decay k d) rfl
      refine ⟨n + 1, fun later hlater => ?_⟩
      obtain ⟨m, rfl⟩ : ∃ m, later = m + 1 := ⟨later - 1, by omega⟩
      rw [Function.iterate_succ_apply]
      exact hn m (by omega)

end VirtualPlc.Word
