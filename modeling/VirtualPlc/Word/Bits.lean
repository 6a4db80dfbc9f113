import Mathlib.Data.BitVec
import Mathlib.Data.List.Basic
import Mathlib.Tactic.Common

/-!
# Bits one at a time

A loop over enumerated bits that sets one bit of its state for each of them leaves exactly these
bits (`SetsBits.read_foldl`). A loop that fills consecutive places of a vector leaves its values
there (`drop_take_fill`).
-/

set_option autoImplicit false

namespace VirtualPlc.Word

/-- The usual test of one bit. -/
theorem decide_shift_and_one {w : Nat} (x : BitVec w) (n : Nat) :
    decide ((x >>> n) &&& 1 ≠ 0) = x.getLsbD n := by
  have hmask : (x >>> n) &&& 1 = (BitVec.ofBool ((x >>> n).getLsbD 0)).setWidth w :=
    BitVec.and_one_eq_setWidth_ofBool_getLsbD
  rw [hmask, BitVec.getLsbD_ushiftRight, Nat.add_zero]
  cases hbit : x.getLsbD n with
  | false => simp
  | true =>
    have hlt : n < w := BitVec.lt_of_getLsbD hbit
    have hne : (BitVec.ofBool true).setWidth w ≠ 0 := by
      intro hzero
      have hlow := congrArg (fun y => BitVec.getLsbD y 0) hzero
      simp [show 0 < w by omega] at hlow
    rw [decide_eq_true_iff]
    exact hne

/-- The bits of a shifted one. -/
theorem getLsbD_mask {w : Nat} (n j : Nat) :
    (BitVec.ofNat w (1 <<< n)).getLsbD j = (decide (j < w) && decide (j = n)) := by
  rw [BitVec.getLsbD_ofNat, Nat.one_shiftLeft, Nat.testBit_two_pow]
  simp [eq_comm]

section Enumerated

variable {σ : Type}

/-- On valid states a step sets the bit of its own number and no other. -/
structure SetsBits (step : σ → Bool × Nat → σ) (read : σ → Nat → Bool) (valid : σ → Prop)
    (bound : Nat) : Prop where
  stays : ∀ s bit i, valid s → i < bound → valid (step s (bit, i))
  sets : ∀ s bit i j, valid s → i < bound →
    read (step s (bit, i)) j = (read s j || (bit && decide (j = i)))

variable {step : σ → Bool × Nat → σ} {read : σ → Nat → Bool} {valid : σ → Prop} {bound : Nat}

/-- The loop sets the bits of the list. -/
theorem SetsBits.read_foldl (h : SetsBits step read valid bound) (bits : List Bool) {start : Nat}
    {s : σ} (hs : valid s) (hlen : start + bits.length ≤ bound) (j : Nat) :
    read ((bits.zipIdx start).foldl step s) j =
      (read s j || (decide (start ≤ j) && bits[j - start]?.getD false)) := by
  induction bits generalizing start s with
  | nil => simp
  | cons bit bits ih =>
    rw [List.length_cons] at hlen
    rw [List.zipIdx_cons, List.foldl_cons, ih (h.stays s bit start hs (by omega)) (by omega),
      h.sets s bit start j hs (by omega), Bool.or_assoc]
    congr 1
    rcases Nat.lt_trichotomy j start with hlt | rfl | hgt
    · simp [Nat.not_le.mpr hlt, Nat.ne_of_lt hlt, Nat.not_le.mpr (Nat.lt_succ_of_lt hlt)]
    · simp
    · obtain ⟨k, rfl⟩ : ∃ k, j = start + 1 + k := ⟨j - (start + 1), by omega⟩
      have hne : start + 1 + k ≠ start := by omega
      have hsub : start + 1 + k - start = k + 1 := by omega
      simp [hne, hsub, show start ≤ start + 1 + k by omega]

end Enumerated

/-! ## Consecutive places -/

section Fill

variable {α : Type} {n : Nat}

/-- Fills the places from `start` on. -/
def fill (v : Vector α n) (start : Nat) (value : Nat → α) (count : Nat) : Vector α n :=
  (List.range count).foldl (fun v i => v.setIfInBounds (start + i) (value i)) v

theorem getElem_fill (v : Vector α n) (start : Nat) (value : Nat → α) (count : Nat) {j : Nat}
    (hj : j < n) :
    (fill v start value count)[j] =
      if start ≤ j ∧ j < start + count then value (j - start) else v[j] := by
  induction count with
  | zero =>
    rw [if_neg (by omega)]
    rfl
  | succ count ih =>
    rw [fill, List.range_succ, List.foldl_append, List.foldl_cons, List.foldl_nil,
      Vector.getElem_setIfInBounds]
    split
    · next heq =>
      subst heq
      rw [if_pos (by omega), Nat.add_sub_cancel_left]
    · next hne =>
      rw [fill] at ih
      rw [ih]
      have hiff : (start ≤ j ∧ j < start + (count + 1)) ↔ start ≤ j ∧ j < start + count := by omega
      simp only [hiff]

/-- The filled places hold the values. -/
theorem drop_take_fill (v : Vector α n) {start : Nat} (value : Nat → α) {count : Nat}
    (h : start + count ≤ n) :
    ((fill v start value count).toList.drop start).take count = (List.range count).map value := by
  apply List.ext_getElem
  · simp
    omega
  · intro i hi hi'
    rw [List.length_map, List.length_range] at hi'
    rw [List.getElem_take, List.getElem_drop, Vector.getElem_toList,
      getElem_fill _ _ _ _ (by omega), if_pos (by omega), List.getElem_map, List.getElem_range,
      Nat.add_sub_cancel_left]

/-- A loop over enumerated values stores each at the place of its number. -/
theorem getElem_foldl_zipIdx (values : List α) (start : Nat) (v : Vector α n) {j : Nat}
    (hj : j < n) :
    ((values.zipIdx start).foldl (fun v place => v.setIfInBounds place.2 place.1) v)[j] =
      if start ≤ j then values[j - start]?.getD v[j] else v[j] := by
  induction values generalizing start v with
  | nil => simp
  | cons value values ih =>
    rw [List.zipIdx_cons, List.foldl_cons, ih, Vector.getElem_setIfInBounds]
    rcases Nat.lt_trichotomy j start with hlt | rfl | hgt
    · rw [if_neg (by omega), if_neg (by omega), if_neg (by omega)]
    · simp
    · obtain ⟨k, rfl⟩ : ∃ k, j = start + 1 + k := ⟨j - (start + 1), by omega⟩
      have hsub : start + 1 + k - start = k + 1 := by omega
      rw [if_pos (by omega), if_neg (by omega), if_pos (by omega), hsub, Nat.add_sub_cancel_left,
        List.getElem?_cons_succ]

end Fill

end VirtualPlc.Word
