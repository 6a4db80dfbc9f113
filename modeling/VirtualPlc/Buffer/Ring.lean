import Mathlib.Data.List.Rotate
import Mathlib.Tactic.Common

/-!
# Ring buffers

A vector of `n` slots that is written round and round. `Holds` says that each of the last `n`
elements written is found at its number modulo `n`; one more write keeps it (`Holds.push`). From it
the last elements are read, oldest first (`Holds.oldest`) and newest first (`Holds.newest`).
-/

set_option autoImplicit false

namespace VirtualPlc.Buffer

variable {α : Type} {n : Nat}

/-- The slot of a number. -/
def slot (slots : Vector α n) (hn : 0 < n) (i : Nat) : α := slots.get ⟨i % n, Nat.mod_lt i hn⟩

/-- The last `k` elements of a list. -/
def lastElements (k : Nat) (xs : List α) : List α := xs.drop (xs.length - k)

/-- The slots hold the last `n` of the elements written. -/
def Holds (slots : Vector α n) (hn : 0 < n) (written : List α) : Prop :=
  ∀ (i : Nat) (hi : i < written.length), written.length ≤ i + n →
    slot slots hn i = written[i]

/-- Numbers that are less than `n` apart have different slots. -/
theorem mod_ne_mod {i j : Nat} (hlt : i < j) (hclose : j < i + n) : i % n ≠ j % n := by
  intro heq
  have hdvd : n ∣ j - i := Nat.dvd_of_mod_eq_zero (Nat.sub_mod_eq_zero_of_mod_eq heq.symm)
  have hle := Nat.le_of_dvd (Nat.sub_pos_of_lt hlt) hdvd
  omega

theorem slot_congr {slots : Vector α n} {hn : 0 < n} {i j : Nat} (h : i % n = j % n) :
    slot slots hn i = slot slots hn j := by
  rw [slot, slot]
  exact congrArg slots.get (Fin.ext h)

theorem slot_set_self (slots : Vector α n) (hn : 0 < n) (i : Nat) (x : α) :
    slot (slots.set (i % n) x (Nat.mod_lt i hn)) hn i = x :=
  Vector.getElem_set_self (Nat.mod_lt i hn)

theorem slot_set_ne (slots : Vector α n) (hn : 0 < n) {i j : Nat} (x : α) (h : i % n ≠ j % n) :
    slot (slots.set (j % n) x (Nat.mod_lt j hn)) hn i = slot slots hn i :=
  Vector.getElem_set_ne (Nat.mod_lt j hn) (Nat.mod_lt i hn) (Ne.symm h)

theorem length_lastElements (k : Nat) (xs : List α) :
    (lastElements k xs).length = min k xs.length := by
  rw [lastElements, List.length_drop]
  omega

namespace Holds

variable {slots : Vector α n} {hn : 0 < n} {written : List α}

theorem nil (slots : Vector α n) (hn : 0 < n) : Holds slots hn [] :=
  fun _ hi => absurd hi (Nat.not_lt_zero _)

/-- The next element goes to the slot of its number. -/
theorem push (h : Holds slots hn written) (x : α) :
    Holds (slots.set (written.length % n) x (Nat.mod_lt _ hn)) hn (written ++ [x]) := by
  intro i hi hrecent
  rw [List.length_append, List.length_singleton] at hi hrecent
  rcases Nat.lt_succ_iff_lt_or_eq.mp hi with hlt | rfl
  · -- an element that is not overwritten
    have hne : i % n ≠ written.length % n := mod_ne_mod hlt (by omega)
    rw [slot_set_ne slots hn x hne, List.getElem_append_left hlt]
    exact h i hlt (by omega)
  · rw [slot_set_self, List.getElem_concat_length rfl]

/-- The last elements, oldest first. -/
theorem oldest (h : Holds slots hn written) {count : Nat} (hcount : count ≤ written.length)
    (hcapacity : count ≤ n) :
    (List.range count).map (fun i => slot slots hn (written.length - count + i)) =
      lastElements count written := by
  apply List.ext_getElem
  · rw [List.length_map, List.length_range, length_lastElements, Nat.min_eq_left hcount]
  · intro i hi _
    rw [List.length_map, List.length_range] at hi
    rw [List.getElem_map, List.getElem_range, h _ (by omega) (by omega)]
    exact List.getElem_drop.symm

/-- The slots that are in use, turned so that the next one to be written comes last. -/
theorem rotate_eq (h : Holds slots hn written) :
    (slots.toList.take (min written.length n)).rotate (written.length % n) =
      lastElements (min written.length n) written := by
  rw [← h.oldest (Nat.min_le_left _ _) (Nat.min_le_right _ _)]
  apply List.ext_getElem
  · simp
  · intro i hi _
    have hlength : (slots.toList.take (min written.length n)).length = min written.length n := by
      simp
    rw [List.length_rotate, hlength] at hi
    -- a ring that is not full has been written from its first slot on
    have hslot : (i + written.length % n) % min written.length n =
        (written.length - min written.length n + i) % n := by
      rcases Nat.lt_or_ge written.length n with hlt | hge
      · rw [Nat.min_eq_left hlt.le, Nat.mod_eq_of_lt hlt, Nat.sub_self, Nat.zero_add,
          Nat.add_mod_right, Nat.mod_eq_of_lt (by omega), Nat.mod_eq_of_lt (by omega)]
      · rw [Nat.min_eq_right hge, Nat.add_mod_mod]
        conv_lhs => rw [show i + written.length = written.length - n + i + n by omega]
        exact Nat.add_mod_right _ _
    rw [List.getElem_rotate, List.getElem_take, List.getElem_map, List.getElem_range]
    simp only [hlength, hslot]
    exact Vector.getElem_toList _

/-- The last elements, newest first. -/
theorem newest (h : Holds slots hn written) {count : Nat} (hcount : count ≤ written.length)
    (hcapacity : count ≤ n) :
    (List.range count).map (fun i => slot slots hn (written.length - 1 - i)) =
      (lastElements count written).reverse := by
  apply List.ext_getElem
  · rw [List.length_map, List.length_range, List.length_reverse, length_lastElements,
      Nat.min_eq_left hcount]
  · intro i hi _
    rw [List.length_map, List.length_range] at hi
    rw [List.getElem_map, List.getElem_range, h _ (by omega) (by omega), List.getElem_reverse]
    have hindex : written.length - 1 - i =
        written.length - count + ((lastElements count written).length - 1 - i) := by
      rw [length_lastElements]
      omega
    simp only [hindex]
    exact List.getElem_drop.symm

end Holds

end VirtualPlc.Buffer
