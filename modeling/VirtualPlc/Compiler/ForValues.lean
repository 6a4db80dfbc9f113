import Mathlib.Tactic.Ring
import VirtualPlc.Word.Signed

/-!
# The values of a FOR

A FOR over integers names the values from its first one on, up to or down to its last one. The
emitted loop compares 32-bit words with a signed test; `stopsInTime_up` and `stopsInTime_down` say
when this test lets exactly these values pass.
-/

set_option autoImplicit false

namespace VirtualPlc.Compiler

open VirtualPlc.Word

/-- The value with the number `i`. -/
def forValue (first inc : Int) (i : Nat) : Int := first + i * inc

/-- The number of values `first`, `first + inc`, … up to, or down to, `last`. -/
def forCount (first last inc : Int) : Nat :=
  if 0 < inc then
    if first ≤ last then ((last - first) / inc).toNat + 1 else 0
  else
    if last ≤ first then ((first - last) / (-inc)).toNat + 1 else 0

/-- The signed 32-bit test of the loop stops after the values of the FOR. Counting up, the bounds
are in the same half of the 32-bit range, and the first value past the last one still is after them;
counting down, there is one value, and the next one wraps around. -/
def StopsInTime (first last inc : Int) : Prop :=
  if 0 < inc then
    if first ≤ last then
      (first < 2 ^ 31 ↔ last < 2 ^ 31) ∧
        forValue first inc (forCount first last inc) <
          (if last < 2 ^ 31 then 2 ^ 31 else 2 ^ 31 + 2 ^ 32)
    else last < 2 ^ 31 → first < 2 ^ 31
  else first = last ∧ first + inc < -2 ^ 31

instance (first last inc : Int) : Decidable (StopsInTime first last inc) :=
  inferInstanceAs (Decidable (ite _ _ _))

/-! ## Counting up and down -/

section Values

variable {first last inc : Int}

theorem forValue_succ (first inc : Int) (i : Nat) :
    forValue first inc (i + 1) = forValue first inc i + inc := by
  rw [forValue, forValue]
  push_cast
  ring

theorem forValue_zero : forValue first inc 0 = first := by simp [forValue]

/-- Counting up, the values are those up to `last`. -/
theorem forCount_up (first last : Int) {inc : Int} (hby : 0 < inc) (i : Nat) :
    i < forCount first last inc ↔ forValue first inc i ≤ last := by
  have hnonneg : 0 ≤ (i : Int) * inc := Int.mul_nonneg (by omega) (by omega)
  rw [forCount, if_pos hby, forValue]
  split
  · rename_i hle
    have hquot : 0 ≤ (last - first) / inc := Int.ediv_nonneg (by omega) (by omega)
    have hdiv := Int.le_ediv_iff_mul_le (a := (i : Int)) (b := last - first) hby
    omega
  · omega

/-- Counting down, the values are those down to `last`. -/
theorem forCount_down (first last : Int) {inc : Int} (hby : inc < 0) (i : Nat) :
    i < forCount first last inc ↔ last ≤ forValue first inc i := by
  have hneg : (i : Int) * -inc = -(i * inc) := Int.mul_neg ..
  have hnonneg : 0 ≤ (i : Int) * -inc := Int.mul_nonneg (by omega) (by omega)
  rw [forCount, if_neg (by omega), forValue]
  split
  · rename_i hle
    have hquot : 0 ≤ (first - last) / -inc := Int.ediv_nonneg (by omega) (by omega)
    have hdiv := Int.le_ediv_iff_mul_le (c := -inc) (a := (i : Int)) (b := first - last) (by omega)
    omega
  · omega

end Values

/-! ## The signed test -/

/-- The signed 32-bit word of an integer. -/
def wordInt (z : Int) : Int := (BitVec.ofInt 32 z).toInt

theorem wordInt_of_lt {z : Int} (hlow : -2 ^ 31 ≤ z) (hhigh : z < 2 ^ 31) : wordInt z = z :=
  toInt_ofInt_of_inSigned (by decide) ⟨hlow, hhigh⟩

theorem wordInt_above {z : Int} (hlow : 2 ^ 31 ≤ z) (hhigh : z < 2 ^ 31 + 2 ^ 32) :
    wordInt z = z - 2 ^ 32 := by
  rw [wordInt, toInt_ofInt_add_mul (k := -1) (by decide)]
  · rfl
  · constructor <;> omega

theorem wordInt_far {z : Int} (hlow : 2 ^ 31 + 2 ^ 32 ≤ z) (hhigh : z < 2 ^ 31 + 2 ^ 33) :
    wordInt z = z - 2 ^ 33 := by
  rw [wordInt, toInt_ofInt_add_mul (k := -2) (by decide)]
  · rfl
  · constructor <;> omega

theorem wordInt_below {z : Int} (hlow : -2 ^ 31 - 2 ^ 32 ≤ z) (hhigh : z < -2 ^ 31) :
    wordInt z = z + 2 ^ 32 := by
  rw [wordInt, toInt_ofInt_add_mul (k := 1) (by decide)]
  · rfl
  · constructor <;> omega

/-- The three integers of a FOR are values of one type of 32 bits. -/
def SameType (first last inc : Int) : Prop :=
  (InSigned 32 first ∧ InSigned 32 last ∧ InSigned 32 inc) ∨
    (0 ≤ first ∧ first < 2 ^ 32) ∧ (0 ≤ last ∧ last < 2 ^ 32) ∧ 0 ≤ inc ∧ inc < 2 ^ 32

section Stops

variable {first last inc : Int}

/-- The first value that the FOR does not take. -/
theorem forValue_count_up (hby : 0 < inc) (hle : first ≤ last) :
    last < forValue first inc (forCount first last inc) ∧
      forValue first inc (forCount first last inc) ≤ last + inc := by
  have hstop := forCount_up first last hby (forCount first last inc)
  have hzero := forCount_up first last hby 0
  rw [forValue_zero] at hzero
  obtain ⟨k, hk⟩ : ∃ k, forCount first last inc = k + 1 := ⟨forCount first last inc - 1, by omega⟩
  have hlast := forCount_up first last hby k
  have hsucc := forValue_succ first inc k
  rw [hk] at hstop hlast ⊢
  omega

theorem le_forValue (first : Int) {inc : Int} (hby : 0 ≤ inc) (i : Nat) :
    first ≤ forValue first inc i := by
  have hnonneg : 0 ≤ (i : Int) * inc := Int.mul_nonneg (by omega) hby
  rw [forValue]
  omega

/-- Counting up, the signed test lets exactly the values of the FOR pass. -/
theorem stopsInTime_up (h : SameType first last inc) (hby : 0 < inc) :
    ((∀ i < forCount first last inc, wordInt (forValue first inc i) ≤ wordInt last) ∧
      wordInt last < wordInt (forValue first inc (forCount first last inc))) ↔
        StopsInTime first last inc := by
  simp only [SameType, InSigned] at h
  rw [StopsInTime, if_pos hby]
  by_cases hle : first ≤ last
  · rw [if_pos hle]
    obtain ⟨hpast, hnear⟩ := forValue_count_up hby hle
    have hpos : 0 < forCount first last inc := by
      rw [forCount_up first last hby, forValue_zero]
      exact hle
    constructor
    · rintro ⟨hbefore, hafter⟩
      have hfirst := hbefore 0 hpos
      rw [forValue_zero] at hfirst
      -- the signed test sees a bound from 2 ^ 31 on as negative
      by_cases hlast : last < 2 ^ 31
      · rw [if_pos hlast]
        refine ⟨by omega, ?_⟩
        by_contra hbig
        rw [wordInt_of_lt (by omega) hlast, wordInt_above (by omega) (by omega)] at hafter
        omega
      · rw [if_neg hlast]
        rw [wordInt_above (z := last) (by omega) (by omega)] at hafter hfirst
        refine ⟨?_, ?_⟩
        · by_contra hsides
          rw [wordInt_of_lt (by omega) (by omega)] at hfirst
          omega
        · by_contra hbig
          rw [wordInt_far (by omega) (by omega)] at hafter
          omega
    · rintro ⟨hsides, hbound⟩
      by_cases hlast : last < 2 ^ 31
      · rw [if_pos hlast] at hbound
        rw [wordInt_of_lt (z := last) (by omega) hlast, wordInt_of_lt (by omega) hbound]
        refine ⟨?_, hpast⟩
        intro i hi
        have hvalue := (forCount_up first last hby i).1 hi
        have hge := le_forValue first (Int.le_of_lt hby) i
        rw [wordInt_of_lt (by omega) (by omega)]
        exact hvalue
      · rw [if_neg hlast] at hbound
        rw [wordInt_above (z := last) (by omega) (by omega), wordInt_above (by omega) hbound]
        refine ⟨?_, by omega⟩
        intro i hi
        have hvalue := (forCount_up first last hby i).1 hi
        have hge := le_forValue first (Int.le_of_lt hby) i
        rw [wordInt_above (by omega) (by omega)]
        omega
  · rw [if_neg hle]
    have hzero : forCount first last inc = 0 := by rw [forCount, if_pos hby, if_neg hle]
    -- no values at all: the first test must fail already
    rw [hzero, forValue_zero]
    constructor
    · rintro ⟨-, hafter⟩ hlast
      by_contra hbig
      rw [wordInt_of_lt (by omega) hlast, wordInt_above (by omega) (by omega)] at hafter
      omega
    · intro hsides
      refine ⟨fun i hi => absurd hi (by omega), ?_⟩
      by_cases hfirst : first < 2 ^ 31
      · rw [wordInt_of_lt (by omega) hfirst, wordInt_of_lt (by omega) (by omega)]
        omega
      · rw [wordInt_above (by omega) (by omega), wordInt_above (by omega) (by omega)]
        omega

/-- Counting down, the signed test lets exactly the values of the FOR pass. -/
theorem stopsInTime_down (h : SameType first last inc) (hby : inc < 0) :
    ((∀ i < forCount first last inc, wordInt (forValue first inc i) ≤ wordInt last) ∧
      wordInt last < wordInt (forValue first inc (forCount first last inc))) ↔
        StopsInTime first last inc := by
  simp only [SameType, InSigned] at h
  rw [StopsInTime, if_neg (by omega)]
  have hfirst := forCount_down first last hby 0
  have hsecond := forCount_down first last hby 1
  rw [forValue_zero] at hfirst
  rw [forValue_succ, forValue_zero] at hsecond
  constructor
  · rintro ⟨hbefore, hafter⟩
    by_cases hle : last ≤ first
    · have hpass := hbefore 0 (hfirst.2 hle)
      rw [forValue_zero, wordInt_of_lt (by omega) (by omega),
        wordInt_of_lt (by omega) (by omega)] at hpass
      have hone : forCount first last inc = 1 := by omega
      refine ⟨by omega, ?_⟩
      by_contra hbig
      rw [hone, forValue_succ, forValue_zero, wordInt_of_lt (by omega) (by omega),
        wordInt_of_lt (by omega) (by omega)] at hafter
      omega
    · have hzero : forCount first last inc = 0 := by omega
      rw [hzero, forValue_zero, wordInt_of_lt (by omega) (by omega),
        wordInt_of_lt (by omega) (by omega)] at hafter
      omega
  · rintro ⟨rfl, hwrap⟩
    have hone : forCount first first inc = 1 := by omega
    rw [hone, forValue_succ, forValue_zero, wordInt_below (by omega) hwrap]
    refine ⟨?_, ?_⟩
    · intro i hi
      obtain rfl : i = 0 := by omega
      rw [forValue_zero]
    · rw [wordInt_of_lt (by omega) (by omega)]
      omega

end Stops

end VirtualPlc.Compiler
