import Mathlib.Data.BitVec
import Mathlib.Data.Int.Basic

/-!
# Integers as signed words

`BitVec.ofInt w` is faithful on the signed range of `w` bits: there it is injective
(`ofInt_inj_of_inSigned`) and signed comparisons are comparisons of integers.
-/

set_option autoImplicit false

namespace VirtualPlc.Word

/-- `z` is the value of a signed word of `w` bits. -/
def InSigned (w : Nat) (z : Int) : Prop := -2 ^ (w - 1) ≤ z ∧ z < 2 ^ (w - 1)

instance (w : Nat) (z : Int) : Decidable (InSigned w z) := inferInstanceAs (Decidable (_ ∧ _))

theorem toInt_ofInt_of_inSigned {w : Nat} {z : Int} (hw : 0 < w) (h : InSigned w z) :
    (BitVec.ofInt w z).toInt = z := by
  obtain ⟨k, rfl⟩ : ∃ k, w = k + 1 := ⟨w - 1, by omega⟩
  obtain ⟨hlow, hhigh⟩ := h
  rw [Nat.add_sub_cancel] at hlow hhigh
  have hpow : ((2 ^ (k + 1) : Nat) : Int) = 2 * 2 ^ k := by
    rw [Nat.pow_succ]
    push_cast
    omega
  rw [BitVec.toInt_ofInt]
  apply Int.bmod_eq_of_le
  · rw [hpow]
    omega
  · rw [hpow]
    omega

/-- The signed value of a word whose integer is off by a multiple of its range. -/
theorem toInt_ofInt_add_mul {w : Nat} {z k : Int} (hw : 0 < w) (h : InSigned w (z + 2 ^ w * k)) :
    (BitVec.ofInt w z).toInt = z + 2 ^ w * k := by
  have hpow : ((2 ^ w : Nat) : Int) = 2 ^ w := by push_cast; rfl
  have hsame : (z + 2 ^ w * k).bmod (2 ^ w) = z.bmod (2 ^ w) := by
    rw [← hpow]
    exact Int.add_mul_bmod_self_left z (2 ^ w) k
  have hz := toInt_ofInt_of_inSigned hw h
  rw [BitVec.toInt_ofInt] at hz ⊢
  rw [← hsame, hz]

theorem ofInt_inj_of_inSigned {w : Nat} {x y : Int} (hw : 0 < w) (hx : InSigned w x)
    (hy : InSigned w y) : BitVec.ofInt w x = BitVec.ofInt w y ↔ x = y := by
  constructor
  · intro h
    have h' := congrArg BitVec.toInt h
    rwa [toInt_ofInt_of_inSigned hw hx, toInt_ofInt_of_inSigned hw hy] at h'
  · exact congrArg _

theorem ofInt_sub {w : Nat} (x y : Int) :
    BitVec.ofInt w (x - y) = BitVec.ofInt w x - BitVec.ofInt w y := by
  rw [Int.sub_eq_add_neg, BitVec.ofInt_add, BitVec.ofInt_neg, BitVec.sub_eq_add_neg]

section Comparisons

variable {w : Nat} {x y : Int}

theorem beq_ofInt (hw : 0 < w) (hx : InSigned w x) (hy : InSigned w y) :
    (BitVec.ofInt w x == BitVec.ofInt w y) = decide (x = y) := by
  rw [Bool.eq_iff_iff, beq_iff_eq, decide_eq_true_iff]
  exact ofInt_inj_of_inSigned hw hx hy

theorem slt_ofInt (hw : 0 < w) (hx : InSigned w x) (hy : InSigned w y) :
    (BitVec.ofInt w x).slt (BitVec.ofInt w y) = decide (x < y) := by
  rw [BitVec.slt, toInt_ofInt_of_inSigned hw hx, toInt_ofInt_of_inSigned hw hy]

theorem sle_ofInt (hw : 0 < w) (hx : InSigned w x) (hy : InSigned w y) :
    (BitVec.ofInt w x).sle (BitVec.ofInt w y) = decide (x ≤ y) := by
  rw [BitVec.sle, toInt_ofInt_of_inSigned hw hx, toInt_ofInt_of_inSigned hw hy]

end Comparisons

/-- Sign extension keeps the signed value. -/
theorem signExtend_eq_ofInt {w v : Nat} (x : BitVec w) :
    x.signExtend v = BitVec.ofInt v x.toInt := rfl

theorem toInt_ofNat_of_lt {w n : Nat} (h : 2 * n < 2 ^ w) :
    (BitVec.ofNat w n).toInt = (n : Int) := by
  rw [BitVec.toInt_eq_toNat_of_lt]
  · rw [BitVec.toNat_ofNat, Nat.mod_eq_of_lt (by omega)]
  · rw [BitVec.toNat_ofNat, Nat.mod_eq_of_lt (by omega)]
    exact h

end VirtualPlc.Word
