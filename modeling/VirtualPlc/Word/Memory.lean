import Mathlib.Data.Nat.Basic
import Mathlib.Tactic.Ring

/-!
# Byte memory with little-endian access

A memory is a size and a byte at every address; the bytes past the size are never read. Accesses of
`n` bytes go through natural numbers below `256 ^ n`. A write is read back at its own address
(`value_set_same`) and leaves every byte outside its interval alone (`byte_set_of_outside`).
-/

set_option autoImplicit false

namespace VirtualPlc.Word

/-- A linear memory of `size` bytes. -/
structure Memory where
  size : Nat
  byte : Nat → BitVec 8

/-- A memory of `size` zero bytes. -/
def Memory.zeroed (size : Nat) : Memory := ⟨size, fun _ => 0⟩

/-- The little-endian value of the `n` bytes from `a`. -/
def Memory.value (m : Memory) (a : Nat) : Nat → Nat
  | 0 => 0
  | n + 1 => (m.byte a).toNat + 256 * m.value (a + 1) n

/-- The memory with the `n` bytes from `a` set to the little-endian representation of `v`. -/
def Memory.set (m : Memory) (a n v : Nat) : Memory :=
  { m with
    byte := fun i => if a ≤ i ∧ i < a + n then BitVec.ofNat 8 (v / 256 ^ (i - a)) else m.byte i }

/-- Bounds-checked read. -/
def Memory.read (m : Memory) (a n : Nat) : Option Nat :=
  if a + n ≤ m.size then some (m.value a n) else none

/-- Bounds-checked write. -/
def Memory.write (m : Memory) (a n v : Nat) : Option Memory :=
  if a + n ≤ m.size then some (m.set a n v) else none

/-- Two memories of the same size with the same bytes outside `[a, a + n)`. -/
def Memory.AgreeOutside (m m' : Memory) (a n : Nat) : Prop :=
  m'.size = m.size ∧ ∀ i, i < a ∨ a + n ≤ i → m'.byte i = m.byte i

namespace Memory

variable {m m' m'' : Memory} {a b n k v w : Nat}

@[simp] theorem size_zeroed (s : Nat) : (zeroed s).size = s := rfl

@[simp] theorem byte_zeroed (s i : Nat) : (zeroed s).byte i = 0 := rfl

@[simp] theorem size_set : (m.set a n v).size = m.size := rfl

theorem byte_set (i : Nat) : (m.set a n v).byte i =
    if a ≤ i ∧ i < a + n then BitVec.ofNat 8 (v / 256 ^ (i - a)) else m.byte i := rfl

theorem byte_set_of_outside {i : Nat} (h : i < a ∨ a + n ≤ i) :
    (m.set a n v).byte i = m.byte i := by
  rw [byte_set, if_neg]
  omega

theorem value_congr : ∀ {n a : Nat}, (∀ i, a ≤ i → i < a + n → m.byte i = m'.byte i) →
    m.value a n = m'.value a n
  | 0, _, _ => rfl
  | n + 1, a, h => by
    have hrest : m.value (a + 1) n = m'.value (a + 1) n :=
      value_congr fun i h1 h2 => h i (by omega) (by omega)
    rw [value, value, hrest, h a (Nat.le_refl a) (by omega)]

theorem value_lt (m : Memory) : ∀ (n a : Nat), m.value a n < 256 ^ n
  | 0, _ => by simp [value]
  | n + 1, a => by
    have hrest := m.value_lt n (a + 1)
    have hbyte := (m.byte a).isLt
    rw [value, Nat.pow_succ]
    omega

/-- A value determines its bytes. -/
theorem byte_eq_of_value_eq : ∀ {n a : Nat}, m.value a n = m'.value a n →
    ∀ i, a ≤ i → i < a + n → m.byte i = m'.byte i
  | 0, _, _ => fun i h1 h2 => by omega
  | n + 1, a, h => by
    intro i h1 h2
    have hbyte := (m.byte a).isLt
    have hbyte' := (m'.byte a).isLt
    rw [value, value] at h
    rcases Nat.eq_or_lt_of_le h1 with rfl | hlt
    · exact BitVec.eq_of_toNat_eq (by omega)
    · have hrest : m.value (a + 1) n = m'.value (a + 1) n := by omega
      exact byte_eq_of_value_eq hrest i hlt (by omega)

@[simp] theorem value_zeroed (s : Nat) : ∀ (n a : Nat), (zeroed s).value a n = 0
  | 0, _ => rfl
  | n + 1, a => by simp [value, value_zeroed s n (a + 1)]

/-- The bytes of a representation, read back from position `j` on. -/
theorem value_of_digits : ∀ (n j : Nat), (∀ i, j ≤ i → i < j + n →
    m.byte (a + i) = BitVec.ofNat 8 (v / 256 ^ i)) → m.value (a + j) n = v / 256 ^ j % 256 ^ n
  | 0, _, _ => by simp [value, Nat.mod_one]
  | n + 1, j, h => by
    have hrest := value_of_digits n (j + 1) fun i h1 h2 => h i (by omega) (by omega)
    have hbyte := h j (Nat.le_refl j) (by omega)
    have hdiv : v / 256 ^ (j + 1) = v / 256 ^ j / 256 := by
      rw [Nat.pow_succ, Nat.div_div_eq_div_mul]
    rw [value, hbyte, show a + j + 1 = a + (j + 1) by omega, hrest, hdiv, BitVec.toNat_ofNat,
      Nat.pow_succ 256 n, Nat.mul_comm (256 ^ n) 256, Nat.mod_mul]

theorem value_set_same : (m.set a n v).value a n = v % 256 ^ n := by
  have h := value_of_digits (m := m.set a n v) (a := a) (v := v) n 0 fun i _ hi => by
    rw [byte_set, if_pos ⟨by omega, by omega⟩, Nat.add_sub_cancel_left]
  simpa using h

/-- A word of the width of its interval is read back whole. -/
theorem value_set_toNat {w : Nat} {x : BitVec w} (hw : w = 8 * n) :
    (m.set a n x.toNat).value a n = x.toNat := by
  subst hw
  have hpow : 2 ^ (8 * n) = 256 ^ n := Nat.pow_mul 2 8 n
  rw [value_set_same]
  exact Nat.mod_eq_of_lt (hpow ▸ x.isLt)

theorem set_set : (m.set a n v).set a n w = m.set a n w := by
  have hbyte : ((m.set a n v).set a n w).byte = (m.set a n w).byte := by
    funext i
    rw [byte_set, byte_set, byte_set]
    split
    · rfl
    · rfl
  exact congrArg (Memory.mk m.size) hbyte

theorem value_set_of_disjoint (h : b + k ≤ a ∨ a + n ≤ b) :
    (m.set a n v).value b k = m.value b k :=
  value_congr fun i h1 h2 => byte_set_of_outside (by omega)

theorem write_eq (h : a + n ≤ m.size) : m.write a n v = some (m.set a n v) := if_pos h

theorem write_eq_none (h : m.size < a + n) : m.write a n v = none := if_neg (by omega)

theorem read_eq (h : a + n ≤ m.size) : m.read a n = some (m.value a n) := if_pos h

theorem read_eq_none (h : m.size < a + n) : m.read a n = none := if_neg (by omega)

theorem AgreeOutside.refl : m.AgreeOutside m a n := ⟨rfl, fun _ _ => rfl⟩

theorem AgreeOutside.trans (h : m.AgreeOutside m' a n) (h' : m'.AgreeOutside m'' a n) :
    m.AgreeOutside m'' a n :=
  ⟨h'.1.trans h.1, fun i hi => (h'.2 i hi).trans (h.2 i hi)⟩

theorem agreeOutside_set : m.AgreeOutside (m.set a n v) a n :=
  ⟨rfl, fun _ hi => byte_set_of_outside hi⟩

end Memory

end VirtualPlc.Word
