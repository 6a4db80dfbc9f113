import VirtualPlc.Word.Checked
import Mathlib.Data.Nat.Bitwise
import Mathlib.Data.List.Pairwise
import Mathlib.Tactic.Ring

/-!
# Packing intervals with mask alignment

`roundUp n mask` clears the bits of `mask` in `n + mask`; it is the usual rounding when `mask + 1`
is a power of two, and still an address at or above `n` when it is not (`le_roundUp`). `pack` places
intervals one after the other. Nonempty intervals are placed apart and in order (`pack_sound`); an
empty interval has no alignment and restarts the packing at address 0.
-/

set_option autoImplicit false

namespace VirtualPlc.Word

/-- Clear the bits of `mask` in `n + mask`. -/
def roundUp (n mask : Nat) : Nat := (n + mask) - ((n + mask) &&& mask)

theorem le_roundUp (n mask : Nat) : n ≤ roundUp n mask := by
  have h : (n + mask) &&& mask ≤ mask := Nat.and_le_right
  rw [roundUp]
  omega

theorem sub_and_mod_two_pow {x a k : Nat} (ha : 2 ^ k ∣ a) (hpos : 0 < a) :
    (x - (x &&& (a - 1))) % 2 ^ k = 0 := by
  obtain ⟨c, rfl⟩ := ha
  have hc : 0 < c := Nat.pos_of_mul_pos_left hpos
  have hmask : (2 ^ k * c - 1) % 2 ^ k = 2 ^ k - 1 := by
    obtain ⟨d, rfl⟩ : ∃ d, c = d + 1 := ⟨c - 1, by omega⟩
    have hp : 0 < 2 ^ k := Nat.two_pow_pos k
    rw [show 2 ^ k * (d + 1) - 1 = (2 ^ k - 1) + 2 ^ k * d by
      rw [Nat.mul_add]
      omega]
    rw [Nat.add_mul_mod_self_left, Nat.mod_eq_of_lt (by omega)]
  have hand : (x &&& (2 ^ k * c - 1)) % 2 ^ k = x % 2 ^ k := by
    rw [Nat.and_mod_two_pow, hmask, Nat.and_two_pow_sub_one_eq_mod, Nat.mod_mod]
  have hle : x &&& (2 ^ k * c - 1) ≤ x := Nat.and_le_left
  exact Nat.sub_mod_eq_zero_of_mod_eq hand.symm

/-- Rounding with the mask of an alignment that is a multiple of `2 ^ k` gives one as well. -/
theorem dvd_roundUp {n a k : Nat} (ha : 2 ^ k ∣ a) (hpos : 0 < a) : 2 ^ k ∣ roundUp n (a - 1) :=
  Nat.dvd_of_mod_eq_zero (sub_and_mod_two_pow ha hpos)

/-- An address whose mask bits are clear is not moved. -/
theorem roundUp_of_and_eq_zero {n k mask : Nat} (hn : 2 ^ k ∣ n) (hm : mask < 2 ^ k) :
    roundUp n mask = n := by
  obtain ⟨c, rfl⟩ := hn
  have hsum : 2 ^ k * c + mask = 2 ^ k * c ||| mask := Nat.two_pow_add_eq_or_of_lt hm c
  have hzero : 2 ^ k * c &&& mask = 0 := by
    apply Nat.eq_of_testBit_eq
    intro i
    rw [Nat.testBit_and, Nat.zero_testBit, Bool.and_eq_false_iff]
    by_cases hi : i < k
    · left
      rw [Nat.testBit_two_pow_mul]
      simp [hi]
    · right
      exact Nat.testBit_lt_two_pow
        (Nat.lt_of_lt_of_le hm (Nat.pow_le_pow_right (by omega) (by omega)))
  rw [roundUp, hsum, Nat.and_or_distrib_right, hzero, Nat.zero_or, Nat.and_self, ← hsum]
  omega

theorem bitVec_and_not {w : Nat} (x y : BitVec w) :
    (x &&& ~~~y).toNat = x.toNat - (x &&& y).toNat := by
  have hsplit : (x &&& y) + (x &&& ~~~y) = x := by
    rw [BitVec.add_eq_or_of_and_eq_zero]
    · ext i hi
      rw [BitVec.getElem_or, BitVec.getElem_and, BitVec.getElem_and, BitVec.getElem_not]
      cases x[i] <;> cases y[i] <;> rfl
    · ext i hi
      rw [BitVec.getElem_and, BitVec.getElem_and, BitVec.getElem_and, BitVec.getElem_not]
      cases x[i] <;> cases y[i] <;> simp
  have hle : (x &&& y).toNat ≤ x.toNat := by
    rw [BitVec.toNat_and]
    exact Nat.and_le_left
  have heq : x &&& ~~~y = x - (x &&& y) := by
    rw [eq_comm, BitVec.sub_eq_iff_eq_add, BitVec.add_comm]
    exact hsplit.symm
  rw [heq, BitVec.toNat_sub_of_le hle]

/-- `x & !mask` clears the bits of `mask`. -/
theorem and_usizeNot {x mask : Nat} (hx : x < usizeCard) (hm : mask < usizeCard) :
    x &&& usizeNot mask = x - (x &&& mask) := by
  have h := bitVec_and_not (BitVec.ofNat 64 x) (BitVec.ofNat 64 mask)
  rw [BitVec.toNat_and, BitVec.toNat_and, BitVec.toNat_not, BitVec.toNat_ofNat,
    BitVec.toNat_ofNat, Nat.mod_eq_of_lt (show x < 2 ^ 64 from hx),
    Nat.mod_eq_of_lt (show mask < 2 ^ 64 from hm)] at h
  exact h

/-! ## Intervals -/

/-- A half-open interval of addresses. -/
structure Span where
  offset : Nat
  size : Nat
deriving DecidableEq, Repr

/-- The first address after a span. -/
def Span.stop (s : Span) : Nat := s.offset + s.size

/-- No address is in both spans. -/
def Span.Disjoint (s t : Span) : Prop :=
  ∀ a, s.offset ≤ a → a < s.stop → t.offset ≤ a → a < t.stop → False

theorem Span.Disjoint.symm {s t : Span} (h : s.Disjoint t) : t.Disjoint s :=
  fun a h1 h2 h3 h4 => h a h3 h4 h1 h2

theorem Span.disjoint_of_le {s t : Span} (h : s.stop ≤ t.offset) : s.Disjoint t := by
  intro a _ h2 h3 _
  omega

/-- Address of the next interval: aligned to `min size 8`, or 0 for an empty one. -/
def place (next size : Nat) : Nat := if size = 0 then 0 else roundUp next (min size 8 - 1)

/-- Place intervals of the given sizes one after the other. -/
def pack (next : Nat) : List Nat → List Span
  | [] => []
  | size :: rest => ⟨place next size, size⟩ :: pack (place next size + size) rest

/-- The address after the last interval. -/
def packEnd (next : Nat) : List Nat → Nat
  | [] => next
  | size :: rest => packEnd (place next size + size) rest

theorem le_place (next : Nat) {size : Nat} (h : size ≠ 0) : next ≤ place next size := by
  rw [place, if_neg h]
  exact le_roundUp _ _

theorem dvd_place {next size k : Nat} (hs : 2 ^ k ∣ size) (h8 : 2 ^ k ∣ 8) :
    2 ^ k ∣ place next size := by
  rw [place]
  split
  · exact Nat.dvd_zero _
  · rename_i h
    have hmin : 2 ^ k ∣ min size 8 := by
      rcases Nat.le_total size 8 with h' | h'
      · rwa [Nat.min_eq_left h']
      · rwa [Nat.min_eq_right h']
    exact dvd_roundUp hmin (by omega)

theorem packEnd_ge : ∀ (sizes : List Nat) (next : Nat), (∀ s ∈ sizes, s ≠ 0) →
    next ≤ packEnd next sizes
  | [], _, _ => Nat.le_refl _
  | s :: rest, next, h => by
    have hs := le_place next (h s List.mem_cons_self)
    have hrest := packEnd_ge rest (place next s + s) fun t ht =>
      h t (List.mem_cons_of_mem _ ht)
    rw [packEnd]
    omega

/-- Nonempty intervals lie at or above the start, in order and apart. -/
theorem pack_sound : ∀ (sizes : List Nat) (next : Nat), (∀ s ∈ sizes, s ≠ 0) →
    (∀ t ∈ pack next sizes, next ≤ t.offset) ∧ (pack next sizes).Pairwise Span.Disjoint
  | [], _, _ => by simp [pack]
  | s :: rest, next, h => by
    have hs := le_place next (h s List.mem_cons_self)
    obtain ⟨hge, hpair⟩ := pack_sound rest (place next s + s) fun t ht =>
      h t (List.mem_cons_of_mem _ ht)
    constructor
    · intro t ht
      rcases List.mem_cons.1 ht with rfl | ht
      · exact hs
      · have h' := hge t ht
        omega
    · rw [pack, List.pairwise_cons]
      exact ⟨fun t ht => Span.disjoint_of_le (hge t ht), hpair⟩

theorem pack_sizes : ∀ (sizes : List Nat) (next : Nat), (pack next sizes).map Span.size = sizes
  | [], _ => rfl
  | s :: rest, next => by rw [pack, List.map_cons, pack_sizes rest]

end VirtualPlc.Word
