import VirtualPlc.Word.Memory
import VirtualPlc.Word.Tiling

/-!
# Fields of a memory

Fields are written one after the other, and those that do not fit are left out. Of disjoint fields
each one that fits is read back (`read_storeAll`), and only their bytes change
(`byte_storeAll_of_outside`). A list of bytes is a memory (`Memory.ofBytes`).
-/

set_option autoImplicit false

namespace VirtualPlc.Word

/-- A span with the value that is to be stored there. -/
structure Field where
  span : Span
  value : Nat
deriving DecidableEq, Repr

namespace Memory

/-- Bytes from address 0 on. -/
def ofBytes (bytes : List (BitVec 8)) : Memory := ⟨bytes.length, fun i => bytes.getD i 0⟩

@[simp] theorem size_ofBytes (bytes : List (BitVec 8)) : (ofBytes bytes).size = bytes.length := rfl

theorem byte_ofBytes (bytes : List (BitVec 8)) (i : Nat) :
    (ofBytes bytes).byte i = bytes.getD i 0 := rfl

/-- Writes a field if it fits. -/
def store (m : Memory) (f : Field) : Memory :=
  (m.write f.span.offset f.span.size f.value).getD m

/-- Writes the fields that fit. -/
def storeAll (m : Memory) (fields : List Field) : Memory := fields.foldl store m

variable {m : Memory} {f : Field} {fields : List Field} {s : Span} {i : Nat}

theorem store_of_fits (h : f.span.stop ≤ m.size) :
    m.store f = m.set f.span.offset f.span.size f.value := by
  rw [store, write_eq h]
  rfl

theorem store_of_not_fits (h : m.size < f.span.stop) : m.store f = m := by
  rw [store, write_eq_none h]
  rfl

@[simp] theorem size_store (m : Memory) (f : Field) : (m.store f).size = m.size := by
  rcases Nat.lt_or_ge m.size f.span.stop with h | h
  · rw [store_of_not_fits h]
  · rw [store_of_fits h, size_set]

@[simp] theorem storeAll_nil (m : Memory) : m.storeAll [] = m := rfl

theorem storeAll_cons (m : Memory) (f : Field) (rest : List Field) :
    m.storeAll (f :: rest) = (m.store f).storeAll rest := rfl

@[simp] theorem size_storeAll (m : Memory) (fields : List Field) :
    (m.storeAll fields).size = m.size := by
  induction fields generalizing m with
  | nil => rfl
  | cons f rest ih => rw [storeAll_cons, ih, size_store]

theorem byte_store_of_outside (h : f.span.stop ≤ m.size → ¬ f.span.Contains i) :
    (m.store f).byte i = m.byte i := by
  rcases Nat.lt_or_ge m.size f.span.stop with hlong | hfits
  · rw [store_of_not_fits hlong]
  · rw [store_of_fits hfits, byte_set]
    exact if_neg (h hfits)

/-- Only bytes of fields that fit change. -/
theorem byte_storeAll_of_outside
    (h : ∀ f ∈ fields, f.span.stop ≤ m.size → ¬ f.span.Contains i) :
    (m.storeAll fields).byte i = m.byte i := by
  induction fields generalizing m with
  | nil => rfl
  | cons f rest ih =>
    rw [storeAll_cons, ih, byte_store_of_outside (h f List.mem_cons_self)]
    intro g hg
    rw [size_store]
    exact h g (List.mem_cons_of_mem f hg)

theorem read_congr {m' : Memory} (hsize : m'.size = m.size)
    (hbyte : ∀ i, s.Contains i → m'.byte i = m.byte i) :
    m'.read s.offset s.size = m.read s.offset s.size := by
  rw [read, read, hsize]
  rw [value_congr fun i h1 h2 => hbyte i ⟨h1, h2⟩]

/-- Fields elsewhere do not matter. -/
theorem read_storeAll_of_disjoint (h : ∀ f ∈ fields, f.span.Disjoint s) :
    (m.storeAll fields).read s.offset s.size = m.read s.offset s.size := by
  apply read_congr (size_storeAll m fields)
  intro i hi
  apply byte_storeAll_of_outside
  intro f hf _ hcontains
  exact h f hf i hcontains.1 hcontains.2 hi.1 hi.2

/-- What has been written is read back if it fits. -/
theorem read_storeAll (hdisjoint : fields.Pairwise fun f g => f.span.Disjoint g.span)
    (hmem : f ∈ fields) :
    (m.storeAll fields).read f.span.offset f.span.size =
      if f.span.stop ≤ m.size then some (f.value % 256 ^ f.span.size) else none := by
  induction fields generalizing m with
  | nil => exact absurd hmem List.not_mem_nil
  | cons g rest ih =>
    obtain ⟨hfirst, hrest⟩ := List.pairwise_cons.mp hdisjoint
    rw [storeAll_cons]
    rcases List.mem_cons.mp hmem with rfl | hlater
    · rw [read_storeAll_of_disjoint fun g hg => (hfirst g hg).symm]
      split
      · next hfits =>
        have hsame : (m.set f.span.offset f.span.size f.value).size = m.size := size_set
        rw [store_of_fits hfits, read_eq (hsame ▸ hfits), value_set_same]
      · next hlong =>
        rw [store_of_not_fits (Nat.not_le.mp hlong), read_eq_none (Nat.not_le.mp hlong)]
    · rw [ih hrest hlater, size_store]

end Memory

end VirtualPlc.Word
