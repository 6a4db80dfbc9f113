import VirtualPlc.Word.Packing
import Mathlib.Tactic.Ring
import Mathlib.Tactic.Linarith

/-!
# Row-major storage of index ranges

The elements of an array with any number of index ranges, each with bounds of its own, lie one after
another from the start of the array: an element ends within the array (`displacement_add_le`), and
the elements at different indices do not overlap (`disjoint_of_ne`).
-/

set_option autoImplicit false

namespace VirtualPlc.Word

/-- An index range. -/
structure Dimension where
  lower : Int
  upper : Int
deriving DecidableEq, Repr

/-- Number of indices of a range. -/
def Dimension.count (d : Dimension) : Nat := (d.upper - d.lower + 1).toNat

/-- Bytes of an array with elements of `size` bytes. -/
def extent (size : Nat) : List Dimension → Nat
  | [] => size
  | d :: ds => extent size ds * d.count

/-- The indices are one for each range, and within it. -/
def InBounds : List Dimension → List Int → Prop
  | [], [] => True
  | d :: ds, i :: is => d.lower ≤ i ∧ i ≤ d.upper ∧ InBounds ds is
  | _, _ => False

/-- Bytes between the start of the array and the element at the indices. -/
def displacement (size : Nat) : List Dimension → List Int → Nat
  | d :: ds, i :: is => (i - d.lower).toNat * extent size ds + displacement size ds is
  | _, _ => 0

/-- The indices scaled by the sizes of what they select, and added up. -/
def scaled (size : Nat) : List Dimension → List Int → Int
  | _ :: ds, i :: is => i * extent size ds + scaled size ds is
  | _, _ => 0

theorem InBounds.length_eq : ∀ {ds : List Dimension} {is : List Int}, InBounds ds is →
    is.length = ds.length
  | [], [], _ => rfl
  | _ :: _, _ :: _, h => congrArg (· + 1) h.2.2.length_eq

theorem inBounds_lower {ds : List Dimension} (h : ∀ d ∈ ds, d.lower ≤ d.upper) :
    InBounds ds (ds.map Dimension.lower) := by
  induction ds with
  | nil => trivial
  | cons d ds ih =>
    exact ⟨Int.le_refl _, h d List.mem_cons_self, ih fun d' hd => h d' (List.mem_cons_of_mem _ hd)⟩

theorem inBounds_upper {ds : List Dimension} (h : ∀ d ∈ ds, d.lower ≤ d.upper) :
    InBounds ds (ds.map Dimension.upper) := by
  induction ds with
  | nil => trivial
  | cons d ds ih =>
    exact ⟨h d List.mem_cons_self, Int.le_refl _, ih fun d' hd => h d' (List.mem_cons_of_mem _ hd)⟩

section Elements

variable (size : Nat)

/-- The element at the lowest indices is the first. -/
theorem displacement_lower (ds : List Dimension) :
    displacement size ds (ds.map Dimension.lower) = 0 := by
  induction ds with
  | nil => rfl
  | cons d ds ih =>
    rw [List.map_cons, displacement, ih, Int.sub_self, Int.toNat_zero, Nat.zero_mul]

/-- Within the bounds, a displacement is what the scaled indices exceed the scaled lower bounds by.
-/
theorem displacement_eq {ds : List Dimension} {is : List Int} (h : InBounds ds is) :
    (displacement size ds is : Int) =
      scaled size ds is - scaled size ds (ds.map Dimension.lower) := by
  induction ds generalizing is with
  | nil =>
    cases is with
    | nil => rfl
    | cons i is => cases h
  | cons d ds ih =>
    cases is with
    | nil => cases h
    | cons i is =>
      obtain ⟨hlow, -, hrest⟩ := h
      have hi : ((i - d.lower).toNat : Int) = i - d.lower := Int.toNat_of_nonneg (by omega)
      rw [displacement, List.map_cons, scaled, scaled, Nat.cast_add, Nat.cast_mul, ih hrest, hi]
      ring

/-- An index within a range leaves room for what it selects. -/
theorem stride_le {d : Dimension} {i : Int} (hlow : d.lower ≤ i) (hhigh : i ≤ d.upper) (e : Nat) :
    (i - d.lower).toNat * e + e ≤ e * d.count := by
  have hcount : (i - d.lower).toNat + 1 ≤ d.count := by
    rw [Dimension.count]
    omega
  calc (i - d.lower).toNat * e + e = e * ((i - d.lower).toNat + 1) := by ring
    _ ≤ e * d.count := Nat.mul_le_mul_left e hcount

/-- An element ends within the array. -/
theorem displacement_add_le {ds : List Dimension} {is : List Int} (h : InBounds ds is) :
    displacement size ds is + size ≤ extent size ds := by
  induction ds generalizing is with
  | nil =>
    cases is with
    | nil => exact Nat.le_of_eq (Nat.zero_add size)
    | cons i is => cases h
  | cons d ds ih =>
    cases is with
    | nil => cases h
    | cons i is =>
      obtain ⟨hlow, hhigh, hrest⟩ := h
      have hinner := ih hrest
      have hstride := stride_le hlow hhigh (extent size ds)
      rw [displacement, extent]
      omega

/-- The element at the highest indices is the last. -/
theorem displacement_upper {ds : List Dimension} (h : ∀ d ∈ ds, d.lower ≤ d.upper) :
    displacement size ds (ds.map Dimension.upper) + size = extent size ds := by
  induction ds with
  | nil => exact Nat.zero_add size
  | cons d ds ih =>
    have hd := h d List.mem_cons_self
    have hcount : (d.upper - d.lower).toNat + 1 = d.count := by
      rw [Dimension.count]
      omega
    rw [List.map_cons, displacement, Nat.add_assoc,
      ih fun d' hd => h d' (List.mem_cons_of_mem _ hd), extent, ← hcount]
    ring

/-- A greater index selects what lies after. -/
theorem displacement_lt {d : Dimension} {ds : List Dimension} {i j : Int} {is js : List Int}
    (hi : InBounds (d :: ds) (i :: is)) (hij : i < j) :
    displacement size (d :: ds) (i :: is) + size ≤ displacement size (d :: ds) (j :: js) := by
  obtain ⟨hlow, -, hrest⟩ := hi
  have hle := displacement_add_le size hrest
  have hstep : (i - d.lower).toNat + 1 ≤ (j - d.lower).toNat := by omega
  have hmul := Nat.mul_le_mul_right (extent size ds) hstep
  rw [Nat.add_mul, Nat.one_mul] at hmul
  rw [displacement, displacement]
  omega

/-- Elements at different indices do not overlap. -/
theorem displacement_apart {ds : List Dimension} {is js : List Int} (hi : InBounds ds is)
    (hj : InBounds ds js) (hne : is ≠ js) :
    displacement size ds is + size ≤ displacement size ds js ∨
      displacement size ds js + size ≤ displacement size ds is := by
  induction ds generalizing is js with
  | nil =>
    have his := List.length_eq_zero_iff.mp hi.length_eq
    have hjs := List.length_eq_zero_iff.mp hj.length_eq
    exact absurd (his.trans hjs.symm) hne
  | cons d ds ih =>
    obtain ⟨i, is, rfl⟩ := List.exists_cons_of_length_eq_add_one hi.length_eq
    obtain ⟨j, js, rfl⟩ := List.exists_cons_of_length_eq_add_one hj.length_eq
    -- the first range whose indices differ decides
    rcases Int.lt_trichotomy i j with hlt | rfl | hgt
    · exact .inl (displacement_lt size hi hlt)
    · have hrest : is ≠ js := fun heq => hne (by rw [heq])
      rw [displacement, displacement]
      rcases ih hi.2.2 hj.2.2 hrest with h | h
      · left
        omega
      · right
        omega
    · exact .inr (displacement_lt size hj hgt)

/-- The storage of elements at different indices of an array that starts at `offset`. -/
theorem disjoint_of_ne {ds : List Dimension} {is js : List Int} (offset : Nat)
    (hi : InBounds ds is) (hj : InBounds ds js) (hne : is ≠ js) :
    Span.Disjoint ⟨offset + displacement size ds is, size⟩
      ⟨offset + displacement size ds js, size⟩ := by
  rcases displacement_apart size hi hj hne with h | h
  · apply Span.disjoint_of_le
    show offset + displacement size ds is + size ≤ offset + displacement size ds js
    omega
  · apply Span.Disjoint.symm
    apply Span.disjoint_of_le
    show offset + displacement size ds js + size ≤ offset + displacement size ds is
    omega

theorem extent_pos (hs : 0 < size) {ds : List Dimension} (h : ∀ d ∈ ds, d.lower ≤ d.upper) :
    0 < extent size ds := by
  have hlast := displacement_upper size h
  omega

end Elements

end VirtualPlc.Word
