import VirtualPlc.Word.Packing

/-!
# Tilings

Spans that follow each other without gaps, as a list. Spans of given sizes laid out one after the
other are one (`tiling_consecutive`).
-/

set_option autoImplicit false

namespace VirtualPlc.Word

/-- An address of a span. -/
def Span.Contains (s : Span) (a : Nat) : Prop := s.offset ≤ a ∧ a < s.stop

/-- The spans fill the addresses from `start` to `stop` in order: each begins where the one before
it ends, no two share an address, and together they have exactly these addresses. -/
structure Tiling (start stop : Nat) (spans : List Span) : Prop where
  first : ∀ s, spans.head? = some s → s.offset = start
  contiguous : spans.IsChain fun s t => s.stop = t.offset
  last : ∀ s, spans.getLast? = some s → s.stop = stop
  disjoint : spans.Pairwise Span.Disjoint
  covers : ∀ a, start ≤ a ∧ a < stop ↔ ∃ s ∈ spans, s.Contains a

/-- Spans of these sizes, one after the other. -/
def consecutive (start : Nat) : List Nat → List Span
  | [] => []
  | size :: rest => ⟨start, size⟩ :: consecutive (start + size) rest

theorem le_offset_of_mem_consecutive {start : Nat} {sizes : List Nat} {s : Span}
    (h : s ∈ consecutive start sizes) : start ≤ s.offset := by
  induction sizes generalizing start with
  | nil => cases h
  | cons size rest ih =>
    rcases List.mem_cons.mp h with rfl | hmem
    · exact Nat.le_refl _
    · exact Nat.le_trans (Nat.le_add_right start size) (ih hmem)

theorem head_consecutive {start : Nat} {sizes : List Nat} {s : Span}
    (h : (consecutive start sizes).head? = some s) : s.offset = start := by
  cases sizes with
  | nil => cases h
  | cons size rest =>
    cases h
    rfl

theorem last_consecutive {start : Nat} {sizes : List Nat} {s : Span}
    (h : (consecutive start sizes).getLast? = some s) : s.stop = start + sizes.sum := by
  induction sizes generalizing start with
  | nil => cases h
  | cons size rest ih =>
    rw [consecutive] at h
    cases rest with
    | nil =>
      obtain rfl : ⟨start, size⟩ = s := Option.some.inj h
      rw [List.sum_cons, List.sum_nil, Nat.add_zero]
      rfl
    | cons next rest =>
      rw [consecutive, List.getLast?_cons_cons] at h
      rw [ih h, List.sum_cons, Nat.add_assoc]
      rfl

theorem contiguous_consecutive (start : Nat) (sizes : List Nat) :
    (consecutive start sizes).IsChain fun s t => s.stop = t.offset := by
  induction sizes generalizing start with
  | nil => exact .nil
  | cons size rest ih =>
    cases rest with
    | nil => exact .singleton _
    | cons next rest => exact .cons_cons rfl (ih (start + size))

theorem disjoint_consecutive (start : Nat) (sizes : List Nat) :
    (consecutive start sizes).Pairwise Span.Disjoint := by
  induction sizes generalizing start with
  | nil => exact .nil
  | cons size rest ih =>
    refine List.pairwise_cons.mpr ⟨fun t ht => ?_, ih (start + size)⟩
    exact Span.disjoint_of_le (le_offset_of_mem_consecutive ht)

theorem covers_consecutive (start : Nat) (sizes : List Nat) (a : Nat) :
    start ≤ a ∧ a < start + sizes.sum ↔ ∃ s ∈ consecutive start sizes, s.Contains a := by
  induction sizes generalizing start with
  | nil =>
    rw [List.sum_nil, consecutive]
    constructor
    · intro h
      omega
    · rintro ⟨s, hmem, -⟩
      cases hmem
  | cons size rest ih =>
    rw [List.sum_cons, consecutive, List.exists_mem_cons_iff, ← ih (start + size)]
    show _ ↔ (start ≤ a ∧ a < start + size) ∨ _
    omega

/-- Spans one after the other tile the addresses up to the sum of their sizes. -/
theorem tiling_consecutive (start : Nat) (sizes : List Nat) :
    Tiling start (start + sizes.sum) (consecutive start sizes) where
  first := fun _ h => head_consecutive h
  contiguous := contiguous_consecutive start sizes
  last := fun _ h => last_consecutive h
  disjoint := disjoint_consecutive start sizes
  covers := covers_consecutive start sizes

end VirtualPlc.Word
