import Mathlib.Data.List.Basic

/-!
# Nesting of flat code

Flat code opens constructs and closes the innermost one, and a conditional may be split once into
two arms. `nest` follows the open constructs through the code, innermost first. `Fits` says that
code takes some open constructs to others, that each jump leaves at most the constructs around it,
and that only declared locals are accessed. Code that fits can be put in a row (`Fits.append`), and
fits inside more constructs (`Fits.frame`).
-/

set_option autoImplicit false

namespace VirtualPlc.Control

/-- An open construct. A conditional is in its first arm (`cond`) or in its second arm (`els`). -/
inductive Construct where
  | block
  | loop
  | cond
  | els
deriving DecidableEq, Repr

/-- What an instruction means for the nesting. -/
inductive Role where
  | opens (c : Construct)
  | splits
  | closes
  | jumps (depth : Nat)
  | accesses (index : Nat)
  | plain
deriving DecidableEq, Repr

/-- The open constructs after an instruction, if it may stand there. -/
def Role.next : Role → List Construct → Option (List Construct)
  | .opens c, opened => some (c :: opened)
  | .splits, .cond :: opened => some (.els :: opened)
  | .splits, _ => none
  | .closes, _ :: opened => some opened
  | .closes, [] => none
  | .jumps _, opened => some opened
  | .accesses _, opened => some opened
  | .plain, opened => some opened

/-- The open constructs after some code. -/
def nest (code : List Role) (opened : List Construct) : Option (List Construct) :=
  code.foldlM (fun opened r => r.next opened) opened

-- a conditional has at most two arms
example : nest [.opens .cond, .splits, .splits, .closes] [] = none := rfl

/-- Code that leads from the open constructs `before` to the open constructs `after`, where `outer`
constructs are around it and `locals` locals are declared. -/
structure Fits (outer locals : Nat) (before : List Construct) (code : List Role)
    (after : List Construct) : Prop where
  nests : nest code before = some after
  /-- A jump leaves at most the constructs around it. -/
  jumps : ∀ front depth back, code = front ++ .jumps depth :: back →
    ∃ opened, nest front before = some opened ∧ depth ≤ outer + opened.length
  declared : ∀ index, .accesses index ∈ code → index < locals

/-- An instruction that neither opens nor closes anything. Its jump leaves at most `reach`
constructs. -/
def Role.flat (reach locals : Nat) : Role → Bool
  | .plain => true
  | .accesses index => index < locals
  | .jumps depth => depth ≤ reach
  | _ => false

variable {outer outer' locals locals' : Nat} {before mid after : List Construct}
  {code code' : List Role} {r : Role}

@[simp] theorem nest_nil (opened : List Construct) : nest [] opened = some opened := rfl

theorem nest_cons (r : Role) (code : List Role) (opened : List Construct) :
    nest (r :: code) opened = (r.next opened).bind (nest code) :=
  List.foldlM_cons

theorem nest_append (code code' : List Role) (opened : List Construct) :
    nest (code ++ code') opened = (nest code opened).bind (nest code') :=
  List.foldlM_append

/-! ## Constructs below -/

theorem Role.next_frame (h : r.next before = some after) (below : List Construct) :
    r.next (before ++ below) = some (after ++ below) := by
  cases r with
  | opens c | jumps depth | accesses index | plain =>
    cases h
    rfl
  | splits =>
    cases before with
    | nil => cases h
    | cons c opened =>
      cases c with
      | cond =>
        cases h
        rfl
      | block | loop | els => cases h
  | closes =>
    cases before with
    | nil => cases h
    | cons c opened =>
      cases h
      rfl

theorem nest_frame (h : nest code before = some after) (below : List Construct) :
    nest code (before ++ below) = some (after ++ below) := by
  induction code generalizing before with
  | nil =>
    cases h
    rfl
  | cons r code ih =>
    rw [nest_cons] at h ⊢
    obtain ⟨mid, hr, hcode⟩ := Option.bind_eq_some_iff.mp h
    rw [Role.next_frame hr below]
    exact ih hcode

/-- Code fits inside more constructs. -/
theorem Fits.frame (below : List Construct)
    (h : Fits (outer + below.length) locals before code after) :
    Fits outer locals (before ++ below) code (after ++ below) where
  nests := nest_frame h.nests below
  jumps := by
    intro front depth back hsplit
    obtain ⟨opened, hfront, hdepth⟩ := h.jumps front depth back hsplit
    refine ⟨opened ++ below, nest_frame hfront below, ?_⟩
    rw [List.length_append]
    omega
  declared := h.declared

theorem Fits.mono (h : Fits outer locals before code after) (houter : outer ≤ outer')
    (hlocals : locals ≤ locals') : Fits outer' locals' before code after where
  nests := h.nests
  jumps := by
    intro front depth back hsplit
    obtain ⟨opened, hfront, hdepth⟩ := h.jumps front depth back hsplit
    exact ⟨opened, hfront, by omega⟩
  declared := fun index hmem => Nat.lt_of_lt_of_le (h.declared index hmem) hlocals

/-! ## Code in a row -/

theorem Fits.nil : Fits outer locals before [] before where
  nests := rfl
  jumps := by
    intro front depth back hsplit
    simp at hsplit
  declared := by
    intro index hmem
    cases hmem

theorem Fits.append (h : Fits outer locals before code mid)
    (h' : Fits outer locals mid code' after) : Fits outer locals before (code ++ code') after where
  nests := by
    rw [nest_append, h.nests]
    exact h'.nests
  jumps := by
    intro front depth back hsplit
    rcases List.append_eq_append_iff.mp hsplit with
      ⟨front', hfront, hback⟩ | ⟨rest, hcode, hback⟩
    · -- the jump is in the second part
      obtain ⟨opened, hnest, hdepth⟩ := h'.jumps front' depth back hback
      refine ⟨opened, ?_, hdepth⟩
      rw [hfront, nest_append, h.nests]
      exact hnest
    · cases rest with
      | nil =>
        -- the jump is at the start of the second part
        rw [List.append_nil] at hcode
        obtain ⟨opened, hnest, hdepth⟩ := h'.jumps [] depth back hback.symm
        refine ⟨mid, ?_, ?_⟩
        · rw [← hcode]
          exact h.nests
        · cases hnest
          exact hdepth
      | cons r rest =>
        obtain ⟨rfl, -⟩ := List.cons.inj hback
        exact h.jumps front depth rest hcode
  declared := by
    intro index hmem
    rcases List.mem_append.mp hmem with hmem | hmem
    · exact h.declared index hmem
    · exact h'.declared index hmem

/-- One instruction. -/
theorem Fits.single (hnext : r.next before = some after)
    (hjump : ∀ depth, r = .jumps depth → depth ≤ outer + before.length)
    (haccess : ∀ index, r = .accesses index → index < locals) :
    Fits outer locals before [r] after where
  nests := by rw [nest_cons, hnext, Option.bind_some, nest_nil]
  jumps := by
    intro front depth back hsplit
    cases front with
    | nil =>
      obtain ⟨rfl, -⟩ := List.cons.inj hsplit
      exact ⟨before, rfl, hjump depth rfl⟩
    | cons first front => simp at hsplit
  declared := by
    intro index hmem
    exact haccess index (List.mem_singleton.mp hmem).symm

theorem Fits.opens (c : Construct) : Fits outer locals before [.opens c] (c :: before) :=
  .single rfl (by rintro _ ⟨⟩) (by rintro _ ⟨⟩)

theorem Fits.splits : Fits outer locals (.cond :: before) [.splits] (.els :: before) :=
  .single rfl (by rintro _ ⟨⟩) (by rintro _ ⟨⟩)

theorem Fits.closes (c : Construct) : Fits outer locals (c :: before) [.closes] before :=
  .single rfl (by rintro _ ⟨⟩) (by rintro _ ⟨⟩)

theorem Fits.jump {depth : Nat} (h : depth ≤ outer + before.length) :
    Fits outer locals before [.jumps depth] before :=
  .single rfl (fun _ heq => Role.jumps.inj heq ▸ h) (by rintro _ ⟨⟩)

theorem Fits.access {index : Nat} (h : index < locals) :
    Fits outer locals before [.accesses index] before :=
  .single rfl (by rintro _ ⟨⟩) (fun _ heq => Role.accesses.inj heq ▸ h)

theorem Fits.plain : Fits outer locals before [.plain] before :=
  .single rfl (by rintro _ ⟨⟩) (by rintro _ ⟨⟩)

/-- Instructions that neither open nor close anything. -/
theorem Fits.flat {reach : Nat} (h : code.all (Role.flat reach locals) = true)
    (hreach : reach ≤ outer + before.length) : Fits outer locals before code before := by
  induction code with
  | nil => exact .nil
  | cons r code ih =>
    rw [List.all_cons, Bool.and_eq_true] at h
    obtain ⟨hr, hcode⟩ := h
    have hfirst : Fits outer locals before [r] before := by
      cases r with
      | plain => exact .plain
      | accesses index => exact .access (of_decide_eq_true hr)
      | jumps depth => exact .jump (Nat.le_trans (of_decide_eq_true hr) hreach)
      | opens | splits | closes => cases hr
    exact hfirst.append (ih hcode)

/-- Close constructs one by one. -/
theorem Fits.unwind (constructs : List Construct) :
    Fits outer locals (constructs ++ before) (List.replicate constructs.length .closes) before := by
  induction constructs with
  | nil => exact .nil
  | cons c constructs ih => exact .append (.closes c) ih

end VirtualPlc.Control
